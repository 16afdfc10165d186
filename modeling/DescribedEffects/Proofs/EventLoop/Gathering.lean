import DescribedEffects.Proofs.EventLoop.Members
import Mathlib.Data.List.Basic

/-!
# What a group comes to

`groupOutcome?` is what a group comes to once some of its members are complete, in the order
in which they were completed: the first failure, or else the list of all results in the order
of the members, or nothing yet.

`Gathering` ties it to the loop.  The state of a group is a function of the completions so
far.  Those that the group has noticed are the first ones, and all of them successes; the
others are in the queue in the same order; and when the group is settled it has the outcome
that `groupOutcome?` says.  A step adds the completion that it shows (`gathering_of_step`), so
the outcome that reaches the task that waits is the one that the completions call for
(`Gathering.next`).
-/

namespace DescribedEffects
namespace EventLoop

/-- The failure that an outcome is, if it is one. -/
def Outcome.failure? : Outcome → Option Exn
  | .error e => some e
  | .ok _ => none

/-- The results that are there, in the order of the members. -/
def results (n : Nat) (ds : List (Nat × Outcome)) : List Value :=
  (List.range n).filterMap fun i => (ds.lookup i).bind Except.toOption

/-- **The outcome of a group of `n` members** of which some have been completed, in order: the
first failure, or all results when they are there. -/
def groupOutcome? (n : Nat) (ds : List (Nat × Outcome)) : Option Outcome :=
  match ds.findSome? fun d => Outcome.failure? d.2 with
  | some e => some (.error e)
  | none => if (results n ds).length = n then some (.ok (.list (results n ds))) else none

section

variable {n i : Nat} {o : Outcome} {ds before after : List (Nat × Outcome)}

/-- The first failure decides. -/
theorem groupOutcome?_of_failure (n : Nat) {e : Exn}
    (h : ∀ d ∈ before, Outcome.failure? d.2 = none) :
    groupOutcome? n (before ++ (i, .error e) :: after) = some (.error e) := by
  unfold groupOutcome?
  rw [List.findSome?_append, List.findSome?_eq_none_iff.2 h]
  rfl

/-- Without a failure all results have to be there. -/
theorem groupOutcome?_of_successes (h : ∀ d ∈ ds, Outcome.failure? d.2 = none) :
    groupOutcome? n ds =
      if (results n ds).length = n then some (.ok (.list (results n ds))) else none := by
  unfold groupOutcome?
  rw [List.findSome?_eq_none_iff.2 h]

/-- All results are there when every member has one. -/
theorem length_results :
    (results n ds).length = n ↔ ∀ i < n, ((ds.lookup i).bind Except.toOption).isSome := by
  have hall := List.filterMap_length_eq_length
    (f := fun i => (ds.lookup i).bind Except.toOption) (l := List.range n)
  rw [List.length_range] at hall
  simpa only [results, List.mem_range] using hall

theorem mem_of_lookup (h : ds.lookup i = some o) : (i, o) ∈ ds := by
  obtain ⟨before, after, rfl, -⟩ := List.lookup_eq_some_iff.1 h
  simp

/-- Of members that are complete each once, what is looked up is what was completed. -/
theorem lookup_of_mem (once : (ds.map Prod.fst).Nodup) (h : (i, o) ∈ ds) :
    ds.lookup i = some o := by
  obtain ⟨before, after, rfl⟩ := List.append_of_mem h
  refine List.lookup_eq_some_iff.2 ⟨before, after, rfl, fun d hd => ?_⟩
  rw [List.map_append, List.nodup_append] at once
  have hne := once.2.2 d.1 (List.mem_map_of_mem hd) i (by simp)
  simpa using hne.symm

/-- Of results that are all there each stands at the place of its member. -/
theorem getElem?_results (h : (results n ds).length = n) (hi : i < n) :
    (results n ds)[i]? = (ds.lookup i).bind Except.toOption := by
  let value (j : Nat) : Value := ((ds.lookup j).bind Except.toOption).getD .null
  have hvalue : ∀ j < n, (ds.lookup j).bind Except.toOption = some (value j) := fun j hj => by
    obtain ⟨v, hv⟩ := Option.isSome_iff_exists.1 (length_results.1 h j hj)
    simp only [value, hv, Option.getD_some]
  have hmap : results n ds = (List.range n).map value := by
    rw [← List.filterMap_eq_map]
    exact List.filterMap_congr fun j hj => hvalue j (List.mem_range.1 hj)
  rw [hmap, List.getElem?_map, List.getElem?_range hi]
  exact (hvalue i hi).symm

/-- **A group that succeeds comes to the list of what its members came to**, in their
order. -/
theorem groupOutcome?_eq_ok {v : Value} (h : groupOutcome? n ds = some (.ok v)) :
    ∃ vs, v = .list vs ∧ vs.length = n ∧ ∀ j w, vs[j]? = some w → (j, .ok w) ∈ ds := by
  unfold groupOutcome? at h
  split at h
  · cases h
  · split at h
    · next hlength =>
      cases h
      refine ⟨_, rfl, hlength, fun j w hw => ?_⟩
      have hj : j < n := hlength ▸ (List.getElem?_eq_some_iff.1 hw).1
      rw [getElem?_results hlength hj] at hw
      obtain ⟨x, hx, hxw⟩ := Option.bind_eq_some_iff.1 hw
      cases x with
      | error e => cases hxw
      | ok y =>
        cases hxw
        exact mem_of_lookup hx
    · cases h

-- The order of completion does not matter for it.
example : groupOutcome? 2 [(1, .ok (.int 7)), (0, .ok .null)] =
    some (.ok (.list [.null, .int 7])) := rfl

/-- **An outcome stays what it is when other members are completed.** -/
theorem groupOutcome?_append {x : Outcome} (valid : ∀ d ∈ after, d.1 < n)
    (fresh : ∀ d ∈ after, ds.lookup d.1 = none) (h : groupOutcome? n ds = some x) :
    groupOutcome? n (ds ++ after) = some x := by
  cases after with
  | nil => rwa [List.append_nil]
  | cons d later =>
    unfold groupOutcome? at h ⊢
    rw [List.findSome?_append]
    cases hfailure : ds.findSome? fun d => Outcome.failure? d.2 with
    | some e =>
      rw [hfailure] at h
      exact h
    | none =>
      rw [hfailure] at h
      dsimp only at h
      split at h
      · next hlength =>
        have hsome := length_results.1 hlength d.1 (valid d (List.mem_cons_self ..))
        rw [fresh d (List.mem_cons_self ..)] at hsome
        cases hsome
      · cases h

/-- A group without failures has its outcome when all members are complete. -/
theorem le_length_of_groupOutcome? (h : ∀ d ∈ ds, Outcome.failure? d.2 = none)
    (hsome : groupOutcome? n ds ≠ none) : n ≤ ds.length := by
  rw [groupOutcome?_of_successes h] at hsome
  split at hsome
  · next hlength =>
    have hsub : List.range n ⊆ ds.map Prod.fst := by
      intro i hi
      have hresult := length_results.1 hlength i (List.mem_range.1 hi)
      cases hlookup : ds.lookup i with
      | none => rw [hlookup] at hresult; cases hresult
      | some o => exact List.mem_map_of_mem (mem_of_lookup hlookup)
    have hle := List.Nodup.length_le_of_subset List.nodup_range hsub
    rwa [List.length_range, List.length_map] at hle
  · exact absurd rfl hsome

end

variable {σ : Type} {H : Host σ} {context : Value} {t k p : Nat} {goal : Goal}
  {a s u : State σ} {item : Value} {items : List Value} {g : Place}
  {ds : List (Nat × Outcome)}

/-! ## The completions of a group -/

/-- The completion of a member that a state of the loop shows. -/
def completions (g : Place) (s : State σ) : List (Nat × Outcome) :=
  match s.control with
  | .outcome k .answer o => if g.first ≤ k ∧ k < g.first + g.size then [(k - g.first, o)] else []
  | _ => []

theorem completions_of_member {i : Nat} (hi : i < g.size) {o : Outcome}
    (hc : s.control = .outcome (g.task i) .answer o) : completions g s = [(i, o)] := by
  have hin : g.first ≤ g.task i ∧ g.task i < g.first + g.size := by
    unfold Place.task
    omega
  have hsub : g.task i - g.first = i := Nat.add_sub_cancel_left ..
  simp only [completions, hc, if_pos hin, hsub]

theorem completions_of_quiet
    (h : ∀ i < g.size, ∀ o, s.control ≠ .outcome (g.task i) .answer o) :
    completions g s = [] := by
  unfold completions
  split
  · next k o hc =>
    refine if_neg fun hin => h (k - g.first) (by omega) o ?_
    have htask : g.task (k - g.first) = k := by
      unfold Place.task
      omega
    rw [htask, hc]
  · rfl

/-- The members that are complete, with their outcomes, in the order of their completion. -/
structure Tally (g : Place) (ds : List (Nat × Outcome)) (s : State σ) : Prop where
  valid : ∀ d ∈ ds, d.1 < g.size
  once : (ds.map Prod.fst).Nodup
  outcome : ∀ i < g.size, s.outcome? (g.member i) = ds.lookup i

theorem Tally.same (h : Tally g ds s)
    (parts : ∀ i < g.size, u.promises[g.member i]? = s.promises[g.member i]?) :
    Tally g ds u where
  valid := h.valid
  once := h.once
  outcome i hi := by
    rw [← h.outcome i hi]
    simp only [State.outcome?, parts i hi]

/-- The completion of a member that is still at work comes last. -/
theorem Tally.concat (h : Tally g ds s) {i : Nat} (hi : i < g.size) {o : Outcome}
    (fresh : ds.lookup i = none) (outcome : u.outcome? (g.member i) = some o)
    (others : ∀ j < g.size, j ≠ i → u.outcome? (g.member j) = s.outcome? (g.member j)) :
    Tally g (ds ++ [(i, o)]) u where
  valid d hd := by
    rcases List.mem_append.1 hd with hd | hd
    · exact h.valid d hd
    · rw [List.mem_singleton.1 hd]
      exact hi
  once := by
    have hnew : i ∉ ds.map Prod.fst := by
      intro hmem
      obtain ⟨⟨j, x⟩, hd, rfl⟩ := List.mem_map.1 hmem
      rw [lookup_of_mem h.once hd] at fresh
      cases fresh
    rw [List.map_append, List.nodup_append]
    refine ⟨h.once, by simp, fun x hx y hy => ?_⟩
    rw [List.mem_singleton.1 hy]
    rintro rfl
    exact hnew hx
  outcome j hj := by
    rw [List.lookup_append]
    rcases eq_or_ne j i with rfl | hji
    · simp [fresh, outcome]
    · have hne : (j == i) = false := beq_false_of_ne hji
      simp [others j hj hji, h.outcome j hj, List.lookup_cons, hne]

/-- Collecting the results that are all there. -/
theorem collect_eq {ps : List Nat}
    (h : ∀ p ∈ ps, ((s.outcome? p).bind Except.toOption).isSome) :
    collect s ps = some (ps.filterMap fun p => (s.outcome? p).bind Except.toOption) := by
  induction ps with
  | nil => rfl
  | cons p ps ih =>
    have hp := h p (List.mem_cons_self ..)
    have hps := ih fun q hq => h q (List.mem_cons_of_mem p hq)
    rcases ho : s.outcome? p with _ | e | v
    · rw [ho] at hp; cases hp
    · rw [ho] at hp; cases hp
    · rw [List.filterMap_cons]
      simp only [collect, ho, hps]
      rfl

/-- There are no more completions than members. -/
theorem Tally.length_le (h : Tally g ds s) : ds.length ≤ g.size := by
  have hsub : ds.map Prod.fst ⊆ List.range g.size := by
    intro j hj
    obtain ⟨d, hd, rfl⟩ := List.mem_map.1 hj
    exact List.mem_range.2 (h.valid d hd)
  have hle := List.Nodup.length_le_of_subset h.once hsub
  rwa [List.length_map, List.length_range] at hle

/-- When there are as many completions as members and no failures, all results are there. -/
theorem Tally.complete (h : Tally g ds s) (length : g.size ≤ ds.length)
    (successes : ∀ d ∈ ds, Outcome.failure? d.2 = none) :
    (results g.size ds).length = g.size := by
  refine length_results.2 fun i hi => ?_
  have hmem : i ∈ ds.map Prod.fst := by
    by_contra hnot
    have hsub : i :: ds.map Prod.fst ⊆ List.range g.size := by
      intro j hj
      rcases List.mem_cons.1 hj with rfl | hj
      · exact List.mem_range.2 hi
      · obtain ⟨d, hd, rfl⟩ := List.mem_map.1 hj
        exact List.mem_range.2 (h.valid d hd)
    have hle := List.Nodup.length_le_of_subset (List.nodup_cons.2 ⟨hnot, h.once⟩) hsub
    simp only [List.length_cons, List.length_map, List.length_range] at hle
    omega
  obtain ⟨⟨j, o⟩, hd, rfl⟩ := List.mem_map.1 hmem
  have hok := successes _ hd
  rw [lookup_of_mem h.once hd]
  cases o with
  | error e => cases hok
  | ok v => rfl

/-- Members that are complete later do not take back what the others call for. -/
theorem Tally.decided {es : List (Nat × Outcome)} {o : Outcome} (h : Tally g (ds ++ es) s)
    (decided : groupOutcome? g.size ds = some o) : groupOutcome? g.size (ds ++ es) = some o := by
  have honce := h.once
  rw [List.map_append, List.nodup_append] at honce
  refine groupOutcome?_append (fun d hd => h.valid d (List.mem_append_right _ hd)) ?_ decided
  intro d hd
  cases hlookup : ds.lookup d.1 with
  | none => rfl
  | some x =>
    have hmem : d.1 ∈ ds.map Prod.fst := List.mem_map.2 ⟨(d.1, x), mem_of_lookup hlookup, rfl⟩
    exact absurd rfl (honce.2.2 d.1 hmem d.1 (List.mem_map_of_mem hd))

/-- What a group collects are the results of its members. -/
theorem Tally.collect (h : Tally g ds s) (all : (results g.size ds).length = g.size) :
    collect s g.members = some (results g.size ds) := by
  have hlookup : ∀ i ∈ List.range g.size,
      (s.outcome? (g.member i)).bind Except.toOption = (ds.lookup i).bind Except.toOption :=
    fun i hi => by rw [h.outcome i (List.mem_range.1 hi)]
  have hthere : ∀ p ∈ g.members, ((s.outcome? p).bind Except.toOption).isSome := by
    intro p hp
    obtain ⟨i, hi, rfl⟩ := List.mem_map.1 hp
    rw [hlookup i hi]
    exact length_results.1 all i (List.mem_range.1 hi)
  rw [collect_eq hthere, Place.members, List.filterMap_map, results]
  exact congrArg some (List.filterMap_congr hlookup)

/-! ## How far a group is -/

/-- How far a group is, that has noticed some of the completions. -/
inductive Noticing (g : Place) (ds : List (Nat × Outcome)) (k : Nat) (s : State σ) : Prop
  /-- Those that it has noticed are successes; the others are in the queue. -/
  | waiting (seen due : List (Nat × Outcome)) (split : ds = seen ++ due) (count : seen.length = k)
      (successes : ∀ d ∈ seen, Outcome.failure? d.2 = none)
      (tickets : s.tickets g.group = due.map fun d => g.member d.1) (left : k < g.size)
      (group : s.groups[g.group]? = some ⟨g.members, g.size - k, g.promise⟩)
      (opened : s.outcome? g.promise = none)
  | settled (o : Outcome) (outcome : s.outcome? g.promise = some o)
      (assembled : groupOutcome? g.size ds = some o)

theorem noticing_of_apart (hs : Noticing g ds k s) (h : Apart g s u) : Noticing g ds k u := by
  cases hs with
  | waiting seen due split count successes tickets left group opened =>
    exact .waiting seen due split count successes (h.tickets.trans tickets) left
      (h.group.trans group) (h.whole.trans opened)
  | settled o outcome assembled => exact .settled o (h.whole.trans outcome) assembled

/-- A member that is complete is queued behind the others. -/
theorem noticing_of_completes (manned : Manned H context a items g s) (hs : Noticing g ds k s)
    {i : Nat} (hi : i < g.size) {o : Outcome} (fresh : ds.lookup i = none)
    (hc : s.control = .outcome (g.task i) .answer o) :
    Noticing g (ds ++ [(i, o)]) k (finish s.toIdle (g.task i) none o) := by
  rw [finish_member manned hi hc]
  have hwhole : ∀ u : State σ, u.promises = s.promises.set (g.member i) ⟨some o, []⟩ →
      u.outcome? g.promise = s.outcome? g.promise := by
    intro u hu
    simp only [State.outcome?, hu, List.getElem?_set_ne (g.member_ne i)]
  cases hs with
  | waiting seen due split count successes tickets left group opened =>
    refine .waiting seen (due ++ [(i, o)]) (by rw [split, List.append_assoc]) count successes ?_
      left group ((hwhole _ rfl).trans opened)
    have hticket : (Job.notice g.group (g.member i)).ticket? g.group = some (g.member i) :=
      ticket?_eq_some.2 rfl
    have hseen : s.ready.filterMap (Job.ticket? g.group) = due.map fun d => g.member d.1 :=
      tickets
    simp [State.tickets, List.filterMap_append, hticket, hseen]
  | settled x outcome assembled =>
    refine .settled x ((hwhole _ rfl).trans outcome)
      (groupOutcome?_append (fun d hd => ?_) (fun d hd => ?_) assembled)
    · rw [List.mem_singleton.1 hd]
      exact hi
    · rw [List.mem_singleton.1 hd]
      exact fresh

/-- A group that is settled stays as it is. -/
theorem noticing_of_settled {o : Outcome} (outcome : s.outcome? g.promise = some o)
    (assembled : groupOutcome? g.size ds = some o) {m : Nat} (h : Noticed g m s u) :
    Noticing g ds k u := by
  cases h with
  | nothing _ => exact .settled o outcome assembled
  | fails e _ => exact .settled o (outcome_complete_of_some outcome _ _) assembled
  | counts v remaining _ _ _ => exact .settled o outcome assembled
  | succeeds v vs remaining _ _ _ _ =>
    exact .settled o (outcome_complete_of_some (s := s.recount g _) outcome _ _) assembled

/-- **A group notices the first member that it has not noticed.** -/
theorem noticing_of_noticed (crew : Crew g s) (tally : Tally g ds s)
    {seen later : List (Nat × Outcome)} {i : Nat} {o : Outcome}
    (split : ds = seen ++ (i, o) :: later)
    (successes : ∀ d ∈ seen, Outcome.failure? d.2 = none)
    (tickets : s.tickets g.group = later.map fun d => g.member d.1) (left : seen.length < g.size)
    (group : s.groups[g.group]? = some ⟨g.members, g.size - seen.length, g.promise⟩)
    (opened : s.outcome? g.promise = none) (h : Noticed g (g.member i) s u) :
    Noticing g ds (seen.length + 1) u := by
  have hmem : (i, o) ∈ ds := by simp [split]
  have ho : s.outcome? (g.member i) = some o := by
    rw [tally.outcome i (tally.valid _ hmem)]
    exact lookup_of_mem tally.once hmem
  have hmade := crew.whole.made
  have hsplit : ds = (seen ++ [(i, o)]) ++ later := by rw [split, List.append_assoc]; rfl
  have hlength : ds.length = seen.length + 1 + later.length := by simp [split]; omega
  have hseen : ∀ v, o = .ok v → ∀ d ∈ seen ++ [(i, o)], Outcome.failure? d.2 = none := by
    rintro v rfl d hd
    rcases List.mem_append.1 hd with hd | hd
    · exact successes d hd
    · rw [List.mem_singleton.1 hd]
      rfl
  -- The last success makes all results be there.
  have hlast : ∀ v, o = .ok v → g.size = seen.length + 1 →
      (∀ d ∈ ds, Outcome.failure? d.2 = none) ∧ (results g.size ds).length = g.size := by
    intro v hv hsize
    have hle := tally.length_le
    have hnil : later = [] := List.length_eq_zero_iff.1 (by omega)
    have hall : ∀ d ∈ ds, Outcome.failure? d.2 = none := by
      rw [hsplit, hnil, List.append_nil]
      exact hseen v hv
    exact ⟨hall, tally.complete (by omega) hall⟩
  cases h with
  | nothing h => rw [ho] at h; cases h
  | fails e h =>
    rw [ho] at h
    obtain rfl := Option.some.inj h
    refine .settled (.error e) (outcome_complete_self hmade opened _) ?_
    rw [split]
    exact groupOutcome?_of_failure g.size successes
  | counts v remaining h hgroup hleft =>
    rw [ho] at h
    obtain rfl := Option.some.inj h
    obtain rfl : g.size - seen.length = remaining :=
      congrArg Group.remaining (Option.some.inj (group.symm.trans hgroup))
    have hmore : seen.length + 1 < g.size := by
      by_contra hnot
      rcases hleft with hleft | hleft
      · omega
      · rw [tally.collect (hlast v rfl (by omega)).2] at hleft
        cases hleft
    refine .waiting (seen ++ [(i, .ok v)]) later hsplit (by simp) (hseen v rfl) tickets hmore ?_
      opened
    rw [Nat.sub_add_eq]
    exact List.getElem?_set_self crew.lt
  | succeeds v vs remaining h hgroup hall hresults =>
    rw [ho] at h
    obtain rfl := Option.some.inj h
    obtain rfl : g.size - seen.length = remaining :=
      congrArg Group.remaining (Option.some.inj (group.symm.trans hgroup))
    obtain ⟨hsuccesses, hcomplete⟩ := hlast v rfl (by omega)
    obtain rfl : results g.size ds = vs :=
      Option.some.inj ((tally.collect hcomplete).symm.trans hresults)
    refine .settled _ (outcome_complete_self (s := s.recount g _) hmade opened _) ?_
    rw [groupOutcome?_of_successes hsuccesses, if_pos hcomplete]

/-- The next job is about the first member that has not been noticed. -/
theorem noticing_of_notices (crew : Crew g s) (tally : Tally g ds s) (hs : Noticing g ds k s)
    {n m : Nat} {rest : List Job} (hr : s.ready = .notice g.group m :: rest) :
    Noticing g ds (k + 1) (notice { s with ready := rest, batch := n } g.group m) := by
  have hpop := crew.taken hr n
  have htally : Tally g ds { s with ready := rest, batch := n } :=
    tally.same fun _ _ => rfl
  have hnoticed := noticed_notice hpop m
  cases hs with
  | settled o outcome assembled =>
    exact noticing_of_settled (s := { s with ready := rest, batch := n }) outcome assembled hnoticed
  | waiting seen due split count successes tickets left group opened =>
    have hticket : (Job.notice g.group m).ticket? g.group = some m := ticket?_eq_some.2 rfl
    simp only [State.tickets, hr, List.filterMap_cons, hticket] at tickets
    cases due with
    | nil => cases tickets
    | cons d later =>
      obtain ⟨rfl, hlater⟩ := List.cons.inj tickets
      subst count
      exact noticing_of_noticed hpop htally split successes hlater left group opened hnoticed

/-! ## Waiting for a promise -/

/-- **One step while a task waits.**  It goes on waiting, or it is its turn and the outcome is
there. -/
theorem waits_of_step (hw : Waits t goal p s) (h : step H context s = .next u) :
    Waits t goal p u ∨
      ∃ o, s.outcome? p = some o ∧ s.control = .idle ∧ u.control = .outcome t goal o := by
  cases htask : s.control.task? with
  | some k =>
    have hk : k ≠ t := by
      rintro rfl
      exact hw.elsewhere htask
    obtain ⟨v, hv, hchanges⟩ := freeChanges_step H context s htask
    obtain rfl : v = u := Transition.next.inj (hv.symm.trans h)
    have hidle : Waits t goal p s.toIdle := ⟨hw.phase, fun h => (by cases h), hw.queued⟩
    exact .inl (waits_of_changes hchanges hk hidle)
  | none =>
    have hidle : s.control = .idle := Control.eq_idle htask
    rcases step_idle_cases hidle h with
      ⟨n, j, rest, -, hr, rfl⟩ | ⟨n, rfl⟩ | ⟨tm, later, hr, ht, rfl⟩
    · by_cases hturn : j = .step t
      · subst hturn
        simp only [runJob]
        cases ho : s.outcome? p with
        | none =>
          have hpop := waits_of_pop hw hr (.inr ho) n
          have ho' : State.outcome? { s with ready := rest, batch := n } p = none := ho
          rw [stepTask_of_waits hpop, ho']
          exact .inl hpop
        | some o =>
          refine .inr ⟨o, rfl, hidle, ?_⟩
          rw [stepTask_of_outcome (s := { s with ready := rest, batch := n }) hw.phase ho]
          rfl
      · have hpop := waits_of_pop hw hr (.inl hturn) n
        by_cases hstop : j = .stop
        · subst hstop
          exact .inl ⟨hpop.phase, hpop.elsewhere, hpop.queued⟩
        · obtain ⟨k, hk, hchanges⟩ : ∃ k, k ≠ t ∧ FreeChanges H k
              { s with ready := rest, batch := n }
              (runJob H { s with ready := rest, batch := n } j) :=
            exists_changes_runJob _ ⟨t + 1, Nat.succ_ne_self t⟩
              (fun k hj hk => hturn (hk ▸ hj)) hstop fun _ _ => trivial
          exact .inl (waits_of_changes hchanges hk hpop)
    · exact .inl ⟨hw.phase, hw.elsewhere, hw.queued⟩
    · refine .inl ⟨hw.phase, hw.elsewhere, ?_⟩
      rcases hw.queued with hq | ⟨ho, hq⟩
      · exact .inl hq
      · rw [hr] at hq
        cases hq

/-! ## Where an outcome comes from -/

/-- The outcome of a task that was told to perform an item, and how it came to be there: the
item is refused, or its effect was performed and the outcome has reached the task. -/
inductive Came (H : Host σ) (context : Value) (a : State σ) (k : Nat) (item : Value)
    (o : Outcome) (s : State σ) : Prop
  | refused (m : Malformed) (e : Exn) (parse : Descriptor.parse item = .error m)
      (body : e.body = m.body) (outcome : o = .error e)
  | performed (d : Descriptor) (b z : State σ) (parse : Descriptor.parse item = .ok d)
      (after : Transition.Reaches (step H context) a b)
      (performs : b.control = .perform k .answer d)
      (way : Transition.Reaches (resolve H context k) b z)
      (control : z.control = .outcome k .answer o)
      (before : Transition.Reaches (step H context) z s)

theorem Came.tail {o : Outcome} (hs : Came H context a k item o s)
    (h : step H context s = .next u) : Came H context a k item o u := by
  cases hs with
  | refused m e parse body outcome => exact .refused m e parse body outcome
  | performed d b z parse after performs way control before =>
    exact .performed d b z parse after performs way control (before.tail h)

/-- A member whose outcome is there. -/
theorem Station.came (hs : Station H context a k item s) {o : Outcome}
    (hc : s.control = .outcome k .answer o) : Came H context a k item o s := by
  have hbusy : s.control.task? = some k := by
    rw [hc]
    rfl
  cases hs with
  | fresh _ elsewhere => exact absurd hbusy elsewhere
  | refused m e parse body control =>
    refine .refused m e parse body ?_
    rw [hc] at control
    cases control
    rfl
  | performing d b parse after performs way stands =>
    exact .performed d b s parse after performs way hc (.refl s)
  | retired h => exact absurd hbusy h.elsewhere

/-! ## The state of a group -/

/-- A group whose members perform the given items, made since the given state, with the
members that are complete and the number of those that it has noticed. -/
structure Gathering (H : Host σ) (context : Value) (a : State σ) (items : List Value)
    (g : Place) (ds : List (Nat × Outcome)) (k : Nat) (s : State σ) : Prop where
  after : Transition.Reaches (step H context) a s
  manned : Manned H context a items g s
  tally : Tally g ds s
  noticing : Noticing g ds k s
  came : ∀ i x item, (i, x) ∈ ds → items[i]? = some item → Came H context a (g.task i) item x s

/-- A member whose outcome arrives has not been complete before. -/
theorem Gathering.unfinished (hs : Gathering H context a items g ds k s) {i : Nat}
    (hi : i < g.size) {o : Outcome} (hc : s.control = .outcome (g.task i) .answer o) :
    ds.lookup i = none := by
  rw [← hs.tally.outcome i hi]
  by_contra hne
  have helsewhere := (hs.manned.retired i hi hne).elsewhere
  rw [hc] at helsewhere
  exact helsewhere rfl

variable {host : σ} {number : Nat} {earlier : List (Nat × Outcome)} {errand : Errand}

/-- The group notices the next member. -/
theorem Gathering.notices
    (reached : Transition.Reaches (step H context) (State.start host number earlier errand) a)
    (hs : Gathering H context a items g ds k s) {n m : Nat} {rest : List Job}
    (hidle : s.control = .idle) (hb : s.batch = n + 1) (hr : s.ready = .notice g.group m :: rest) :
    Gathering H context a items g ds (k + 1)
      (notice { s with ready := rest, batch := n } g.group m) := by
  have hstep := step_of_batch H context hidle hb hr
  have hpast := reached.trans hs.after
  have sound : Sound s := sound_of_reaches hpast
  exact {
    after := hs.after.tail hstep
    manned := manned_of_step sound (addressed_of_reaches hpast) hs.after hs.manned hstep
    tally := hs.tally.same (crew_of_notices sound hs.manned.crew hr).2
    noticing := noticing_of_notices hs.manned.crew hs.tally hs.noticing hr
    came := fun i x item hd hitem => (hs.came i x item hd hitem).tail hstep }

/-- A member is complete. -/
theorem Gathering.completes
    (reached : Transition.Reaches (step H context) (State.start host number earlier errand) a)
    (hs : Gathering H context a items g ds k s) {i : Nat} (hi : i < g.size) {o : Outcome}
    (hc : s.control = .outcome (g.task i) .answer o) (h : step H context s = .next u)
    (hu : u = finish s.toIdle (g.task i) none o) :
    Gathering H context a items g (ds ++ [(i, o)]) k u := by
  have hpast := reached.trans hs.after
  have sound : Sound s := sound_of_reaches hpast
  have fresh := hs.unfinished hi hc
  have hpromises : u.promises = s.promises.set (g.member i) ⟨some o, []⟩ := by
    rw [hu, finish_member hs.manned hi hc]
  refine ⟨hs.after.tail h, manned_of_step sound (addressed_of_reaches hpast) hs.after hs.manned h,
    hs.tally.concat hi fresh ?_ fun j hj hji => ?_, ?_, fun j x item hd hitem => ?_⟩
  · simp [State.outcome?, hpromises, List.getElem?_set_self (hs.manned.crew.parts i hi).made]
  · have hne : g.member i ≠ g.member j := fun heq => hji (Place.member_inj heq).symm
    simp only [State.outcome?, hpromises, List.getElem?_set_ne hne]
  · rw [hu]
    exact noticing_of_completes hs.manned hs.noticing hi fresh hc
  · rcases List.mem_append.1 hd with hd | hd
    · exact (hs.came j x item hd hitem).tail h
    · cases List.mem_singleton.1 hd
      exact ((hs.manned.stations i item hitem).came hc).tail h

/-- **What a step makes of a group.** -/
theorem gathering_of_step
    (reached : Transition.Reaches (step H context) (State.start host number earlier errand) a)
    (hs : Gathering H context a items g ds k s) (h : step H context s = .next u) :
    ∃ l, k ≤ l ∧ Gathering H context a items g (ds ++ completions g s) l u := by
  have hpast := reached.trans hs.after
  have sound : Sound s := sound_of_reaches hpast
  have addressed : Addressed s := addressed_of_reaches hpast
  cases turn_of_step sound addressed hs.manned h with
  | apart crew apart quiet =>
    rw [completions_of_quiet quiet, List.append_nil]
    exact ⟨k, Nat.le_refl k, hs.after.tail h, manned_of_step sound addressed hs.after hs.manned h,
      hs.tally.same apart.parts, noticing_of_apart hs.noticing apart,
      fun i x item hd hitem => (hs.came i x item hd hitem).tail h⟩
  | completes i hi o control state =>
    rw [completions_of_member hi control]
    exact ⟨k, Nat.le_refl k, hs.completes reached hi control h state⟩
  | notices n rest m idle batch ready state =>
    have hquiet : completions g s = [] := by
      refine completions_of_quiet fun i _ o ho => ?_
      rw [idle] at ho
      cases ho
    rw [hquiet, List.append_nil, state]
    exact ⟨k + 1, Nat.le_succ k, hs.notices reached idle batch ready⟩

/-- A group that is settled has the outcome that the completions so far call for. -/
theorem Gathering.assembled (hs : Gathering H context a items g ds k s) {o : Outcome}
    (ho : s.outcome? g.promise = some o) : groupOutcome? g.size ds = some o := by
  cases hs.noticing with
  | waiting seen due split count successes tickets left group opened =>
    rw [ho] at opened
    cases opened
  | settled x outcome assembled =>
    rw [ho] at outcome
    rw [assembled, outcome]

/-- **What a step makes of a task that waits for a group.**  The outcome that reaches it is
the one that the completions so far call for. -/
theorem Gathering.next (hs : Gathering H context a items g ds k s)
    (hw : Waits t goal g.promise s) (h : step H context s = .next u) :
    resolve H context t s = .next u ∧
      (Waits t goal g.promise u ∨ completions g s = [] ∧
        ∃ o, groupOutcome? g.size ds = some o ∧ u.control = .outcome t goal o) := by
  refine ⟨by rw [resolve_of_waits hw, h]; rfl, ?_⟩
  rcases waits_of_step hw h with hwaits | ⟨o, ho, hidle, hc⟩
  · exact .inl hwaits
  · exact .inr ⟨completions_of_quiet fun i _ x hx => (by rw [hidle] at hx; cases hx), o,
      hs.assembled ho, hc⟩

end EventLoop
end DescribedEffects
