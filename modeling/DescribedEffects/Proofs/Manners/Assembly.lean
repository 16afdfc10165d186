import DescribedEffects.Proofs.Manners.Dispatch

/-!
# What a modest group comes to

A group comes to what the completions of its members call for, in the order in which they
come.  When at most one member is to fail this does not depend on the order: the group comes to
the first failure or to all results (`together_of_groupOutcome`), and so a group of which this
is known (`Convened`) is completed with what is expected of it.
-/

namespace DescribedEffects
namespace EventLoop

variable {P S : Type} {K : Callables} {context : Value} {es es' : List Expected} {top : Expected}
  {hand : List Job} {busy : Option (Nat × Goal)} {s m u : Loop P S} {g : Place}
  {H : Host (P × Site (Scene S))}

/-! ## The order of completion -/

/-- An exception is made for something that fails. -/
theorem fails_of_minted {n k : Nat} {x : Plan} (h : k ∈ (x.expects K context n).minted) :
    (x.expects K context n).fails = true := by
  rw [Plan.minted_expects] at h
  rw [Plan.fails_expects, decide_eq_true_iff]
  split at h
  · next hpos => exact Nat.lt_of_lt_of_le hpos (Plan.mints_le_failures x)
  · cases h

/-- A minted exception of a group is one of a member. -/
theorem minted_of_together {xs : List Expected} {n : Nat} (h : n ∈ (Expected.together xs).minted) :
    ∃ (i : Nat) (x : Expected), xs[i]? = some x ∧ n ∈ x.minted := by
  obtain ⟨x, hx, hn⟩ := List.exists_of_findSome?_eq_some (Option.mem_def.1 h)
  obtain ⟨i, hi⟩ := List.mem_iff_getElem?.1 hx
  exact ⟨i, x, hi, hn⟩

/-- All members have results. -/
theorem together_of_results {xs : List Expected} {ds : List (Nat × Outcome)} {vs : List Value}
    (length : vs.length = xs.length) (elements : ∀ i v, vs[i]? = some v → (i, .ok v) ∈ ds)
    (outcomes : ∀ d ∈ ds, ∃ x, xs[d.1]? = some x ∧ x.outcome = d.2) :
    (Expected.together xs).outcome = .ok (.list vs) ∧
      ∀ n ∈ (Expected.together xs).minted, ∃ d ∈ ds, ∃ x, xs[d.1]? = some x ∧ n ∈ x.minted := by
  have hresult : ∀ (i : Nat) (x : Expected), xs[i]? = some x →
      ∃ w, vs[i]? = some w ∧ (i, .ok w) ∈ ds ∧ x.outcome = .ok w := by
    intro i x hx
    have hlt : i < vs.length := by
      rw [length]
      exact (List.getElem?_eq_some_iff.1 hx).1
    have hw : vs[i]? = some vs[i] := List.getElem?_eq_getElem hlt
    have hmem := elements i _ hw
    obtain ⟨x', hx', hout⟩ := outcomes _ hmem
    rw [hx] at hx'
    cases hx'
    exact ⟨_, hw, hmem, hout⟩
  refine ⟨Expected.outcome_together_of_results (List.ext_getElem? fun i => ?_), fun n hn => ?_⟩
  · rw [List.getElem?_map, List.getElem?_map]
    cases hx : xs[i]? with
    | none =>
      rw [List.getElem?_eq_none (by rw [length]; exact List.getElem?_eq_none_iff.1 hx)]
      rfl
    | some x =>
      obtain ⟨w, hw, -, hout⟩ := hresult i x hx
      rw [hw, Option.map_some, Option.map_some, hout]
  · obtain ⟨i, x, hx, hxn⟩ := minted_of_together hn
    obtain ⟨w, -, hmem, -⟩ := hresult i x hx
    exact ⟨_, hmem, x, hx, hxn⟩

/-- The one member that fails fails. -/
theorem outcome_together_of_only {xs : List Expected} {i : Nat} {x : Expected} {e : Exn}
    (hx : xs[i]? = some x) (hxe : x.outcome = .error e)
    (only : ∀ (j : Nat) (y : Expected), xs[j]? = some y → y.fails = true → j = i) :
    (Expected.together xs).outcome = .error e := by
  have hsplit : xs = xs.take i ++ x :: xs.drop (i + 1) := by
    rw [← (List.getElem?_eq_some_iff.1 hx).2, List.getElem_cons_drop, List.take_append_drop]
  rw [hsplit]
  refine Expected.outcome_together_of_failure (fun y hy => ?_) hxe
  obtain ⟨j, hj⟩ := List.mem_iff_getElem?.1 hy
  rw [List.getElem?_take] at hj
  split at hj
  · next hji =>
    by_contra hnot
    have hji' := only j y hj (by simpa using hnot)
    omega
  · cases hj

/-- **When one member fails at most, the order of completion makes no difference.** -/
theorem together_of_groupOutcome {xs : List Expected} {ds : List (Nat × Outcome)} {o : Outcome}
    (honest : ∀ (i : Nat) (x : Expected) (n : Nat), xs[i]? = some x → n ∈ x.minted →
      x.fails = true)
    (unique : ∀ (i j : Nat) (x y : Expected), xs[i]? = some x → xs[j]? = some y →
      x.fails = true → y.fails = true → i = j)
    (outcomes : ∀ d ∈ ds, ∃ x, xs[d.1]? = some x ∧ x.outcome = d.2)
    (h : groupOutcome? xs.length ds = some o) :
    (Expected.together xs).outcome = o ∧
      ∀ n ∈ (Expected.together xs).minted, ∃ d ∈ ds, ∃ x, xs[d.1]? = some x ∧ n ∈ x.minted := by
  cases o with
  | ok v =>
    obtain ⟨vs, rfl, hlength, helements⟩ := groupOutcome?_eq_ok h
    exact together_of_results hlength helements outcomes
  | error e =>
    obtain ⟨⟨i, out⟩, hmem, hfailure⟩ : ∃ d ∈ ds, Outcome.failure? d.2 = some e := by
      unfold groupOutcome? at h
      split at h
      · next e' he' =>
        cases h
        exact List.exists_of_findSome?_eq_some he'
      · split at h <;> cases h
    obtain ⟨x, hx, hout⟩ := outcomes _ hmem
    have hxe : x.outcome = .error e := by
      rw [hout]
      cases out with
      | ok v => cases hfailure
      | error e' => cases hfailure; rfl
    have hfails : x.fails = true := Expected.fails_iff.2 ⟨e, hxe⟩
    refine ⟨outcome_together_of_only hx hxe fun j y hy hy' => unique j i y x hy hx hy' hfails,
      fun n hn => ?_⟩
    obtain ⟨j, y, hy, hyn⟩ := minted_of_together hn
    obtain rfl := unique j i y x hy hx (honest j y n hy hyn) hfails
    exact ⟨_, hmem, y, hy, hyn⟩

/-! ## Groups that are made -/

/-- The state comes up in a run of the loop. -/
def Arises {σ : Type} (H : Host σ) (context : Value) (s : State σ) : Prop :=
  ∃ host number earlier errand,
    Transition.Reaches (step H context) (State.start host number earlier errand) s

/-- What is expected of a group and of its members. -/
structure Assembles (K : Callables) (context : Value) (es : List Expected) (items : List Value)
    (n : Nat) (g : Place) : Prop where
  modest : (Plan.group (items.map Plan.ofValue)).Modest K context
  whole : es[g.promise]? = some ((Plan.group (items.map Plan.ofValue)).expects K context n)
  parts : ∀ i item, items[i]? = some item →
    es[g.member i]? = some ((Plan.ofValue item).expects K context n)

/-- A group of which it is known what is expected, and how far it is. -/
inductive Convened (H : Host (P × Site (Scene S))) (K : Callables) (context : Value)
    (es : List Expected) (s : Loop P S) (i : Nat) : Prop
  | mk (a : Loop P S) (items : List Value) (n : Nat) (g : Place) (ds : List (Nat × Outcome))
      (k : Nat) (number : g.group = i) (arises : Arises H context a)
      (gathering : Gathering H context a items g ds k s)
      (assembles : Assembles K context es items n g)

theorem Arises.tail {σ : Type} {H : Host σ} {s u : State σ} (h : Arises H context s)
    (hstep : step H context s = .next u) : Arises H context u := by
  obtain ⟨host, number, earlier, errand, hreached⟩ := h
  exact ⟨host, number, earlier, errand, hreached.tail hstep⟩

theorem Assembles.more {items : List Value} {n : Nat} (h : Assembles K context es items n g)
    (more : es <+: es') : Assembles K context es' items n g := by
  obtain ⟨new, rfl⟩ := more
  have hkept : ∀ {q : Nat} {x : Expected}, es[q]? = some x → (es ++ new)[q]? = some x :=
    fun hq => by
    rw [List.getElem?_append_left (List.getElem?_eq_some_iff.1 hq).1, hq]
  exact ⟨h.modest, hkept h.whole, fun i item hi => hkept (h.parts i item hi)⟩

/-- A step leaves it known what is expected of a group. -/
theorem Convened.next {i : Nat} (h : Convened H K context es s i)
    (hstep : step H context s = .next u) (more : es <+: es') :
    Convened H K context es' u i := by
  obtain ⟨a, items, n, g, ds, k, number, arises, gathering, assembles⟩ := h
  obtain ⟨host, number', earlier, errand, hreached⟩ := arises
  obtain ⟨l, -, hgathering⟩ := gathering_of_step hreached gathering hstep
  exact .mk a items n g _ l number ⟨host, number', earlier, errand, hreached⟩ hgathering
    (assembles.more more)

/-- **What the completions of its members call for is what is expected of the group.** -/
theorem Assembles.outcome {items : List Value} {n : Nat} {ds : List (Nat × Outcome)} {o : Outcome}
    (h : Assembles K context es items n g) (hs : Tidy K context es top hand busy s)
    (tally : Tally g ds s) (size : items.length = g.size)
    (decided : groupOutcome? g.size ds = some o) :
    ∃ x, es[g.promise]? = some x ∧ x.outcome = o ∧ x.IsThere s.host.2 := by
  let xs := (items.map Plan.ofValue).map (Plan.expects K context n)
  have hxs : ∀ (i : Nat) (x : Expected), xs[i]? = some x → ∃ item, items[i]? = some item ∧
      x = (Plan.ofValue item).expects K context n := by
    intro i x hx
    simp only [xs, List.getElem?_map, Option.map_map, Option.map_eq_some_iff] at hx
    obtain ⟨item, hitem, rfl⟩ := hx
    exact ⟨item, hitem, rfl⟩
  -- A member that is complete has the outcome that is expected of it.
  have hcomplete : ∀ d ∈ ds, ∃ x, xs[d.1]? = some x ∧ x.outcome = d.2 ∧ x.IsThere s.host.2 := by
    intro d hd
    have hlt := tally.valid d hd
    have hitem : items[d.1]? = some items[d.1] := List.getElem?_eq_getElem (size.symm ▸ hlt)
    have houtcome : s.outcome? (g.member d.1) = some d.2 := by
      rw [tally.outcome d.1 hlt]
      exact lookup_of_mem tally.once hd
    obtain ⟨x, hx, hxo, hthere⟩ := hs.settled (g.member d.1) d.2
      (by unfold Place.member; omega) houtcome
    rw [h.parts d.1 _ hitem] at hx
    obtain rfl := Option.some.inj hx
    exact ⟨_, by simp [xs, hitem], hxo, hthere⟩
  have hlength : xs.length = g.size := by simp [xs, size]
  have hhonest : ∀ (i : Nat) (x : Expected) (k : Nat), xs[i]? = some x → k ∈ x.minted →
      x.fails = true := by
    intro i x k hx hk
    obtain ⟨item, -, rfl⟩ := hxs i x hx
    exact fails_of_minted hk
  have hunique : ∀ (i j : Nat) (x y : Expected), xs[i]? = some x → xs[j]? = some y →
      x.fails = true → y.fails = true → i = j := by
    intro i j x y hx hy hxf hyf
    obtain ⟨item, hitem, rfl⟩ := hxs i x hx
    obtain ⟨item', hitem', rfl⟩ := hxs j y hy
    exact h.modest.unique (by simp [hitem]) (by simp [hitem']) hxf hyf
  obtain ⟨houtcome, hminted⟩ := together_of_groupOutcome hhonest hunique
    (fun d hd => (hcomplete d hd).imp fun x hx => ⟨hx.1, hx.2.1⟩)
    (show groupOutcome? xs.length ds = some o from hlength ▸ decided)
  refine ⟨_, h.whole, by rw [Plan.expects_group]; exact houtcome, fun k hk => ?_⟩
  rw [Plan.expects_group] at hk
  obtain ⟨d, hd, x, hx, hkx⟩ := hminted k hk
  obtain ⟨x', hx', -, hthere⟩ := hcomplete d hd
  rw [hx] at hx'
  obtain rfl := Option.some.inj hx'
  exact hthere k hkx

/-! ## A group notices a member -/

/-- A promise is completed with what is expected, unless it is complete. -/
theorem Tidy.completing (hs : Tidy K context es top hand busy s) {q : Nat} {o : Outcome}
    (made : q < s.promises.length)
    (fits : ∀ o', (s.complete q o).outcome? q = some o' →
      ∃ x, es[q]? = some x ∧ x.outcome = o' ∧ x.IsThere s.host.2) :
    Tidy K context es top hand busy (s.complete q o) := by
  cases hopen : s.outcome? q with
  | none =>
    obtain ⟨x, hx, hxo, hthere⟩ := fits o (outcome_complete_self made hopen o)
    exact hs.complete hx hxo hthere
  | some o' =>
    rw [complete_of_outcome hopen]
    exact hs

/-- A group counts the members that it has not noticed. -/
theorem Tidy.recount (hs : Tidy K context es top hand busy s) {remaining : Nat}
    (group : s.groups[g.group]? = some ⟨g.members, remaining, g.promise⟩) (left : Nat) :
    Tidy K context es top hand busy (s.recount g left) := by
  have hpromises : (s.recount g left).groups.map Group.promise = s.groups.map Group.promise :=
    map_set_of_eq group rfl
  have h : Lasts es hand busy s es hand busy (s.recount g left) :=
    .of_kept (List.prefix_refl _) (fun _ h => h) rfl rfl
      (by rw [hpromises]; exact List.Subset.refl _) (fun _ _ h => h)
      (fun _ _ h => opened_same rfl h) (fun _ _ => rfl)
      fun _ _ h => .inl (h.of_tasks fun _ _ h => h)
  exact hs.of_jobs h rfl rfl rfl rfl fun _ h => .inl h

/-- **A group notices a member**, which may complete it. -/
theorem Tidy.notice {i k m : Nat} {rest : List Job} (h : Convened H K context es s i)
    (idle : s.control = .idle) (batch : s.batch = k + 1) (ready : s.ready = .notice i m :: rest)
    (hs : Tidy K context es top [.notice i m] none { s with ready := rest, batch := k }) :
    Tidy K context es top [] none (notice { s with ready := rest, batch := k } i m) := by
  obtain ⟨a, items, n, g, ds, l, rfl, ⟨host, number, earlier, errand, hreached⟩, gathering,
    assembles⟩ := h
  let taken : Loop P S := { s with ready := rest, batch := k }
  have hnext := gathering.notices hreached idle batch ready
  have hcrew : Crew g taken := gathering.manned.crew.taken ready k
  have htally : Tally g ds taken := gathering.tally.same fun _ _ => rfl
  have hfits : ∀ o, (EventLoop.notice taken g.group m).outcome? g.promise = some o →
      ∃ x, es[g.promise]? = some x ∧ x.outcome = o ∧ x.IsThere s.host.2 :=
    fun o ho => assembles.outcome (s := taken) hs htally gathering.manned.size (hnext.assembled ho)
  refine Tidy.release (j := .notice g.group m) ?_ trivial
  change Tidy K context es top [.notice g.group m] none (EventLoop.notice taken g.group m)
  have hnoticed := noticed_notice hcrew m
  generalize EventLoop.notice taken g.group m = v at hfits hnoticed ⊢
  cases hnoticed with
  | nothing _ => exact hs
  | fails e _ => exact hs.completing hcrew.whole.made hfits
  | counts v remaining _ group _ => exact hs.recount group _
  | succeeds v vs remaining _ group _ _ =>
    exact (hs.recount group _).completing hcrew.whole.made hfits

end EventLoop
end DescribedEffects
