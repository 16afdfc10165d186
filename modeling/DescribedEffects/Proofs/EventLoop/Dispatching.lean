import DescribedEffects.Proofs.EventLoop.Launching
import Mathlib.Data.List.Forall2

/-!
# Every member is dispatched

The calls that are made on behalf of the members of a group, and of tasks that are made later,
up to the outcome of the group.  `Dispatching` is what they come to at every state on the way:
while members are still to begin, one call for each that has begun and calls a function; then
those of all members, followed by calls on behalf of others.

The invariant speaks of the calls so far with the one that comes next included, because a
member begins in one step and calls its function in the next.  `Gathering.carry` carries it, as
it does any other that is kept while a task waits for a group.
-/

namespace DescribedEffects

/-- The function that a member of a group calls if it is a single effect. -/
def Context.memberCall? (context item : Value) : Option (Value × Descriptor) :=
  match Descriptor.parse item with
  | .ok d => (Context.callee? context d).map (·, d)
  | .error _ => none

/-- The members that call a function, with their places. -/
def Context.callers (context : Value) (items : List Value) : List (Nat × Value × Descriptor) :=
  items.zipIdx.filterMap fun x => (Context.memberCall? context x.1).map (x.2, ·)

namespace EventLoop

variable {σ : Type} {H : Host σ} {context : Value} {t k : Nat} {goal : Goal} {d : Descriptor}
  {items : List Value} {g : Place} {ds : List (Nat × Outcome)}
  {host : σ} {number : Nat} {earlier : List (Nat × Outcome)} {errand : Errand}

/-! ## Along the run -/

section

variable {a s u z : State σ}

/-- A step does not change the number of the loop. -/
theorem run_of_step (h : step H context s = .next u) : u.run = s.run :=
  kept_of_changes (P := fun v => v.run = s.run)
    (fun hchanges hx => (onward_of_changes hchanges).run.trans hx)
    (fun _ _ _ hrun hx => hrun.trans hx) h rfl

/-- **What every step keeps while a task waits for a group holds until the outcome is there**,
of what has been shown and of the members that are complete. -/
theorem Gathering.carry {L : Type} {shows : State σ → List L}
    {ls ms : List L} (Inv : List L → List (Nat × Outcome) → State σ → Prop)
    (reached : Transition.Reaches (step H context) (State.start host number earlier errand) a)
    (keep : ∀ {ls ds l s u}, Gathering H context a items g ds l s → Inv ls ds s →
      step H context s = .next u → Inv (ls ++ shows s) (ds ++ completions g s) u)
    (hs : Gathering H context a items g ds k s) (hw : Waits t goal g.promise s) (inv : Inv ls ds s)
    (h : Transition.Trail (resolve H context t) shows s ms z) :
    ∃ es l, Gathering H context a items g es l z ∧ Inv (ls ++ ms) es z ∧
      (Waits t goal g.promise z ∨
        ∃ o, z.outcome? g.promise = some o ∧ z.control = .outcome t goal o) := by
  induction h generalizing ls ds k with
  | refl s => exact ⟨ds, k, hs, by rwa [List.append_nil], .inl hw⟩
  | @head s v z ms first rest ih =>
    have hstep := step_of_resolve hw first
    obtain ⟨l, -, hgathering⟩ := gathering_of_step reached hs hstep
    have hkept := keep hs inv hstep
    rcases waits_of_step hw hstep with hwaits | ⟨o, ho, -, hc⟩
    · rw [← List.append_assoc]
      exact ih hgathering hwaits hkept
    · cases rest with
      | refl =>
        rw [List.append_nil]
        exact ⟨_, l, hgathering, hkept, .inr ⟨o, outcome_of_step ho hstep, hc⟩⟩
      | head first' _ => rw [resolve_of_outcome hc] at first'; cases first'

/-- A task that waits for an open group has no outcome. -/
theorem Launching.not_answered (hs : Launching g items k s)
    (h : ∃ o, s.outcome? g.promise = some o ∧ s.control = .outcome t goal o) : False := by
  obtain ⟨o, ho, -⟩ := h
  rw [hs.opened] at ho
  cases ho

/-- Of the members only the one that has begun last can be about to perform its effect. -/
theorem Launching.performs (hs : Launching g items k s) {i : Nat}
    (hc : s.control = .perform (g.task i) goal d) : i + 1 = k := by
  rcases hs.busy (g.task i) (by rw [hc]; rfl) with ⟨hlt, -⟩ | heq
  · exact absurd hlt (Nat.not_lt.2 (Nat.le_add_right ..))
  · unfold Place.task at heq
    omega

end

/-! ## The calls -/

section

variable {a s u z : State (σ × List Act)} {shown : List Call} {run : Nat} {initial : σ × List Act}

/-- The call that a member makes. -/
structure IsCallOf (first run : Nat) (m : Nat × Value × Descriptor) (c : Call) : Prop where
  task : c.task = first + m.1
  function : c.function = m.2.1
  args : ∃ effect, c.args = m.2.2.callArgs run effect

/-- The calls on behalf of tasks that have been made with the group or later. -/
def Place.own (g : Place) (cs : List Call) : List Call := cs.filter fun c => g.first ≤ c.task

/-- The calls so far, the one that comes next included. -/
inductive Dispatching (H : Host σ) (context : Value) (g : Place) (items : List Value)
    (run : Nat) (shown : List Call) (s : State (σ × List Act)) : Prop
  | launching (k : Nat) (more : k < g.size) (launching : Launching g items k s)
      (run_eq : s.run = run)
      (calls : List.Forall₂ (IsCallOf g.first run) (Context.callers context (items.take k))
        (g.own (shown ++ calls H context s)))
  | launched (begun : Begun g g.size s) (run_eq : s.run = run) (own later : List Call)
      (split : g.own (shown ++ EventLoop.calls H context s) = own ++ later)
      (calls : List.Forall₂ (IsCallOf g.first run) (Context.callers context items) own)
      (beyond : ∀ c ∈ later, g.first + g.size ≤ c.task)

@[simp] theorem own_append (g : Place) (cs more : List Call) :
    g.own (cs ++ more) = g.own cs ++ g.own more := List.filter_append ..

/-- The calls of a task are calls on its behalf. -/
theorem task_of_mem_calls {c : Call} (h : c ∈ calls H context s) :
    ∃ goal d, s.control = .perform c.task goal d := by
  by_cases hperforms : ∃ k goal d, s.control = .perform k goal d
  · obtain ⟨k, goal, d, hc⟩ := hperforms
    rw [calls_of_perform hc] at h
    obtain ⟨f, -, rfl⟩ := Option.map_eq_some_iff.1 (Option.mem_toList.1 h)
    exact ⟨goal, d, hc⟩
  · rw [calls_of_quiet fun k goal d hc => hperforms ⟨k, goal, d, hc⟩] at h
    cases h

/-- A task that has been made with the group or later is a member or was made later. -/
theorem Place.exists_task {k : Nat} (h : g.first ≤ k) :
    (∃ i < g.size, k = g.task i) ∨ g.first + g.size ≤ k := by
  rcases Nat.lt_or_ge k (g.first + g.size) with hlt | hge
  · refine .inl ⟨k - g.first, by omega, ?_⟩
    unfold Place.task
    omega
  · exact .inr hge

/-- A call of a task that has been made with the group or later. -/
theorem performs_of_mem_own {c : Call} (h : c ∈ g.own (calls H context s)) :
    g.first ≤ c.task ∧ ∃ goal d, s.control = .perform c.task goal d := by
  obtain ⟨hmem, hfirst⟩ := List.mem_filter.1 h
  exact ⟨of_decide_eq_true hfirst, task_of_mem_calls hmem⟩

/-- When the members' effects have been performed they make no calls. -/
theorem beyond_of_past (past : ∀ i < g.size, Past (g.task i) s) :
    ∀ c ∈ g.own (calls H context s), g.first + g.size ≤ c.task := by
  intro c hc
  obtain ⟨hfirst, goal, d, hperforms⟩ := performs_of_mem_own hc
  rcases Place.exists_task hfirst with ⟨i, hi, htask⟩ | hbeyond
  · rw [htask] at hperforms
    exact absurd hperforms ((past i hi).not_performs goal d)
  · exact hbeyond

/-- While the members that have begun are past their effects nobody else calls anything. -/
theorem own_of_launching (hs : Launching g items k s) (hk : k ≤ g.size)
    (past : ∀ i < k, Past (g.task i) s) : g.own (calls H context s) = [] := by
  refine List.eq_nil_iff_forall_not_mem.2 fun c hc => ?_
  obtain ⟨hfirst, goal, d, hperforms⟩ := performs_of_mem_own hc
  rcases hs.busy c.task (by rw [hperforms]; rfl) with ⟨hlt, -⟩ | heq
  · exact absurd hfirst (Nat.not_le.2 hlt)
  · obtain ⟨i, hi, htask⟩ : ∃ i < k, c.task = g.task i := by
      rcases Place.exists_task (g := g) hfirst with ⟨i, -, htask⟩ | hbeyond
      · refine ⟨i, ?_, htask⟩
        unfold Place.task at heq htask
        omega
      · unfold Place.task at heq
        omega
    rw [htask] at hperforms
    exact (past i hi).not_performs goal d hperforms

/-- The members that call a function, one more of them. -/
theorem callers_concat (context : Value) (items : List Value) (item : Value) :
    Context.callers context (items ++ [item]) = Context.callers context items ++
      ((Context.memberCall? context item).map (items.length, ·)).toList := by
  unfold Context.callers
  rw [List.zipIdx_append, List.filterMap_append]
  cases h : Context.memberCall? context item <;> simp [h]

/-- The call of the member that begins. -/
theorem calls_of_begins {item : Value} {run : Nat} (hrun : s.run = run)
    (how : (∃ m e, Descriptor.parse item = .error m ∧
        s.control = .outcome (g.task k) .answer (.error e)) ∨
      ∃ d, Descriptor.parse item = .ok d ∧ s.control = .perform (g.task k) .answer d) :
    List.Forall₂ (IsCallOf g.first run) ((Context.memberCall? context item).map (k, ·)).toList
      (g.own (calls H context s)) := by
  rcases how with ⟨m, e, hparse, hc⟩ | ⟨d, hparse, hc⟩
  · rw [calls_of_quiet fun _ _ _ h => by rw [hc] at h; cases h]
    simp only [Context.memberCall?, hparse]
    exact .nil
  · rw [calls_of_perform hc]
    simp only [Context.memberCall?, hparse]
    cases Context.callee? context d with
    | none => exact .nil
    | some f =>
      have hfirst : g.first ≤ g.task k := Nat.le_add_right ..
      simp only [Place.own, Option.map_some, Option.toList_some, List.filter_cons,
        decide_eq_true hfirst, if_true, List.filter_nil]
      exact .cons ⟨rfl, rfl, s.effects.length, by rw [hrun]⟩ .nil

/-- **What a step makes of the calls.** -/
theorem dispatching_of_step
    (reached : Transition.Reaches (step H.recorded context)
      (State.start initial number earlier errand) a)
    {l : Nat} (gathering : Gathering H.recorded context a items g ds l s)
    (hs : Dispatching H context g items run shown s) (h : step H.recorded context s = .next u) :
    Dispatching H context g items run (shown ++ calls H context s) u := by
  have hpast := reached.trans gathering.after
  have manned := gathering.manned
  cases hs with
  | launching k more launching run_eq dispatched =>
    have hrun : u.run = run := (run_of_step h).trans run_eq
    cases proceeds_of_step (sound_of_reaches hpast) (addressed_of_reaches hpast) manned launching
      more h with
    | stays launching past _ _ =>
      refine .launching k more launching hrun ?_
      rwa [own_append, own_of_launching launching more.le past, List.append_nil]
    | begins item present launching idle _ how =>
      have hcalls : List.Forall₂ (IsCallOf g.first run)
          (Context.callers context (items.take (k + 1)))
          (g.own ((shown ++ calls H context s) ++ calls H context u)) := by
        have hlength : (items.take k).length = k := by
          have hlt := (List.getElem?_eq_some_iff.1 present).1
          exact List.length_take_of_le hlt.le
        rw [List.take_add_one, present, Option.toList_some, callers_concat, hlength, own_append]
        exact List.rel_append dispatched (calls_of_begins hrun how)
      rcases Nat.lt_or_ge (k + 1) g.size with hlt | hge
      · exact .launching (k + 1) hlt launching hrun hcalls
      · have hall : k + 1 = g.size := Nat.le_antisymm more hge
        rw [hall, ← manned.size, List.take_length] at hcalls
        exact .launched (hall ▸ launching.begun) hrun _ [] (List.append_nil _).symm hcalls
          fun c hc => by cases hc
  | launched begun run_eq own later split dispatched beyond =>
    have past := begun.past (fun i hi => manned.task_lt hi) h
    refine .launched (fun i hi => .inl (past i hi)) ((run_of_step h).trans run_eq) own
      (later ++ g.own (calls H context u)) ?_ dispatched fun c hc => ?_
    · rw [own_append, split, List.append_assoc]
    · rcases List.mem_append.1 hc with hc | hc
      · exact beyond c hc
      · exact beyond_of_past past c hc

/-- **Every member that calls a function has called it when the outcome of the group is there**,
once, in order, and before anybody who was made later. -/
theorem dispatched_of_trail
    (reached : Transition.Reaches (step H.recorded context)
      (State.start initial number earlier errand) a)
    (performs : a.control = .perform t goal d) (mode : d.mode = .parallel) {o : Outcome}
    (h : Transition.Trail (resolve H.recorded context t) (calls H context) a shown z)
    (control : z.control = .outcome t goal o) :
    let g := Place.next a d.args.length
    ∃ own later, g.own shown = own ++ later ∧
      List.Forall₂ (IsCallOf g.first a.run) (Context.callers context d.args) own ∧
      ∀ c ∈ later, g.first + g.size ≤ c.task := by
  intro g
  have hquiet : calls H context a = [] := by
    rw [calls_of_perform performs]
    simp only [Context.callee?, if_pos mode]
    rfl
  rcases h.cases_of_next (resolve_of_parallel H.recorded context performs mode) with
    ⟨rfl, -⟩ | ⟨ms, rfl, hrest⟩
  · rw [performs] at control
    cases control
  rw [hquiet, List.nil_append]
  by_cases nonempty : d.args = []
  · refine ⟨[], g.own ms, rfl, ?_, fun c hc => ?_⟩
    · rw [nonempty]
      exact .nil
    · have hsize : g.size = 0 := List.length_eq_zero_iff.2 nonempty
      rw [hsize]
      exact of_decide_eq_true (List.mem_filter.1 hc).2
  obtain ⟨u, hstep, hgathering, hwaits⟩ := gathering_of_perform reached performs mode nonempty
  have hlaunching := launching_of_perform reached performs mode nonempty hstep
  obtain rfl := Transition.next.inj (hstep.symm.trans (step_of_parallel _ context performs mode))
  have hstart : Dispatching H context g d.args a.run []
      (gather (a.toIdle.note (.dispatching d.args.length)) t goal (d.args.map .perform)) := by
    refine .launching 0 (List.length_pos_iff.2 nonempty) hlaunching (run_of_step hstep) ?_
    rw [List.nil_append, own_of_launching hlaunching (Nat.zero_le _)
      fun i hi => absurd hi (Nat.not_lt_zero i)]
    exact .nil
  obtain ⟨es, l, -, hinv, hend⟩ :=
    Gathering.carry (fun shown _ s => Dispatching H context g d.args a.run shown s) reached
      (dispatching_of_step reached) hgathering hwaits hstart hrest
  have hanswered := hend.resolve_left fun hw => hw.elsewhere (by rw [control]; rfl)
  rw [List.nil_append] at hinv
  cases hinv with
  | launching k _ launching _ _ => exact (launching.not_answered hanswered).elim
  | launched _ _ own later split dispatched beyond =>
    have hlast : calls H context z = [] :=
      calls_of_quiet fun _ _ _ hc => Control.noConfusion (control.symm.trans hc)
    rw [hlast, List.append_nil] at split
    exact ⟨own, later, split, dispatched, beyond⟩

end

end EventLoop
end DescribedEffects
