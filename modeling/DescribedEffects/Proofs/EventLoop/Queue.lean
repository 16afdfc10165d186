import DescribedEffects.Proofs.EventLoop.Ownership

/-!
# The ready queue moves on

Jobs are queued behind those that are there, and an outcome that is there stays.  `Onward`
says so, and every step that is no job goes onward (`onward_of_changes`).  So a job that is
in the queue comes up after finitely many steps, unless the loop ends before or is kept
from ever looking at the queue again (`comes_up`).  The last can happen: a computation that
yields other computations without end never gives way.
-/

namespace DescribedEffects
namespace EventLoop

variable {σ : Type} {H : Host σ} {context : Value} {t : Nat} {claims completes : Nat → Prop}

/-- The queue has grown at its end, and outcomes that were there are there. -/
structure Onward (s u : State σ) : Prop where
  ready : s.ready <+: u.ready
  outcome : ∀ {p : Nat} {o : Outcome}, s.outcome? p = some o → u.outcome? p = some o
  batch : u.batch = s.batch
  stopping : u.stopping = s.stopping
  run : u.run = s.run
  tasks : s.tasks.length ≤ u.tasks.length

theorem Onward.refl (s : State σ) : Onward s s :=
  ⟨List.prefix_refl _, id, rfl, rfl, rfl, Nat.le_refl _⟩

theorem Onward.trans {s u v : State σ} (h : Onward s u) (k : Onward u v) : Onward s v where
  ready := h.ready.trans k.ready
  outcome ho := k.outcome (h.outcome ho)
  batch := k.batch.trans h.batch
  stopping := k.stopping.trans h.stopping
  run := k.run.trans h.run
  tasks := Nat.le_trans h.tasks k.tasks

/-- Making a promise keeps the outcomes that are there. -/
theorem outcome_concat {s u : State σ} {new : Promise} (h : u.promises = s.promises ++ [new])
    {p : Nat} {o : Outcome} (ho : s.outcome? p = some o) : u.outcome? p = some o := by
  obtain ⟨pr, hpr, hout⟩ := Option.bind_eq_some_iff.1 ho
  have hlt := (List.getElem?_eq_some_iff.1 hpr).1
  unfold State.outcome?
  rw [h, List.getElem?_append_left hlt, hpr]
  exact hout

/-- Completing a promise keeps the outcomes that are there. -/
theorem outcome_complete_of_some {s : State σ} {p : Nat} {o : Outcome}
    (ho : s.outcome? p = some o) (q : Nat) (x : Outcome) :
    (s.complete q x).outcome? p = some o := by
  rcases s.complete_cases q x with ⟨_, hw, hu⟩ | hu <;> rw [hu]
  · obtain ⟨pr, hpr, hout⟩ := Option.bind_eq_some_iff.1 ho
    have hne : q ≠ p := by
      rintro rfl
      rw [hw] at hpr
      cases hpr
      cases hout
    unfold State.outcome?
    rw [List.getElem?_set_ne hne, hpr]
    exact hout
  · exact ho

/-- A promise is completed once. -/
theorem complete_of_outcome {s : State σ} {p : Nat} {o : Outcome} (h : s.outcome? p = some o)
    (x : Outcome) : s.complete p x = s := by
  rcases s.complete_cases p x with ⟨waiters, hw, -⟩ | hu
  · simp [State.outcome?, hw] at h
  · exact hu

theorem onward_of_granting {s u : State σ} (h : Granting claims s u) : Onward s u := by
  cases h with
  | drained host => exact { Onward.refl s with }
  | reported may hi unclaimed error value =>
    exact { Onward.refl s with ready := List.prefix_append .. }
  | deferred n f args => exact { Onward.refl s with }
  | future id o => exact { Onward.refl s with outcome := outcome_concat rfl }
  | ripening hf n o => exact { Onward.refl s with }

theorem onward_of_change {s u : State σ} (h : Change H t claims completes s u) :
    Onward s u := by
  cases h with
  | asked _ => exact { Onward.refl s with }
  | granted =>
    exact kept_of_granting (P := Onward s) (fun h hs => hs.trans (onward_of_granting h))
      (granting_grantAll H s) (.refl s)
  | noted n => exact { Onward.refl s with }
  | idled => exact { Onward.refl s with }
  | turned _ => exact { Onward.refl s with }
  | moved phase =>
    rcases s.setPhase_cases t phase with ⟨_, -, hu⟩ | hu <;> rw [hu]
    · exact { Onward.refl s with tasks := by simp }
    · exact .refl s
  | queued => exact { Onward.refl s with ready := List.prefix_append .. }
  | timed n => exact { Onward.refl s with }
  | promised o => exact { Onward.refl s with outcome := outcome_concat rfl }
  | subscribed p hj _ =>
    rcases s.subscribe_cases p _ with ⟨_, hp, hu⟩ | hu <;> rw [hu]
    · refine { Onward.refl s with outcome := fun {q o} ho => ?_ }
      obtain ⟨pr, hpr, hout⟩ := Option.bind_eq_some_iff.1 ho
      have hne : p ≠ q := by
        rintro rfl
        rw [hp] at hpr
        cases hpr
        cases hout
      unfold State.outcome?
      rw [List.getElem?_set_ne hne, hpr]
      exact hout
    · exact .refl s
  | tasked errand =>
    exact { Onward.refl s with
      ready := List.prefix_append ..
      outcome := outcome_concat rfl
      tasks := by simp [State.newTask, State.newPromise, State.enqueue] }
  | grouped n => exact { Onward.refl s with outcome := outcome_concat rfl }
  | regrouped hg members remaining => exact { Onward.refl s with }
  | opened d => exact { Onward.refl s with outcome := outcome_concat rfl }
  | claimed hi =>
    rw [State.claim_frame]
    exact { Onward.refl s with }
  | @completed p hp o =>
    have houtcome : ∀ {q x}, s.outcome? q = some x → (s.complete p o).outcome? q = some x :=
      fun hx => outcome_complete_of_some hx p o
    rcases s.complete_cases p o with ⟨_, -, hu⟩ | hu <;> rw [hu] at houtcome ⊢
    · exact { Onward.refl s with ready := List.prefix_append .., outcome := houtcome }
    · exact .refl s

/-- **Small changes go onward.** -/
theorem onward_of_changes {s u : State σ} (h : Changes H t claims completes s u) :
    Onward s u :=
  h.kept (P := Onward s) (fun hc hs => hs.trans (onward_of_change hc)) (.refl s)

variable (H context) in
/-- A step that is no job goes on, and goes onward. -/
theorem step_onward {s : State σ} (h : s.control ≠ .idle) :
    ∃ u, step H context s = .next u ∧ Onward s u := by
  obtain ⟨t, ht⟩ : ∃ t, s.control.task? = some t :=
    Option.ne_none_iff_exists'.1 fun hnone => h (Control.eq_idle hnone)
  obtain ⟨u, hu, hchanges⟩ := freeChanges_step H context s ht
  have htoIdle : Onward s s.toIdle := { Onward.refl s with }
  exact ⟨u, hu, htoIdle.trans (onward_of_changes hchanges)⟩

/-- A step takes back no outcome and loses no task. -/
theorem lasting_of_step {s u : State σ} (h : step H context s = .next u) :
    (∀ q o, s.outcome? q = some o → u.outcome? q = some o) ∧
      s.tasks.length ≤ u.tasks.length := by
  by_cases hidle : s.control = .idle
  · rcases step_idle_cases hidle h with ⟨n, j, rest, -, -, rfl⟩ | ⟨n, rfl⟩ | ⟨_, _, -, -, rfl⟩
    · by_cases hstop : j = .stop
      · subst hstop
        exact ⟨fun _ _ => id, Nat.le_refl _⟩
      · obtain ⟨k, hchanges⟩ := freeChanges_runJob H { s with ready := rest, batch := n } hstop
        have honward := onward_of_changes hchanges
        exact ⟨fun _ _ => honward.outcome, honward.tasks⟩
    · exact ⟨fun _ _ => id, Nat.le_refl _⟩
    · exact ⟨fun _ _ => id, Nat.le_refl _⟩
  · obtain ⟨v, hv, honward⟩ := step_onward H context hidle
    obtain rfl : v = u := Transition.next.inj (hv.symm.trans h)
    exact ⟨fun _ _ => honward.outcome, honward.tasks⟩

/-- Outcomes that are there stay. -/
theorem outcome_of_step {s u : State σ} {q : Nat} {o : Outcome} (ho : s.outcome? q = some o)
    (h : step H context s = .next u) : u.outcome? q = some o :=
  (lasting_of_step h).1 q o ho

/-- The loop does not lose tasks. -/
theorem tasks_le_of_reaches {s u : State σ} (h : Transition.Reaches (step H context) s u) :
    s.tasks.length ≤ u.tasks.length :=
  h.invariant (P := fun v => s.tasks.length ≤ v.tasks.length)
    (fun _ _ hv hstep => Nat.le_trans hv (lasting_of_step hstep).2) (Nat.le_refl _)

/-! ## Outcomes -/

section

variable {s u : State σ} {p : Nat}

/-- Making another promise leaves the outcome of an earlier one alone. -/
theorem outcome_concat_eq {new : Promise} (h : u.promises = s.promises ++ [new])
    (hp : p < s.promises.length) : u.outcome? p = s.outcome? p := by
  unfold State.outcome?
  rw [h, List.getElem?_append_left hp]

/-- Completing another promise leaves the outcome of this one alone. -/
theorem outcome_complete_of_ne {q : Nat} (h : q ≠ p) (o : Outcome) :
    (s.complete q o).outcome? p = s.outcome? p := by
  rcases s.complete_cases q o with ⟨_, -, hu⟩ | hu <;> rw [hu]
  unfold State.outcome?
  rw [List.getElem?_set_ne h]

/-- Waiting for a promise leaves all outcomes alone. -/
theorem outcome_subscribe (s : State σ) (q : Nat) (j : Job) (p : Nat) :
    (s.subscribe q j).outcome? p = s.outcome? p := by
  rcases s.subscribe_cases q j with ⟨_, hq, hu⟩ | hu <;> rw [hu]
  unfold State.outcome?
  by_cases hqp : q = p
  · subst hqp
    have hlt := (List.getElem?_eq_some_iff.1 hq).1
    rw [List.getElem?_set_self hlt, hq]
    rfl
  · rw [List.getElem?_set_ne hqp]

end

/-! ## Whom the loop is busy with -/

theorem control_of_granting {s u : State σ} (h : Granting claims s u) :
    u.control = s.control := by
  cases h <;> rfl

/-- What is done on behalf of a task leaves the loop busy with that task at most. -/
theorem control_of_change {s u : State σ} (h : Change H t claims completes s u)
    (hs : ∀ k, s.control.task? = some k → k = t) : ∀ k, u.control.task? = some k → k = t := by
  cases h with
  | granted =>
    refine kept_of_granting (P := fun u => ∀ k, u.control.task? = some k → k = t)
      (fun h hs => ?_) (granting_grantAll H s) hs
    rwa [control_of_granting h]
  | idled => exact fun k hk => by cases hk
  | turned hc => exact fun k hk => Option.some.inj (hk.symm.trans hc)
  | moved phase =>
    rw [State.setPhase_frame]
    exact hs
  | subscribed p hj _ =>
    rw [State.subscribe_frame]
    exact hs
  | claimed hi =>
    rw [State.claim_frame]
    exact hs
  | completed hp o =>
    rw [State.complete_frame]
    exact hs
  | _ => exact hs

theorem control_of_changes {s u : State σ} (h : Changes H t claims completes s u)
    (hs : ∀ k, s.control.task? = some k → k = t) : ∀ k, u.control.task? = some k → k = t :=
  h.kept (P := fun u => ∀ k, u.control.task? = some k → k = t) control_of_change hs

/-- The loop is busy with a task that there is. -/
def Placed (s : State σ) : Prop := ∀ t, s.control.task? = some t → t < s.tasks.length

variable (H) in
theorem placed_of_runJob {s : State σ} (hidle : s.control = .idle) (j : Job) :
    Placed (runJob H s j) := by
  have hnobody : ∀ t k, s.control.task? = some k → k = t := by
    intro t k hk
    rw [hidle] at hk
    cases hk
  intro k hk
  by_cases hstop : j = .stop
  · subst hstop
    exact absurd hk (by simp [runJob, hidle, Control.task?])
  · by_cases hstep : ∃ t, j = .step t
    · obtain ⟨t, rfl⟩ := hstep
      have hchanges : FreeChanges H t s (runJob H s (.step t)) :=
        changes_runJob s (fun _ h => (Job.step.inj h).symm) hstop fun _ _ => trivial
      obtain rfl := control_of_changes hchanges (hnobody t) k hk
      cases htask : s.tasks[k]? with
      | some task =>
        exact Nat.lt_of_lt_of_le (List.getElem?_eq_some_iff.1 htask).1
          (onward_of_changes hchanges).tasks
      | none =>
        have hnone : runJob H s (.step k) = s := by simp [runJob, stepTask, htask]
        rw [hnone, hidle] at hk
        cases hk
    · -- Nobody acts here, so nobody in particular does.
      have hboth : ∀ t, k = t := by
        intro t
        have hchanges : FreeChanges H t s (runJob H s j) :=
          changes_runJob s (fun i h => absurd ⟨i, h⟩ hstep) hstop fun _ _ => trivial
        exact control_of_changes hchanges (hnobody t) k hk
      exact absurd ((hboth 0).symm.trans (hboth 1)) Nat.zero_ne_one

theorem placed_of_step {s u : State σ} (hs : Placed s) (h : step H context s = .next u) :
    Placed u := by
  cases htask : s.control.task? with
  | some t =>
    obtain ⟨v, hv, hchanges⟩ := freeChanges_step H context s htask
    obtain rfl : v = u := Transition.next.inj (hv.symm.trans h)
    intro k hk
    obtain rfl := control_of_changes hchanges (fun _ h => by cases h) k hk
    exact Nat.lt_of_lt_of_le (hs k htask) (onward_of_changes hchanges).tasks
  | none =>
    have hidle : s.control = .idle := Control.eq_idle htask
    rcases step_idle_cases hidle h with ⟨n, j, rest, -, -, rfl⟩ | ⟨n, rfl⟩ | ⟨_, _, -, -, rfl⟩
    · exact placed_of_runJob H (s := { s with ready := rest, batch := n }) hidle j
    · exact hs
    · exact hs

/-- In every state that the loop comes to it is busy with a task that there is. -/
theorem placed_of_reaches {s u : State σ} (h : Transition.Reaches (step H context) s u)
    (hs : Placed s) : Placed u :=
  h.invariant (fun _ _ => placed_of_step) hs

/-! ## Jobs come up -/

variable (H context) in
/-- The next job of the current batch is run. -/
theorem step_of_batch {s : State σ} {n : Nat} {j : Job} {rest : List Job}
    (hidle : s.control = .idle) (hb : s.batch = n + 1) (hr : s.ready = j :: rest) :
    step H context s = .next (runJob H { s with ready := rest, batch := n } j) := by
  rw [step_of_idle H context hidle]
  unfold stepIdle
  rw [hb, hr]

variable (H context) in
/-- A batch begins with all that is in the queue. -/
theorem step_of_queue {s : State σ} (hidle : s.control = .idle) (hb : s.batch = 0)
    (hstop : s.stopping = false) (hr : s.ready ≠ []) :
    step H context s = .next { s with batch := s.ready.length } := by
  rw [step_of_idle H context hidle]
  unfold stepIdle
  obtain ⟨j, rest, hj⟩ := List.exists_cons_of_ne_nil hr
  rw [hb, hj, hstop]
  rfl

variable (H context) in
/-- A loop that is stopping ends with its batch. -/
theorem step_of_stopping {s : State σ} (hidle : s.control = .idle) (hb : s.batch = 0)
    (hstop : s.stopping = true) : ∃ r, step H context s = .done r := by
  rw [step_of_idle H context hidle]
  unfold stepIdle
  rw [hb, hstop]
  dsimp only
  rw [if_pos rfl]
  cases s.outcome? 0 with
  | some o => exact ⟨.finished o s, rfl⟩
  | none => exact ⟨.deadlock s, rfl⟩

variable (H) in
/-- Running a job keeps the queue behind it. -/
theorem ready_runJob (s : State σ) (j : Job) : s.ready <+: (runJob H s j).ready := by
  by_cases hstop : j = .stop
  · subst hstop
    exact List.prefix_refl _
  · obtain ⟨t, h⟩ := freeChanges_runJob H s hstop
    exact (onward_of_changes h).ready

/-- Until nothing is under way the job at the head of the queue stays there. -/
theorem first_idle {s v : State σ} (h : Transition.Reaches (step H context) s v)
    (hidle : v.control = .idle) {after : List Job} {j : Job} (hr : s.ready = j :: after) :
    ∃ w rest, Transition.Reaches (step H context) s w ∧ w.control = .idle ∧
      w.ready = j :: rest ∧ after <+: rest := by
  induction h generalizing after with
  | refl s => exact ⟨s, after, .refl s, hidle, hr, List.prefix_refl _⟩
  | @head s u v first _ ih =>
    by_cases hs : s.control = .idle
    · exact ⟨s, after, .refl s, hs, hr, List.prefix_refl _⟩
    · obtain ⟨u', hu', honward⟩ := step_onward H context hs
      obtain rfl : u' = u := Transition.next.inj (hu'.symm.trans first)
      obtain ⟨more, hmore⟩ := honward.ready
      rw [hr, List.cons_append] at hmore
      obtain ⟨w, rest, hw, hwidle, hwr, hafter⟩ := ih hidle hmore.symm
      exact ⟨w, rest, .head first hw, hwidle, hwr, (List.prefix_append ..).trans hafter⟩

/-- What can become of a loop before it gets to a state: it ends, or it never again gets
to look at its queue. -/
def Cut (H : Host σ) (context : Value) (s : State σ) : Prop :=
  (∃ w r, Transition.Reaches (step H context) s w ∧ step H context w = .done r) ∨
    ∃ w, Transition.Reaches (step H context) s w ∧
      ∀ v, Transition.Reaches (step H context) w v → v.control ≠ .idle

theorem Cut.of_reaches {s u : State σ} (h : Transition.Reaches (step H context) s u)
    (hu : Cut H context u) : Cut H context s := by
  rcases hu with ⟨w, r, hw, hr⟩ | ⟨w, hw, hnever⟩
  · exact .inl ⟨w, r, h.trans hw, hr⟩
  · exact .inr ⟨w, h.trans hw, hnever⟩

variable (H context) in
/-- The job at the head of the queue comes up in a batch. -/
theorem head_comes_up {s : State σ} {j : Job} {after : List Job} (hr : s.ready = j :: after) :
    (∃ w n rest, Transition.Reaches (step H context) s w ∧ w.control = .idle ∧
        w.batch = n + 1 ∧ w.ready = j :: rest ∧ after <+: rest) ∨ Cut H context s := by
  by_cases hidle : ∃ v, Transition.Reaches (step H context) s v ∧ v.control = .idle
  · obtain ⟨v, hv, hvidle⟩ := hidle
    obtain ⟨w, rest, hw, hwidle, hwr, hmore⟩ := first_idle hv hvidle hr
    cases hb : w.batch with
    | succ n => exact .inl ⟨w, n, rest, hw, hwidle, hb, hwr, hmore⟩
    | zero =>
      cases hstop : w.stopping with
      | true =>
        obtain ⟨r, hdone⟩ := step_of_stopping H context hwidle hb hstop
        exact .inr (.inl ⟨w, r, hw, hdone⟩)
      | false =>
        have hstep := step_of_queue H context hwidle hb hstop (by rw [hwr]; simp)
        refine .inl ⟨_, rest.length, rest, hw.tail hstep, hwidle, ?_, hwr, hmore⟩
        rw [hwr]
        rfl
  · exact .inr (.inr ⟨s, .refl s, fun v hv hc => hidle ⟨v, hv, hc⟩⟩)

variable (H context) in
/-- **A job that is in the queue comes up**, unless the loop ends before or never again
gets to look at its queue. -/
theorem comes_up {before after : List Job} {j : Job} {s : State σ}
    (hr : s.ready = before ++ j :: after) :
    (∃ w n rest, Transition.Reaches (step H context) s w ∧ w.control = .idle ∧
        w.batch = n + 1 ∧ w.ready = j :: rest) ∨ Cut H context s := by
  induction before generalizing s after with
  | nil =>
    rcases head_comes_up H context hr with
      ⟨w, n, rest, hw, hidle, hb, hwr, -⟩ | hcut
    · exact .inl ⟨w, n, rest, hw, hidle, hb, hwr⟩
    · exact .inr hcut
  | cons b before ih =>
    rcases head_comes_up H context hr with
      ⟨w, n, rest, hw, hidle, hb, hwr, more, hmore⟩ | hcut
    · have hstep := step_of_batch H context hidle hb hwr
      obtain ⟨added, hadded⟩ := ready_runJob H { w with ready := rest, batch := n } b
      have hready : (runJob H { w with ready := rest, batch := n } b).ready =
          before ++ j :: (after ++ (more ++ added)) := by
        rw [← hadded, ← hmore]
        simp
      rcases ih hready with ⟨v, m, rest', hv, hvidle, hvb, hvr⟩ | hcut
      · exact .inl ⟨v, m, rest', (hw.tail hstep).trans hv, hvidle, hvb, hvr⟩
      · exact .inr (hcut.of_reaches (hw.tail hstep))
    · exact .inr hcut

end EventLoop
end DescribedEffects
