import DescribedEffects.Proofs.EventLoop.Turns

/-!
# Whose turns are in the queue

The turn of a task is a job, and there are such jobs in the queue, among the timers and among
those that wait for a promise.  `Enrolled` says that all of them are turns of tasks that have
been made.  So whoever makes a task finds none of its turns there: when a task has its first
turn, it is the one that was queued when the task was made.
-/

namespace DescribedEffects
namespace EventLoop

variable {σ : Type} {H : Host σ} {context : Value} {t : Nat} {claims completes : Nat → Prop}
  {s u : State σ}

/-- All jobs there are: in the queue, among the timers, and those that wait. -/
def State.jobs (s : State σ) : List Job :=
  s.ready ++ s.timers.map Timer.job ++ s.promises.flatMap Promise.waiters

theorem mem_jobs {j : Job} : j ∈ s.jobs ↔ j ∈ s.ready ∨ (∃ tm ∈ s.timers, tm.job = j) ∨
    ∃ p ∈ s.promises, j ∈ p.waiters := by
  simp [State.jobs]

/-- No job is the turn of a task that has not been made. -/
def Enrolled (s : State σ) : Prop := ∀ k, .step k ∈ s.jobs → k < s.tasks.length

/-- What is new in the queue, among the timers and among those that wait is no turn of a task
that has not been made. -/
theorem Enrolled.transfer (hs : Enrolled s) (tasks : s.tasks.length ≤ u.tasks.length)
    (ready : ∀ k, .step k ∈ u.ready → .step k ∈ s.ready ∨ k < u.tasks.length)
    (timers : ∀ tm ∈ u.timers, tm ∈ s.timers ∨ ∀ k, tm.job = .step k → k < u.tasks.length)
    (waiters : ∀ p ∈ u.promises, ∀ k, .step k ∈ p.waiters →
      (∃ q ∈ s.promises, .step k ∈ q.waiters) ∨ k < u.tasks.length) : Enrolled u := by
  intro k hk
  have hold : .step k ∈ s.jobs → k < u.tasks.length :=
    fun h => Nat.lt_of_lt_of_le (hs k h) tasks
  rcases mem_jobs.1 hk with hk | ⟨tm, htm, hj⟩ | ⟨p, hp, hk⟩
  · exact (ready k hk).elim (fun h => hold (mem_jobs.2 (.inl h))) id
  · rcases timers tm htm with htm | hnew
    · exact hold (mem_jobs.2 (.inr (.inl ⟨tm, htm, hj⟩)))
    · exact hnew k hj
  · exact (waiters p hp k hk).elim (fun h => hold (mem_jobs.2 (.inr (.inr h)))) id

/-- The jobs are those that there were. -/
theorem Enrolled.same (hs : Enrolled s) (tasks : s.tasks.length ≤ u.tasks.length)
    (ready : u.ready = s.ready) (timers : u.timers = s.timers)
    (promises : u.promises = s.promises) : Enrolled u :=
  hs.transfer tasks (fun _ h => .inl (ready ▸ h)) (fun _ h => .inl (timers ▸ h))
    fun p hp _ h => .inl ⟨p, promises ▸ hp, h⟩

/-- One more promise, for which nothing waits. -/
theorem steps_new {new : Promise} (hnew : new.waiters = []) {n : Nat} :
    ∀ p ∈ s.promises ++ [new], ∀ k, .step k ∈ p.waiters →
      (∃ q ∈ s.promises, .step k ∈ q.waiters) ∨ k < n := by
  intro p hp k hk
  rcases List.mem_append.1 hp with hp | hp
  · exact .inl ⟨p, hp, hk⟩
  · rw [List.mem_singleton.1 hp, hnew] at hk
    cases hk

theorem enrolled_of_granting (h : Granting claims s u) (hs : Enrolled s) : Enrolled u := by
  have htimers : ∀ {n : Nat} {j : Job}, (∀ k, j ≠ .step k) → ∀ tm ∈ (s.setTimer n j).timers,
      tm ∈ s.timers ∨ ∀ k, tm.job = .step k → k < s.tasks.length := by
    intro n j hj tm htm
    exact (mem_timers_setTimer htm).imp_right fun h k hk => absurd (h.symm.trans hk) (hj k)
  cases h with
  | drained host => exact hs.same (Nat.le_refl _) rfl rfl rfl
  | reported may hi unclaimed error value =>
    exact hs.transfer (Nat.le_refl _) (fun k hk => .inl (by simpa using hk)) (fun _ => .inl)
      fun p hp _ h => .inl ⟨p, hp, h⟩
  | deferred n f args =>
    exact hs.transfer (Nat.le_refl _) (fun _ => .inl) (htimers fun _ => Job.noConfusion)
      fun p hp _ h => .inl ⟨p, hp, h⟩
  | future id o =>
    exact hs.transfer (Nat.le_refl _) (fun _ => .inl) (fun _ => .inl) (steps_new rfl)
  | ripening hf n o =>
    exact hs.transfer (Nat.le_refl _) (fun _ => .inl) (htimers fun _ => Job.noConfusion)
      fun p hp _ h => .inl ⟨p, hp, h⟩

theorem enrolled_of_change (h : Change H t claims completes s u) (ht : t < s.tasks.length)
    (hs : Enrolled s) : Enrolled u := by
  have hsame : ∀ {n : Nat}, ∀ p ∈ s.promises, ∀ k, .step k ∈ p.waiters →
      (∃ q ∈ s.promises, Job.step k ∈ q.waiters) ∨ k < n := fun p hp _ h => .inl ⟨p, hp, h⟩
  have hturn : ∀ {n k : Nat}, .step k ∈ s.ready ++ [.step n] → Job.step k ∈ s.ready ∨ k = n := by
    intro n k hk
    simpa using hk
  cases h with
  | granted => exact kept_of_granting enrolled_of_granting (granting_grantAll H s) hs
  | moved phase =>
    refine hs.same ?_ ?_ ?_ (promises_setPhase ..)
    · exact Nat.le_of_eq (by rw [tasks_setPhase, length_moved])
    · rw [State.setPhase_frame]
    · rw [State.setPhase_frame]
  | queued =>
    exact hs.transfer (Nat.le_refl _)
      (fun k hk => (hturn hk).imp_right fun h => lt_of_eq_of_lt h ht) (fun _ => .inl) hsame
  | timed n =>
    refine hs.transfer (Nat.le_refl _) (fun _ => .inl) (fun tm htm => ?_) hsame
    refine (mem_timers_setTimer htm).imp_right fun h k hk => ?_
    rw [h] at hk
    cases hk
    exact ht
  | promised o => exact hs.transfer (Nat.le_refl _) (fun _ => .inl) (fun _ => .inl) (steps_new rfl)
  | @subscribed q j hj _ why =>
    have hnew : ∀ k, j = .step k → k < s.tasks.length := by
      rintro k rfl
      rcases why with ⟨h, -⟩ | ⟨g, n, r, h, -⟩
      · cases h
        exact ht
      · cases h
    rcases s.subscribe_cases q j with ⟨_, hq, hu⟩ | hu <;> rw [hu]
    · refine hs.transfer (Nat.le_refl _) (fun _ => .inl) (fun _ => .inl) fun p hp k hk => ?_
      rcases List.mem_or_eq_of_mem_set hp with hp | rfl
      · exact .inl ⟨p, hp, hk⟩
      · rcases List.mem_append.1 hk with hk | hk
        · exact .inl ⟨_, List.mem_of_getElem? hq, hk⟩
        · exact .inr (hnew k (List.mem_singleton.1 hk).symm)
    · exact hs
  | tasked errand =>
    refine hs.transfer (by simp [State.newTask, State.newPromise, State.enqueue])
      (fun k hk => ?_) (fun _ => .inl) (steps_new rfl)
    refine (hturn hk).imp_right fun h => ?_
    subst h
    simp [State.newTask, State.newPromise, State.enqueue]
  | grouped n => exact hs.transfer (Nat.le_refl _) (fun _ => .inl) (fun _ => .inl) (steps_new rfl)
  | opened d => exact hs.transfer (Nat.le_refl _) (fun _ => .inl) (fun _ => .inl) (steps_new rfl)
  | claimed hi =>
    rw [State.claim_frame]
    exact hs.same (Nat.le_refl _) rfl rfl rfl
  | @completed q hq o =>
    rcases s.complete_cases q o with ⟨_, hw, hu⟩ | hu <;> rw [hu]
    · have hmem := List.mem_of_getElem? hw
      refine hs.transfer (Nat.le_refl _) (fun k hk => ?_) (fun _ => .inl) fun p hp k hk => ?_
      · rcases List.mem_append.1 hk with hk | hk
        · exact .inl hk
        · exact .inr (hs k (mem_jobs.2 (.inr (.inr ⟨_, hmem, hk⟩))))
      · rcases List.mem_or_eq_of_mem_set hp with hp | rfl
        · exact .inl ⟨p, hp, hk⟩
        · cases hk
    · exact hs
  | _ => exact hs.same (Nat.le_refl _) rfl rfl rfl

theorem enrolled_of_changes (h : Changes H t claims completes s u) (ht : t < s.tasks.length)
    (hs : Enrolled s) : Enrolled u := by
  have hboth : t < u.tasks.length ∧ Enrolled u :=
    h.kept (P := fun u => t < u.tasks.length ∧ Enrolled u)
      (fun hc hv => ⟨Nat.lt_of_lt_of_le hv.1 (onward_of_change hc).tasks,
        enrolled_of_change hc hv.1 hv.2⟩) ⟨ht, hs⟩
  exact hboth.2

theorem enrolled_of_step (main : Main s) (placed : Placed s) (hs : Enrolled s)
    (h : step H context s = .next u) : Enrolled u := by
  cases htask : s.control.task? with
  | some k =>
    obtain ⟨v, hv, hchanges⟩ := freeChanges_step H context s htask
    obtain rfl : v = u := Transition.next.inj (hv.symm.trans h)
    exact enrolled_of_changes hchanges (placed k htask) (hs.same (Nat.le_refl _) rfl rfl rfl)
  | none =>
    have hidle : s.control = .idle := Control.eq_idle htask
    rcases step_idle_cases hidle h with
      ⟨n, j, rest, -, hr, rfl⟩ | ⟨n, rfl⟩ | ⟨tm, later, hr, ht, rfl⟩
    · have hpop : Enrolled { s with ready := rest, batch := n } :=
        hs.transfer (Nat.le_refl _) (fun k hk => .inl (hr ▸ List.mem_cons_of_mem j hk))
          (fun _ => .inl) fun p hp _ h => .inl ⟨p, hp, h⟩
      by_cases hstop : j = .stop
      · subst hstop
        exact hpop.same (Nat.le_refl _) rfl rfl rfl
      · -- A job that is no turn is done on behalf of nobody in particular.
        obtain ⟨k, hk, hchanges⟩ : ∃ k < s.tasks.length, FreeChanges H k
            { s with ready := rest, batch := n }
            (runJob H { s with ready := rest, batch := n } j) :=
          exists_changes_runJob _ ⟨0, main.present⟩
            (fun k hk => hs k (mem_jobs.2 (.inl (hr ▸ hk ▸ List.mem_cons_self ..)))) hstop
            fun _ _ => trivial
        exact enrolled_of_changes hchanges hk hpop
    · exact hs.same (Nat.le_refl _) rfl rfl rfl
    · have hold : ∀ k, tm.job = .step k → k < s.tasks.length := fun k hk =>
        hs k (mem_jobs.2 (.inr (.inl ⟨tm, ht ▸ List.mem_cons_self .., hk⟩)))
      exact hs.transfer (Nat.le_refl _)
        (fun k hk => .inr (hold k (List.mem_singleton.1 hk).symm))
        (fun x hx => .inl (ht ▸ List.mem_cons_of_mem _ hx)) fun p hp _ h => .inl ⟨p, hp, h⟩

variable {host : σ} {number : Nat} {earlier : List (Nat × Outcome)} {errand : Errand}

theorem enrolled_of_reaches
    (reached : Transition.Reaches (step H context) (State.start host number earlier errand) s) :
    Enrolled s := by
  have hall : Sound s ∧ Main s ∧ Placed s ∧ Enrolled s := by
    refine reached.invariant (P := fun s => Sound s ∧ Main s ∧ Placed s ∧ Enrolled s)
      (fun v w hv hstep => ?_) ⟨sound_start .., main_start .., fun k hk => (by cases hk), ?_⟩
    · obtain ⟨sound, main, placed, enrolled⟩ := hv
      exact ⟨sound_of_step sound hstep, main_of_step sound main hstep, placed_of_step placed hstep,
        enrolled_of_step main placed enrolled hstep⟩
    · intro k hk
      have hk : k = 0 := by simpa [State.jobs, State.start] using hk
      subst hk
      exact Nat.zero_lt_one
  exact hall.2.2.2

end EventLoop
end DescribedEffects
