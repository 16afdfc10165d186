import DescribedEffects.Proofs.EventLoop.MainTask

/-!
# Nobody reads the outcome of the main task

The outcome of the main task is in the first promise.  The job that stops the loop waits for
that promise, and the end of the loop reads it; nobody else does.  No task waits for it, and no
group has it among its members or is told of it (`unread_of_reaches`).

So what the outcome is makes no difference to the rest of the run.
-/

namespace DescribedEffects
namespace EventLoop

variable {σ : Type} {H : Host σ} {context : Value} {t : Nat} {claims completes : Nat → Prop}
  {s u : State σ}

/-- The promise that a job tells a group of. -/
def Job.tells? : Job → Option Nat
  | .notice _ m => some m
  | _ => none

/-- The first promise is waited for and told of by nobody. -/
structure Unread (s : State σ) : Prop where
  blocked : ∀ task ∈ s.tasks, ∀ goal p, task.phase = .blocked goal p → p ≠ 0
  members : ∀ g ∈ s.groups, 0 ∉ g.members
  ready : ∀ j ∈ s.ready, j.tells? ≠ some 0
  timers : ∀ tm ∈ s.timers, tm.job.tells? ≠ some 0
  waiters : ∀ pr ∈ s.promises, ∀ j ∈ pr.waiters, j.tells? ≠ some 0

theorem unread_start (host : σ) (run : Nat) (earlier : List (Nat × Outcome)) (errand : Errand) :
    Unread (State.start host run earlier errand) where
  blocked task ht goal p hp := by
    obtain rfl := List.mem_singleton.1 ht
    cases hp
  members g hg := by cases hg
  ready j hj := by
    obtain rfl := List.mem_singleton.1 hj
    exact (Option.some_ne_none 0).symm
  timers tm htm := by cases htm
  waiters pr hpr j hj := by
    obtain rfl := List.mem_singleton.1 hpr
    obtain rfl := List.mem_singleton.1 hj
    exact (Option.some_ne_none 0).symm

/-- What a task may wait for is not the first promise. -/
theorem Awaitable.ne_zero {p : Nat} (h : Awaitable s p) (hs : Main s) : p ≠ 0 := by
  cases h with
  | group h =>
    obtain ⟨g, hg, rfl⟩ := List.mem_map.1 h
    obtain ⟨k, hk⟩ := List.mem_iff_getElem?.1 hg
    exact hs.groups k g hk
  | effect h =>
    obtain ⟨e, he, rfl⟩ := List.mem_map.1 h
    obtain ⟨k, hk⟩ := List.mem_iff_getElem?.1 he
    exact hs.effects k e hk
  | future h =>
    obtain ⟨⟨id, q⟩, hq, rfl⟩ := List.mem_map.1 h
    exact hs.futures id q hq

/-- Jobs that tell nobody of the first promise, and one more of them. -/
theorem tells_concat {ready : List Job} (h : ∀ j ∈ ready, j.tells? ≠ some 0) {j : Job}
    (hj : j.tells? ≠ some 0) : ∀ k ∈ ready ++ [j], k.tells? ≠ some 0 := by
  intro k hk
  rcases List.mem_append.1 hk with hk | hk
  · exact h k hk
  · rwa [List.mem_singleton.1 hk]

/-- Promises, and one more, for which nothing waits. -/
theorem tells_promised {promises : List Promise}
    (h : ∀ pr ∈ promises, ∀ j ∈ pr.waiters, j.tells? ≠ some 0) (o : Option Outcome) :
    ∀ pr ∈ promises ++ [⟨o, []⟩], ∀ j ∈ pr.waiters, j.tells? ≠ some 0 := by
  intro pr hpr j hj
  rcases List.mem_append.1 hpr with hpr | hpr
  · exact h pr hpr j hj
  · obtain rfl := List.mem_singleton.1 hpr
    cases hj

theorem Unread.setTimer (hs : Unread s) (n : Nat) {j : Job} (hj : j.tells? = none) :
    Unread (s.setTimer n j) := by
  refine { hs with timers := fun tm htm => ?_ }
  rcases mem_timers_setTimer htm with htm | htm
  · exact hs.timers tm htm
  · rw [htm, hj]
    exact (Option.some_ne_none 0).symm

theorem Unread.complete (hs : Unread s) (p : Nat) (o : Outcome) : Unread (s.complete p o) := by
  rcases s.complete_cases p o with ⟨waiters, hw, hu⟩ | hu <;> rw [hu]
  · refine { hs with ready := fun j hj => ?_, waiters := fun pr hpr j hj => ?_ }
    · rcases List.mem_append.1 hj with hj | hj
      · exact hs.ready j hj
      · exact hs.waiters _ (List.mem_of_getElem? hw) j hj
    · rcases List.mem_or_eq_of_mem_set hpr with hpr | rfl
      · exact hs.waiters pr hpr j hj
      · cases hj
  · exact hs

theorem unread_of_granting (h : Granting claims s u) (hs : Unread s) : Unread u := by
  cases h with
  | drained host => exact { hs with }
  | reported may hi unclaimed error value =>
    exact { hs with ready := tells_concat hs.ready (by simp [Job.tells?]) }
  | deferred n f args => exact hs.setTimer n rfl
  | future id o => exact { hs with waiters := tells_promised hs.waiters o }
  | ripening hf n o => exact hs.setTimer n rfl

/-- **Small changes let nobody read the first promise.** -/
theorem unread_of_change (h : Change H t claims completes s u) (main : Main s) (hs : Unread s) :
    Unread u := by
  have hnever : ∀ {j : Job}, j.tells? = none → j.tells? ≠ some 0 := fun hj => by simp [hj]
  cases h with
  | granted => exact kept_of_granting unread_of_granting (granting_grantAll H s) hs
  | moved phase why =>
    rcases s.setPhase_cases t phase with ⟨task, -, hu⟩ | hu <;> rw [hu]
    · refine { hs with blocked := fun task ht goal p hp => ?_ }
      rcases List.mem_or_eq_of_mem_set ht with ht | rfl
      · exact hs.blocked task ht goal p hp
      · rcases why goal p hp with hawaits | hmade
        · exact hawaits.ne_zero main
        · exact Nat.ne_of_gt (Nat.lt_of_lt_of_le main.made hmade)
    · exact hs
  | queued => exact { hs with ready := tells_concat hs.ready (hnever rfl) }
  | timed n => exact hs.setTimer n rfl
  | promised o => exact { hs with waiters := tells_promised hs.waiters o }
  | @subscribed p j hj hstop why =>
    have htells : j.tells? ≠ some 0 := by
      rcases why with ⟨rfl, -⟩ | ⟨g, n, q, rfl, -, hopen⟩
      · exact hnever rfl
      · -- The job that stops the loop waits for the first promise as long as that is open.
        intro hp
        obtain rfl : p = 0 := Option.some.inj hp
        exact List.not_mem_nil (main.waits [] hopen)
    rcases s.subscribe_cases p j with ⟨waiters, hw, hu⟩ | hu <;> rw [hu]
    · refine { hs with waiters := fun pr hpr k hk => ?_ }
      rcases List.mem_or_eq_of_mem_set hpr with hpr | rfl
      · exact hs.waiters pr hpr k hk
      · exact tells_concat (hs.waiters _ (List.mem_of_getElem? hw)) htells k hk
    · exact hs
  | tasked errand =>
    refine { hs with
      blocked := fun task ht goal p hp => ?_
      ready := tells_concat hs.ready (hnever rfl)
      waiters := tells_promised hs.waiters none }
    rcases List.mem_append.1 ht with ht | ht
    · exact hs.blocked task ht goal p hp
    · obtain rfl := List.mem_singleton.1 ht
      cases hp
  | grouped n =>
    refine { hs with members := fun g hg => ?_, waiters := tells_promised hs.waiters none }
    rcases List.mem_append.1 hg with hg | hg
    · exact hs.members g hg
    · obtain rfl := List.mem_singleton.1 hg
      exact List.not_mem_nil
  | @regrouped k old hk members remaining why =>
    refine { hs with members := fun g hg => ?_ }
    rcases List.mem_or_eq_of_mem_set hg with hg | rfl
    · exact hs.members g hg
    · rcases why with ⟨-, rfl⟩ | ⟨-, hlater⟩
      · exact hs.members old (List.mem_of_getElem? hk)
      · exact fun h0 => Nat.not_lt_zero _ (hlater 0 h0)
  | opened d => exact { hs with waiters := tells_promised hs.waiters none }
  | claimed hi =>
    rw [State.claim_frame]
    exact { hs with }
  | completed hp o => exact hs.complete _ o
  | _ => exact { hs with }

theorem unread_of_changes (h : Changes H t claims completes s u) (sound : Sound s) (main : Main s)
    (hs : Unread s) : Unread u := by
  have hall : Sound u ∧ Main u ∧ Unread u :=
    h.kept (P := fun u => Sound u ∧ Main u ∧ Unread u)
      (fun hc hv => ⟨sound_of_change hc hv.1, main_of_change hc hv.1 hv.2.1,
        unread_of_change hc hv.2.1 hv.2.2⟩) ⟨sound, main, hs⟩
  exact hall.2.2

theorem unread_of_step (sound : Sound s) (main : Main s) (hs : Unread s)
    (h : step H context s = .next u) : Unread u := by
  cases htask : s.control.task? with
  | some t =>
    obtain ⟨v, hv, hchanges⟩ := freeChanges_step H context s htask
    obtain rfl : v = u := Transition.next.inj (hv.symm.trans h)
    exact unread_of_changes hchanges sound.toIdle { main with due := main.due } { hs with }
  | none =>
    rcases step_idle_cases (Control.eq_idle htask) h with
      ⟨n, j, rest, -, hr, rfl⟩ | ⟨n, rfl⟩ | ⟨tm, later, -, ht, rfl⟩
    · have hrest : ∀ k ∈ rest, k ∈ s.ready := fun k hk => hr ▸ List.mem_cons_of_mem j hk
      have hpop : Unread { s with ready := rest, batch := n } :=
        { hs with ready := fun k hk => hs.ready k (hrest k hk) }
      by_cases hstop : j = .stop
      · subst hstop
        exact { hpop with }
      · obtain ⟨t, hchanges⟩ := freeChanges_runJob H { s with ready := rest, batch := n } hstop
        have hmain : Main { s with ready := rest, batch := n } := { main with
          ready := fun k hk => main.ready k (hrest k hk)
          due := by
            have hmem : .stop ∈ s.ready ↔ .stop ∈ rest := by
              rw [hr, List.mem_cons]
              exact or_iff_right (Ne.symm hstop)
            rw [← hmem]
            exact main.due }
        exact unread_of_changes hchanges (sound_of_pop hr sound n) hmain hpop
    · exact { hs with }
    · refine { hs with
        ready := fun j hj => ?_
        timers := fun k hk => hs.timers k (ht ▸ List.mem_cons_of_mem tm hk) }
      rw [List.mem_singleton.1 hj]
      exact hs.timers tm (ht ▸ List.mem_cons_self ..)

/-- **Nobody reads the outcome of the main task.** -/
theorem unread_of_reaches {host : σ} {run : Nat} {earlier : List (Nat × Outcome)}
    {errand : Errand}
    (h : Transition.Reaches (step H context) (State.start host run earlier errand) s) :
    Unread s := by
  have hall : Sound s ∧ Main s ∧ Unread s :=
    h.invariant (P := fun s => Sound s ∧ Main s ∧ Unread s)
      (fun _ _ hs hstep => ⟨sound_of_step hs.1 hstep, main_of_step hs.1 hs.2.1 hstep,
        unread_of_step hs.1 hs.2.1 hs.2.2 hstep⟩)
      ⟨sound_start host run earlier errand, main_start host run earlier errand,
        unread_start host run earlier errand⟩
  exact hall.2.2

end EventLoop
end DescribedEffects
