import DescribedEffects.Proofs.EventLoop.Queue

/-!
# The main task

The first task of a loop is the one whose end stops it.  Its promise is the first one and
belongs to nobody else, so only the end of the task completes it; the job that stops the
loop waits for that promise and for nothing else.  `Main` says so, and holds in every state
of the loop (`main_of_reaches`).

So a loop ends with what its main task ends with, or with nothing left to do
(`ends_of_main`).
-/

namespace DescribedEffects
namespace EventLoop

variable {σ : Type} {H : Host σ} {context : Value} {t : Nat} {claims completes : Nat → Prop}

/-- The first promise is the main task's alone, and the job that stops the loop waits for
it. -/
structure Main (s : State σ) : Prop where
  made : 0 < s.promises.length
  present : 0 < s.tasks.length
  tasks : ∀ (k : Nat) (task : Task), s.tasks[k]? = some task → (task.promise = 0 ↔ k = 0)
  groups : ∀ (k : Nat) (group : Group), s.groups[k]? = some group → group.promise ≠ 0
  futures : ∀ id p, (id, p) ∈ s.futures → p ≠ 0
  effects : ∀ (k : Nat) (e : PendingEffect), s.effects[k]? = some e → e.promise ≠ 0
  ready : ∀ j ∈ s.ready, j.fulfils? ≠ some 0
  timers : ∀ tm ∈ s.timers, tm.job ≠ .stop ∧ tm.job.fulfils? ≠ some 0
  only : ∀ (p : Nat) (pr : Promise), s.promises[p]? = some pr → .stop ∈ pr.waiters → p = 0
  waits : ∀ waiters, s.promises[0]? = some ⟨none, waiters⟩ → .stop ∈ waiters
  due : .stop ∈ s.ready ∨ s.stopping = true ↔ s.outcome? 0 ≠ none

theorem main_start (host : σ) (run : Nat) (earlier : List (Nat × Outcome)) (errand : Errand) :
    Main (State.start host run earlier errand) where
  made := Nat.zero_lt_one
  present := Nat.zero_lt_one
  tasks k task hk := by
    have hlt : k < 1 := (List.getElem?_eq_some_iff.1 hk).1
    obtain rfl : k = 0 := by omega
    cases hk
    exact Iff.rfl
  groups k group hk := by cases hk
  futures id p h := by cases h
  effects k e hk := by cases hk
  ready j hj := by
    obtain rfl := List.mem_singleton.1 hj
    exact Option.some_ne_none 0 |>.symm
  timers tm h := by cases h
  only p pr hp _ := by
    have hlt : p < 1 := (List.getElem?_eq_some_iff.1 hp).1
    omega
  waits waiters h := by
    have h : some (⟨none, [.stop]⟩ : Promise) = some ⟨none, waiters⟩ := h
    cases h
    exact List.mem_singleton_self _
  due := by simp [State.start, State.outcome?]

/-! ## The small changes -/

section

variable {s u : State σ}

/-- An entry of a list with one more is an entry of the list or the new one. -/
theorem getElem?_concat_cases {α : Type} {l : List α} {a b : α} {k : Nat}
    (h : (l ++ [a])[k]? = some b) : l[k]? = some b ∨ k = l.length ∧ b = a := by
  rw [List.getElem?_append] at h
  split at h
  · exact .inl h
  · next hk =>
    have hlt := (List.getElem?_eq_some_iff.1 h).1
    rw [List.length_singleton] at hlt
    obtain rfl := List.mem_singleton.1 (List.mem_of_getElem? h)
    exact .inr ⟨by omega, rfl⟩

/-- Replacing an entry by one with the same image keeps what holds of the images. -/
theorem of_getElem?_set {α β : Type} {f : α → β} {P : Nat → β → Prop} {l : List α} {i : Nat}
    {a b : α} (h : l[i]? = some a) (hf : f b = f a) (hl : ∀ k x, l[k]? = some x → P k (f x)) :
    ∀ k x, (l.set i b)[k]? = some x → P k (f x) := by
  intro k x hk
  rw [List.getElem?_set] at hk
  split at hk
  · next hik =>
    split at hk
    · cases hk
      rw [hf]
      exact hl k a (hik ▸ h)
    · cases hk
  · exact hl k x hk

/-- One more promise, for which nothing waits. -/
theorem Main.promised (hs : Main s) (o : Option Outcome) :
    Main { s with promises := s.promises ++ [⟨o, []⟩] } where
  __ := hs
  made := by
    rw [List.length_append]
    exact Nat.add_pos_left hs.made _
  only p pr hp hstop := by
    rcases getElem?_concat_cases hp with hp | ⟨-, rfl⟩
    · exact hs.only p pr hp hstop
    · cases hstop
  waits waiters hw := by
    rw [List.getElem?_append_left hs.made] at hw
    exact hs.waits waiters hw
  due := by
    rw [outcome_concat_eq (s := s) rfl hs.made]
    exact hs.due

/-- A timer that leaves the first promise alone. -/
theorem Main.setTimer (hs : Main s) (n : Nat) {j : Job}
    (hj : j ≠ .stop ∧ j.fulfils? ≠ some 0) : Main (s.setTimer n j) where
  __ := hs
  timers tm htm := by
    rcases mem_timers_setTimer htm with htm | htm
    · exact hs.timers tm htm
    · rwa [htm]
  due := hs.due

/-- One more job, which does not complete a promise by itself. -/
theorem ready_concat (hs : Main s) {j : Job} (hj : j.fulfils? = none) :
    ∀ k ∈ s.ready ++ [j], k.fulfils? ≠ some 0 := by
  intro k hk
  rcases List.mem_append.1 hk with hk | hk
  · exact hs.ready k hk
  · obtain rfl := List.mem_singleton.1 hk
    rw [hj]
    exact (Option.some_ne_none 0).symm

/-- One more job, which does not stop the loop. -/
theorem due_concat {ready : List Job} {j : Job} (hj : j ≠ .stop) (stopping : Bool) :
    .stop ∈ ready ++ [j] ∨ stopping = true ↔ .stop ∈ ready ∨ stopping = true := by
  have hstop : .stop ∈ ready ++ [j] ↔ .stop ∈ ready := by
    rw [List.mem_append, List.mem_singleton]
    exact or_iff_left hj.symm
  rw [hstop]

/-- Claims make no difference to the first promise. -/
theorem Main.claim (hs : Main s) (i : Nat) : Main (s.claim i).2 := by
  rcases s.claim_cases i with ⟨_, he, -, hu⟩ | hu <;> rw [hu]
  · refine { hs with effects := ?_, due := hs.due }
    exact of_getElem?_set (f := PendingEffect.promise) (P := fun _ p => p ≠ 0) he rfl hs.effects
  · exact hs

/-- A task that moves keeps its promise. -/
theorem Main.setPhase (hs : Main s) (t : Nat) (phase : Phase) : Main (s.setPhase t phase) := by
  rcases s.setPhase_cases t phase with ⟨task, ht, hu⟩ | hu <;> rw [hu]
  · refine { hs with present := ?_, tasks := ?_, due := hs.due }
    · rw [List.length_set]
      exact hs.present
    · exact of_getElem?_set (f := Task.promise) (P := fun k p => p = 0 ↔ k = 0)
        (b := ⟨phase, task.promise⟩) ht rfl hs.tasks
  · exact hs

/-- One more task, with a promise of its own. -/
theorem Main.newTask (hs : Main s) (errand : Errand) : Main (s.newTask errand).2 := by
  have hpromised := hs.promised none
  refine { hpromised with
    present := ?_
    tasks := fun k task hk => ?_
    ready := ready_concat hpromised rfl
    due := (due_concat (by simp) _).trans hpromised.due }
  · simp [State.newTask, State.newPromise, State.enqueue]
  · rcases getElem?_concat_cases hk with hk | ⟨rfl, rfl⟩
    · exact hs.tasks k task hk
    · -- Neither the new promise nor the new task is the first.
      have hmade := hs.made
      have hpresent := hs.present
      show s.promises.length = 0 ↔ s.tasks.length = 0
      omega

/-- Another entry of an open promise.  The job that stops the loop goes on waiting for the first
promise, and for no other. -/
theorem Main.set (hs : Main s) {p : Nat} {waiters : List Job}
    (hw : s.promises[p]? = some ⟨none, waiters⟩) (pr : Promise)
    (stop : .stop ∈ pr.waiters → .stop ∈ waiters)
    (stays : pr.outcome = none → .stop ∈ waiters → .stop ∈ pr.waiters) :
    (∀ (q : Nat) (x : Promise), (s.promises.set p pr)[q]? = some x → .stop ∈ x.waiters → q = 0) ∧
      ∀ ws, (s.promises.set p pr)[0]? = some ⟨none, ws⟩ → .stop ∈ ws := by
  have hlt := (List.getElem?_eq_some_iff.1 hw).1
  refine ⟨fun q x hq hstop => ?_, fun ws hws => ?_⟩
  · rcases eq_or_ne p q with rfl | hpq
    · rw [List.getElem?_set_self hlt] at hq
      cases hq
      exact hs.only p _ hw (stop hstop)
    · rw [List.getElem?_set_ne hpq] at hq
      exact hs.only q x hq hstop
  · rcases eq_or_ne p 0 with rfl | hp
    · rw [List.getElem?_set_self hlt] at hws
      cases hws
      exact stays rfl (hs.waits waiters hw)
    · rw [List.getElem?_set_ne hp] at hws
      exact hs.waits ws hws

/-- A job that goes on waits for a promise. -/
theorem Main.subscribe (hs : Main s) (p : Nat) {j : Job} (goesOn : j ≠ .stop) :
    Main (s.subscribe p j) := by
  have houtcome := outcome_subscribe s p j 0
  rcases s.subscribe_cases p j with ⟨waiters, hw, hu⟩ | hu <;> rw [hu] at houtcome ⊢
  · have hstop : .stop ∈ waiters ++ [j] → .stop ∈ waiters := fun h =>
      (List.mem_append.1 h).resolve_right fun h => goesOn (List.mem_singleton.1 h).symm
    obtain ⟨honly, hwaits⟩ := hs.set hw ⟨none, waiters ++ [j]⟩ hstop
      fun _ => List.mem_append_left _
    exact { hs with
      made := by rw [List.length_set]; exact hs.made
      only := honly
      waits := hwaits
      due := houtcome ▸ hs.due }
  · exact hs

/-- Completing a promise queues the job that stops the loop if the promise is the first. -/
theorem Main.complete (hs : Main s) (sound : Sound s) (p : Nat) (o : Outcome) :
    Main (s.complete p o) := by
  have honward := outcome_complete_of_ne (s := s) (q := p) (p := 0) (o := o)
  rcases s.complete_cases p o with ⟨waiters, hw, hu⟩ | hu <;> rw [hu] at honward ⊢
  · have hpatient := sound.waiters _ (List.mem_of_getElem? hw)
    obtain ⟨honly, hwaits⟩ := hs.set hw ⟨some o, []⟩
      (fun h => by cases h) fun h => by cases h
    refine { hs with
      made := by rw [List.length_set]; exact hs.made
      ready := fun j hj => ?_
      only := honly
      waits := hwaits
      due := ?_ }
    · rcases List.mem_append.1 hj with hj | hj
      · exact hs.ready j hj
      · rw [fulfils?_of_isPatient (hpatient j hj)]
        exact (Option.some_ne_none 0).symm
    · rcases eq_or_ne p 0 with rfl | hp
      · have hmem := hs.waits waiters hw
        simp [State.outcome?, List.getElem?_set_self hs.made, hmem]
      · have hnever : .stop ∉ waiters := fun h => hp (hs.only p _ hw h)
        rw [honward hp, List.mem_append, or_iff_left hnever]
        exact hs.due
  · exact hs

theorem main_of_granting (h : Granting claims s u) (hs : Main s) : Main u := by
  cases h with
  | drained host => exact { hs with due := hs.due }
  | reported may hi unclaimed error value =>
    refine { hs with
      effects := ?_
      ready := ready_concat hs rfl
      due := (due_concat (by simp) _).trans hs.due }
    exact of_getElem?_set (f := PendingEffect.promise) (P := fun _ p => p ≠ 0) hi rfl hs.effects
  | deferred n f args => exact hs.setTimer n ⟨by simp, (Option.some_ne_none 0).symm⟩
  | future id o =>
    refine { hs.promised o with futures := fun k p hp => ?_, due := (hs.promised o).due }
    rcases List.mem_append.1 hp with hp | hp
    · exact hs.futures k p hp
    · cases List.mem_singleton.1 hp
      exact Nat.ne_of_gt hs.made
  | ripening hf n o =>
    refine hs.setTimer n ⟨by simp, fun hp => ?_⟩
    exact hs.futures _ _ hf (Option.some.inj hp)

/-- **Small changes leave the first promise to the main task.** -/
theorem main_of_change (h : Change H t claims completes s u) (sound : Sound s) (hs : Main s) :
    Main u := by
  cases h with
  | asked _ => exact { hs with due := hs.due }
  | granted => exact kept_of_granting main_of_granting (granting_grantAll H s) hs
  | noted n => exact { hs with due := hs.due }
  | idled => exact { hs with due := hs.due }
  | turned _ => exact { hs with due := hs.due }
  | moved phase => exact hs.setPhase t phase
  | queued =>
    exact { hs with
      ready := ready_concat hs rfl
      due := (due_concat (by simp) _).trans hs.due }
  | timed n => exact hs.setTimer n ⟨by simp, (Option.some_ne_none 0).symm⟩
  | promised o => exact hs.promised o
  | subscribed p _ goesOn => exact hs.subscribe p goesOn
  | tasked errand => exact hs.newTask errand
  | grouped n =>
    refine { hs.promised none with
      groups := fun k group hk => ?_, due := (hs.promised none).due }
    rcases getElem?_concat_cases hk with hk | ⟨-, rfl⟩
    · exact hs.groups k group hk
    · exact Nat.ne_of_gt hs.made
  | regrouped hg members remaining =>
    refine { hs with groups := ?_, due := hs.due }
    exact of_getElem?_set (f := Group.promise) (P := fun _ p => p ≠ 0) hg rfl hs.groups
  | opened d =>
    refine { hs.promised none with
      effects := fun k e hk => ?_, due := (hs.promised none).due }
    rcases getElem?_concat_cases hk with hk | ⟨-, rfl⟩
    · exact hs.effects k e hk
    · exact Nat.ne_of_gt hs.made
  | claimed _ => exact hs.claim _
  | completed _ o => exact hs.complete sound _ o

theorem main_of_changes (h : Changes H t claims completes s u) (sound : Sound s)
    (hs : Main s) : Main u := by
  have hboth : Sound u ∧ Main u :=
    h.kept (P := fun u => Sound u ∧ Main u)
      (fun hc hv => ⟨sound_of_change hc hv.1, main_of_change hc hv.1 hv.2⟩) ⟨sound, hs⟩
  exact hboth.2

/-! ## Every step -/

/-- A job that is run leaves the first promise to the main task. -/
theorem main_of_runJob {j : Job} {rest : List Job} {n : Nat} (sound : Sound s) (hs : Main s)
    (hr : s.ready = j :: rest) : Main (runJob H { s with ready := rest, batch := n } j) := by
  have hsub : ∀ k ∈ rest, k ∈ s.ready := fun k hk => hr ▸ List.mem_cons_of_mem j hk
  by_cases hstop : j = .stop
  · subst hstop
    exact { hs with
      ready := fun k hk => hs.ready k (hsub k hk)
      due := by
        have hout := hs.due.1 (.inl (hr ▸ List.mem_cons_self ..))
        exact ⟨fun _ => hout, fun _ => .inr rfl⟩ }
  · have hpop : Main { s with ready := rest, batch := n } :=
      { hs with
        ready := fun k hk => hs.ready k (hsub k hk)
        due := by
          have hmem : .stop ∈ s.ready ↔ .stop ∈ rest := by
            rw [hr, List.mem_cons]
            exact or_iff_right (Ne.symm hstop)
          rw [← hmem]
          exact hs.due }
    obtain ⟨t, hchanges⟩ := freeChanges_runJob H { s with ready := rest, batch := n } hstop
    exact main_of_changes hchanges (sound_of_pop hr sound n) hpop

theorem main_of_step (sound : Sound s) (hs : Main s) (h : step H context s = .next u) :
    Main u := by
  cases htask : s.control.task? with
  | some t =>
    obtain ⟨v, hv, hchanges⟩ := freeChanges_step H context s htask
    obtain rfl : v = u := Transition.next.inj (hv.symm.trans h)
    exact main_of_changes hchanges sound.toIdle { hs with due := hs.due }
  | none =>
    have hidle : s.control = .idle := Control.eq_idle htask
    rcases step_idle_cases hidle h with
      ⟨n, j, rest, -, hr, rfl⟩ | ⟨n, rfl⟩ | ⟨tm, later, hr, ht, rfl⟩
    · exact main_of_runJob sound hs hr
    · exact { hs with due := hs.due }
    · obtain ⟨hgoes, hfulfils⟩ := hs.timers tm (ht ▸ List.mem_cons_self ..)
      refine { hs with
        ready := fun j hj => ?_
        timers := fun k hk => hs.timers k (ht ▸ List.mem_cons_of_mem tm hk)
        due := ?_ }
      · obtain rfl := List.mem_singleton.1 hj
        exact hfulfils
      · have hnever : .stop ∉ [tm.job] := fun h => hgoes (List.mem_singleton.1 h).symm
        have hempty : .stop ∉ s.ready := by rw [hr]; exact List.not_mem_nil
        rw [or_iff_right hnever]
        exact (or_iff_right hempty).symm.trans hs.due

end

/-- **Only the main task completes the first promise.** -/
theorem main_of_reaches {host : σ} {run : Nat} {earlier : List (Nat × Outcome)}
    {errand : Errand} {s : State σ}
    (h : Transition.Reaches (step H context) (State.start host run earlier errand) s) :
    Main s := by
  have hboth : Sound s ∧ Main s :=
    h.invariant (P := fun s => Sound s ∧ Main s)
      (fun _ _ hs hstep => ⟨sound_of_step hs.1 hstep, main_of_step hs.1 hs.2 hstep⟩)
      ⟨sound_start host run earlier errand, main_start host run earlier errand⟩
  exact hboth.2

/-! ## Before and after its end -/

/-- What is done on behalf of another task leaves a task alone. -/
theorem getElem?_tasks_of_change {s u : State σ} (h : Change H t claims completes s u) {k : Nat}
    (hk : k < s.tasks.length) (ht : t ≠ k) : u.tasks[k]? = s.tasks[k]? := by
  cases h with
  | granted => rw [tasks_grantAll]
  | moved phase =>
    rcases s.setPhase_cases t phase with ⟨_, -, hu⟩ | hu <;> rw [hu]
    exact List.getElem?_set_ne ht
  | subscribed p hj _ => rw [State.subscribe_frame]
  | tasked errand => exact List.getElem?_append_left hk
  | claimed hi => rw [tasks_claim]
  | completed hp o => rw [tasks_complete]
  | _ => rfl

theorem getElem?_tasks_of_changes {s u : State σ} (h : Changes H t claims completes s u) {k : Nat}
    (hk : k < s.tasks.length) (ht : t ≠ k) : u.tasks[k]? = s.tasks[k]? := by
  have hboth : k < u.tasks.length ∧ u.tasks[k]? = s.tasks[k]? :=
    h.kept (P := fun u => k < u.tasks.length ∧ u.tasks[k]? = s.tasks[k]?)
      (fun hc hv => ⟨Nat.lt_of_lt_of_le hv.1 (onward_of_change hc).tasks,
        (getElem?_tasks_of_change hc hv.1 ht).trans hv.2⟩) ⟨hk, rfl⟩
  exact hboth.2

/-- Completing other promises leaves the outcome of one alone. -/
theorem outcome_of_change {s u : State σ} {p : Nat} (h : Change H t claims (· ≠ p) s u)
    (hp : p < s.promises.length) : u.outcome? p = s.outcome? p ∧ p < u.promises.length := by
  cases h with
  | granted =>
    refine kept_of_granting (P := fun u => u.outcome? p = s.outcome? p ∧ p < u.promises.length)
      (fun h hv => ?_) (granting_grantAll H s) ⟨rfl, hp⟩
    have hlt := Nat.lt_of_lt_of_le hv.2 (grown_of_granting h).promises
    cases h with
    | future id o => exact ⟨(outcome_concat_eq rfl hv.2).trans hv.1, hlt⟩
    | _ => exact ⟨hv.1, hlt⟩
  | moved phase =>
    rw [State.setPhase_frame]
    exact ⟨rfl, hp⟩
  | subscribed q _ _ => exact ⟨outcome_subscribe .., by rwa [length_promises_subscribe]⟩
  | claimed hi => rw [promises_claim]; exact ⟨by simp only [State.outcome?, promises_claim], hp⟩
  | completed hq o => exact ⟨outcome_complete_of_ne hq o, by rwa [length_promises_complete]⟩
  | promised o => exact ⟨outcome_concat_eq rfl hp, by simp; omega⟩
  | tasked errand =>
    exact ⟨outcome_concat_eq rfl hp, by simp [State.newTask, State.newPromise, State.enqueue]; omega⟩
  | grouped n => exact ⟨outcome_concat_eq rfl hp, by simp [State.newPromise]; omega⟩
  | opened d => exact ⟨outcome_concat_eq rfl hp, by simp [State.newPromise]; omega⟩
  | _ => exact ⟨rfl, hp⟩

theorem outcome_of_changes {s u : State σ} {p : Nat} (h : Changes H t claims (· ≠ p) s u)
    (hp : p < s.promises.length) : u.outcome? p = s.outcome? p := by
  have hboth : u.outcome? p = s.outcome? p ∧ p < u.promises.length :=
    h.kept (P := fun u => u.outcome? p = s.outcome? p ∧ p < u.promises.length)
      (fun hc hv => by
        obtain ⟨ho, hlt⟩ := outcome_of_change hc hv.2
        exact ⟨ho.trans hv.1, hlt⟩) ⟨rfl, hp⟩
  exact hboth.1

/-- The promise of the main task is open. -/
structure Ongoing (s : State σ) : Prop where
  present : 0 < s.tasks.length
  made : 0 < s.promises.length
  outcome : s.outcome? 0 = none

/-- The main task has ended, and the loop is no longer busy with it. -/
structure Over (report : Option Report) (s : State σ) : Prop where
  finished : s.tasks[0]?.map Task.phase = some (.finished report)
  elsewhere : s.control.task? ≠ some 0

/-- The main task goes on as long as its promise is open. -/
def Timely (s : State σ) : Prop := Ongoing s ∨ ∃ report, Over report s

/-- Completing other promises keeps the main task going. -/
theorem Ongoing.changes {s u : State σ} (hs : Ongoing s)
    (h : Changes H t (fun _ => True) (· ≠ 0) s u) : Ongoing u where
  present := Nat.lt_of_lt_of_le hs.present (onward_of_changes h).tasks
  made := by
    refine h.kept (P := fun u => 0 < u.promises.length) (fun hc hv => ?_) hs.made
    exact (outcome_of_change hc hv).2
  outcome := (outcome_of_changes h hs.made).trans hs.outcome

/-- The main task ends. -/
theorem over_finish {s : State σ} (hs : 0 < s.tasks.length) (report : Option Report)
    (o : Outcome) : Over report (finish s 0 report o) := by
  have htask : s.tasks[0]? = some s.tasks[0] := List.getElem?_eq_getElem hs
  unfold finish
  rw [htask]
  refine ⟨?_, fun h => by cases h⟩
  simp [State.toIdle, State.setPhase, htask, List.getElem?_set_self hs]

section

variable {s u : State σ} {j : Journey} {captured : Bool}

theorem over_finishWatch (hs : 0 < s.tasks.length) (effect : Nat) (o : Outcome) :
    Over none (finishWatch s 0 effect o) := by
  have hclaim : (s.claim effect).2.tasks = s.tasks := tasks_claim s effect
  unfold finishWatch
  split
  · exact over_finish hs ..
  · split
    · split
      · exact over_finish hs ..
      · generalize s.claim effect = claim at hclaim
        obtain ⟨first, v⟩ := claim
        refine over_finish ?_ ..
        cases first with
        | true =>
          show 0 < (v.complete _ _).tasks.length
          rwa [tasks_complete, hclaim]
        | false =>
          show 0 < v.tasks.length
          rwa [hclaim]
    · exact over_finish hs ..

variable (H) in
theorem timely_of_answerDrive (hs : Ongoing s) (o : Outcome) :
    Timely (answerDrive H s 0 j captured o) := by
  unfold answerDrive
  split
  · exact .inl (hs.changes (changes_deliverRecorded ..))
  · split
    · exact .inl (hs.changes (changes_deliverRecorded ..))
    · exact .inr ⟨_, over_finish hs.present ..⟩

theorem timely_of_leave (hs : Ongoing s) (o : Outcome) :
    Timely (leave s 0 j captured o) := by
  have hturn : ∀ c, Ongoing { s with control := c } := fun c => ⟨hs.present, hs.made, hs.outcome⟩
  unfold leave
  split
  · exact .inr ⟨_, over_finish hs.present ..⟩
  · split
    · exact .inl (hturn _)
    · split
      · exact .inl (hturn _)
      · exact .inr ⟨_, over_finish hs.present ..⟩

variable (H) in
theorem timely_of_deliver (hs : Ongoing s) (signal : Signal) :
    Timely (deliver H s 0 j captured signal) := by
  cases hactive : j.active with
  | nil =>
    simp only [deliver, hactive]
    exact .inr ⟨_, over_finish hs.present ..⟩
  | cons g outer =>
    have hresumed : Ongoing (s.resuming H g signal) := hs.changes (t := 0) (changes_resuming ..)
    rw [deliver_of_active s hactive]
    split
    · exact .inl (hresumed.changes (changes_receive ..))
    · exact timely_of_leave hresumed _
    · exact timely_of_leave hresumed _

variable (H) in
theorem timely_of_begin (hs : Ongoing s) (errand : Errand) :
    Timely (begin H s 0 errand) := by
  unfold begin
  split
  · split
    · exact .inl (hs.changes (changes_arriveWith ..))
    · exact .inl ⟨hs.present, hs.made, hs.outcome⟩
  · exact .inl (hs.changes (changes_await ..))
  · unfold beginDrive
    split
    · exact .inl ⟨hs.present, hs.made, hs.outcome⟩
    · refine .inr ⟨_, over_finish ?_ ..⟩
      exact hs.present
  · have hgather : ∀ errands, Changes H 0 (fun _ => True) (· ≠ 0) s
        (gather (grantAll H s) 0 .answer errands) :=
      fun errands => (Change.changes (.granted s)).trans (changes_gather _ .answer errands)
    exact .inl (hs.changes (hgather _))

variable (H) in
/-- The main task's turn. -/
theorem timely_of_stepTask (hs : Ongoing s) : Timely (stepTask H s 0) := by
  have hrun : Ongoing (s.setPhase 0 .running) :=
    hs.changes (H := H) (Change.changes (.moved s _ (by simp)))
  unfold stepTask
  split
  · exact timely_of_begin H hrun _
  · next goal k _ =>
    have hwake : H.Asked (s.setPhase 0 .running).host (H.wake k s.host).2 := by
      rw [host_setPhase]
      exact .wake k s.host
    have hchanges : Changes H 0 (fun _ => True) (· ≠ 0) (s.setPhase 0 .running)
        (advance (grantAll H { s.setPhase 0 .running with host := (H.wake k s.host).2 }) 0
          goal k (H.wake k s.host).1) :=
      ((Change.changes (.asked hwake)).tail (.granted _)).trans (changes_advance _ goal k _)
    exact .inl (hrun.changes hchanges)
  · split
    · exact .inl ⟨hrun.present, hrun.made, hrun.outcome⟩
    · exact .inl hs
  · exact .inl hs

/-- A loop that is not busy with a task leaves it alone, unless it is its turn. -/
theorem elsewhere_of_step {k : Nat} (hs : k < s.tasks.length)
    (elsewhere : s.control.task? ≠ some k) (h : step H context s = .next u) :
    u.tasks[k]? = s.tasks[k]? ∧ u.control.task? ≠ some k ∨
      ∃ n rest, s.control = .idle ∧ s.batch = n + 1 ∧ s.ready = .step k :: rest ∧
        u = stepTask H { s with ready := rest, batch := n } k := by
  have hothers : ∀ {t : Nat} {v : State σ}, t ≠ k → k < v.tasks.length →
      (∀ i, v.control.task? = some i → i = t) → FreeChanges H t v u →
      u.tasks[k]? = v.tasks[k]? ∧ u.control.task? ≠ some k := by
    intro t v ht hv hcontrol hchanges
    refine ⟨getElem?_tasks_of_changes hchanges hv ht, fun hu => ?_⟩
    exact ht (control_of_changes hchanges hcontrol k hu).symm
  cases htask : s.control.task? with
  | some t =>
    have hne : t ≠ k := by
      rintro rfl
      exact elsewhere htask
    obtain ⟨v, hv, hchanges⟩ := freeChanges_step H context s htask
    obtain rfl : v = u := Transition.next.inj (hv.symm.trans h)
    exact .inl (hothers (v := s.toIdle) hne hs (fun i hi => by cases hi) hchanges)
  | none =>
    have hidle : s.control = .idle := Control.eq_idle htask
    have hnobody : ∀ t i, s.control.task? = some i → i = t := by
      intro t i hi
      rw [htask] at hi
      cases hi
    rcases step_idle_cases hidle h with
      ⟨n, j, rest, hb, hr, rfl⟩ | ⟨n, rfl⟩ | ⟨tm, later, -, -, rfl⟩
    · by_cases hturn : j = .step k
      · subst hturn
        exact .inr ⟨n, rest, hidle, hb, hr, rfl⟩
      by_cases hstop : j = .stop
      · subst hstop
        exact .inl ⟨rfl, elsewhere⟩
      let popped : State σ := { s with ready := rest, batch := n }
      obtain ⟨t, ht, hchanges⟩ : ∃ t, t ≠ k ∧ FreeChanges H t popped (runJob H popped j) :=
        exists_changes_runJob _ ⟨k + 1, Nat.succ_ne_self k⟩ (fun i hj hi => hturn (hi ▸ hj))
          hstop fun _ _ => trivial
      exact .inl (hothers (v := popped) ht hs (hnobody t) hchanges)
    · exact .inl ⟨rfl, elsewhere⟩
    · exact .inl ⟨rfl, elsewhere⟩

/-- A main task that has ended stays as it is. -/
theorem over_of_step {report : Option Report} (hs : Over report s)
    (h : step H context s = .next u) : Over report u := by
  obtain ⟨task, htask, -⟩ := Option.map_eq_some_iff.1 hs.finished
  have hpresent := (List.getElem?_eq_some_iff.1 htask).1
  rcases elsewhere_of_step hpresent hs.elsewhere h with
    ⟨htasks, hcontrol⟩ | ⟨n, rest, hidle, -, -, rfl⟩
  · exact ⟨by rw [htasks, hs.finished], hcontrol⟩
  · have hfinished := hs.finished
    have hstay : stepTask H { s with ready := rest, batch := n } 0 =
        { s with ready := rest, batch := n } := by
      simp only [stepTask, hfinished]
    rw [hstay]
    exact ⟨hs.finished, hs.elsewhere⟩

end

/-- The loop is busy with the main task. -/
theorem timely_of_busy {s u : State σ} (hs : Ongoing s) (busy : s.control.task? = some 0)
    (h : step H context s = .next u) : Timely u := by
  have hidle : Ongoing s.toIdle := ⟨hs.present, hs.made, hs.outcome⟩
  unfold step at h
  cases hc : s.control with
  | idle => rw [hc] at busy; cases busy
  | perform t goal d =>
    rw [hc] at busy h
    cases busy
    cases h
    exact .inl (hidle.changes (changes_perform s.toIdle goal d fun _ _ => trivial))
  | outcome t goal o =>
    rw [hc] at busy h
    cases busy
    cases goal with
    | answer =>
      cases h
      exact .inr ⟨_, over_finish hidle.present ..⟩
    | watch effect =>
      cases h
      exact .inr ⟨_, over_finishWatch hidle.present ..⟩
    | drive j captured =>
      cases h
      exact timely_of_answerDrive H hidle o
  | deliver t j captured signal =>
    rw [hc] at busy h
    cases busy
    cases h
    exact timely_of_deliver H hidle signal

/-- The loop is busy with another task, which completes other promises. -/
theorem ongoing_of_busy {s u : State σ} (main : Main s) (hs : Ongoing s) {t : Nat}
    (busy : s.control.task? = some t) (ht : t ≠ 0) (h : step H context s = .next u) :
    Ongoing u := by
  have hidle : Ongoing s.toIdle := ⟨hs.present, hs.made, hs.outcome⟩
  obtain ⟨v, hv, hchanges⟩ : ∃ v, step H context s = .next v ∧
      Changes H t (fun _ => True) (· ≠ 0) s.toIdle v :=
    step_of_task s busy (fun _ _ _ _ _ _ => trivial)
      (fun task hk hp => ht ((main.tasks t task hk).1 hp))
      fun i _ _ => ⟨trivial, fun pending hp => main.effects i pending hp⟩
  obtain rfl : v = u := Transition.next.inj (hv.symm.trans h)
  exact hidle.changes hchanges

/-- Only the main task's own turn aims at the first promise. -/
theorem Main.aim_ne {s : State σ} (hs : Main s) {j : Job} {p : Nat} (ready : j ∈ s.ready)
    (aims : s.aim? j = some p) (turn : j ≠ .step 0) : p ≠ 0 := by
  cases j with
  | step k =>
    obtain ⟨task, hk, rfl⟩ := Option.map_eq_some_iff.1 aims
    exact fun h0 => turn (congrArg Job.step ((hs.tasks k task hk).1 h0))
  | notice k m =>
    obtain ⟨group, hk, rfl⟩ := Option.map_eq_some_iff.1 aims
    exact hs.groups k group hk
  | settle k e v =>
    obtain ⟨x, hk, rfl⟩ := Option.map_eq_some_iff.1 aims
    exact hs.effects k x hk
  | fulfil q o =>
    cases aims
    rintro rfl
    exact hs.ready _ ready rfl
  | invoke f args => cases aims
  | stop => cases aims

/-- A job is run. -/
theorem timely_of_runJob {s : State σ} (main : Main s) (hs : Ongoing s) {j : Job}
    {rest : List Job} {n : Nat} (hr : s.ready = j :: rest) :
    Timely (runJob H { s with ready := rest, batch := n } j) := by
  have hpop : Ongoing { s with ready := rest, batch := n } := ⟨hs.present, hs.made, hs.outcome⟩
  have hready : j ∈ s.ready := hr ▸ List.mem_cons_self ..
  by_cases hturn : j = .step 0
  · subst hturn
    exact timely_of_stepTask H hpop
  by_cases hstop : j = .stop
  · subst hstop
    exact .inl ⟨hs.present, hs.made, hs.outcome⟩
  obtain ⟨t, -, hchanges⟩ := exists_changes_runJob (P := fun _ => True) (H := H)
    { s with ready := rest, batch := n } ⟨0, trivial⟩ (fun _ _ => trivial) hstop
    fun p hp => main.aim_ne hready hp hturn
  exact .inl (hpop.changes hchanges)

/-- **While its promise is open the main task goes on, and then it is over.** -/
theorem timely_of_step {s u : State σ} (hs : Main s) (ht : Timely s)
    (h : step H context s = .next u) : Timely u := by
  obtain hgoing | ⟨report, hover⟩ := ht
  swap
  · exact .inr ⟨report, over_of_step hover h⟩
  cases htask : s.control.task? with
  | some t =>
    rcases eq_or_ne t 0 with rfl | hne
    · exact timely_of_busy hgoing htask h
    · exact .inl (ongoing_of_busy hs hgoing htask hne h)
  | none =>
    rcases step_idle_cases (Control.eq_idle htask) h with
      ⟨n, j, rest, -, hr, rfl⟩ | ⟨n, rfl⟩ | ⟨tm, later, -, -, rfl⟩
    · exact timely_of_runJob hs hgoing hr
    · exact .inl ⟨hgoing.present, hgoing.made, hgoing.outcome⟩
    · exact .inl ⟨hgoing.present, hgoing.made, hgoing.outcome⟩

theorem timely_of_reaches {host : σ} {run : Nat} {earlier : List (Nat × Outcome)}
    {errand : Errand} {s : State σ}
    (h : Transition.Reaches (step H context) (State.start host run earlier errand) s) :
    Timely s := by
  have hall : Sound s ∧ Main s ∧ Timely s :=
    h.invariant (P := fun s => Sound s ∧ Main s ∧ Timely s)
      (fun _ _ hs hstep => ⟨sound_of_step hs.1 hstep, main_of_step hs.1 hs.2.1 hstep,
        timely_of_step hs.2.1 hs.2.2 hstep⟩)
      ⟨sound_start host run earlier errand, main_start host run earlier errand,
        .inl ⟨Nat.zero_lt_one, Nat.zero_lt_one, rfl⟩⟩
  exact hall.2.2

/-! ## The end of the loop -/

/-- **How a loop ends**: with the outcome of its main task, or with nothing left to do. -/
theorem ends_of_main {s : State σ} {r : Ending σ} (hs : Main s)
    (h : step H context s = .done r) :
    s.control = .idle ∧
      ((∃ o, r = .finished o s ∧ s.outcome? 0 = some o) ∨
        r = .deadlock s ∧ s.outcome? 0 = none ∧ s.ready = [] ∧ s.timers = []) := by
  have hidle : s.control = .idle := by
    by_contra hne
    obtain ⟨u, hu, -⟩ := step_onward H context hne
    rw [h] at hu
    cases hu
  refine ⟨hidle, ?_⟩
  rw [step_of_idle H context hidle] at h
  unfold stepIdle at h
  split at h
  · cases h
  · cases h
  · split at h
    · next hstop =>
      split at h
      · next o ho =>
        cases h
        exact .inl ⟨o, rfl, ho⟩
      · next hnone => exact absurd hnone (hs.due.1 (.inr hstop))
    · next hgoes =>
      split at h
      · cases h
      · cases h
      · next hr ht =>
        cases h
        have hnone : s.outcome? 0 = none := by
          by_contra hne
          rcases hs.due.2 hne with hmem | hstop
          · rw [hr] at hmem
            cases hmem
          · exact hgoes hstop
        exact .inr ⟨rfl, hnone, hr, ht⟩

end EventLoop
end DescribedEffects
