import DescribedEffects.Proofs.EventLoop.Changes
import DescribedEffects.Proofs.Trail
import Mathlib.Data.List.TakeDrop

/-!
# Who completes a promise

A promise is completed by whoever it belongs to: a task at its end, a group when its
members are complete, a future at once or after a delay, or a callback-style effect.
`State.owed` are the promises of the first three sorts.  What a change adds to them are
promises that it has just made (`Grown`), so a promise that was made for an effect
is never owed by anybody else.

`Sound` is what every state of the loop has: the numbers that are in use have been given
out, no timer carries out a completion, and the jobs that wait for a promise do not
complete one by themselves.  It holds from the start (`sound_start`) and is kept by every
step (`sound_of_step`).
-/

namespace DescribedEffects
namespace EventLoop

variable {σ : Type}

/-- The promise that a job completes whatever it belongs to. -/
def Job.fulfils? : Job → Option Nat
  | .fulfil p _ => some p
  | _ => none

/-- The job carries out the completion of an effect. -/
def Job.settles? : Job → Option Nat
  | .settle i _ _ => some i
  | _ => none

@[simp] theorem fulfils?_of_isPatient {j : Job} (h : j.isPatient = true) : j.fulfils? = none := by
  cases j <;> first | rfl | cases h

@[simp] theorem settles?_of_isPatient {j : Job} (h : j.isPatient = true) : j.settles? = none := by
  cases j <;> first | rfl | cases h

/-- The promises that something other than a callback-style effect completes. -/
def State.owed (s : State σ) : List Nat :=
  s.tasks.map (·.promise) ++ s.groups.map (·.promise) ++ s.futures.map Prod.snd ++
    s.ready.filterMap Job.fulfils? ++ s.timers.filterMap fun t => t.job.fulfils?

/-- Every number in use has been given out, and completions are carried out by jobs of
their own. -/
structure Sound (s : State σ) : Prop where
  owed : ∀ p ∈ s.owed, p < s.promises.length
  effects : ∀ e ∈ s.effects, e.promise < s.promises.length
  settles : ∀ j ∈ s.ready, ∀ i, j.settles? = some i → i < s.effects.length
  timers : ∀ t ∈ s.timers, t.job.settles? = none
  waiters : ∀ p ∈ s.promises, ∀ j ∈ p.waiters, j.isPatient = true

/-! ## The small changes -/

/-- The timers are those that were there, and the one that was set. -/
theorem mem_timers_setTimer {s : State σ} {n : Nat} {j : Job} {t : Timer}
    (h : t ∈ (s.setTimer n j).timers) : t ∈ s.timers ∨ t.job = j := by
  have hall := List.takeWhile_append_dropWhile
    (p := fun t : Timer => decide (t.due ≤ s.clock + n)) (l := s.timers)
  simp only [State.setTimer, List.span_eq_takeWhile_dropWhile, List.mem_append,
    List.mem_cons] at h
  rw [← hall, List.mem_append]
  rcases h with h | rfl | h
  · exact .inl (.inl h)
  · exact .inr rfl
  · exact .inl (.inr h)

/-- A task that moves keeps its promise. -/
theorem owed_setPhase (s : State σ) (t : Nat) (phase : Phase) :
    (s.setPhase t phase).owed = s.owed := by
  rcases s.setPhase_cases t phase with ⟨task, ht, hu⟩ | hu <;> rw [hu]
  simp only [State.owed]
  rw [map_set_of_eq (b := ⟨phase, task.promise⟩) ht rfl]

theorem owed_enqueue (s : State σ) {j : Job} (h : j.fulfils? = none) :
    (s.enqueue j).owed = s.owed := by
  simp [State.owed, State.enqueue, List.filterMap_append, h]

theorem owed_setTimer {s : State σ} {n : Nat} {j : Job} {p : Nat}
    (h : p ∈ (s.setTimer n j).owed) : p ∈ s.owed ∨ j.fulfils? = some p := by
  simp only [State.owed, List.mem_append, List.mem_filterMap] at h ⊢
  rcases h with h | ⟨t, ht, hp⟩
  · exact .inl (.inl h)
  · rcases mem_timers_setTimer ht with ht | rfl
    · exact .inl (.inr ⟨t, ht, hp⟩)
    · exact .inr hp

theorem owed_subscribe (s : State σ) (p : Nat) (j : Job) :
    (s.subscribe p j).owed = s.owed := by
  rw [State.subscribe_frame]
  rfl

theorem owed_claim (s : State σ) (i : Nat) : (s.claim i).2.owed = s.owed := by
  rw [State.claim_frame]
  rfl

/-- The jobs that wait for a promise do not complete one by themselves. -/
theorem owed_complete {s : State σ}
    (h : ∀ p ∈ s.promises, ∀ j ∈ p.waiters, j.isPatient = true) (p : Nat) (o : Outcome) :
    (s.complete p o).owed = s.owed := by
  rcases s.complete_cases p o with ⟨waiters, hp, hu⟩ | hu <;> rw [hu]
  have hwaiters : waiters.filterMap Job.fulfils? = [] := by
    rw [List.filterMap_eq_nil_iff]
    exact fun j hj => fulfils?_of_isPatient (h _ (List.mem_of_getElem? hp) j hj)
  simp [State.owed, List.filterMap_append, hwaiters]

/-- The second state has more promises, and what is newly owed in it is one of those. -/
structure Grown (s u : State σ) : Prop where
  promises : s.promises.length ≤ u.promises.length
  owed : ∀ p ∈ u.owed, p ∈ s.owed ∨ s.promises.length ≤ p ∧ p < u.promises.length

theorem Grown.refl (s : State σ) : Grown s s := ⟨Nat.le_refl _, fun _ hp => .inl hp⟩

theorem Grown.trans {s u v : State σ} (h : Grown s u) (k : Grown u v) : Grown s v where
  promises := Nat.le_trans h.promises k.promises
  owed p hp := by
    rcases k.owed p hp with hp | hp
    · rcases h.owed p hp with hp | hp
      · exact .inl hp
      · exact .inr ⟨hp.1, Nat.lt_of_lt_of_le hp.2 k.promises⟩
    · exact .inr ⟨Nat.le_trans h.promises hp.1, hp.2⟩

/-- Nothing is newly owed. -/
theorem Grown.of_owed {s u : State σ} (hp : s.promises.length ≤ u.promises.length)
    (ho : u.owed = s.owed) : Grown s u := ⟨hp, fun _ h => .inl (ho ▸ h)⟩

/-- The promise that has just been made is newly owed, and nothing else. -/
theorem Grown.of_new {s u : State σ} (hp : u.promises.length = s.promises.length + 1)
    (ho : ∀ p ∈ u.owed, p ∈ s.owed ∨ p = s.promises.length) : Grown s u where
  promises := by omega
  owed p h := by
    rcases ho p h with h | rfl
    · exact .inl h
    · exact .inr ⟨Nat.le_refl _, by omega⟩

variable {H : Host σ} {context : Value} {t : Nat} {claims completes : Nat → Prop}

theorem grown_of_granting {s u : State σ} (h : Granting claims s u) : Grown s u := by
  cases h with
  | drained host => exact .of_owed (Nat.le_refl _) rfl
  | reported may hi unclaimed error value =>
    exact .of_owed (Nat.le_refl _) (by simp [State.owed, List.filterMap_append, Job.fulfils?])
  | deferred n f args =>
    refine ⟨Nat.le_refl _, fun p hp => ?_⟩
    rcases owed_setTimer hp with hp | hp
    · exact .inl hp
    · cases hp
  | future id o =>
    refine .of_new (by simp) fun p hp => ?_
    simp only [State.owed, List.map_append, List.map_cons, List.map_nil, List.mem_append,
      List.mem_singleton] at hp ⊢
    rcases hp with ((hp | hp | rfl) | hp) | hp
    · exact .inl (.inl (.inl (.inl hp)))
    · exact .inl (.inl (.inl (.inr hp)))
    · exact .inr rfl
    · exact .inl (.inl (.inr hp))
    · exact .inl (.inr hp)
  | ripening hf n o =>
    refine ⟨Nat.le_refl _, fun p hp => ?_⟩
    rcases owed_setTimer hp with hp | hp
    · exact .inl hp
    · cases hp
      refine .inl ?_
      simp only [State.owed, List.mem_append]
      exact .inl (.inl (.inr (List.mem_map_of_mem hf)))

theorem grown_of_grantAll (s : State σ) : Grown s (grantAll H s) :=
  kept_of_granting (P := Grown s) (fun h hs => hs.trans (grown_of_granting h))
    (granting_grantAll H s) (.refl s)

@[simp] theorem length_promises_complete (s : State σ) (p : Nat) (o : Outcome) :
    (s.complete p o).promises.length = s.promises.length := by
  rcases s.complete_cases p o with ⟨_, -, hu⟩ | hu <;> simp [hu]

@[simp] theorem length_promises_subscribe (s : State σ) (p : Nat) (j : Job) :
    (s.subscribe p j).promises.length = s.promises.length := by
  rcases s.subscribe_cases p j with ⟨_, -, hu⟩ | hu <;> simp [hu]

@[simp] theorem promises_claim (s : State σ) (i : Nat) :
    (s.claim i).2.promises = s.promises := by
  rw [State.claim_frame]

@[simp] theorem promises_setPhase (s : State σ) (i : Nat) (phase : Phase) :
    (s.setPhase i phase).promises = s.promises := by
  rw [State.setPhase_frame]

/-- **What a change newly owes has just been made.** -/
theorem grown_of_change {s u : State σ} (h : Change H t claims completes s u)
    (hs : ∀ p ∈ s.promises, ∀ j ∈ p.waiters, j.isPatient = true) : Grown s u := by
  cases h with
  | granted => exact grown_of_grantAll s
  | moved phase => exact .of_owed (by simp) (owed_setPhase s t phase)
  | queued => exact .of_owed (Nat.le_refl _) (owed_enqueue s rfl)
  | timed n =>
    refine ⟨Nat.le_refl _, fun p hp => ?_⟩
    rcases owed_setTimer hp with hp | hp
    · exact .inl hp
    · cases hp
  | promised o => exact .of_owed (by simp) rfl
  | subscribed q hj _ => exact .of_owed (by simp) (owed_subscribe s q _)
  | tasked errand =>
    refine .of_new (by simp [State.newTask, State.newPromise, State.enqueue]) fun p hp => ?_
    rw [State.newTask, owed_enqueue _ rfl] at hp
    simp only [State.newPromise, State.owed, List.map_append, List.map_cons, List.map_nil,
      List.mem_append, List.mem_singleton] at hp ⊢
    grind
  | grouped n =>
    refine .of_new (by simp [State.newPromise]) fun p hp => ?_
    simp only [State.newPromise, State.owed, List.map_append, List.map_cons, List.map_nil,
      List.mem_append, List.mem_singleton] at hp ⊢
    grind
  | regrouped hg members remaining =>
    have hgroups := map_set_of_eq (f := Group.promise) (b := ⟨members, remaining, _⟩) hg rfl
    exact .of_owed (Nat.le_refl _) (by simp only [State.owed, hgroups])
  | opened d => exact .of_owed (by simp [State.newPromise]) rfl
  | claimed hi => exact .of_owed (by simp) (owed_claim s _)
  | completed hq o => exact .of_owed (by simp) (owed_complete hs _ o)
  | _ => exact .of_owed (Nat.le_refl _) rfl

/-! ## Soundness -/

theorem sound_start (host : σ) (run : Nat) (earlier : List (Nat × Outcome)) (errand : Errand) :
    Sound (State.start host run earlier errand) where
  owed p hp := by
    simp [State.start, State.owed, Job.fulfils?] at hp ⊢
    exact hp
  effects _ h := by cases h
  settles j hj i hi := by
    obtain rfl := List.mem_singleton.1 hj
    cases hi
  timers _ h := by cases h
  waiters p hp j hj := by
    obtain rfl := List.mem_singleton.1 hp
    obtain rfl := List.mem_singleton.1 hj
    rfl

/-- What is owed has been made. -/
theorem Grown.owed_lt {s u : State σ} (h : Grown s u) (hs : Sound s) :
    ∀ p ∈ u.owed, p < u.promises.length := by
  intro p hp
  rcases h.owed p hp with hp | hp
  · exact Nat.lt_of_lt_of_le (hs.owed p hp) h.promises
  · exact hp.2

theorem sound_of_granting {s u : State σ} (h : Granting claims s u) (hs : Sound s) : Sound u := by
  have hgrown := grown_of_granting h
  have howed := hgrown.owed_lt hs
  cases h with
  | drained host => exact { hs with owed := howed }
  | @reported i x may hi unclaimed error value =>
    refine { hs with owed := howed, effects := fun e he => ?_, settles := fun j hj k hk => ?_ }
    · rcases List.mem_or_eq_of_mem_set he with he | rfl
      · exact hs.effects e he
      · exact hs.effects x (List.mem_of_getElem? hi)
    · rw [List.length_set]
      rcases List.mem_append.1 hj with hj | hj
      · exact hs.settles j hj k hk
      · obtain rfl := List.mem_singleton.1 hj
        cases hk
        exact (List.getElem?_eq_some_iff.1 hi).1
  | deferred n f args =>
    refine { hs with owed := howed, timers := fun t ht => ?_ }
    rcases mem_timers_setTimer ht with ht | ht
    · exact hs.timers t ht
    · rw [ht]
      rfl
  | future id o =>
    refine { hs with owed := howed, effects := fun e he => ?_, waiters := fun p hp j hj => ?_ }
    · exact Nat.lt_of_lt_of_le (hs.effects e he) hgrown.promises
    · rcases List.mem_append.1 hp with hp | hp
      · exact hs.waiters p hp j hj
      · obtain rfl := List.mem_singleton.1 hp
        cases hj
  | ripening hf n o =>
    refine { hs with owed := howed, timers := fun t ht => ?_ }
    rcases mem_timers_setTimer ht with ht | ht
    · exact hs.timers t ht
    · rw [ht]
      rfl

theorem sound_of_grantAll {s : State σ} (hs : Sound s) : Sound (grantAll H s) :=
  kept_of_granting sound_of_granting (granting_grantAll H s) hs

/-- A sound state that gets one more promise, for which nothing waits. -/
theorem waiters_concat {promises : List Promise} {o : Option Outcome}
    (h : ∀ p ∈ promises, ∀ j ∈ p.waiters, j.isPatient = true) :
    ∀ p ∈ promises ++ [⟨o, []⟩], ∀ j ∈ p.waiters, j.isPatient = true := by
  intro p hp j hj
  rcases List.mem_append.1 hp with hp | hp
  · exact h p hp j hj
  · obtain rfl := List.mem_singleton.1 hp
    cases hj

theorem sound_claim {s : State σ} (hs : Sound s) (i : Nat) : Sound (s.claim i).2 := by
  have howed := owed_claim s i
  rcases s.claim_cases i with ⟨e, he, -, hu⟩ | hu <;> rw [hu] at howed ⊢
  · refine { hs with
      owed := fun p hp => hs.owed p (howed ▸ hp)
      effects := fun x hx => ?_
      settles := fun j hj k hk => ?_ }
    · rcases List.mem_or_eq_of_mem_set hx with hx | rfl
      · exact hs.effects x hx
      · exact hs.effects e (List.mem_of_getElem? he)
    · rw [List.length_set]
      exact hs.settles j hj k hk
  · exact hs

theorem sound_complete {s : State σ} (hs : Sound s) (p : Nat) (o : Outcome) :
    Sound (s.complete p o) := by
  have howed := owed_complete hs.waiters p o
  rcases s.complete_cases p o with ⟨waiters, hw, hu⟩ | hu <;> rw [hu] at howed ⊢
  · have hpatient : ∀ j ∈ waiters, j.isPatient = true := hs.waiters _ (List.mem_of_getElem? hw)
    refine ⟨fun q hq => ?_, fun e he => ?_, fun j hj i hi => ?_, hs.timers, fun q hq k hk => ?_⟩
    · rw [List.length_set]
      exact hs.owed q (howed ▸ hq)
    · rw [List.length_set]
      exact hs.effects e he
    · rcases List.mem_append.1 hj with hj | hj
      · exact hs.settles j hj i hi
      · rw [settles?_of_isPatient (hpatient j hj)] at hi
        cases hi
    · rcases List.mem_or_eq_of_mem_set hq with hq | rfl
      · exact hs.waiters q hq k hk
      · cases hk
  · exact hs

/-- **Small changes keep a state sound.** -/
theorem sound_of_change {s u : State σ} (h : Change H t claims completes s u) (hs : Sound s) :
    Sound u := by
  have hgrown := grown_of_change h hs.waiters
  have howed := hgrown.owed_lt hs
  cases h with
  | asked _ => exact { hs with owed := howed }
  | granted => exact sound_of_grantAll hs
  | noted n => exact { hs with owed := howed }
  | idled => exact { hs with owed := howed }
  | turned _ => exact { hs with owed := howed }
  | moved phase =>
    rw [State.setPhase_frame] at howed ⊢
    exact { hs with owed := howed }
  | queued =>
    refine { hs with owed := howed, settles := fun j hj i hi => ?_ }
    rcases List.mem_append.1 hj with hj | hj
    · exact hs.settles j hj i hi
    · obtain rfl := List.mem_singleton.1 hj
      cases hi
  | timed n =>
    refine { hs with owed := howed, timers := fun t ht => ?_ }
    rcases mem_timers_setTimer ht with ht | ht
    · exact hs.timers t ht
    · rw [ht]
      rfl
  | promised o =>
    refine { hs with owed := howed, effects := fun e he => ?_, waiters := waiters_concat hs.waiters }
    exact Nat.lt_of_lt_of_le (hs.effects e he) hgrown.promises
  | subscribed p hj _ =>
    rcases s.subscribe_cases p _ with ⟨waiters, hp, hu⟩ | hu <;> rw [hu] at howed ⊢
    · refine { hs with owed := howed, effects := fun e he => ?_, waiters := fun q hq k hk => ?_ }
      · rw [List.length_set]
        exact hs.effects e he
      · rcases List.mem_or_eq_of_mem_set hq with hq | rfl
        · exact hs.waiters q hq k hk
        · rcases List.mem_append.1 hk with hk | hk
          · exact hs.waiters _ (List.mem_of_getElem? hp) k hk
          · obtain rfl := List.mem_singleton.1 hk
            exact hj
    · exact hs
  | tasked errand =>
    refine ⟨howed, fun e he => ?_, fun j hj i hi => ?_, hs.timers, waiters_concat hs.waiters⟩
    · exact Nat.lt_of_lt_of_le (hs.effects e he) hgrown.promises
    · rcases List.mem_append.1 hj with hj | hj
      · exact hs.settles j hj i hi
      · obtain rfl := List.mem_singleton.1 hj
        cases hi
  | grouped n =>
    refine ⟨howed, fun e he => ?_, hs.settles, hs.timers, waiters_concat hs.waiters⟩
    exact Nat.lt_of_lt_of_le (hs.effects e he) hgrown.promises
  | regrouped hg members remaining => exact { hs with owed := howed }
  | opened d =>
    refine ⟨howed, fun e he => ?_, fun j hj i hi => ?_, hs.timers, waiters_concat hs.waiters⟩
    · rcases List.mem_append.1 he with he | he
      · exact Nat.lt_of_lt_of_le (hs.effects e he) hgrown.promises
      · obtain rfl := List.mem_singleton.1 he
        simp [State.newPromise]
    · have hlt := hs.settles j hj i hi
      simp only [List.length_append]
      omega
  | claimed hi => exact sound_claim hs _
  | completed hp o => exact sound_complete hs _ o

theorem sound_of_changes {s u : State σ} (h : Changes H t claims completes s u)
    (hs : Sound s) : Sound u :=
  h.kept sound_of_change hs

theorem mem_owed_of_pop {s : State σ} {j : Job} {rest : List Job} (hr : s.ready = j :: rest)
    {n p : Nat} (hp : p ∈ State.owed { s with ready := rest, batch := n }) : p ∈ s.owed := by
  simp only [State.owed, hr, List.filterMap_cons, List.mem_append] at hp ⊢
  grind

theorem mem_owed_of_clock {s : State σ} {timer : Timer} {later : List Timer}
    (hr : s.ready = []) (ht : s.timers = timer :: later) {p : Nat}
    (hp : p ∈ State.owed { s with clock := timer.due, ready := [timer.job], timers := later }) :
    p ∈ s.owed := by
  simp only [State.owed, hr, ht, List.filterMap_cons, List.filterMap_nil, List.mem_append] at hp ⊢
  grind

/-- Taking the next job off the queue. -/
theorem sound_of_pop {s : State σ} {j : Job} {rest : List Job} (hr : s.ready = j :: rest)
    (hs : Sound s) (n : Nat) : Sound { s with ready := rest, batch := n } := by
  exact { hs with
    owed := fun p hp => hs.owed p (mem_owed_of_pop hr hp)
    settles := fun k hk => hs.settles k (hr ▸ List.mem_cons_of_mem j hk) }

/-- Moving the clock to the earliest timer. -/
theorem sound_of_clock {s : State σ} {timer : Timer} {later : List Timer}
    (hr : s.ready = []) (ht : s.timers = timer :: later) (hs : Sound s) :
    Sound { s with clock := timer.due, ready := [timer.job], timers := later } := by
  refine { hs with
    owed := fun p hp => hs.owed p (mem_owed_of_clock hr ht hp)
    settles := fun k hk i hi => ?_
    timers := fun t h => hs.timers t (ht ▸ List.mem_cons_of_mem timer h) }
  · obtain rfl := List.mem_singleton.1 hk
    rw [hs.timers timer (ht ▸ List.mem_cons_self ..)] at hi
    cases hi

/-- What the loop is busy with owes nothing. -/
theorem Sound.toIdle {s : State σ} (hs : Sound s) : Sound s.toIdle :=
  { hs with owed := hs.owed }

/-- Every job keeps a state sound. -/
theorem sound_of_runJob {s : State σ} (hs : Sound s) (j : Job) : Sound (runJob H s j) := by
  by_cases hstop : j = .stop
  · subst hstop
    exact { hs with owed := hs.owed }
  · obtain ⟨t, h⟩ := freeChanges_runJob H s hstop
    exact sound_of_changes h hs

theorem sound_of_step {s u : State σ} (hs : Sound s) (h : step H context s = .next u) :
    Sound u := by
  cases htask : s.control.task? with
  | some t =>
    obtain ⟨v, hv, hchanges⟩ := freeChanges_step H context s htask
    obtain rfl : v = u := Transition.next.inj (hv.symm.trans h)
    exact sound_of_changes hchanges hs.toIdle
  | none =>
    have hidle : s.control = .idle := Control.eq_idle htask
    rcases step_idle_cases hidle h with ⟨n, j, rest, -, hr, rfl⟩ | ⟨n, rfl⟩ | ⟨_, _, hr, ht, rfl⟩
    · exact sound_of_runJob (sound_of_pop hr hs n) j
    · exact { hs with owed := hs.owed }
    · exact sound_of_clock hr ht hs

/-- **Every state that the loop comes to is sound.** -/
theorem sound_of_reaches {host : σ} {run : Nat} {earlier : List (Nat × Outcome)}
    {errand : Errand} {s : State σ}
    (h : Transition.Reaches (step H context) (State.start host run earlier errand) s) :
    Sound s :=
  h.invariant (fun _ _ => sound_of_step) (sound_start host run earlier errand)

end EventLoop
end DescribedEffects
