import DescribedEffects.Proofs.EventLoop.Queue

/-!
# One owner for each promise

A promise belongs to a task, to a group, to a callback-style effect, or to the host: to a
future, that is, or to a job that completes it after a delay.  `Owns` says which.  Tasks,
groups and effects keep the promises they have, and a promise gets an owner only when it is
made: `Handed` says so of two states, and every step hands ownership on in this way
(`handed_of_step`).

So what has one owner has one owner for good, which is `Exclusive`.  A job completes
promises of its own owner only (`aim_ne_of_exclusive`), and so does a task that the loop is
busy with (`task_promise_ne_of_exclusive`).
-/

namespace DescribedEffects
namespace EventLoop

/-- Whoever completes a promise. -/
inductive Owner where
  | task (t : Nat)
  | group (g : Nat)
  | effect (i : Nat)
  | host

/-- Whose promise a job completes, if any. -/
def Job.owner? : Job → Option Owner
  | .step t => some (.task t)
  | .notice g _ => some (.group g)
  | .settle i _ _ => some (.effect i)
  | .fulfil .. => some .host
  | .invoke .. | .stop => none

variable {σ : Type}

/-- The promises that the host has made or completes. -/
def State.hosted (s : State σ) : List Nat :=
  s.futures.map Prod.snd ++ s.ready.filterMap Job.fulfils? ++
    s.timers.filterMap fun t => t.job.fulfils?

/-- The promise belongs to the owner. -/
def Owns (s : State σ) : Owner → Nat → Prop
  | .task t, p => (s.tasks.map Task.promise)[t]? = some p
  | .group g, p => (s.groups.map Group.promise)[g]? = some p
  | .effect i, p => (s.effects.map PendingEffect.promise)[i]? = some p
  | .host, p => p ∈ s.hosted

/-- The list has grown at its end, by numbers that are not below the bound. -/
structure Extended (bound : Nat) (old new : List Nat) : Prop where
  more : ∃ ps, new = old ++ ps ∧ ∀ p ∈ ps, bound ≤ p

theorem Extended.refl (bound : Nat) (l : List Nat) : Extended bound l l :=
  ⟨[], (List.append_nil l).symm, fun _ h => by cases h⟩

theorem Extended.of_eq {bound : Nat} {l m : List Nat} (h : m = l) : Extended bound l m :=
  h ▸ .refl bound m

theorem Extended.concat (bound : Nat) (l : List Nat) : Extended bound l (l ++ [bound]) :=
  ⟨[bound], rfl, fun _ h => Nat.le_of_eq (List.mem_singleton.1 h).symm⟩

theorem Extended.trans {a b : Nat} {l m n : List Nat} (h : Extended a l m)
    (k : Extended b m n) (hab : a ≤ b) : Extended a l n := by
  obtain ⟨ps, rfl, hps⟩ := h.more
  obtain ⟨qs, rfl, hqs⟩ := k.more
  refine ⟨ps ++ qs, List.append_assoc .., fun p hp => ?_⟩
  rcases List.mem_append.1 hp with hp | hp
  · exact hps p hp
  · exact Nat.le_trans hab (hqs p hp)

theorem Extended.kept {bound k p : Nat} {l m : List Nat} (h : Extended bound l m)
    (hk : l[k]? = some p) : m[k]? = some p := by
  obtain ⟨ps, rfl, -⟩ := h.more
  rwa [List.getElem?_append_left (List.getElem?_eq_some_iff.1 hk).1]

theorem Extended.new {bound k p : Nat} {l m : List Nat} (h : Extended bound l m)
    (hk : m[k]? = some p) : l[k]? = some p ∨ bound ≤ p := by
  obtain ⟨ps, rfl, hps⟩ := h.more
  rw [List.getElem?_append] at hk
  split at hk
  · exact .inl hk
  · exact .inr (hps p (List.mem_of_getElem? hk))

/-- Ownership is handed on: what has an owner keeps it, and only new promises get one. -/
structure Handed (s u : State σ) : Prop where
  promises : s.promises.length ≤ u.promises.length
  tasks : Extended s.promises.length (s.tasks.map Task.promise) (u.tasks.map Task.promise)
  groups : Extended s.promises.length (s.groups.map Group.promise) (u.groups.map Group.promise)
  effects : Extended s.promises.length (s.effects.map PendingEffect.promise)
    (u.effects.map PendingEffect.promise)
  hosted : ∀ p ∈ u.hosted, p ∈ s.hosted ∨ s.promises.length ≤ p

theorem Handed.refl (s : State σ) : Handed s s :=
  ⟨Nat.le_refl _, .refl .., .refl .., .refl .., fun _ h => .inl h⟩

theorem Handed.trans {s u v : State σ} (h : Handed s u) (k : Handed u v) : Handed s v where
  promises := Nat.le_trans h.promises k.promises
  tasks := h.tasks.trans k.tasks h.promises
  groups := h.groups.trans k.groups h.promises
  effects := h.effects.trans k.effects h.promises
  hosted p hp := by
    rcases k.hosted p hp with hp | hp
    · exact h.hosted p hp
    · exact .inr (Nat.le_trans h.promises hp)

variable {s u : State σ}

/-- An owner other than the host keeps what it has. -/
theorem Handed.kept (h : Handed s u) {w : Owner} {p : Nat} (hw : w ≠ .host)
    (hp : Owns s w p) : Owns u w p := by
  cases w with
  | task t => exact h.tasks.kept hp
  | group g => exact h.groups.kept hp
  | effect i => exact h.effects.kept hp
  | host => exact absurd rfl hw

/-- A promise that was there gets no other owner. -/
theorem Handed.old (h : Handed s u) {w : Owner} {p : Nat} (hp : p < s.promises.length)
    (hw : Owns u w p) : Owns s w p := by
  have hnot : ¬ s.promises.length ≤ p := Nat.not_le.2 hp
  cases w with
  | task t => exact (h.tasks.new hw).resolve_right hnot
  | group g => exact (h.groups.new hw).resolve_right hnot
  | effect i => exact (h.effects.new hw).resolve_right hnot
  | host => exact (h.hosted p hw).resolve_right hnot

/-! ## The small changes -/

theorem hosted_setTimer {n : Nat} {j : Job} {p : Nat} (h : p ∈ (s.setTimer n j).hosted) :
    p ∈ s.hosted ∨ j.fulfils? = some p := by
  simp only [State.hosted, List.mem_append, List.mem_filterMap] at h ⊢
  rcases h with h | ⟨t, ht, hp⟩
  · exact .inl (.inl h)
  · rcases mem_timers_setTimer ht with ht | rfl
    · exact .inl (.inr ⟨t, ht, hp⟩)
    · exact .inr hp

/-- Jobs are queued that complete no promise of the host. -/
theorem hosted_of_queued {p : Nat} (jobs : List Job) (h : ∀ j ∈ jobs, j.fulfils? = none)
    (hp : p ∈ u.hosted) (hr : u.ready = s.ready ++ jobs) (hf : u.futures = s.futures)
    (ht : u.timers = s.timers) : p ∈ s.hosted := by
  have hnone : jobs.filterMap Job.fulfils? = [] := List.filterMap_eq_nil_iff.2 h
  simpa [State.hosted, hr, hf, ht, List.filterMap_append, hnone] using hp

variable {H : Host σ} {context : Value} {t : Nat} {claims completes : Nat → Prop}

theorem handed_of_granting (h : Granting claims s u) : Handed s u := by
  cases h with
  | drained host => exact { Handed.refl s with hosted := fun _ h => .inl h }
  | reported may hi unclaimed error value =>
    exact { Handed.refl s with
      effects := .of_eq (map_set_of_eq hi rfl)
      hosted := fun p hp =>
        .inl (hosted_of_queued [_] (by simp [Job.fulfils?]) hp rfl rfl rfl) }
  | deferred n f args =>
    refine { Handed.refl s with hosted := fun p hp => ?_ }
    exact (hosted_setTimer hp).imp_right fun h => by cases h
  | future id o =>
    refine { Handed.refl s with promises := by simp, hosted := fun p hp => ?_ }
    simp only [State.hosted, List.map_append, List.map_cons, List.map_nil, List.mem_append,
      List.mem_singleton] at hp ⊢
    rcases hp with ((hp | rfl) | hp) | hp
    · exact .inl (.inl (.inl hp))
    · exact .inr (Nat.le_refl _)
    · exact .inl (.inl (.inr hp))
    · exact .inl (.inr hp)
  | ripening hf n o =>
    refine { Handed.refl s with hosted := fun p hp => ?_ }
    rcases hosted_setTimer hp with hp | hp
    · exact .inl hp
    · cases hp
      simp only [State.hosted, List.mem_append]
      exact .inl (.inl (.inl (List.mem_map_of_mem hf)))

theorem handed_of_claim (s : State σ) (i : Nat) : Handed s (s.claim i).2 := by
  rcases s.claim_cases i with ⟨_, he, -, hu⟩ | hu <;> rw [hu]
  · exact { Handed.refl s with
      effects := .of_eq (map_set_of_eq he rfl), hosted := fun _ h => .inl h }
  · exact .refl s

theorem handed_of_complete (hs : Sound s) (p : Nat) (o : Outcome) :
    Handed s (s.complete p o) := by
  rcases s.complete_cases p o with ⟨waiters, hw, hu⟩ | hu <;> rw [hu]
  · have hpatient := hs.waiters _ (List.mem_of_getElem? hw)
    exact { Handed.refl s with
      promises := by simp
      hosted := fun q hq => .inl (hosted_of_queued waiters
        (fun j hj => fulfils?_of_isPatient (hpatient j hj)) hq rfl rfl rfl) }
  · exact .refl s

/-- **Small changes hand ownership on.** -/
theorem handed_of_change (h : Change H t claims completes s u) (hs : Sound s) : Handed s u := by
  cases h with
  | asked _ => exact { Handed.refl s with hosted := fun _ h => .inl h }
  | granted =>
    exact kept_of_granting (P := Handed s) (fun h hv => hv.trans (handed_of_granting h))
      (granting_grantAll H s) (.refl s)
  | noted n => exact { Handed.refl s with hosted := fun _ h => .inl h }
  | idled => exact { Handed.refl s with hosted := fun _ h => .inl h }
  | turned _ => exact { Handed.refl s with hosted := fun _ h => .inl h }
  | moved phase =>
    rcases s.setPhase_cases t phase with ⟨task, ht, hu⟩ | hu <;> rw [hu]
    · exact { Handed.refl s with
        tasks := .of_eq (map_set_of_eq (b := ⟨phase, task.promise⟩) ht rfl)
        hosted := fun _ h => .inl h }
    · exact .refl s
  | queued =>
    exact { Handed.refl s with
      hosted := fun p hp =>
        .inl (hosted_of_queued [.step t] (by simp [Job.fulfils?]) hp rfl rfl rfl) }
  | timed n =>
    refine { Handed.refl s with hosted := fun p hp => ?_ }
    exact (hosted_setTimer hp).imp_right fun h => by cases h
  | promised o => exact { Handed.refl s with promises := by simp, hosted := fun _ h => .inl h }
  | subscribed q hj _ =>
    rcases s.subscribe_cases q _ with ⟨_, -, hu⟩ | hu <;> rw [hu]
    · exact { Handed.refl s with promises := by simp, hosted := fun _ h => .inl h }
    · exact .refl s
  | tasked errand =>
    refine { Handed.refl s with
      promises := by simp [State.newTask, State.newPromise, State.enqueue]
      tasks := ?_
      hosted := fun p hp =>
        .inl (hosted_of_queued [.step s.tasks.length] (by simp [Job.fulfils?]) hp rfl rfl rfl) }
    have hconcat := Extended.concat s.promises.length (s.tasks.map Task.promise)
    simpa [State.newTask, State.newPromise, State.enqueue] using hconcat
  | grouped n =>
    refine { Handed.refl s with
      promises := by simp [State.newPromise]
      groups := ?_
      hosted := fun _ h => .inl h }
    have hconcat := Extended.concat s.promises.length (s.groups.map Group.promise)
    simpa using hconcat
  | regrouped hg members remaining _ =>
    exact { Handed.refl s with
      groups := .of_eq (map_set_of_eq hg rfl), hosted := fun _ h => .inl h }
  | opened d =>
    refine { Handed.refl s with
      promises := by simp [State.newPromise]
      effects := ?_
      hosted := fun _ h => .inl h }
    have hconcat := Extended.concat s.promises.length (s.effects.map PendingEffect.promise)
    simpa using hconcat
  | claimed hi => exact handed_of_claim s _
  | completed hp o => exact handed_of_complete hs _ o

theorem handed_of_changes (h : Changes H t claims completes s u) (hs : Sound s) : Handed s u := by
  have hboth : Sound u ∧ Handed s u :=
    h.kept (P := fun u => Sound u ∧ Handed s u)
      (fun hc hv => ⟨sound_of_change hc hv.1, hv.2.trans (handed_of_change hc hv.1)⟩)
      ⟨hs, .refl s⟩
  exact hboth.2

/-- Taking the next job off the queue. -/
theorem handed_of_pop {j : Job} {rest : List Job} (hr : s.ready = j :: rest) (n : Nat) :
    Handed s { s with ready := rest, batch := n } := by
  refine { Handed.refl s with hosted := fun p hp => .inl ?_ }
  simp only [State.hosted, hr, List.filterMap_cons, List.mem_append] at hp ⊢
  grind

theorem handed_toIdle (s : State σ) : Handed s s.toIdle :=
  { Handed.refl s with hosted := fun _ h => .inl h }

/-- **Every step hands ownership on.** -/
theorem handed_of_step (hs : Sound s) (h : step H context s = .next u) : Handed s u := by
  cases htask : s.control.task? with
  | some t =>
    obtain ⟨v, hv, hchanges⟩ := freeChanges_step H context s htask
    obtain rfl : v = u := Transition.next.inj (hv.symm.trans h)
    exact (handed_toIdle s).trans (handed_of_changes hchanges hs.toIdle)
  | none =>
    have hidle : s.control = .idle := Control.eq_idle htask
    rcases step_idle_cases hidle h with
      ⟨n, j, rest, -, hr, rfl⟩ | ⟨n, rfl⟩ | ⟨tm, later, hr, ht, rfl⟩
    · refine (handed_of_pop hr n).trans ?_
      by_cases hstop : j = .stop
      · subst hstop
        exact { Handed.refl _ with hosted := fun _ h => .inl h }
      · obtain ⟨t, hchanges⟩ := freeChanges_runJob H { s with ready := rest, batch := n } hstop
        exact handed_of_changes hchanges (sound_of_pop hr hs n)
    · exact { Handed.refl s with hosted := fun _ h => .inl h }
    · refine { Handed.refl s with hosted := fun p hp => .inl ?_ }
      simp only [State.hosted, hr, ht, List.filterMap_cons, List.filterMap_nil,
        List.mem_append] at hp ⊢
      grind

/-! ## A single owner -/

/-- The promise belongs to the owner and to nobody else. -/
structure Exclusive (w : Owner) (p : Nat) (s : State σ) : Prop where
  made : p < s.promises.length
  owns : Owns s w p
  only : ∀ w', Owns s w' p → w' = w

variable {w : Owner} {p : Nat}

theorem Exclusive.handed (h : Exclusive w p s) (hw : w ≠ .host) (k : Handed s u) :
    Exclusive w p u where
  made := Nat.lt_of_lt_of_le h.made k.promises
  owns := k.kept hw h.owns
  only w' hw' := h.only w' (k.old h.made hw')

/-- A task with a promise of its own is there. -/
theorem Exclusive.exists_task (h : Exclusive (.task t) p s) :
    ∃ phase, s.tasks[t]? = some ⟨phase, p⟩ := by
  have howns : (s.tasks.map Task.promise)[t]? = some p := h.owns
  rw [List.getElem?_map] at howns
  obtain ⟨task, htask, rfl⟩ := Option.map_eq_some_iff.1 howns
  exact ⟨task.phase, htask⟩

/-- A job of the queue completes no promise that is another owner's. -/
theorem aim_ne_of_exclusive (h : Exclusive w p s) {j : Job} (hj : j ∈ s.ready)
    (hw : j.owner? ≠ some w) : ∀ q, s.aim? j = some q → q ≠ p := by
  rintro q hq rfl
  have hnot : ∀ w', j.owner? = some w' → ¬ Owns s w' q := fun w' hw' howns =>
    hw (hw'.trans (congrArg some (h.only w' howns)))
  cases j with
  | step t => exact hnot _ rfl (by simpa [Owns, State.aim?] using hq)
  | notice g m => exact hnot _ rfl (by simpa [Owns, State.aim?] using hq)
  | settle i error value => exact hnot _ rfl (by simpa [Owns, State.aim?] using hq)
  | fulfil r o =>
    cases hq
    refine hnot _ rfl ?_
    simp only [Owns, State.hosted, List.mem_append, List.mem_filterMap]
    exact .inl (.inr ⟨_, hj, rfl⟩)
  | invoke f args => cases hq
  | stop => cases hq

/-- A task completes no promise that is another task's. -/
theorem task_promise_ne_of_exclusive (h : Exclusive w p s) (hw : w ≠ .task t) :
    ∀ task, s.tasks[t]? = some task → task.promise ≠ p := by
  rintro task htask rfl
  have howns : Owns s (.task t) task.promise := by simp [Owns, htask]
  exact hw (h.only _ howns).symm

/-- Nobody completes a promise for an effect that is not the owner. -/
theorem effect_promise_ne_of_exclusive (h : Exclusive w p s) {i : Nat} (hw : w ≠ .effect i) :
    ∀ e, s.effects[i]? = some e → e.promise ≠ p := by
  rintro e he rfl
  have howns : Owns s (.effect i) e.promise := by simp [Owns, he]
  exact hw (h.only _ howns).symm

end EventLoop
end DescribedEffects
