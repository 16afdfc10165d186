import DescribedEffects.Proofs.Manners.Outlook

/-!
# Keeping the outlook

The loop changes its state in few ways: it puts a job in the queue or behind a timer, makes or
completes a promise, begins a task, lets it rest or goes on with it, remembers or claims an
effect, or staffs a group.  Each of them has two lemmas here.  The first says what the state
hands on to the next one (`Lasts`), the second that a tidy state is still tidy, on the condition
that what is new is as expected.

A job that has been taken off the queue is kept in hand until it has done what it stands for,
and only then let go (`Tidy.release`).
-/

namespace DescribedEffects
namespace EventLoop

variable {P S : Type} {K : Callables} {context : Value} {es es' : List Expected} {top : Expected}
  {hand hand' : List Job} {busy busy' : Option (Nat × Goal)} {s u : Loop P S} {t p q : Nat}
  {goal : Goal}

/-- **A state stays tidy** when what it had lasts and what is new is as expected. -/
theorem Tidy.next (hs : Tidy K context es top hand busy s)
    (h : Lasts es hand busy s es' hand' busy' u) (length : es'.length = u.promises.length)
    (settled : ∀ p o, p ≠ 0 → u.outcome? p = some o → s.outcome? p = none →
      ∃ x, es'[p]? = some x ∧ x.outcome = o ∧ x.IsThere u.host.2)
    (jobs : ∀ j, Queued hand' u j → Queued hand s j ∨ Fitting es' u j)
    (patient : ∀ pr ∈ u.promises, ∀ j ∈ pr.waiters, j.isPatient = true)
    (tasks : ∀ t phase p, u.tasks[t]? = some ⟨phase, p⟩ →
      s.tasks[t]? = some ⟨phase, p⟩ ∧ (phase ≠ .running ∨ busy' = busy) ∨
        Poised K context es' top hand' busy' u t p phase)
    (threads : ∀ r ∈ u.scene.threads, r ∈ s.scene.threads ∨ Reports es' u r)
    (requests : ∀ r ∈ u.scene.requests,
      r ∈ s.scene.requests ∨ r ∈ s.scene.threads ∨ Reports es' u r)
    (futures : ∀ x ∈ u.futures, x.1 < u.scene.futures) :
    Tidy K context es' top hand' busy' u where
  length := length
  settled p o hp ho := by
    cases hbefore : s.outcome? p with
    | none => exact settled p o hp ho hbefore
    | some o' =>
      obtain ⟨x, hx, hxo, hthere⟩ := hs.settled p o' hp hbefore
      have hkept := h.outcome p (by simp [hbefore])
      rw [ho, hbefore] at hkept
      exact ⟨x, h.expected hx, hxo.trans (Option.some.inj hkept).symm, h.isThere hthere⟩
  jobs j hj := (jobs j hj).elim (fun hj => h.fitting (hs.jobs j hj)) id
  patient := patient
  tasks t phase p ht := by
    rcases tasks t phase p ht with ⟨hold, hphase⟩ | hnew
    · have hpoised := hs.tasks t phase p hold
      by_cases hrunning : phase = .running
      · subst hrunning
        cases hpoised with
        | running goal at_work =>
          rcases hphase with hne | heq
          · exact absurd rfl hne
          · exact .running goal (heq.trans at_work)
      · exact hpoised.lasts h hrunning
    · exact hnew
  threads r hr := (threads r hr).elim (fun hr => h.reports (hs.threads r hr)) id
  requests r hr := by
    rcases requests r hr with hr | hr | hr
    · exact h.reports (hs.requests r hr)
    · exact h.reports (hs.threads r hr)
    · exact hr
  futures := futures

/-- A state stays tidy when nothing happens to its promises. -/
theorem Tidy.next_of_promises (hs : Tidy K context es top hand busy s)
    (h : Lasts es hand busy s es hand' busy' u) (promises : u.promises = s.promises)
    (jobs : ∀ j, Queued hand' u j → Queued hand s j ∨ Fitting es u j)
    (tasks : ∀ t phase p, u.tasks[t]? = some ⟨phase, p⟩ →
      s.tasks[t]? = some ⟨phase, p⟩ ∧ (phase ≠ .running ∨ busy' = busy) ∨
        Poised K context es top hand' busy' u t p phase)
    (threads : ∀ r ∈ u.scene.threads, r ∈ s.scene.threads ∨ Reports es u r)
    (requests : ∀ r ∈ u.scene.requests,
      r ∈ s.scene.requests ∨ r ∈ s.scene.threads ∨ Reports es u r)
    (futures : ∀ x ∈ u.futures, x.1 < u.scene.futures) :
    Tidy K context es top hand' busy' u := by
  refine hs.next h (by rw [promises, hs.length]) (fun p o _ ho hnone => ?_) jobs
    (by rw [promises]; exact hs.patient) tasks threads requests futures
  rw [State.outcome?, promises] at ho
  rw [State.outcome?, ho] at hnone
  cases hnone

/-- What lasts when no effect is claimed and the world stays as it is. -/
theorem Lasts.of_kept (expects : es <+: es') (queued : ∀ j, Queued hand s j → Queued hand' u j)
    (run : u.run = s.run) (host : u.host = s.host)
    (groups : s.groups.map Group.promise ⊆ u.groups.map Group.promise)
    (effects : ∀ (i : Nat) (e : PendingEffect), s.effects[i]? = some e → u.effects[i]? = some e)
    (opened : ∀ (q : Nat) (ws : List Job), s.promises[q]? = some ⟨none, ws⟩ →
      (∃ ws', u.promises[q]? = some ⟨none, ws'⟩ ∧ ws ⊆ ws') ∨
        u.outcome? q ≠ none ∧ ∀ j ∈ ws, Queued hand' u j)
    (outcome : ∀ q, s.outcome? q ≠ none → u.outcome? q = s.outcome? q)
    (watching : ∀ w i, Watching busy s w i → Watching busy' u w i ∨ Claimed u i) :
    Lasts es hand busy s es' hand' busy' u where
  expects := expects
  queued := queued
  run := run
  items := by rw [host]
  minted := by rw [host]
  groups := groups
  effects i e he := ⟨e.claimed, effects i e he, id, fun h h' => by rw [h] at h'; cases h'⟩
  opened := opened
  outcome := outcome
  bodies k b hb := ⟨b, by rwa [State.scene, host], rfl, .inl rfl⟩
  watching := watching
  requests i error value hr := .inl (by rwa [State.scene, host])

theorem opened_same {ws : List Job} (h : u.promises = s.promises)
    (hq : s.promises[q]? = some ⟨none, ws⟩) :
    (∃ ws', u.promises[q]? = some ⟨none, ws'⟩ ∧ ws ⊆ ws') ∨
      u.outcome? q ≠ none ∧ ∀ j ∈ ws, Queued hand' u j :=
  .inl ⟨ws, by rw [h, hq], List.Subset.refl ws⟩

theorem Watching.of_tasks {w i : Nat} (h : Watching busy s w i)
    (tasks : ∀ (t : Nat) (task : Task), s.tasks[t]? = some task → u.tasks[t]? = some task) :
    Watching busy u w i := by
  cases h with
  | fresh v p task => exact .fresh v p (tasks w _ task)
  | asleep k p task => exact .asleep k p (tasks w _ task)
  | busy goal => exact .busy goal

/-! ## Jobs -/

theorem Queued.enqueue {j k : Job} (h : Queued hand s k) : Queued hand (s.enqueue j) k := by
  rcases h with h | h | h
  · exact .inl h
  · exact .inr (.inl (List.mem_append_left _ h))
  · exact .inr (.inr h)

theorem queued_enqueue_self (j : Job) : Queued hand (s.enqueue j) j :=
  .inr (.inl (List.mem_append_right _ (List.mem_singleton_self j)))

theorem queued_of_enqueue {j k : Job} (h : Queued hand (s.enqueue j) k) :
    Queued hand s k ∨ k = j := by
  rcases h with h | h | h
  · exact .inl (.inl h)
  · rcases List.mem_append.1 h with h | h
    · exact .inl (.inr (.inl h))
    · exact .inr (List.mem_singleton.1 h)
  · exact .inl (.inr (.inr h))

theorem lasts_enqueue (j : Job) :
    Lasts es hand busy s es hand busy (s.enqueue j) :=
  .of_kept (List.prefix_refl _) (fun _ h => h.enqueue) rfl rfl (List.Subset.refl _)
    (fun _ _ h => h) (fun _ _ h => opened_same rfl h) (fun _ _ => rfl)
    fun _ _ h => .inl (h.of_tasks fun _ _ h => h)

/-- A change that concerns only the jobs, and things that nothing depends on. -/
theorem Tidy.of_jobs (hs : Tidy K context es top hand busy s)
    (h : Lasts es hand busy s es hand busy u) (host : u.host = s.host) (tasks : u.tasks = s.tasks)
    (promises : u.promises = s.promises) (futures : u.futures = s.futures)
    (jobs : ∀ j, Queued hand u j → Queued hand s j ∨ Fitting es s j) :
    Tidy K context es top hand busy u := by
  have hscene : u.scene = s.scene := by rw [State.scene, host]
  refine hs.next_of_promises h promises (fun j hj => (jobs j hj).imp_right h.fitting)
    (fun t phase p ht => .inl ⟨by rwa [← tasks], .inr rfl⟩) ?_ ?_ ?_
  · rw [hscene]
    exact fun r hr => .inl hr
  · rw [hscene]
    exact fun r hr => .inl hr
  · rw [hscene, futures]
    exact hs.futures

theorem Tidy.enqueue (hs : Tidy K context es top hand busy s) {j : Job} (hj : Fitting es s j) :
    Tidy K context es top hand busy (s.enqueue j) :=
  hs.of_jobs (lasts_enqueue j) rfl rfl rfl rfl fun k hk =>
    (queued_of_enqueue hk).imp_right (by rintro rfl; exact hj)

theorem queued_setTimer {n : Nat} {j k : Job} :
    Queued hand (s.setTimer n j) k ↔ Queued hand s k ∨ k = j := by
  have hall := List.takeWhile_append_dropWhile
    (p := fun t : Timer => decide (t.due ≤ s.clock + n)) (l := s.timers)
  have htimers : (∃ tm ∈ (s.setTimer n j).timers, tm.job = k) ↔
      (∃ tm ∈ s.timers, tm.job = k) ∨ k = j := by
    conv_rhs => rw [← hall]
    simp only [State.setTimer, List.span_eq_takeWhile_dropWhile, List.mem_append, List.mem_cons]
    constructor
    · rintro ⟨tm, h | rfl | h, rfl⟩
      · exact .inl ⟨tm, .inl h, rfl⟩
      · exact .inr rfl
      · exact .inl ⟨tm, .inr h, rfl⟩
    · rintro (⟨tm, h | h, rfl⟩ | rfl)
      · exact ⟨tm, .inl h, rfl⟩
      · exact ⟨tm, .inr (.inr h), rfl⟩
      · exact ⟨_, .inr (.inl rfl), rfl⟩
  unfold Queued
  rw [htimers, ← or_assoc, ← or_assoc, ← or_assoc]
  rfl

theorem lasts_setTimer (n : Nat) (j : Job) :
    Lasts es hand busy s es hand busy (s.setTimer n j) :=
  .of_kept (List.prefix_refl _) (fun _ h => queued_setTimer.2 (.inl h)) rfl rfl
    (List.Subset.refl _) (fun _ _ h => h) (fun _ _ h => opened_same rfl h) (fun _ _ => rfl)
    fun _ _ h => .inl (h.of_tasks fun _ _ h => h)

theorem Tidy.setTimer (hs : Tidy K context es top hand busy s) (n : Nat) {j : Job}
    (hj : Fitting es s j) : Tidy K context es top hand busy (s.setTimer n j) :=
  hs.of_jobs (lasts_setTimer n j) rfl rfl rfl rfl fun k hk =>
    (queued_setTimer.1 hk).imp_right (by rintro rfl; exact hj)

theorem lasts_turned (c : Control) (notes : List Note) :
    Lasts es hand busy s es hand busy { s with control := c, notes } :=
  .of_kept (List.prefix_refl _) (fun _ h => h) rfl rfl (List.Subset.refl _) (fun _ _ h => h)
    (fun _ _ h => opened_same rfl h) (fun _ _ => rfl) fun _ _ h => .inl (h.of_tasks fun _ _ h => h)

/-- The control and the notes make no difference. -/
theorem Tidy.turned (hs : Tidy K context es top hand busy s) (c : Control) (notes : List Note) :
    Tidy K context es top hand busy { s with control := c, notes } :=
  hs.of_jobs (lasts_turned c notes) rfl rfl rfl rfl fun _ h => .inl h

/-! ## Promises -/

theorem outcome_newPromise (p : Nat) : s.newPromise.2.outcome? p = s.outcome? p := by
  unfold State.outcome? State.newPromise
  rw [List.getElem?_append]
  split
  · rfl
  · next h =>
    rw [List.getElem?_eq_none (Nat.not_lt.1 h)]
    cases hp : [(⟨none, []⟩ : Promise)][p - s.promises.length]? with
    | none => rfl
    | some pr =>
      obtain rfl := List.mem_singleton.1 (List.mem_of_getElem? hp)
      rfl

theorem lasts_newPromise (x : Expected) :
    Lasts es hand busy s (es ++ [x]) hand busy s.newPromise.2 :=
  .of_kept (List.prefix_append ..) (fun _ h => h) rfl rfl (List.Subset.refl _) (fun _ _ h => h)
    (fun q ws h => .inl ⟨ws, by
      rw [State.newPromise, List.getElem?_append_left (List.getElem?_eq_some_iff.1 h).1, h],
      List.Subset.refl ws⟩)
    (fun q _ => outcome_newPromise q) fun _ _ h => .inl (h.of_tasks fun _ _ h => h)

/-- A promise is made, of which something is expected. -/
theorem Tidy.newPromise (hs : Tidy K context es top hand busy s) (x : Expected) :
    Tidy K context (es ++ [x]) top hand busy s.newPromise.2 := by
  refine hs.next (lasts_newPromise x) ?_ (fun p o _ ho hnone => ?_) (fun j hj => .inl hj)
    (waiters_concat hs.patient) (fun t phase p ht => .inl ⟨ht, .inr rfl⟩) (fun r hr => .inl hr)
    (fun r hr => .inl hr) hs.futures
  · simp [State.newPromise, hs.length]
  · rw [outcome_newPromise, hnone] at ho
    cases ho

theorem getElem?_newPromise (hs : Tidy K context es top hand busy s) (x : Expected) :
    (es ++ [x])[s.promises.length]? = some x := by
  rw [← hs.length]
  exact List.getElem?_concat_length

/-- What is queued when a promise is completed. -/
theorem queued_complete {o : Outcome} {j : Job} (h : Queued hand s j) :
    Queued hand (s.complete q o) j := by
  rcases s.complete_cases q o with ⟨_, -, hu⟩ | hu <;> rw [hu]
  · exact h.imp_right (Or.imp_left (List.mem_append_left _))
  · exact h

theorem queued_of_complete (patient : ∀ pr ∈ s.promises, ∀ j ∈ pr.waiters, j.isPatient = true)
    {o : Outcome} {j : Job} (h : Queued hand (s.complete q o) j) :
    Queued hand s j ∨ j.isPatient = true := by
  rcases s.complete_cases q o with ⟨_, hq, hu⟩ | hu <;> rw [hu] at h
  · rcases h with h | h | h
    · exact .inl (.inl h)
    · rcases List.mem_append.1 h with h | h
      · exact .inl (.inr (.inl h))
      · exact .inr (patient _ (List.mem_of_getElem? hq) j h)
    · exact .inl (.inr (.inr h))
  · exact .inl h

theorem Fitting.of_patient {j : Job} (h : j.isPatient = true) : Fitting es s j := by
  cases j with
  | step t => trivial
  | notice g m => trivial
  | stop => trivial
  | _ => cases h

theorem lasts_complete (q : Nat) (o : Outcome) :
    Lasts es hand busy s es hand busy (s.complete q o) := by
  have hkeeps : ∀ p, s.outcome? p ≠ none → (s.complete q o).outcome? p = s.outcome? p := by
    intro p hp
    obtain ⟨x, hx⟩ := Option.ne_none_iff_exists'.1 hp
    rw [hx]
    exact outcome_complete_of_some hx q o
  refine .of_kept (List.prefix_refl _) (fun _ h => queued_complete h) ?_ (host_complete ..) ?_
    (fun i e h => ?_) (fun p ws h => ?_) hkeeps fun w i h => .inl (h.of_tasks fun t task ht => ?_)
  · rw [State.complete_frame]
  · rw [State.complete_frame]
    exact List.Subset.refl _
  · rw [State.complete_frame]
    exact h
  · by_cases hqp : q = p
    · subst hqp
      refine .inr ⟨?_, fun j hj => ?_⟩
      · have hlt := (List.getElem?_eq_some_iff.1 h).1
        simp [State.complete, h, State.outcome?, List.getElem?_set_self hlt]
      · simp only [State.complete, h]
        exact .inr (.inl (List.mem_append_right _ hj))
    · refine .inl ⟨ws, ?_, List.Subset.refl ws⟩
      rcases s.complete_cases q o with ⟨_, -, hu⟩ | hu <;> rw [hu]
      · exact (List.getElem?_set_ne hqp).trans h
      · exact h
  · rwa [tasks_complete]

/-- **A promise is completed with what is expected of it.** -/
theorem Tidy.complete (hs : Tidy K context es top hand busy s) {x : Expected}
    (hx : es[q]? = some x) {o : Outcome} (ho : x.outcome = o) (hthere : x.IsThere s.host.2) :
    Tidy K context es top hand busy (s.complete q o) := by
  have h : Lasts es hand busy s es hand busy (s.complete q o) := lasts_complete q o
  have hqueued : ∀ j, Queued hand (s.complete q o) j → Queued hand s j ∨ j.isPatient = true :=
    fun j hj => queued_of_complete hs.patient hj
  have houtcome : ∀ p o', (s.complete q o).outcome? p = some o' → s.outcome? p = none →
      p = q ∧ o' = o := by
    intro p o' ho' hnone
    have hmade : q < s.promises.length := by
      rw [← hs.length]
      exact (List.getElem?_eq_some_iff.1 hx).1
    by_cases hpq : q = p
    · subst hpq
      rw [outcome_complete_self hmade hnone] at ho'
      exact ⟨rfl, (Option.some.inj ho').symm⟩
    · rw [outcome_complete_of_ne hpq, hnone] at ho'
      cases ho'
  rcases s.complete_cases q o with ⟨_, -, hu⟩ | hu <;> rw [hu] at h hqueued houtcome ⊢
  · refine hs.next h ?_ (fun p o' _ ho' hnone => ?_)
      (fun j hj => (hqueued j hj).imp_right .of_patient) (fun pr hpr j hj => ?_)
      (fun t phase p ht => .inl ⟨ht, .inr rfl⟩) (fun r hr => .inl hr) (fun r hr => .inl hr)
      hs.futures
    · rw [List.length_set, hs.length]
    · obtain ⟨rfl, rfl⟩ := houtcome p o' ho' hnone
      exact ⟨x, hx, ho, hthere⟩
    · rcases List.mem_or_eq_of_mem_set hpr with hpr | rfl
      · exact hs.patient pr hpr j hj
      · cases hj
  · exact hs

/-- A job that has to wait for a promise can wait. -/
theorem lasts_subscribe (q : Nat) (j : Job) :
    Lasts es hand busy s es hand busy (s.subscribe q j) := by
  rcases s.subscribe_cases q j with ⟨_, hq, hu⟩ | hu <;> rw [hu]
  · have hlt := (List.getElem?_eq_some_iff.1 hq).1
    refine .of_kept (List.prefix_refl _) (fun _ h => h) rfl rfl (List.Subset.refl _)
      (fun _ _ h => h) (fun p vs h => ?_) (fun p hp => ?_)
      fun _ _ h => .inl (h.of_tasks fun _ _ h => h)
    · by_cases hqp : q = p
      · subst hqp
        rw [hq] at h
        cases h
        exact .inl ⟨_, List.getElem?_set_self hlt, List.subset_append_left ..⟩
      · exact .inl ⟨vs, (List.getElem?_set_ne hqp).trans h, List.Subset.refl vs⟩
    · by_cases hqp : q = p
      · subst hqp
        simp [State.outcome?, hq] at hp
      · simp only [State.outcome?, List.getElem?_set_ne hqp]
  · exact .refl ..

theorem Tidy.subscribe (hs : Tidy K context es top hand busy s) {j : Job}
    (hj : j.isPatient = true) : Tidy K context es top hand busy (s.subscribe q j) := by
  have h : Lasts es hand busy s es hand busy (s.subscribe q j) := lasts_subscribe q j
  rcases s.subscribe_cases q j with ⟨_, hq, hu⟩ | hu <;> rw [hu] at h ⊢
  · refine hs.next h ?_ (fun p o hp ho hnone => ?_) (fun j hj => .inl hj) (fun pr hpr k hk => ?_)
      (fun t phase p ht => .inl ⟨ht, .inr rfl⟩) (fun r hr => .inl hr) (fun r hr => .inl hr)
      hs.futures
    · rw [List.length_set, hs.length]
    · have hlt := (List.getElem?_eq_some_iff.1 hq).1
      by_cases hqp : q = p
      · subst hqp
        simp [State.outcome?, List.getElem?_set_self hlt] at ho
      · simp only [State.outcome?, List.getElem?_set_ne hqp] at ho hnone
        rw [hnone] at ho
        cases ho
    · rcases List.mem_or_eq_of_mem_set hpr with hpr | rfl
      · exact hs.patient pr hpr k hk
      · rcases List.mem_append.1 hk with hk | hk
        · exact hs.patient _ (List.mem_of_getElem? hq) k hk
        · rw [List.mem_singleton.1 hk]
          exact hj
  · exact hs

/-! ## Tasks -/

theorem setPhase_eq {task : Task} (h : s.tasks[t]? = some task) (phase : Phase) :
    s.setPhase t phase = { s with tasks := s.tasks.set t { task with phase } } := by
  simp only [State.setPhase, h]

theorem getElem?_setPhase_self {task : Task} (h : s.tasks[t]? = some task) (phase : Phase) :
    (s.setPhase t phase).tasks[t]? = some { task with phase } := by
  rw [setPhase_eq h]
  exact List.getElem?_set_self (List.getElem?_eq_some_iff.1 h).1

theorem getElem?_setPhase_of_ne {k : Nat} (h : t ≠ k) (phase : Phase) :
    (s.setPhase t phase).tasks[k]? = s.tasks[k]? := by
  rw [tasks_setPhase]
  exact getElem?_moved_of_ne s.tasks h phase

/-- What a task does while it has nothing to do with the others. -/
theorem lasts_setPhase {task : Task} (ht : s.tasks[t]? = some task) {phase : Phase}
    (watching : ∀ w i, Watching busy s w i →
      Watching busy' (s.setPhase t phase) w i ∨ Claimed (s.setPhase t phase) i) :
    Lasts es hand busy s es hand busy' (s.setPhase t phase) := by
  rw [setPhase_eq ht] at watching ⊢
  exact .of_kept (List.prefix_refl _) (fun _ h => h) rfl rfl (List.Subset.refl _)
    (fun _ _ h => h) (fun _ _ h => opened_same rfl h) (fun _ _ => rfl) watching

/-- A task that was at work stops working. -/
theorem lasts_rest (ht : s.tasks[t]? = some ⟨.running, p⟩) {phase : Phase}
    (watched : ∀ i, goal = .watch i → Claimed s i ∨ ∃ k, phase = .asleep (.watch i) k) :
    Lasts es hand (some (t, goal)) s es hand none (s.setPhase t phase) := by
  refine lasts_setPhase ht fun w i hw => ?_
  have hother : ∀ {task : Task}, s.tasks[w]? = some task → task.phase ≠ .running →
      (s.setPhase t phase).tasks[w]? = some task := by
    intro task htask hne
    rw [getElem?_setPhase_of_ne, htask]
    rintro rfl
    rw [ht] at htask
    cases htask
    exact hne rfl
  cases hw with
  | fresh v p task => exact .inl (.fresh v p (hother task fun h => by cases h))
  | asleep k p task => exact .inl (.asleep k p (hother task fun h => by cases h))
  | busy at_work =>
    cases at_work
    rcases watched i rfl with hclaimed | ⟨k, rfl⟩
    · refine .inr ?_
      rw [setPhase_eq ht]
      exact hclaimed
    · exact .inl (.asleep k p (getElem?_setPhase_self ht _))

/-- **A task that was at work stands where it should.** -/
theorem Tidy.rest (hs : Tidy K context es top hand (some (t, goal)) s)
    (ht : s.tasks[t]? = some ⟨.running, p⟩) {phase : Phase}
    (watched : ∀ i, goal = .watch i → Claimed s i ∨ ∃ k, phase = .asleep (.watch i) k)
    (poised : Poised K context es top hand none (s.setPhase t phase) t p phase) :
    Tidy K context es top hand none (s.setPhase t phase) := by
  have h : Lasts es hand (some (t, goal)) s es hand none (s.setPhase t phase) :=
    lasts_rest ht watched
  have htasks : ∀ k ph q, (s.setPhase t phase).tasks[k]? = some ⟨ph, q⟩ →
      s.tasks[k]? = some ⟨ph, q⟩ ∧ ph ≠ .running ∨
        Poised K context es top hand none (s.setPhase t phase) k q ph := by
    intro k ph q hk
    by_cases htk : t = k
    · subst htk
      rw [getElem?_setPhase_self ht] at hk
      cases hk
      exact .inr poised
    · rw [getElem?_setPhase_of_ne htk] at hk
      refine .inl ⟨hk, ?_⟩
      rintro rfl
      cases hs.tasks k _ q hk with
      | running goal at_work =>
        cases at_work
        exact htk rfl
  rw [setPhase_eq ht] at h htasks ⊢
  exact hs.next_of_promises h rfl (fun _ hj => .inl hj)
    (fun k ph q hk => (htasks k ph q hk).imp_left fun ⟨hold, hne⟩ => ⟨hold, .inl hne⟩)
    (fun r hr => .inl hr) (fun r hr => .inl hr) hs.futures

/-- A task begins to work. -/
theorem lasts_rouse {phase : Phase} (ht : s.tasks[t]? = some ⟨phase, p⟩)
    (fresh : ∀ i v, phase = .fresh (.watch i v) → goal = .watch i)
    (asleep : ∀ i k, phase = .asleep (.watch i) k → goal = .watch i) :
    Lasts es hand none s es hand (some (t, goal)) (s.setPhase t .running) := by
  refine lasts_setPhase ht fun w i hw => .inl ?_
  cases hw with
  | fresh v q task =>
    by_cases hwt : t = w
    · subst hwt
      rw [ht] at task
      cases task
      exact .busy (by rw [fresh i v rfl])
    · exact .fresh v q ((getElem?_setPhase_of_ne hwt _).trans task)
  | asleep k q task =>
    by_cases hwt : t = w
    · subst hwt
      rw [ht] at task
      cases task
      exact .busy (by rw [asleep i k rfl])
    · exact .asleep k q ((getElem?_setPhase_of_ne hwt _).trans task)
  | busy at_work => cases at_work

/-- **A task begins to work for a goal.** -/
theorem Tidy.rouse (hs : Tidy K context es top hand none s) {phase : Phase}
    (ht : s.tasks[t]? = some ⟨phase, p⟩)
    (fresh : ∀ i v, phase = .fresh (.watch i v) → goal = .watch i)
    (asleep : ∀ i k, phase = .asleep (.watch i) k → goal = .watch i) :
    Tidy K context es top hand (some (t, goal)) (s.setPhase t .running) := by
  have h : Lasts es hand none s es hand (some (t, goal)) (s.setPhase t .running) :=
    lasts_rouse ht fresh asleep
  have htasks : ∀ k ph q, (s.setPhase t .running).tasks[k]? = some ⟨ph, q⟩ →
      s.tasks[k]? = some ⟨ph, q⟩ ∧ ph ≠ .running ∨
        Poised K context es top hand (some (t, goal)) (s.setPhase t .running) k q ph := by
    intro k ph q hk
    by_cases htk : t = k
    · subst htk
      rw [getElem?_setPhase_self ht] at hk
      cases hk
      exact .inr (.running goal rfl)
    · rw [getElem?_setPhase_of_ne htk] at hk
      refine .inl ⟨hk, ?_⟩
      rintro rfl
      cases hs.tasks k _ q hk with
      | running goal at_work => cases at_work
  rw [setPhase_eq ht] at h htasks ⊢
  exact hs.next_of_promises h rfl (fun _ hj => .inl hj)
    (fun k ph q hk => (htasks k ph q hk).imp_left fun ⟨hold, hne⟩ => ⟨hold, .inl hne⟩)
    (fun r hr => .inl hr) (fun r hr => .inl hr) hs.futures

/-- What a task is busy with is another matter if it is to drive a computation. -/
theorem Tidy.rebusy {j j' : Journey} {captured captured' : Bool}
    (hs : Tidy K context es top hand (some (t, .drive j captured)) s) :
    Tidy K context es top hand (some (t, .drive j' captured')) s := by
  have h : Lasts es hand (some (t, .drive j captured)) s es hand (some (t, .drive j' captured'))
      s := by
    refine .of_kept (List.prefix_refl _) (fun _ h => h) rfl rfl (List.Subset.refl _)
      (fun _ _ h => h) (fun _ _ h => opened_same rfl h) (fun _ _ => rfl) fun w i hw => .inl ?_
    cases hw with
    | fresh v p task => exact .fresh v p task
    | asleep k p task => exact .asleep k p task
    | busy at_work => cases at_work
  refine hs.next_of_promises h rfl (fun j hj => .inl hj) (fun k ph q hk => ?_)
    (fun r hr => .inl hr) (fun r hr => .inl hr) hs.futures
  by_cases hph : ph = .running
  · subst hph
    cases hs.tasks k _ q hk with
    | running goal at_work =>
      cases at_work
      exact .inr (.running _ rfl)
  · exact .inl ⟨hk, .inl hph⟩

/-- A task with a promise that has been made, which begins at its turn. -/
def State.withTask {σ : Type} (s : State σ) (task : Task) : State σ :=
  { s with tasks := s.tasks ++ [task] }.enqueue (.step s.tasks.length)

theorem getElem?_withTask {k : Nat} {task task' : Task}
    (h : (s.withTask task).tasks[k]? = some task') :
    s.tasks[k]? = some task' ∨ k = s.tasks.length ∧ task' = task := by
  have h : (s.tasks ++ [task])[k]? = some task' := h
  rw [List.getElem?_append] at h
  split at h
  · exact .inl h
  · next hlt =>
    obtain ⟨hk, htask⟩ := List.getElem?_eq_some_iff.1 h
    rw [List.length_singleton] at hk
    refine .inr ⟨by omega, ?_⟩
    rw [← htask]
    exact List.mem_singleton.1 (List.getElem_mem hk)

theorem lasts_withTask (task : Task) : Lasts es hand busy s es hand busy (s.withTask task) :=
  .of_kept (List.prefix_refl _) (fun _ h => h.enqueue) rfl rfl (List.Subset.refl _)
    (fun _ _ h => h) (fun _ _ h => opened_same rfl h) (fun _ _ => rfl)
    fun _ _ h => .inl (h.of_tasks fun k task hk => by
      rw [← hk]
      exact List.getElem?_append_left (List.getElem?_eq_some_iff.1 hk).1)

/-- **A task is made.** -/
theorem Tidy.withTask (hs : Tidy K context es top hand busy s) {task : Task}
    (poised : Poised K context es top hand busy (s.withTask task) s.tasks.length task.promise
      task.phase) : Tidy K context es top hand busy (s.withTask task) := by
  refine hs.next_of_promises (lasts_withTask task) rfl (fun j hj => ?_) (fun k ph q hk => ?_)
    (fun r hr => .inl hr) (fun r hr => .inl hr) hs.futures
  · refine (queued_of_enqueue hj).imp id ?_
    rintro rfl
    trivial
  · rcases getElem?_withTask hk with hk | ⟨rfl, rfl⟩
    · exact .inl ⟨hk, .inr rfl⟩
    · exact .inr poised

/-! ## Effects -/

/-- An effect is about to be performed with a completion callback. -/
theorem lasts_withEffect (e : PendingEffect) :
    Lasts es hand busy s es hand busy { s with effects := s.effects ++ [e] } :=
  .of_kept (List.prefix_refl _) (fun _ h => h) rfl rfl (List.Subset.refl _)
    (fun i e h => by
      rw [← h]
      exact List.getElem?_append_left (List.getElem?_eq_some_iff.1 h).1)
    (fun _ _ h => opened_same rfl h) (fun _ _ => rfl) fun _ _ h => .inl (h.of_tasks fun _ _ h => h)

theorem Tidy.withEffect (hs : Tidy K context es top hand busy s) (e : PendingEffect) :
    Tidy K context es top hand busy { s with effects := s.effects ++ [e] } :=
  hs.next_of_promises (lasts_withEffect e) rfl (fun _ hj => .inl hj)
    (fun _ _ _ ht => .inl ⟨ht, .inr rfl⟩) (fun _ hr => .inl hr) (fun _ hr => .inl hr) hs.futures

/-- An effect can be claimed by somebody who has queued its completion, or when its promise
has been completed or nobody waits for it. -/
theorem lasts_claim {i : Nat} (why : ∀ e, s.effects[i]? = some e → e.claimed = false →
      (∃ error value, Queued hand s (.settle i error value)) ∨ s.outcome? e.promise ≠ none ∨
        ∀ ws, s.promises[e.promise]? = some ⟨none, ws⟩ → ws = []) :
    Lasts es hand busy s es hand busy (s.claim i).2 := by
  by_cases hclaimed : ∃ e, s.effects[i]? = some e ∧ e.claimed = false
  · obtain ⟨e, he, hc⟩ := hclaimed
    rw [State.claim_of_unclaimed he hc]
    exact {
      expects := List.prefix_refl _
      queued := fun _ h => h
      run := rfl
      items := rfl
      minted := Nat.le_refl _
      groups := List.Subset.refl _
      effects := fun k e' he' => by
        by_cases hik : i = k
        · subst hik
          rw [he] at he'
          cases he'
          refine ⟨true, List.getElem?_set_self (List.getElem?_eq_some_iff.1 he).1, fun _ => rfl,
            fun _ _ => why e he hc⟩
        · exact ⟨e'.claimed, (List.getElem?_set_ne hik).trans he', id,
            fun h h' => by rw [h] at h'; cases h'⟩
      opened := fun _ _ h => opened_same rfl h
      outcome := fun _ _ => rfl
      bodies := fun k b hb => ⟨b, hb, rfl, .inl rfl⟩
      watching := fun _ _ h => .inl (h.of_tasks fun _ _ h => h)
      requests := fun _ _ _ h => .inl h }
  · rw [State.claim_of_claimed fun e he => by
      cases hc : e.claimed with
      | true => rfl
      | false => exact absurd ⟨e, he, hc⟩ hclaimed]
    exact .refl ..

theorem Tidy.claim (hs : Tidy K context es top hand busy s) {i : Nat}
    (why : ∀ e, s.effects[i]? = some e → e.claimed = false →
      (∃ error value, Queued hand s (.settle i error value)) ∨ s.outcome? e.promise ≠ none ∨
        ∀ ws, s.promises[e.promise]? = some ⟨none, ws⟩ → ws = []) :
    Tidy K context es top hand busy (s.claim i).2 := by
  have h : Lasts es hand busy s es hand busy (s.claim i).2 := lasts_claim why
  rw [State.claim_frame] at h ⊢
  exact hs.next_of_promises h rfl (fun _ hj => .inl hj)
    (fun t phase p ht => .inl ⟨ht, .inr rfl⟩) (fun r hr => .inl hr) (fun r hr => .inl hr)
    hs.futures

/-! ## Groups -/

theorem getElem?_staffed {k : Nat} {errands : List Errand} {task : Task}
    (h : (s.staffed errands).tasks[k]? = some task) :
    let g := Place.next s errands.length
    s.tasks[k]? = some task ∨
      ∃ i errand, errands[i]? = some errand ∧ k = g.task i ∧
        task = ⟨.fresh errand, g.member i⟩ := by
  intro g
  have h : (s.tasks ++ errands.mapIdx fun i errand => ⟨.fresh errand, g.member i⟩)[k]? =
      some task := h
  rw [List.getElem?_append] at h
  split at h
  · exact .inl h
  · next hlt =>
    rw [List.getElem?_mapIdx] at h
    obtain ⟨errand, herrand, rfl⟩ := Option.map_eq_some_iff.1 h
    refine .inr ⟨_, errand, herrand, ?_, rfl⟩
    show k = s.tasks.length + (k - s.tasks.length)
    omega

/-- A group is made. -/
theorem lasts_staffed (x : Expected) {xs : List Expected} {errands : List Errand} :
    Lasts es hand busy s (es ++ x :: xs) hand busy (s.staffed errands) :=
  .of_kept (List.prefix_append ..)
    (fun _ h => h.imp_right (Or.imp_left (List.mem_append_left _))) rfl rfl
    (by
      show s.groups.map Group.promise ⊆ (s.groups ++ [_]).map Group.promise
      rw [List.map_append]
      exact List.subset_append_left ..)
    (fun _ _ h => h)
    (fun q ws h => .inl ⟨ws, by
      rw [← h]
      exact List.getElem?_append_left (List.getElem?_eq_some_iff.1 h).1, List.Subset.refl ws⟩)
    (fun q h => by
      have hlt : q < s.promises.length := by
        by_contra hlt
        exact h (by simp [State.outcome?, List.getElem?_eq_none (Nat.not_lt.1 hlt)])
      show Option.bind ((s.promises ++ _)[q]?) _ = _
      rw [List.getElem?_append_left hlt]
      rfl)
    fun _ _ h => .inl (h.of_tasks fun k task hk => by
      rw [← hk]
      exact List.getElem?_append_left (List.getElem?_eq_some_iff.1 hk).1)

/-- **A group is made**, of whose members it is known what is expected. -/
theorem Tidy.staffed (hs : Tidy K context es top hand busy s) {x : Expected} {xs : List Expected}
    {errands : List Errand} (length : xs.length = errands.length)
    (poised : ∀ i errand, errands[i]? = some errand →
      Poised K context (es ++ x :: xs) top hand busy (s.staffed errands)
        ((Place.next s errands.length).task i) ((Place.next s errands.length).member i)
        (.fresh errand)) :
    Tidy K context (es ++ x :: xs) top hand busy (s.staffed errands) := by
  refine hs.next (lasts_staffed x) ?_ (fun p o _ ho hnone => ?_) (fun j hj => ?_)
    (fun pr hpr j hj => ?_) (fun k ph q hk => ?_) (fun r hr => .inl hr) (fun r hr => .inl hr)
    hs.futures
  · simp [State.staffed, hs.length, length]
  · unfold State.outcome? at ho hnone
    obtain ⟨pr, hpr, hout⟩ := Option.bind_eq_some_iff.1 ho
    rcases promises_staffed hpr with hold | ⟨-, rfl⟩ | ⟨i, -, -, rfl⟩
    · rw [hold] at hnone
      exact absurd hnone (by rw [Option.bind_some, hout]; simp)
    · cases hout
    · cases hout
  · rcases hj with hj | hj | hj
    · exact .inl (.inl hj)
    · rcases List.mem_append.1 hj with hj | hj
      · exact .inl (.inr (.inl hj))
      · obtain ⟨i, -, rfl⟩ := List.mem_map.1 hj
        exact .inr trivial
    · exact .inl (.inr (.inr hj))
  · obtain ⟨q, hq⟩ := List.mem_iff_getElem?.1 hpr
    rcases promises_staffed hq with hold | ⟨-, rfl⟩ | ⟨i, -, -, rfl⟩
    · exact hs.patient pr (List.mem_of_getElem? hold) j hj
    · cases hj
    · rw [List.mem_singleton.1 hj]
      rfl
  · rcases getElem?_staffed hk with hold | ⟨i, errand, herrand, rfl, heq⟩
    · exact .inl ⟨hold, .inr rfl⟩
    · cases heq
      exact .inr (poised i errand herrand)

/-! ## A job that is done -/

/-- Nothing depends on the job any more. -/
def Done (s : Loop P S) : Job → Prop
  | .step t => ∀ phase p, s.tasks[t]? = some ⟨phase, p⟩ →
      phase = .running ∨ (∃ report, phase = .finished report) ∨
        ∃ goal q, phase = .blocked goal q ∧ s.outcome? q = none
  | .settle i _ _ => ∀ e, s.effects[i]? = some e → s.outcome? e.promise ≠ none
  | .fulfil q _ => s.outcome? q ≠ none
  | .invoke f _ => ∀ i, f = .done s.run i → Claimed s i
  | _ => True

theorem queued_of_hand {j k : Job} (h : Queued (j :: hand) s k) (hne : k ≠ j) :
    Queued hand s k := by
  rcases h with h | h
  · exact .inl ((List.mem_cons.1 h).resolve_left hne)
  · exact .inr h

/-- Somebody is at work on an open promise without the job. -/
theorem Carried.release {j : Job} (h : Carried (j :: hand) busy s q) (hopen : s.outcome? q = none)
    (hj : Done s j) : Carried hand busy s q := by
  cases h with
  | group member => exact .group member
  | future o queued =>
    refine .future o (queued_of_hand queued ?_)
    rintro rfl
    exact hj hopen
  | effect i e effect promise claimed unclaimed =>
    subst promise
    refine .effect i e effect rfl (fun hc => ?_) fun hc => ?_
    · obtain ⟨error, value, queued⟩ := claimed hc
      refine ⟨error, value, queued_of_hand queued ?_⟩
      rintro rfl
      exact hj e effect hopen
    · cases unclaimed hc with
      | later args queued =>
        refine .later args (queued_of_hand queued ?_)
        rintro rfl
        obtain ⟨e', he', htrue⟩ := hj i rfl
        rw [effect] at he'
        cases he'
        rw [hc] at htrue
        cases htrue
      | watched w watching => exact .watched w watching
      | asked error value request => exact .asked error value request

theorem Poised.release {phase : Phase} {j : Job} (hj : Done s j)
    (ht : s.tasks[t]? = some ⟨phase, p⟩)
    (h : Poised K context es top (j :: hand) busy s t p phase) :
    Poised K context es top hand busy s t p phase := by
  have hqueued : Queued (j :: hand) s (.step t) → phase ≠ .running →
      (∀ report, phase ≠ .finished report) →
      (∀ goal q, phase = .blocked goal q → s.outcome? q ≠ none) → Queued hand s (.step t) := by
    intro hq hrunning hfinished hblocked
    refine queued_of_hand hq ?_
    rintro rfl
    rcases hj phase p ht with hph | ⟨report, hph⟩ | ⟨goal, q, hph, hnone⟩
    · exact hrunning hph
    · exact hfinished report hph
    · exact hblocked goal q hph hnone
  cases h with
  | fresh item n minor expects modest recent queued =>
    exact .fresh item n minor expects modest recent (hqueued queued (fun h => by cases h)
      (fun _ h => by cases h) fun _ _ h => by cases h)
  | watcher i k b minor body announces minds queued =>
    exact .watcher i k b minor body announces minds (hqueued queued (fun h => by cases h)
      (fun _ h => by cases h) fun _ _ h => by cases h)
  | running goal at_work => exact .running goal at_work
  | asleep goal k b body bears queued =>
    exact .asleep goal k b body bears (hqueued queued (fun h => by cases h)
      (fun _ h => by cases h) fun _ _ h => by cases h)
  | blocked goal q x wants expects later held =>
    refine .blocked goal q x wants expects later ?_
    cases held with
    | opened ws promise waits carried =>
      exact .opened ws promise waits (carried.release (by simp [State.outcome?, promise]) hj)
    | there outcome queued =>
      refine .there outcome (hqueued queued (fun h => by cases h) (fun _ h => by cases h)
        fun goal q h => ?_)
      cases h
      exact outcome
  | finished report outcome => exact .finished report outcome

/-- **A job that is done is put away.** -/
theorem Tidy.release {j : Job} (hs : Tidy K context es top (j :: hand) busy s) (hj : Done s j) :
    Tidy K context es top hand busy s :=
  { hs with
    jobs := fun k hk => hs.jobs k (hk.imp_left (List.mem_cons_of_mem j))
    tasks := fun t phase p ht => (hs.tasks t phase p ht).release hj ht }

end EventLoop
end DescribedEffects
