import DescribedEffects.Proofs.EventLoop.MainTask

/-!
# Whose turn it is

To perform an effect for a task is to leave it with the outcome or to make it wait for it,
with the same goal, and to leave all other tasks alone, new ones apart; the new ones perform
effects or watch over awaitables.  `Serves` says so, and every function that performs
effects serves the task it works for.

So a loop whose main task drives a computation has no other task that drives one: `Lone`
holds once the main task has begun, and is kept by every step (`lone_of_step`).  While a
task waits for an effect it is `Engaged` with one goal, until the outcome reaches it
(`engaged_of_step`).
-/

namespace DescribedEffects
namespace EventLoop

/-- The goal has nothing to do with a driven computation. -/
def Goal.isQuiet : Goal → Bool
  | .drive .. => false
  | _ => true

/-- The errand is not to drive computations. -/
def Errand.isQuiet : Errand → Bool
  | .perform _ | .watch .. => true
  | _ => false

/-- A task in this phase drives no computation. -/
def Phase.isQuiet : Phase → Bool
  | .fresh errand => errand.isQuiet
  | .asleep goal _ | .blocked goal _ => goal.isQuiet
  | .running | .finished _ => true

/-- The loop is not in the middle of driving a computation. -/
def Control.isQuiet : Control → Bool
  | .idle => true
  | .perform _ goal _ | .outcome _ goal _ => goal.isQuiet
  | .deliver .. => false

/-- What a task that waits is waiting for. -/
def Phase.goal? : Phase → Option Goal
  | .asleep goal _ | .blocked goal _ => some goal
  | _ => none

/-- Tasks one of which has moved. -/
def moved (tasks : List Task) (t : Nat) (phase : Phase) : List Task :=
  match tasks[t]? with
  | some task => tasks.set t { task with phase }
  | none => tasks

theorem getElem?_moved_of_ne (tasks : List Task) {t k : Nat} (h : t ≠ k) (phase : Phase) :
    (moved tasks t phase)[k]? = tasks[k]? := by
  unfold moved
  split
  · exact List.getElem?_set_ne h
  · rfl

theorem phase_moved_self {tasks : List Task} {t : Nat} (h : t < tasks.length) (phase : Phase) :
    (moved tasks t phase)[t]?.map Task.phase = some phase := by
  unfold moved
  rw [List.getElem?_eq_getElem h]
  simp [List.getElem?_set_self h]

@[simp] theorem length_moved (tasks : List Task) (t : Nat) (phase : Phase) :
    (moved tasks t phase).length = tasks.length := by
  unfold moved
  split
  · exact List.length_set
  · rfl

variable {σ : Type} {H : Host σ} {context : Value} {t : Nat} {goal : Goal}

@[simp] theorem tasks_setPhase (s : State σ) (t : Nat) (phase : Phase) :
    (s.setPhase t phase).tasks = moved s.tasks t phase := by
  unfold State.setPhase moved
  cases s.tasks[t]? <;> rfl

@[simp] theorem tasks_subscribe (s : State σ) (p : Nat) (j : Job) :
    (s.subscribe p j).tasks = s.tasks := by
  rw [State.subscribe_frame]

/-- Some tasks more, none of which drives a computation. -/
structure Spawned (old tasks : List Task) (new : List Task) : Prop where
  tasks : tasks = old ++ new
  quiet : ∀ task ∈ new, task.phase.isQuiet = true

theorem Spawned.refl (old : List Task) : Spawned old old [] :=
  ⟨(List.append_nil _).symm, fun _ h => by cases h⟩

theorem Spawned.trans {old mid tasks new more : List Task} (h : Spawned old mid new)
    (k : Spawned mid tasks more) : Spawned old tasks (new ++ more) where
  tasks := by rw [k.tasks, h.tasks, List.append_assoc]
  quiet task ht := by
    rcases List.mem_append.1 ht with ht | ht
    · exact h.quiet task ht
    · exact k.quiet task ht

/-- What performing an effect comes to for the task that it is performed for. -/
inductive Serves (t : Nat) (goal : Goal) (s u : State σ) : Prop
  | arrives (o : Outcome) (new : List Task) (spawned : Spawned s.tasks u.tasks new)
      (control : u.control = .outcome t goal o)
  | waits (phase : Phase) (for_ : phase.goal? = some goal) (mid new : List Task)
      (spawned : Spawned s.tasks mid new) (tasks : u.tasks = moved mid t phase)
      (control : u.control = .idle)

theorem Serves.of_spawned {s m u : State σ} {new : List Task} (h : Serves t goal m u)
    (hm : Spawned s.tasks m.tasks new) : Serves t goal s u := by
  cases h with
  | arrives o more spawned control => exact .arrives o _ (hm.trans spawned) control
  | waits phase hp mid more spawned tasks control =>
    exact .waits phase hp mid _ (hm.trans spawned) tasks control

/-- What leaves the tasks alone may come before. -/
theorem Serves.of_tasks {s m u : State σ} (h : Serves t goal m u) (hm : m.tasks = s.tasks) :
    Serves t goal s u :=
  h.of_spawned ⟨by rw [hm, List.append_nil], fun _ h => by cases h⟩

/-! ## Performing an effect -/

theorem serves_arrive (s : State σ) (o : Outcome) : Serves t goal s (s.arrive t goal o) :=
  .arrives o [] (.refl _) rfl

theorem serves_arriveShielded (s : State σ) (sentence : String) (e : Exn) :
    Serves t goal s (arriveShielded H s t goal sentence e) :=
  .arrives _ [] (.refl _) rfl

theorem serves_block (s : State σ) (p : Nat) : Serves t goal s (block s t goal p) := by
  unfold block
  split
  · exact serves_arrive s _
  · refine .waits (.blocked goal p) rfl s.tasks [] (.refl _) ?_ rfl
    show ((s.subscribe p (.step t)).setPhase t (.blocked goal p)).tasks = _
    rw [tasks_setPhase, tasks_subscribe]

theorem serves_advance (s : State σ) (k : Nat) (progress : Progress) :
    Serves t goal s (advance s t goal k progress) := by
  unfold advance
  split
  · exact serves_arrive s _
  · exact .waits (.asleep goal k) rfl s.tasks [] (.refl _) (tasks_setPhase ..) rfl
  · exact .waits (.asleep goal k) rfl s.tasks [] (.refl _) (tasks_setPhase ..) rfl

theorem serves_refuseForeign (s : State σ) : Serves t goal s (refuseForeign H s t goal) := by
  unfold refuseForeign
  dsimp only
  rw [complete_newPromise]
  exact .waits (.blocked goal s.promises.length) rfl s.tasks [] (.refl _) (tasks_setPhase ..) rfl

theorem serves_await (s : State σ) (v : Value) : Serves t goal s (await H s t goal v) := by
  unfold await
  split
  · next k =>
    have hgranted := tasks_grantAll (H := H) { s with host := (H.start k s.host).2 }
    exact (serves_advance _ k (H.start k s.host).1).of_tasks hgranted
  · split
    · exact serves_block s _
    · exact serves_arrive s _
    · exact serves_refuseForeign s
  · exact serves_arrive s _
  · exact serves_arriveShielded s _ _
  · exact serves_arrive s _

/-- The tasks of a group that is launched drive nothing if the errands do not. -/
theorem spawned_launch (group : Nat) {errands : List Errand}
    (h : ∀ errand ∈ errands, errand.isQuiet = true) (s : State σ) :
    ∃ new, Spawned s.tasks (launch s group errands).2.tasks new := by
  induction errands generalizing s with
  | nil => exact ⟨[], .refl _⟩
  | cons errand rest ih =>
    rw [launch_cons]
    let s' := (s.newTask errand).2.subscribe s.promises.length (.notice group s.promises.length)
    have hfresh : Spawned s.tasks s'.tasks [⟨.fresh errand, s.promises.length⟩] := by
      refine ⟨tasks_subscribe .., fun task ht => ?_⟩
      obtain rfl := List.mem_singleton.1 ht
      exact h errand (List.mem_cons_self ..)
    obtain ⟨new, hnew⟩ := ih (fun e he => h e (List.mem_cons_of_mem _ he)) s'
    exact ⟨_, hfresh.trans hnew⟩

theorem serves_gather {errands : List Errand} (h : ∀ errand ∈ errands, errand.isQuiet = true)
    (s : State σ) : Serves t goal s (gather s t goal errands) := by
  unfold gather
  split
  · exact serves_arrive s _
  · obtain ⟨new, hnew⟩ := spawned_launch s.groups.length h
      { s.newPromise.2 with
        groups := s.groups ++ [(⟨[], errands.length, s.promises.length⟩ : Group)] }
    dsimp only
    exact (serves_block _ _).of_spawned hnew

theorem serves_acceptDirect (s : State σ) (o : Outcome) :
    Serves t goal s (acceptDirect H s t goal o) := by
  unfold acceptDirect
  split
  · exact serves_arriveShielded s _ _
  · split
    · exact serves_await s _
    · exact serves_arrive s _

theorem serves_performDirect (s : State σ) (f : Value) (d : Descriptor) :
    Serves t goal s (performDirect H s t goal f d) := by
  have hgranted := tasks_grantAll (H := H) { s with host := (H.call f d.args s.host).2 }
  exact (serves_acceptDirect _ (H.call f d.args s.host).1).of_tasks hgranted

theorem serves_acceptCallback (s : State σ) (effect p : Nat) (d : Descriptor) (o : Outcome) :
    Serves t goal s (acceptCallback H s t goal effect p d o) := by
  unfold acceptCallback
  split
  · split
    · dsimp only
      split
      · exact (serves_arriveShielded _ _ _).of_tasks (tasks_claim s effect)
      · refine (serves_block _ _).of_tasks ?_
        exact tasks_claim s effect
    · exact serves_arrive s _
  · next v =>
    split
    · have hwatch : Spawned s.tasks (s.newTask (.watch effect v)).2.tasks
          [⟨.fresh (.watch effect v), s.promises.length⟩] := by
        refine ⟨rfl, fun task ht => ?_⟩
        obtain rfl := List.mem_singleton.1 ht
        rfl
      exact (serves_block _ _).of_spawned hwatch
    · exact serves_block s _

theorem serves_performCallback (s : State σ) (f : Value) (d : Descriptor) :
    Serves t goal s (performCallback H s t goal f d) := by
  unfold performCallback
  exact (serves_acceptCallback _ _ _ d _).of_tasks (tasks_grantAll _)

variable (H context t goal) in
/-- **Performing an effect serves the task it is performed for.** -/
theorem serves_perform (s : State σ) (d : Descriptor) :
    Serves t goal s (perform H context s t goal d) := by
  unfold perform
  split
  · refine (serves_gather (fun errand he => ?_) _).of_tasks rfl
    obtain ⟨item, -, rfl⟩ := List.mem_map.1 he
    rfl
  · split
    · exact (serves_arriveShielded _ _ _).of_tasks rfl
    · dsimp only
      split
      · exact (serves_arrive _ _).of_tasks rfl
      · exact (serves_performDirect _ _ d).of_tasks rfl
      · exact (serves_performCallback _ _ d).of_tasks rfl

/-! ## The other functions -/

theorem tasks_finish (s : State σ) (k : Nat) (report : Option Report) (o : Outcome) :
    (finish s k report o).tasks = moved s.tasks k (.finished report) ∧
      (finish s k report o).control = .idle := by
  unfold finish
  split
  · refine ⟨?_, rfl⟩
    show ((s.setPhase k (.finished report)).complete _ o).tasks = _
    rw [tasks_complete, tasks_setPhase]
  · next h => exact ⟨by simp [State.toIdle, moved, h], rfl⟩

theorem tasks_finishWatch (s : State σ) (k effect : Nat) (o : Outcome) :
    (∃ report, (finishWatch s k effect o).tasks = moved s.tasks k (.finished report)) ∧
      (finishWatch s k effect o).control = .idle := by
  have hfinish : ∀ (u : State σ) (x : Outcome), u.tasks = s.tasks →
      (∃ report, (finish u k none x).tasks = moved s.tasks k (.finished report)) ∧
        (finish u k none x).control = .idle := by
    intro u x hu
    obtain ⟨htasks, hcontrol⟩ := tasks_finish u k none x
    exact ⟨⟨none, by rw [htasks, hu]⟩, hcontrol⟩
  have hclaim : (s.claim effect).2.tasks = s.tasks := tasks_claim s effect
  unfold finishWatch
  split
  · exact hfinish s _ rfl
  · split
    · split
      · exact hfinish s _ rfl
      · generalize s.claim effect = claim at hclaim
        obtain ⟨first, v⟩ := claim
        refine hfinish _ _ ?_
        cases first with
        | true => exact (tasks_complete ..).trans hclaim
        | false => exact hclaim
    · exact hfinish s _ rfl

@[simp] theorem control_complete (s : State σ) (p : Nat) (o : Outcome) :
    (s.complete p o).control = s.control := by
  rw [State.complete_frame]

@[simp] theorem control_grantAll (s : State σ) : (grantAll H s).control = s.control :=
  kept_of_granting (P := fun u => u.control = s.control)
    (fun h hs => (control_of_granting h).trans hs) (granting_grantAll H s) rfl

/-- A job that is no task's turn leaves the tasks alone, and the loop idle. -/
theorem tasks_runJob (s : State σ) {j : Job} (h : ∀ k, j ≠ .step k) :
    (runJob H s j).tasks = s.tasks ∧ (runJob H s j).control = s.control := by
  have hcomplete : ∀ (u : State σ) (p : Nat) (o : Outcome), u.tasks = s.tasks →
      u.control = s.control →
      (u.complete p o).tasks = s.tasks ∧ (u.complete p o).control = s.control := by
    intro u p o ht hc
    exact ⟨by rw [tasks_complete, ht], by rw [control_complete, hc]⟩
  cases j with
  | step k => exact absurd rfl (h k)
  | notice g m =>
    simp only [runJob, notice]
    split
    · exact hcomplete s _ _ rfl rfl
    · split
      · split
        · exact hcomplete _ _ _ rfl rfl
        · exact ⟨rfl, rfl⟩
      · exact ⟨rfl, rfl⟩
    · exact ⟨rfl, rfl⟩
  | settle effect error value =>
    rcases settle_cases (H := H) s effect error value with hu | ⟨pending, host, o, -, -, hu⟩
    · exact ⟨congrArg State.tasks hu, congrArg State.control hu⟩
    · simp only [runJob, hu]
      exact hcomplete _ _ _ rfl rfl
  | fulfil p o => exact hcomplete s p o rfl rfl
  | invoke f args => exact ⟨tasks_grantAll _, control_grantAll _⟩
  | stop => exact ⟨rfl, rfl⟩

/-! ## A lone driver -/

/-- What a turn of a task comes to: the loop is in the middle of something for the task, or
the task has moved and the loop is idle. -/
inductive Acted (t : Nat) (drives : Bool) (s u : State σ) : Prop
  | busy (new : List Task) (spawned : Spawned s.tasks u.tasks new)
      (control : u.control.task? = some t) (quiet : drives = false → u.control.isQuiet = true)
  | rests (phase : Phase) (begun : ∀ errand, phase ≠ .fresh errand)
      (quiet : drives = false → phase.isQuiet = true) (mid new : List Task)
      (spawned : Spawned s.tasks mid new) (tasks : u.tasks = moved mid t phase)
      (control : u.control = .idle)

theorem Serves.acted {drives : Bool} {s u : State σ} (h : Serves t goal s u)
    (hg : drives = false → goal.isQuiet = true) : Acted t drives s u := by
  cases h with
  | arrives o new spawned control =>
    refine .busy new spawned (by rw [control]; rfl) fun hd => ?_
    rw [control]
    exact hg hd
  | waits phase hp mid new spawned tasks control =>
    refine .rests phase (fun errand h => ?_) (fun hd => ?_) mid new spawned tasks control
    · rw [h] at hp
      cases hp
    · cases phase with
      | asleep g k => cases hp; exact hg hd
      | blocked g p => cases hp; exact hg hd
      | _ => cases hp

variable {drives : Bool}

theorem acted_finish (s : State σ) (report : Option Report) (o : Outcome) :
    Acted t drives s (finish s t report o) := by
  obtain ⟨htasks, hcontrol⟩ := tasks_finish s t report o
  exact .rests (.finished report) (fun _ h => by cases h) (fun _ => rfl) s.tasks [] (.refl _)
    htasks hcontrol

theorem acted_finishWatch (s : State σ) (effect : Nat) (o : Outcome) :
    Acted t drives s (finishWatch s t effect o) := by
  obtain ⟨⟨report, htasks⟩, hcontrol⟩ := tasks_finishWatch s t effect o
  exact .rests (.finished report) (fun _ h => by cases h) (fun _ => rfl) s.tasks [] (.refl _)
    htasks hcontrol

/-- A driver goes on with what it drives. -/
theorem acted_turn {s u : State σ} (ht : u.tasks = s.tasks) (hc : u.control.task? = some t) :
    Acted t true s u :=
  .busy [] ⟨by rw [ht, List.append_nil], fun _ h => by cases h⟩ hc fun h => by cases h

theorem acted_answerDrive (s : State σ) (j : Journey) (captured : Bool) (o : Outcome) :
    Acted t true s (answerDrive H s t j captured o) := by
  have hdeliver : ∀ signal j, Acted t true s (deliverRecorded H s t j captured signal) := by
    intro signal j
    unfold deliverRecorded
    split
    · exact acted_turn rfl rfl
    · exact acted_turn rfl rfl
  unfold answerDrive
  split
  · exact hdeliver _ _
  · split
    · exact hdeliver _ _
    · exact acted_finish s _ _

theorem acted_leave (s : State σ) (j : Journey) (captured : Bool) (o : Outcome) :
    Acted t true s (leave s t j captured o) := by
  unfold leave
  split
  · exact acted_finish s _ _
  · split
    · exact acted_turn rfl rfl
    · split
      · exact acted_turn rfl rfl
      · exact acted_finish s _ _

theorem acted_receive (s : State σ) (j : Journey) (captured : Bool) (item : Value) :
    Acted t true s (receive H s t j captured item) := by
  unfold receive
  split
  · exact acted_turn rfl rfl
  · split
    · exact acted_turn rfl rfl
    · exact acted_turn rfl rfl

/-- What leaves the tasks alone may come before. -/
theorem Acted.of_tasks {s m u : State σ} (h : Acted t drives m u) (hm : m.tasks = s.tasks) :
    Acted t drives s u := by
  cases h with
  | busy new spawned control quiet => exact .busy new (hm ▸ spawned) control quiet
  | rests phase begun quiet mid new spawned tasks control =>
    exact .rests phase begun quiet mid new (hm ▸ spawned) tasks control

theorem acted_deliver (s : State σ) (j : Journey) (captured : Bool) (signal : Signal) :
    Acted t true s (deliver H s t j captured signal) := by
  unfold deliver
  split
  · exact acted_finish s _ _
  · next g _ _ =>
    have hresumed : (grantAll H { noteSignal s signal with
        host := (H.resume g signal (noteSignal s signal).host).2 }).tasks = s.tasks :=
      (tasks_grantAll _).trans (tasks_noteSignal s signal)
    dsimp only
    split
    · exact (acted_receive _ j captured _).of_tasks hresumed
    · exact (acted_leave _ j captured _).of_tasks hresumed
    · exact (acted_leave _ j captured _).of_tasks hresumed

theorem acted_begin (s : State σ) {errand : Errand} (h : errand.isQuiet = true) :
    Acted t false s (begin H s t errand) := by
  unfold begin
  split
  · split
    · exact .busy [] (.refl _) rfl fun _ => rfl
    · exact .busy [] (.refl _) rfl fun _ => rfl
  · exact (serves_await s _).acted fun _ => rfl
  · cases h
  · cases h

/-- The main task has begun, and no other task drives a computation. -/
structure Lone (s : State σ) : Prop where
  begun : ∀ errand, s.tasks[0]?.map Task.phase ≠ some (.fresh errand)
  others : ∀ (k : Nat) (task : Task), s.tasks[k]? = some task → k ≠ 0 → task.phase.isQuiet = true
  control : ∀ k, s.control.task? = some k → k ≠ 0 → s.control.isQuiet = true
  running : s.control.task? = some 0 → s.tasks[0]?.map Task.phase = some .running

/-- Only the main task may be one that drives. -/
theorem others_of_spawned {old tasks new : List Task} (h : Spawned old tasks new)
    (ho : ∀ (k : Nat) (task : Task), old[k]? = some task → k ≠ 0 → task.phase.isQuiet = true) :
    ∀ (k : Nat) (task : Task), tasks[k]? = some task → k ≠ 0 → task.phase.isQuiet = true := by
  intro k task hk hne
  rw [h.tasks, List.getElem?_append] at hk
  split at hk
  · exact ho k task hk hne
  · exact h.quiet task (List.mem_of_getElem? hk)

theorem others_of_moved {tasks : List Task} {phase : Phase} (hp : t ≠ 0 → phase.isQuiet = true)
    (ho : ∀ (k : Nat) (task : Task), tasks[k]? = some task → k ≠ 0 → task.phase.isQuiet = true) :
    ∀ (k : Nat) (task : Task), (moved tasks t phase)[k]? = some task → k ≠ 0 →
      task.phase.isQuiet = true := by
  intro k task hk hne
  rcases eq_or_ne t k with rfl | htk
  · have hlt : t < tasks.length := by
      have hlt := (List.getElem?_eq_some_iff.1 hk).1
      rwa [length_moved] at hlt
    have hphase := phase_moved_self hlt phase
    rw [hk] at hphase
    cases hphase
    exact hp hne
  · rw [getElem?_moved_of_ne tasks htk] at hk
    exact ho k task hk hne

variable (drives) in
/-- **What a turn of one task makes of a loop with a lone driver.** -/
theorem lone_of_acted {s u : State σ} (hs : Lone s) (ht : t < s.tasks.length)
    (hrun : t = 0 → s.tasks[0]?.map Task.phase = some .running) (hd : t ≠ 0 → drives = false)
    (h : Acted t drives s u) : Lone u := by
  have hfirst : ∀ {mid new : List Task}, Spawned s.tasks mid new → mid[0]? = s.tasks[0]? := by
    intro mid new h
    rw [h.tasks, List.getElem?_append_left (Nat.zero_lt_of_lt ht)]
  cases h with
  | busy new spawned control quiet =>
    refine ⟨fun errand => ?_, others_of_spawned spawned hs.others, fun k hk hne => ?_, fun hk => ?_⟩
    · rw [hfirst spawned]
      exact hs.begun errand
    · rw [control] at hk
      cases hk
      exact quiet (hd hne)
    · rw [control] at hk
      rw [hfirst spawned]
      exact hrun (Option.some.inj hk)
  | rests phase begun quiet mid new spawned tasks control =>
    have hidle : ∀ k, u.control.task? ≠ some k := fun k hk => by rw [control] at hk; cases hk
    refine ⟨fun errand => ?_, ?_, fun k hk => absurd hk (hidle k), fun hk => absurd hk (hidle 0)⟩
    · rw [tasks]
      rcases eq_or_ne t 0 with rfl | hne
      · have hlt : 0 < mid.length := by
          rw [spawned.tasks, List.length_append]
          exact Nat.lt_of_lt_of_le ht (Nat.le_add_right ..)
        rw [phase_moved_self hlt]
        exact fun h => begun errand (Option.some.inj h)
      · rw [getElem?_moved_of_ne mid hne, hfirst spawned]
        exact hs.begun errand
    · rw [tasks]
      exact others_of_moved (fun hne => quiet (hd hne)) (others_of_spawned spawned hs.others)

/-- Only the main task resumes computations. -/
theorem Lone.not_deliver {s : State σ} (hs : Lone s) (elsewhere : s.control.task? ≠ some 0)
    (t : Nat) (j : Journey) (captured : Bool) (signal : Signal) :
    s.control ≠ .deliver t j captured signal := by
  intro hc
  have hquiet := hs.control t (by rw [hc]; rfl) fun ht => by
    rw [hc, ht] at elsewhere
    exact elsewhere rfl
  rw [hc] at hquiet
  cases hquiet

theorem Lone.toIdle {s : State σ} (hs : Lone s) : Lone s.toIdle :=
  ⟨hs.begun, hs.others, fun _ h => (by cases h), fun h => (by cases h)⟩

/-- A task begins to run. -/
theorem Lone.run {s : State σ} (hs : Lone s) (hidle : s.control = .idle) (k : Nat) :
    Lone (s.setPhase k .running) := by
  have hcontrol : (s.setPhase k .running).control = .idle := by
    rw [State.setPhase_frame]
    exact hidle
  refine ⟨fun errand => ?_, ?_, fun j hj => ?_, fun hj => ?_⟩
  · rw [tasks_setPhase]
    rcases eq_or_ne k 0 with rfl | hk
    · by_cases hlt : 0 < s.tasks.length
      · rw [phase_moved_self hlt]
        exact fun h => by cases h
      · have hnil : s.tasks = [] := List.length_eq_zero_iff.1 (Nat.eq_zero_of_not_pos hlt)
        simp [hnil, moved]
    · rw [getElem?_moved_of_ne _ hk]
      exact hs.begun errand
  · rw [tasks_setPhase]
    exact others_of_moved (fun _ => rfl) hs.others
  · rw [hcontrol] at hj
    cases hj
  · rw [hcontrol] at hj
    cases hj

variable (H) in
/-- A task's turn. -/
theorem lone_of_stepTask {s : State σ} (hs : Lone s) (hidle : s.control = .idle) (k : Nat) :
    Lone (stepTask H s k) := by
  cases hk : s.tasks[k]? with
  | none =>
    have hstay : stepTask H s k = s := by simp only [stepTask, hk, Option.map_none]
    rwa [hstay]
  | some task =>
    have hlt := (List.getElem?_eq_some_iff.1 hk).1
    have hphase : s.tasks[k]?.map Task.phase = some task.phase := by rw [hk]; rfl
    have hran := hs.run hidle k
    have hrlt : k < (s.setPhase k .running).tasks.length := by rwa [tasks_setPhase, length_moved]
    have hrun : k = 0 → (s.setPhase k .running).tasks[0]?.map Task.phase = some .running := by
      rintro rfl
      rw [tasks_setPhase, phase_moved_self hlt]
    have hserves : ∀ {goal u}, task.phase.goal? = some goal →
        Serves k goal (s.setPhase k .running) u → Lone u := by
      intro goal u hgoal h
      rcases eq_or_ne k 0 with rfl | hne
      · exact lone_of_acted true hran hrlt hrun (fun h => absurd rfl h)
          (h.acted fun h => by cases h)
      · refine lone_of_acted false hran hrlt hrun (fun _ => rfl) (h.acted fun _ => ?_)
        have hquiet := hs.others k task hk hne
        cases hp : task.phase with
        | asleep g j => rw [hp] at hquiet hgoal; cases hgoal; exact hquiet
        | blocked g p => rw [hp] at hquiet hgoal; cases hgoal; exact hquiet
        | _ => rw [hp] at hgoal; cases hgoal
    unfold stepTask
    rw [hphase]
    cases hp : task.phase with
    | fresh errand =>
      rw [hp] at hphase
      have hne : k ≠ 0 := by
        rintro rfl
        exact hs.begun errand hphase
      have hquiet := hs.others k task hk hne
      rw [hp] at hquiet
      exact lone_of_acted _ hran hrlt hrun (fun _ => rfl) (acted_begin _ hquiet)
    | running => exact hs
    | asleep goal j =>
      refine hserves (by rw [hp]; rfl) ?_
      exact (serves_advance _ j _).of_tasks (tasks_grantAll _)
    | blocked goal p =>
      dsimp only
      split
      · exact hserves (by rw [hp]; rfl) (serves_arrive _ _)
      · exact hs
    | finished report => exact hs

/-- **Every step keeps the main task the only one that drives.** -/
theorem lone_of_step {s u : State σ} (hs : Lone s) (placed : Placed s)
    (h : step H context s = .next u) : Lone u := by
  cases htask : s.control.task? with
  | some t =>
    have hlt : t < s.toIdle.tasks.length := placed t htask
    have hrun : t = 0 → s.toIdle.tasks[0]?.map Task.phase = some .running := by
      rintro rfl
      exact hs.running htask
    have hall : Acted t true s.toIdle u ∧ t = 0 ∨ Acted t false s.toIdle u → Lone u := by
      rintro (⟨hacted, ht⟩ | hacted)
      · exact lone_of_acted _ hs.toIdle hlt hrun (fun hne => absurd ht hne) hacted
      · exact lone_of_acted _ hs.toIdle hlt hrun (fun _ => rfl) hacted
    have hquiet := hs.control t htask
    refine hall ?_
    unfold step at h
    cases hc : s.control with
    | idle => rw [hc] at htask; cases htask
    | perform k goal d =>
      rw [hc] at htask h hquiet
      cases htask
      cases h
      have hserves := serves_perform H context t goal s.toIdle d
      rcases eq_or_ne t 0 with rfl | hne
      · exact .inl ⟨hserves.acted fun h => (by cases h), rfl⟩
      · exact .inr (hserves.acted fun _ => hquiet hne)
    | outcome k goal o =>
      rw [hc] at htask h hquiet
      cases htask
      cases goal with
      | answer => cases h; exact .inr (acted_finish s.toIdle _ _)
      | watch effect => cases h; exact .inr (acted_finishWatch s.toIdle _ _)
      | drive j captured =>
        cases h
        refine .inl ⟨acted_answerDrive s.toIdle _ _ _, ?_⟩
        by_contra hne
        cases hquiet hne
    | deliver k j captured signal =>
      rw [hc] at htask h hquiet
      cases htask
      cases h
      refine .inl ⟨acted_deliver s.toIdle _ _ _, ?_⟩
      by_contra hne
      cases hquiet hne
  | none =>
    have hidle : s.control = .idle := Control.eq_idle htask
    rcases step_idle_cases hidle h with ⟨n, j, rest, -, -, rfl⟩ | ⟨n, rfl⟩ | ⟨tm, later, -, -, rfl⟩
    · have hpop : Lone { s with ready := rest, batch := n } :=
        ⟨hs.begun, hs.others, hs.control, hs.running⟩
      by_cases hj : ∃ k, j = .step k
      · obtain ⟨k, rfl⟩ := hj
        exact lone_of_stepTask H hpop hidle k
      · obtain ⟨htasks, hcontrol⟩ := tasks_runJob (H := H) { s with ready := rest, batch := n }
          (j := j) fun k hk => hj ⟨k, hk⟩
        refine ⟨?_, ?_, ?_, ?_⟩
        · rw [htasks]; exact hpop.begun
        · rw [htasks]; exact hpop.others
        · rw [hcontrol]; exact hpop.control
        · rw [htasks, hcontrol]; exact hpop.running
    · exact ⟨hs.begun, hs.others, hs.control, hs.running⟩
    · exact ⟨hs.begun, hs.others, hs.control, hs.running⟩

/-! ## Waiting with a goal -/

/-- A task waits for the outcome of an effect, or the outcome has reached it. -/
inductive Engaged (t : Nat) (goal : Goal) (s : State σ) : Prop
  | waiting (phase : Phase) (phase_eq : s.tasks[t]?.map Task.phase = some phase)
      (for_ : phase.goal? = some goal) (elsewhere : s.control.task? ≠ some t)
  | answered (o : Outcome) (control : s.control = .outcome t goal o)

theorem Serves.engaged {s u : State σ} (h : Serves t goal s u) (hs : t < s.tasks.length) :
    Engaged t goal u := by
  cases h with
  | arrives o new spawned control => exact .answered o control
  | waits phase hp mid new spawned tasks control =>
    refine .waiting phase ?_ hp fun h => by rw [control] at h; cases h
    have hlt : t < mid.length := by
      rw [spawned.tasks, List.length_append]
      exact Nat.lt_of_lt_of_le hs (Nat.le_add_right ..)
    rw [tasks, phase_moved_self hlt]

/-- A task performs an effect. -/
theorem engaged_of_perform {s u : State σ} {d : Descriptor} (hs : t < s.tasks.length)
    (hc : s.control = .perform t goal d) (h : step H context s = .next u) :
    Engaged t goal u := by
  simp only [step, hc] at h
  cases h
  exact (serves_perform H context t goal s.toIdle d).engaged hs

/-- **Until the outcome reaches it a task waits for it with the same goal.** -/
theorem engaged_of_step {s u : State σ} {phase : Phase}
    (hphase : s.tasks[t]?.map Task.phase = some phase) (hgoal : phase.goal? = some goal)
    (elsewhere : s.control.task? ≠ some t) (h : step H context s = .next u) :
    Engaged t goal u := by
  obtain ⟨task, htask, -⟩ := Option.map_eq_some_iff.1 hphase
  have hlt := (List.getElem?_eq_some_iff.1 htask).1
  rcases elsewhere_of_step hlt elsewhere h with
    ⟨htasks, hcontrol⟩ | ⟨n, rest, hidle, -, -, rfl⟩
  · exact .waiting phase (by rw [htasks, hphase]) hgoal hcontrol
  · have hpop : (State.tasks { s with ready := rest, batch := n })[t]?.map Task.phase =
        some phase := hphase
    have hrlt : t < (State.setPhase { s with ready := rest, batch := n } t
        .running).tasks.length := by rwa [tasks_setPhase, length_moved]
    simp only [stepTask, hpop]
    cases phase with
    | asleep g j =>
      cases hgoal
      exact ((serves_advance _ j _).of_tasks (tasks_grantAll _)).engaged hrlt
    | blocked g p =>
      cases hgoal
      dsimp only
      split
      · exact (serves_arrive _ _).engaged hrlt
      · exact .waiting (.blocked goal p) hphase rfl elsewhere
    | _ => cases hgoal

end EventLoop
end DescribedEffects
