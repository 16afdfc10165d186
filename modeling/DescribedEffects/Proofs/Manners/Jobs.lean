import DescribedEffects.Proofs.Manners.Assembly

/-!
# What a job makes of a tidy loop

A job is taken off the queue of a tidy loop and does what it stands for.  The loop is tidy then,
whatever it is in the middle of is as it should be (`Aims`), and what there is to begin has not
become more (`Pays`): that is `Moves`.  What can become of a task at its turn is said once, by
`Turns`.
-/

namespace DescribedEffects
namespace EventLoop

variable {P S : Type} {K : Callables} {context : Value} {es es' : List Expected} {top : Expected}
  {s m u : Loop P S} {C : Programs P} {M : Manner S} {t p q i : Nat} {goal : Goal}

/-! ## What there is to do -/

/-- The task that the loop is busy with, and what for. -/
def Control.busy? : Control → Option (Nat × Goal)
  | .idle => none
  | .perform t goal _ => some (t, goal)
  | .outcome t goal _ => some (t, goal)
  | .deliver t j captured _ => some (t, .drive j captured)

/-- What is about to begin. -/
def Control.load (w : Plan → Nat) : Control → Nat
  | .perform _ _ d => w (Plan.ofDescriptor d)
  | _ => 0

/-- All that is still to begin. -/
def State.debt {σ : Type} (w : Plan → Nat) (s : State σ) : Nat := s.load w + s.control.load w

/-- What the loop is in the middle of is as it should be. -/
inductive Aims (K : Callables) (context : Value) (es : List Expected) (top : Expected)
    (s : Loop P S) : Control → Prop
  | idle : Aims K context es top s .idle
  | perform (t : Nat) (goal : Goal) (d : Descriptor) (p n : Nat)
      (task : s.tasks[t]? = some ⟨.running, p⟩)
      (wants : Wants es top t p goal ((Plan.ofDescriptor d).expects K context n))
      (modest : (Plan.ofDescriptor d).Modest K context)
      (recent : 0 < (Plan.ofDescriptor d).mints K context → n = s.host.2.items) :
      Aims K context es top s (.perform t goal d)
  | outcome (t : Nat) (goal : Goal) (o : Outcome) (due : Due es top s t goal o) :
      Aims K context es top s (.outcome t goal o)
  | deliver (t : Nat) (j : Journey) (captured : Bool) (signal : Signal) :
      Aims K context es top s (.deliver t j captured signal)

/-- What there is to begin does not become more, and the exceptions that the library makes are
those that were to be made. -/
structure Pays (K : Callables) (context : Value) (s u : Loop P S) : Prop where
  size : u.debt Plan.size ≤ s.debt Plan.size
  minted : u.host.2.minted + u.debt (Plan.mints K context) =
    s.host.2.minted + s.debt (Plan.mints K context)

/-- A group has been made for the effect that was to be performed. -/
def Assembled (K : Callables) (context : Value) (es : List Expected) (s u : Loop P S) : Prop :=
  ∃ t goal d n, s.control = .perform t goal d ∧ d.mode = .parallel ∧ d.args ≠ [] ∧
    Assembles K context es d.args n (Place.next s d.args.length) ∧
      u.groups.length = s.groups.length + 1

/-- **What becomes of a tidy loop.** -/
inductive Moves (K : Callables) (context : Value) (es : List Expected) (top : Expected)
    (s u : Loop P S) : Prop
  | mk (es' : List Expected) (more : es <+: es')
      (tidy : Tidy K context es' top [] u.control.busy? u)
      (aims : Aims K context es' top u u.control) (quiet : u.scene.requests = [])
      (pays : Pays K context s u)
      (groups : u.groups.length = s.groups.length ∨ Assembled K context es' s u)

theorem Pays.of_frugal (h : Frugal s u)
    (control : ∀ w, u.control.load w = s.control.load w) : Pays K context s u where
  size := by rw [State.debt, State.debt, h.load, control]
  minted := by rw [State.debt, State.debt, h.load, control, h.minted]

/-- The loop has nothing in hand. -/
theorem moves_idle (tidy : Tidy K context es top [] none u) (idle : s.control = .idle)
    (control : u.control = .idle) (quiet : u.scene.requests = []) (frugal : Frugal s u) :
    Moves K context es top s u :=
  .mk es (List.prefix_refl _) (by rw [control]; exact tidy) (by rw [control]; exact .idle) quiet
    (.of_frugal frugal fun w => by rw [control, idle]) (.inl frugal.groups)

/-- What a task is left with is as it should be. -/
theorem Served.outlook (h : Served K context es top t goal s u) :
    ∃ es', es <+: es' ∧ Tidy K context es' top [] u.control.busy? u ∧
      Aims K context es' top u u.control ∧ u.scene.requests = [] ∧ Frugal s u ∧
        ∀ w, u.control.load w = 0 := by
  cases h with
  | arrives es' o more tidy due control quiet frugal =>
    refine ⟨es', more, ?_, ?_, quiet, frugal, fun w => by rw [control]; rfl⟩
    · rw [control]
      exact tidy
    · rw [control]
      exact .outcome t goal o due
  | waits es' more tidy control quiet frugal =>
    refine ⟨es', more, ?_, ?_, quiet, frugal, fun w => by rw [control]; rfl⟩
    · rw [control]
      exact tidy
    · rw [control]
      exact .idle

/-- A task is left with something when the loop was idle. -/
theorem Served.moves (h : Served K context es top t goal m u) (idle : s.control = .idle)
    (frugal : Frugal s m) : Moves K context es top s u := by
  obtain ⟨es', more, tidy, aims, quiet, hfrugal, hload⟩ := h.outlook
  have hall := frugal.trans hfrugal
  exact .mk es' more tidy aims quiet (.of_frugal hall fun w => by rw [hload, idle]; rfl)
    (.inl hall.groups)

theorem frugal_complete (s : Loop P S) (q : Nat) (o : Outcome) : Frugal s (s.complete q o) :=
  .of_tasks (tasks_complete ..) (by rw [host_complete]) (by rw [State.complete_frame])

theorem frugal_claim (s : Loop P S) (i : Nat) : Frugal s (s.claim i).2 := by
  rw [State.claim_frame]
  exact .of_tasks rfl rfl rfl

/-- A grant has to do with the loop's promises and effects. -/
theorem kept_grant (s : Loop P S) (r : Request) :
    Frugal s (grant s r) ∧ (grant s r).control = s.control := by
  obtain ⟨htasks, hgroups, hcontrol⟩ : (grant s r).tasks = s.tasks ∧
      (grant s r).groups = s.groups ∧ (grant s r).control = s.control :=
    kept_of_granting (P := fun u => u.tasks = s.tasks ∧ u.groups = s.groups ∧
      u.control = s.control) (fun h hs => by cases h <;> exact hs)
      (granting_grant s r fun _ _ _ _ => trivial : Relation.ReflTransGen (Granting fun _ => True)
        s (grant s r)) ⟨rfl, rfl, rfl⟩
  exact ⟨.of_tasks htasks (by rw [host_grant]) (by rw [hgroups]), hcontrol⟩

/-- A promise is complete when it has been completed. -/
theorem outcome_complete_ne_none (made : q < s.promises.length) (o : Outcome) :
    (s.complete q o).outcome? q ≠ none := by
  cases hopen : s.outcome? q with
  | none => simp [outcome_complete_self made hopen]
  | some o' => simp [complete_of_outcome hopen, hopen]

/-! ## Jobs that are about no task -/

/-- A completion that is carried out completes the promise of its effect. -/
theorem Tidy.settling {hand : List Job} {error value : Value}
    (hs : Tidy K context es top (.settle i error value :: hand) none s)
    (H : Host (P × Site (Scene S))) :
    ∃ e o, s.effects[i]? = some e ∧ es[e.promise]? = some ⟨o, none⟩ ∧
      settle H s i error value = s.complete e.promise o := by
  obtain ⟨o, ⟨reportable, e, he, expects⟩, rfl, rfl⟩ : ∃ o, Intends es s i o ∧
    error = errorOf o ∧ value = valueOf o := hs.jobs _ (.inl (List.mem_cons_self ..))
  refine ⟨e, o, he, expects, ?_⟩
  cases o with
  | ok v => simp [settle, he, errorOf, valueOf, Value.isMark]
  | error x =>
    obtain ⟨ordinary, lasting⟩ := reportable x rfl
    simp [settle, he, errorOf, Value.isMark, ordinary, lasting]

/-- To call a completion callback is to report a completion. -/
theorem Tidy.invoking {hand : List Job} {f : Value} {args : List Value}
    (hs : Tidy K context es top (.invoke f args :: hand) none s) (C : Programs P) (M : Manner S)
    (quiet : s.scene.requests = []) :
    ∃ i o, f = .done s.run i ∧ Intends es s i o ∧
      runJob (C.host (K.world M)) s (.invoke f args) =
        EventLoop.grantAll (C.host (K.world M)) ((grant s (.reporting s.run i o)).beside
          ((grant s (.reporting s.run i o)).scene.listen M)) := by
  obtain ⟨i, o, rfl, hintends, rfl⟩ : ∃ i o, f = .done s.run i ∧ Intends es s i o ∧
    args = [errorOf o, valueOf o] := hs.jobs _ (.inl (List.mem_cons_self ..))
  refine ⟨i, o, rfl, hintends, ?_⟩
  have hscene : (grant s (.reporting s.run i o)).scene = s.scene := by rw [State.scene, host_grant]
  rw [hscene]
  exact grantAll_ask C K M s quiet _

section

variable (idle : s.control = .idle) (quiet : s.scene.requests = [])

include idle quiet

theorem moves_stop (hs : Tidy K context es top [.stop] none s) :
    Moves K context es top s { s with stopping := true } := by
  have h : Lasts es [.stop] none s es [.stop] none { s with stopping := true } :=
    .of_kept (List.prefix_refl _) (fun _ h => h) rfl rfl (List.Subset.refl _) (fun _ _ h => h)
      (fun _ _ h => opened_same rfl h) (fun _ _ => rfl)
      fun _ _ h => .inl (h.of_tasks fun _ _ h => h)
  exact moves_idle ((hs.of_jobs h rfl rfl rfl rfl fun _ h => .inl h).release trivial) idle idle
    quiet (.of_tasks rfl rfl rfl)

/-- A promise is completed with what is expected, for which the job was in hand. -/
theorem moves_complete {j : Job} (hs : Tidy K context es top [j] none s) {o : Outcome}
    (expects : es[q]? = some ⟨o, none⟩) (done : Done (s.complete q o) j) :
    Moves K context es top s (s.complete q o) := by
  refine moves_idle ((hs.complete expects rfl fun n hn => (by cases hn)).release done) idle
    ((control_complete ..).trans idle) ?_ (frugal_complete ..)
  rw [State.scene, host_complete]
  exact quiet

theorem moves_fulfil {o : Outcome} (hs : Tidy K context es top [.fulfil q o] none s) :
    Moves K context es top s (s.complete q o) := by
  have hexpects : es[q]? = some ⟨o, none⟩ := hs.jobs _ (.inl (List.mem_singleton_self _))
  refine moves_complete idle quiet hs hexpects (outcome_complete_ne_none ?_ o)
  rw [← hs.length]
  exact (List.getElem?_eq_some_iff.1 hexpects).1

variable (C M) in
/-- The completion of an effect is carried out. -/
theorem moves_settle {error value : Value}
    (hs : Tidy K context es top [.settle i error value] none s) :
    Moves K context es top s (settle (C.host (K.world M)) s i error value) := by
  obtain ⟨e, o, he, expects, hsettle⟩ := hs.settling (C.host (K.world M))
  rw [hsettle]
  refine moves_complete idle quiet hs expects fun e' he' => ?_
  rw [effects_complete, he] at he'
  cases he'
  refine outcome_complete_ne_none ?_ o
  rw [← hs.length]
  exact (List.getElem?_eq_some_iff.1 expects).1

variable (C M) in
/-- A completion callback is called. -/
theorem moves_invoke {f : Value} {args : List Value}
    (hs : Tidy K context es top [.invoke f args] none s) :
    Moves K context es top s (runJob (C.host (K.world M)) s (.invoke f args)) := by
  obtain ⟨i, o, hf, hintends, hrun⟩ := hs.invoking C M quiet
  obtain ⟨hheeds, htidy, hclaims⟩ := hs.grantReport ⟨i, o, hintends, rfl⟩
  obtain ⟨hheard, hall, hquiet⟩ := htidy.hear C M
  have hclaimed := hheard.lasts.claimed (hclaims i _ _ rfl)
  have hlasts := hheeds.lasts.trans hheard.lasts
  rw [hrun]
  refine moves_idle (hall.release fun k hk => ?_) idle ?_ hquiet ?_
  · rw [hlasts.run, hf] at hk
    cases hk
    exact hclaimed
  · rw [control_grantAll]
    exact (kept_grant s _).2.trans idle
  · exact (kept_grant s _).1.trans (frugal_beside C K M _ _)

end

/-! ## Notices -/

theorem kept_notice (s : Loop P S) (i m : Nat) :
    Frugal s (notice s i m) ∧ (notice s i m).control = s.control ∧
      (notice s i m).host = s.host := by
  have hcomplete : ∀ (v : Loop P S) (q : Nat) (o : Outcome), Frugal s v → v.control = s.control →
      v.host = s.host → Frugal s (v.complete q o) ∧ (v.complete q o).control = s.control ∧
        (v.complete q o).host = s.host := fun v q o frugal control host =>
    ⟨frugal.trans (frugal_complete v q o), (control_complete ..).trans control,
      (host_complete ..).trans host⟩
  have hrecount : ∀ g : Group, Frugal s { s with groups := s.groups.set i g } := fun g =>
    .of_tasks rfl rfl (List.length_set ..)
  unfold notice
  split
  · exact hcomplete _ _ _ (.refl s) rfl rfl
  · dsimp only
    split
    · split
      · exact hcomplete _ _ _ (hrecount _) rfl rfl
      · exact ⟨hrecount _, rfl, rfl⟩
    · exact ⟨hrecount _, rfl, rfl⟩
  · exact ⟨.refl s, rfl, rfl⟩

/-- **A group notices a member.** -/
theorem moves_notice {H : Host (P × Site (Scene S))} {k m : Nat} {rest : List Job}
    (convened : ∀ i < s.groups.length, Convened H K context es s i) (idle : s.control = .idle)
    (quiet : s.scene.requests = []) (batch : s.batch = k + 1)
    (ready : s.ready = .notice i m :: rest)
    (hs : Tidy K context es top [.notice i m] none { s with ready := rest, batch := k }) :
    Moves K context es top { s with ready := rest, batch := k }
      (notice { s with ready := rest, batch := k } i m) := by
  obtain ⟨frugal, control, host⟩ := kept_notice { s with ready := rest, batch := k } i m
  refine moves_idle ?_ idle (control.trans idle) (by rw [State.scene, host]; exact quiet) frugal
  by_cases hi : i < s.groups.length
  · exact hs.notice (convened i hi) idle batch ready
  · have hnone : s.groups[i]? = none := List.getElem?_eq_none (Nat.not_lt.1 hi)
    have hstays : notice { s with ready := rest, batch := k } i m =
        { s with ready := rest, batch := k } := by
      simp only [notice, hnone]
    rw [hstays]
    exact hs.release trivial

/-! ## The turn of a task -/

/-- Where a task stands that awaits a coroutine, or is about to begin to. -/
inductive Resuming (k : Nat) : Goal → Phase → Prop
  | asleep (goal : Goal) : Resuming k goal (.asleep goal k)
  | watcher (i : Nat) : Resuming k (.watch i) (.fresh (.watch i (.coroutine k)))

/-- What can become of a task at its turn. -/
inductive Turns (C : Programs P) (M : Manner S) (K : Callables) (context : Value)
    (es : List Expected) (top : Expected) (s : Loop P S) (t : Nat) : Loop P S → Prop
  /-- Its item cannot be read. -/
  | refused (item : Value) (m : Malformed) (n p : Nat)
      (task : s.tasks[t]? = some ⟨.fresh (.perform item), p⟩)
      (parse : Descriptor.parse item = .error m)
      (expects : es[p]? = some ((Plan.ofValue item).expects K context n))
      (recent : 0 < (Plan.ofValue item).mints K context → n = s.host.2.items) :
      Turns C M K context es top s t
        (arriveWith (C.host (K.world M)) (s.setPhase t .running) t .answer m.body)
  /-- It begins to perform its item. -/
  | performs (item : Value) (d : Descriptor) (n p : Nat)
      (task : s.tasks[t]? = some ⟨.fresh (.perform item), p⟩)
      (parse : Descriptor.parse item = .ok d)
      (expects : es[p]? = some ((Plan.ofValue item).expects K context n))
      (modest : (Plan.ofValue item).Modest K context)
      (recent : 0 < (Plan.ofValue item).mints K context → n = s.host.2.items) :
      Turns C M K context es top s t { s.setPhase t .running with control := .perform t .answer d }
  /-- The coroutine that it awaits goes on. -/
  | awaits (phase : Phase) (goal : Goal) (k : Nat) (b : Body) (p : Nat)
      (task : s.tasks[t]? = some ⟨phase, p⟩)
      (stands : Resuming k goal phase)
      (body : s.scene.bodies[k]? = some b) (bears : Bears es top s t p b goal) :
      Turns C M K context es top s t
        (advance (grantAll (C.host (K.world M))
          ((s.setPhase t .running).beside ((s.scene.proceed k).2.listen M))) t goal k
            (s.scene.proceed k).1)
  /-- The outcome that it waits for is there. -/
  | arrives (goal : Goal) (q p : Nat) (o : Outcome) (x : Expected)
      (task : s.tasks[t]? = some ⟨.blocked goal q, p⟩) (wants : Wants es top t p goal x)
      (expects : es[q]? = some x) (later : p < q) (outcome : s.outcome? q = some o) :
      Turns C M K context es top s t ((s.setPhase t .running).arrive t goal o)
  /-- It is not its turn. -/
  | stays (done : Done s (.step t)) : Turns C M K context es top s t s

variable (C M) in
/-- **The turn of a task.** -/
theorem turns_stepTask {hand : List Job} (hs : Tidy K context es top hand none s) (t : Nat) :
    Turns C M K context es top s t (stepTask (C.host (K.world M)) s t) := by
  cases htask : s.tasks[t]? with
  | none =>
    have hstep : stepTask (C.host (K.world M)) s t = s := by simp only [stepTask, htask]; rfl
    rw [hstep]
    exact .stays fun phase p hp => by rw [htask] at hp; cases hp
  | some task =>
    obtain ⟨phase, p⟩ := task
    have hstays : stepTask (C.host (K.world M)) s t = s →
        (phase = .running ∨ (∃ report, phase = .finished report) ∨
          ∃ goal q, phase = .blocked goal q ∧ s.outcome? q = none) →
        Turns C M K context es top s t (stepTask (C.host (K.world M)) s t) := by
      intro hstep hphase
      rw [hstep]
      refine .stays fun phase' p' hp => ?_
      rw [htask] at hp
      cases hp
      exact hphase
    cases hs.tasks t phase p htask with
    | fresh item n minor expects modest recent queued =>
      cases hparse : Descriptor.parse item with
      | error m =>
        have hstep : stepTask (C.host (K.world M)) s t =
            arriveWith (C.host (K.world M)) (s.setPhase t .running) t .answer m.body := by
          simp only [stepTask, htask, Option.map_some, begin, hparse]
        rw [hstep]
        exact .refused item m n p htask hparse expects recent
      | ok d =>
        have hstep : stepTask (C.host (K.world M)) s t =
            { s.setPhase t .running with control := .perform t .answer d } := by
          simp only [stepTask, htask, Option.map_some, begin, hparse]
        rw [hstep]
        exact .performs item d n p htask hparse expects modest recent
    | watcher i k b minor body announces minds queued =>
      have hstep : stepTask (C.host (K.world M)) s t =
          advance (grantAll (C.host (K.world M))
            ((s.setPhase t .running).beside ((s.scene.proceed k).2.listen M))) t (.watch i) k
              (s.scene.proceed k).1 := by
        simp only [stepTask, htask, Option.map_some, begin, await, setPhase_eq htask]
        rfl
      rw [hstep]
      exact .awaits _ (.watch i) k b p htask (.watcher i) body (.watch i announces minds)
    | running goal at_work => cases at_work
    | asleep goal k b body bears queued =>
      have hstep : stepTask (C.host (K.world M)) s t =
          advance (grantAll (C.host (K.world M))
            ((s.setPhase t .running).beside ((s.scene.proceed k).2.listen M))) t goal k
              (s.scene.proceed k).1 := by
        simp only [stepTask, htask, Option.map_some, setPhase_eq htask]
        rfl
      rw [hstep]
      exact .awaits _ goal k b p htask (.asleep goal) body bears
    | blocked goal q x wants expects later held =>
      cases houtcome : s.outcome? q with
      | none =>
        refine hstays ?_ (.inr (.inr ⟨goal, q, rfl, houtcome⟩))
        simp only [stepTask, htask, Option.map_some, houtcome]
      | some o =>
        have hstep : stepTask (C.host (K.world M)) s t =
            (s.setPhase t .running).arrive t goal o := by
          simp only [stepTask, htask, Option.map_some, houtcome]
        rw [hstep]
        exact .arrives goal q p o x htask wants expects later houtcome
    | finished report outcome =>
      exact hstays (by simp only [stepTask, htask, Option.map_some]) (.inr (.inl ⟨report, rfl⟩))

/-- A task is at work, and the job that stood for it is done. -/
theorem Tidy.wakes (hs : Tidy K context es top [.step t] none s) {phase : Phase}
    (ht : s.tasks[t]? = some ⟨phase, p⟩)
    (fresh : ∀ i v, phase = .fresh (.watch i v) → goal = .watch i)
    (asleep : ∀ i k, phase = .asleep (.watch i) k → goal = .watch i) :
    Tidy K context es top [] (some (t, goal)) (s.setPhase t .running) := by
  refine (hs.rouse ht fresh asleep).release fun phase' p' hp => .inl ?_
  rw [getElem?_setPhase_self ht] at hp
  cases hp
  rfl

/-- A task is at work with a coroutine that it awaits. -/
theorem Tidy.resumes (hs : Tidy K context es top [.step t] none s) {phase : Phase} {k : Nat}
    {b : Body} (ht : s.tasks[t]? = some ⟨phase, p⟩) (stands : Resuming k goal phase)
    (body : s.scene.bodies[k]? = some b) (bears : Bears es top s t p b goal) :
    Tidy K context es top [] (some (t, goal)) (s.setPhase t .running) ∧
      ∃ b', (s.setPhase t .running).scene.bodies[k]? = some b' ∧
        Bears es top (s.setPhase t .running) t p b' goal := by
  have hfresh : ∀ i v, phase = .fresh (.watch i v) → goal = .watch i := by
    rintro i v rfl
    cases stands
    rfl
  have hasleep : ∀ i k, phase = .asleep (.watch i) k → goal = .watch i := by
    rintro i k rfl
    cases stands
    rfl
  have hlasts : Lasts es [.step t] none s es [.step t] (some (t, goal)) (s.setPhase t .running) :=
    lasts_rouse ht hfresh hasleep
  exact ⟨hs.wakes ht hfresh hasleep, hlasts.bears body bears⟩

/-- What a task that has not begun was to begin is taken from the load. -/
theorem load_wakes {item : Value} (ht : s.tasks[t]? = some ⟨.fresh (.perform item), p⟩)
    (w : Plan → Nat) : (s.setPhase t .running).load w + w (Plan.ofValue item) = s.load w :=
  load_setPhase (w := w) ht .running

/-- A task that has begun is no load. -/
theorem frugal_wakes {task : Task} (ht : s.tasks[t]? = some task) (h : ∀ w, task.load w = 0) :
    Frugal s (s.setPhase t .running) where
  load w := by
    have hload := load_setPhase (w := w) ht .running
    have hnew : Task.load w ⟨.running, task.promise⟩ = 0 := rfl
    rw [h w, hnew] at hload
    exact hload
  minted := by rw [host_setPhase]
  groups := by rw [setPhase_eq ht]

theorem scene_setPhase (s : Loop P S) (t : Nat) (phase : Phase) :
    (s.setPhase t phase).scene = s.scene := by
  rw [State.scene, host_setPhase]

/-- A member that cannot be read gets the exception that is expected for the item. -/
theorem arriveWith_eq (C : Programs P) (K : Callables) (M : Manner S) (s : Loop P S) (t : Nat)
    (m : Malformed) (first : s.host.2.minted = 0) :
    arriveWith (C.host (K.world M)) s t .answer m.body =
      (s.minting 1).arrive t .answer (m.expected s.host.2.items).outcome := by
  obtain ⟨⟨program, world, items, minted⟩, run, clock, ready, timers, tasks, promises, effects,
    groups, futures, earlier, batch, stopping, notes, control⟩ := s
  obtain rfl : minted = 0 := first
  rfl

section

variable (idle : s.control = .idle) (quiet : s.scene.requests = [])
  (hs : Tidy K context es top [.step t] none s)

include idle quiet hs

variable (C M) in
/-- A member that cannot be read is refused, with the first exception that the library makes
on account of the item. -/
theorem moves_refused {item : Value} {m : Malformed} {n : Nat}
    (single : s.host.2.minted + s.debt (Plan.mints K context) ≤ 1)
    (task : s.tasks[t]? = some ⟨.fresh (.perform item), p⟩)
    (parse : Descriptor.parse item = .error m)
    (expects : es[p]? = some ((Plan.ofValue item).expects K context n))
    (recent : 0 < (Plan.ofValue item).mints K context → n = s.host.2.items) :
    let u := arriveWith (C.host (K.world M)) (s.setPhase t .running) t .answer m.body
    Moves K context es top s u ∧ u.debt Plan.size < s.debt Plan.size := by
  intro u
  rw [Plan.ofValue_of_error parse] at expects recent
  obtain rfl := recent Nat.one_pos
  have hload := load_wakes task
  rw [Plan.ofValue_of_error parse] at hload
  have hdebt : ∀ w, s.debt w = s.load w := fun w => by
    rw [State.debt, idle]
    rfl
  have hone : (Plan.refused m).mints K context = 1 := rfl
  have hminted : s.host.2.minted = 0 := by
    have := hload (Plan.mints K context)
    rw [hdebt] at single
    omega
  let v : Loop P S := (s.setPhase t .running).minting 1
  have hu : u = v.arrive t .answer (m.expected s.host.2.items).outcome := by
    have harrive := arriveWith_eq C K M (s.setPhase t .running) t m (by rwa [host_setPhase])
    rw [host_setPhase] at harrive
    exact harrive
  have htidy : Tidy K context es top [] (some (t, .answer)) v :=
    (hs.wakes task (fun _ _ h => by cases h) fun _ _ h => by cases h).minting 1
  have htask : v.tasks[t]? = some ⟨.running, p⟩ := getElem?_setPhase_self task .running
  have hdue : Due es top v t .answer (m.expected s.host.2.items).outcome := by
    refine .expected .answer p _ htask (.answer expects) fun n hn => .inr ⟨?_, Nat.succ_pos _⟩
    rw [← Option.some.inj hn]
    exact congrArg (fun h => h.2.items) (host_setPhase s t .running).symm
  have hquiet : v.scene.requests = [] := by
    show (s.setPhase t .running).scene.requests = []
    rw [scene_setPhase]
    exact quiet
  obtain ⟨es', more, tidy, aims, quiet', frugal, hnothing⟩ :=
    (served_arrive htidy hquiet hdue).outlook
  have hpaid : ∀ w,
      (v.arrive t .answer (m.expected s.host.2.items).outcome).debt w + w (.refused m) =
      s.debt w := by
    intro w
    rw [hdebt, ← hload w, State.debt, hnothing, frugal.load]
    rfl
  have hsize := hpaid Plan.size
  have hmints := hpaid (Plan.mints K context)
  have hnew : v.host.2.minted = s.host.2.minted + 1 := by
    show (s.setPhase t .running).host.2.minted + 1 = _
    rw [host_setPhase]
  rw [← frugal.minted] at hnew
  rw [Plan.size_refused] at hsize
  rw [hu]
  refine ⟨.mk es' more tidy aims quiet' ⟨by omega, by omega⟩ (.inl ?_), by omega⟩
  rw [frugal.groups]
  show (s.setPhase t .running).groups.length = _
  rw [setPhase_eq task]

variable (C M) in
/-- **A task has its turn.** -/
theorem moves_step (single : s.host.2.minted + s.debt (Plan.mints K context) ≤ 1) :
    Moves K context es top s (stepTask (C.host (K.world M)) s t) := by
  have hturns := turns_stepTask C M hs t
  generalize stepTask (C.host (K.world M)) s t = u at hturns ⊢
  have hquiet : (s.setPhase t .running).scene.requests = [] := by
    rw [scene_setPhase]
    exact quiet
  cases hturns with
  | refused item m n p task parse expects recent =>
    exact (moves_refused C M idle quiet hs single task parse expects recent).1
  | performs item d n p task parse expects modest recent =>
    rw [Plan.ofValue_of_parse item d parse] at expects modest recent
    have hload := load_wakes task
    rw [Plan.ofValue_of_parse item d parse] at hload
    have hpaid : ∀ w, State.debt w { s.setPhase t .running with control := .perform t .answer d } =
        s.debt w := by
      intro w
      show (s.setPhase t .running).load w + w (Plan.ofDescriptor d) = s.load w + s.control.load w
      rw [hload w, idle]
      rfl
    have htidy : Tidy K context es top [] (some (t, .answer)) (s.setPhase t .running) :=
      hs.wakes task (fun _ _ h => by cases h) fun _ _ h => by cases h
    refine .mk es (List.prefix_refl _) (htidy.turned _ _) ?_ hquiet
      ⟨Nat.le_of_eq (hpaid _), ?_⟩ (.inl ?_)
    · refine .perform t .answer d p n (getElem?_setPhase_self task .running) (.answer expects)
        modest
        fun hpos => ?_
      rw [recent hpos, host_setPhase]
    · rw [hpaid]
      show (s.setPhase t .running).host.2.minted + _ = _
      rw [host_setPhase]
    · show (s.setPhase t .running).groups.length = _
      rw [setPhase_eq task]
  | awaits phase goal k b p task stands body bears =>
    obtain ⟨htidy, b', hb', hbears⟩ := hs.resumes task stands body bears
    have hserved := served_coroutine C M htidy (getElem?_setPhase_self task .running) hb' hbears
    rw [scene_setPhase] at hserved
    refine hserved.moves idle (frugal_wakes task fun w => ?_)
    cases stands <;> rfl
  | arrives goal q p o x task wants expects later outcome =>
    obtain ⟨x', hx', rfl, hthere⟩ := hs.settled q o (by omega) outcome
    rw [expects] at hx'
    obtain rfl := Option.some.inj hx'
    have htidy : Tidy K context es top [] (some (t, goal)) (s.setPhase t .running) :=
      hs.wakes task (fun _ _ h => by cases h) fun _ _ h => by cases h
    exact (served_arrive htidy hquiet (.expected goal p x (getElem?_setPhase_self task .running)
      wants (by rwa [host_setPhase]))).moves idle (frugal_wakes task fun _ => rfl)
  | stays done => exact moves_idle (hs.release done) idle idle quiet (.refl s)

end

end EventLoop
end DescribedEffects
