import DescribedEffects.Proofs.Driving.Dialogue
import DescribedEffects.Proofs.EventLoop.Delivery

/-!
# The stages of a driven computation

A loop whose main task drives a computation is at one of four stages: it is about to tell
the innermost computation something, it is about to perform an effect, it waits for the
outcome, or the main task is over.  `Stage` says at which, and what is known there of the
stack, of the trace and of the number of items that have been yielded.

One step from each stage is a lemma: `telling_step`, `performing_step`, `awaiting_step` and
`over_step`.  The first follows the stack on its own; the next two follow the loop alone,
which does not depend on the stack.
-/

namespace DescribedEffects
namespace EventLoop

variable {σ P W : Type} {H : Host σ} {context : Value}

/-! ## The number of items -/

section

variable {V : World W}

theorem items_of_asked {s u : Site W} (h : V.still.Asked s u) : u.items = s.items := by
  cases h <;> rfl

theorem items_grantAll (x : State (Site W)) : (grantAll V.still x).host.items = x.host.items := by
  rw [host_grantAll]
  rfl

theorem items_of_change {t : Nat} {claims completes : Nat → Prop} {x u : State (Site W)}
    (h : Change V.still t claims completes x u) : u.host.items = x.host.items := by
  cases h with
  | asked h => exact items_of_asked h
  | granted => exact items_grantAll x
  | moved phase => rw [host_setPhase]
  | subscribed p _ _ => rw [host_subscribe]
  | claimed _ => rw [host_claim]
  | completed _ o => rw [host_complete]
  | _ => rfl

theorem items_of_changes {t : Nat} {claims completes : Nat → Prop} {x u : State (Site W)}
    (h : Changes V.still t claims completes x u) : u.host.items = x.host.items :=
  h.kept (P := fun u => u.host.items = x.host.items) (fun hc hv => (items_of_change hc).trans hv)
    rfl

/-- Without computations no item is ever yielded. -/
theorem items_of_step {x u : State (Site W)} (h : step V.still context x = .next u) :
    u.host.items = x.host.items :=
  kept_of_changes (P := fun v => v.host.items = x.host.items)
    (fun hchanges hx => (items_of_changes hchanges).trans hx)
    (fun _ _ hhost _ hx => by rwa [hhost]) h rfl

end

/-! ## What holds throughout -/

/-- A loop whose main task has begun to drive. -/
structure Steady (s : State σ) : Prop where
  sound : Sound s
  main : Main s
  timely : Timely s
  placed : Placed s
  lone : Lone s

theorem Steady.next {s u : State σ} (hs : Steady s) (h : step H context s = .next u) :
    Steady u where
  sound := sound_of_step hs.sound h
  main := main_of_step hs.sound hs.main h
  timely := timely_of_step hs.main hs.timely h
  placed := placed_of_step hs.placed h
  lone := lone_of_step hs.lone hs.placed h

/-- A loop with one task, which has begun, is a loop with a lone driver. -/
theorem lone_of_single {s : State σ} {phase : Phase} (tasks : s.tasks = [⟨phase, 0⟩])
    (begun : ∀ errand, phase ≠ .fresh errand)
    (busy : ∀ k, s.control.task? = some k → k = 0 ∧ phase = .running) : Lone s where
  begun errand h := by
    rw [tasks] at h
    exact begun errand (Option.some.inj h)
  others k task hk hne := by
    rw [tasks] at hk
    have hlt : k < 1 := (List.getElem?_eq_some_iff.1 hk).1
    omega
  control k hk hne := absurd (busy k hk).1 hne
  running hk := by
    rw [tasks, (busy 0 hk).2]
    rfl

theorem steady_of_reaches {host : σ} {run : Nat} {earlier : List (Nat × Outcome)}
    {errand : Errand} {s : State σ}
    (h : Transition.Reaches (step H context) (State.start host run earlier errand) s)
    (lone : Lone s) : Steady s :=
  ⟨sound_of_reaches h, main_of_reaches h, timely_of_reaches h,
    placed_of_reaches h fun k hk => (by cases hk), lone⟩

/-- The loop that has begun to drive a computation. -/
def begun (site : Site W) (run : Nat) (earlier : List (Nat × Outcome)) (trace : Option Trace)
    (captured : Bool) : State (Site W) :=
  { State.start site run earlier (.drive .null trace captured) with
    ready := []
    tasks := [⟨.running, 0⟩]
    control := .deliver 0 ⟨[], none, trace⟩ captured (.send .null) }

/-- Every computation is begun in the same way. -/
theorem reaches_begun (C : Programs P) (V : World W) (context : Value) (host : P × Site W)
    (run : Nat) (earlier : List (Nat × Outcome)) (g : Nat) (trace : Option Trace)
    (captured : Bool) :
    ∃ t, step (C.host V) context
          (State.start host run earlier (.drive (.computation g) trace captured)) = .next t ∧
      t.control = .idle ∧
      step (C.host V) context t =
        .next ((begun host.2 run earlier trace captured).amid (Prod.mk host.1) [] [g]) ∧
      Steady ((begun host.2 run earlier trace captured).amid (Prod.mk host.1) [] [g]) := by
  let start := State.start host run earlier (.drive (.computation g) trace captured)
  have hfirst : step (C.host V) context start = .next { start with batch := 1 } := rfl
  have hsecond : step (C.host V) context { start with batch := 1 } =
      .next ((begun host.2 run earlier trace captured).amid (Prod.mk host.1) [] [g]) := rfl
  refine ⟨_, hfirst, rfl, hsecond, steady_of_reaches (.head hfirst (.head hsecond (.refl _))) ?_⟩
  exact lone_of_single rfl (fun errand h => by cases h) fun k hk => by
    cases hk
    exact ⟨rfl, rfl⟩

/-- While the loop is busy with its main task that one goes on. -/
theorem Steady.ongoing {s : State σ} (hs : Steady s) (h : s.control.task? = some 0) :
    Ongoing s := by
  rcases hs.timely with hgoing | ⟨report, hover⟩
  · exact hgoing
  · exact absurd h hover.elsewhere

/-! A loop that is busy is idle first. -/

theorem Steady.sound_toIdle {s : State σ} (hs : Steady s) : Sound s.toIdle :=
  hs.sound.toIdle

theorem Steady.main_toIdle {s : State σ} (hs : Steady s) : Main s.toIdle :=
  { hs.main with due := hs.main.due }

theorem Steady.ongoing_toIdle {s : State σ} (hs : Steady s) (h : s.control.task? = some 0) :
    Ongoing s.toIdle :=
  ⟨(hs.ongoing h).present, (hs.ongoing h).made, (hs.ongoing h).outcome⟩

section

variable {τ : Type} (v : τ → σ) (notes : List Note) (a : List Nat) {x : State τ}

@[simp] theorem isQuiet_goal_amid (goal : Goal) : (goal.amid a).isQuiet = goal.isQuiet := by
  cases goal <;> rfl

@[simp] theorem isQuiet_phase_amid (phase : Phase) : (phase.amid a).isQuiet = phase.isQuiet := by
  cases phase with
  | asleep goal k => exact isQuiet_goal_amid a goal
  | blocked goal p => exact isQuiet_goal_amid a goal
  | _ => rfl

@[simp] theorem task?_control_amid (c : Control) : (c.amid a).task? = c.task? := by
  cases c <;> rfl

@[simp] theorem isQuiet_control_amid (c : Control) : (c.amid a).isQuiet = c.isQuiet := by
  cases c with
  | perform t goal d => exact isQuiet_goal_amid a goal
  | outcome t goal o => exact isQuiet_goal_amid a goal
  | _ => rfl

variable {v notes a}

theorem phase_of_amid {k : Nat} {phase : Phase} (h : x.tasks[k]?.map Task.phase = some phase) :
    (x.amid v notes a).tasks[k]?.map Task.phase = some (phase.amid a) := by
  obtain ⟨task, htask, rfl⟩ := Option.map_eq_some_iff.1 h
  rw [getElem?_tasks_amid, htask]
  rfl

/-- What is known of the tasks of a loop does not depend on the stack. -/
theorem lone_of_amid (h : Lone (x.amid v notes a)) : Lone x where
  begun errand he := h.begun errand (phase_of_amid he)
  others k task hk hne := by
    have hquiet := h.others k (task.amid a) (by rw [getElem?_tasks_amid, hk]; rfl) hne
    exact (isQuiet_phase_amid a task.phase).symm.trans hquiet
  control k hk hne := by
    have hquiet := h.control k ((task?_control_amid a x.control).trans hk) hne
    exact (isQuiet_control_amid a x.control).symm.trans hquiet
  running hk := by
    have hrunning := h.running ((task?_control_amid a x.control).trans hk)
    rw [getElem?_tasks_amid] at hrunning
    cases ht : x.tasks[0]? with
    | none => rw [ht] at hrunning; cases hrunning
    | some task =>
      rw [ht] at hrunning
      rcases task with ⟨phase, promise⟩
      cases phase with
      | running => rfl
      | _ => cases hrunning

theorem main_of_amid (h : Main (x.amid v notes a)) : Main x where
  made := h.made
  present := by
    have hpresent := h.present
    rwa [State.amid, List.length_map] at hpresent
  tasks k task hk := h.tasks k (task.amid a) (by rw [getElem?_tasks_amid, hk]; rfl)
  groups := h.groups
  futures := h.futures
  effects := h.effects
  ready := h.ready
  timers := h.timers
  only := h.only
  waits := h.waits
  due := h.due

theorem ongoing_of_amid (h : Ongoing (x.amid v notes a)) : Ongoing x where
  present := by
    have hpresent := h.present
    rwa [State.amid, List.length_map] at hpresent
  made := h.made
  outcome := h.outcome

end

/-- Granting requests keeps the main task going. -/
theorem Main.settled (V : World W) {x : State (Site W)} (h : Main x) : Main (settled V x .idle) := by
  let y : State (Site W) := { x with control := .idle, notes := [] }
  have hy : Main y := { h with due := h.due }
  have hgranted : Main (grantAll V.still y) :=
    kept_of_granting main_of_granting (granting_grantAll V.still y) hy
  exact { hgranted with due := hgranted.due }

theorem Ongoing.settled (V : World W) {x : State (Site W)} (h : Ongoing x) :
    Ongoing (settled V x .idle) := by
  let y : State (Site W) := { x with control := .idle, notes := [] }
  have hy : Ongoing y := ⟨h.present, h.made, h.outcome⟩
  have hgranted : Ongoing (grantAll V.still y) :=
    hy.changes (H := V.still) (t := 0) (Change.changes (.granted y))
  exact ⟨hgranted.present, hgranted.made, hgranted.outcome⟩

/-- The main task ends with its outcome. -/
theorem outcome_finish {s : State σ} (hs : Main s) (hgoing : Ongoing s) (report : Option Report)
    (o : Outcome) : (finish s 0 report o).outcome? 0 = some o := by
  obtain ⟨task, htask⟩ : ∃ task, s.tasks[0]? = some task :=
    ⟨_, List.getElem?_eq_getElem hs.present⟩
  have hpromise : task.promise = 0 := (hs.tasks 0 task htask).2 rfl
  have hphase : (s.setPhase 0 (.finished report)).promises = s.promises :=
    promises_setPhase ..
  obtain ⟨waiters, hw⟩ : ∃ waiters, s.promises[0]? = some ⟨none, waiters⟩ := by
    have hopen := hgoing.outcome
    obtain ⟨⟨outcome, waiters⟩, hp⟩ : ∃ promise, s.promises[0]? = some promise :=
      ⟨_, List.getElem?_eq_getElem hs.made⟩
    cases outcome with
    | none => exact ⟨waiters, hp⟩
    | some o => simp [State.outcome?, hp] at hopen
  unfold finish
  rw [htask]
  simp only [State.toIdle, State.complete, hpromise, hphase, hw, State.outcome?]
  rw [List.getElem?_set_self hs.made]
  rfl

/-! ## The stages -/

/-- The trace with an effect that has had its outcome.  An exception that ordinary handlers
do not take is not recorded. -/
def keep (trace : Option Trace) (d : Descriptor) : Outcome → Option Trace
  | .ok v => trace.map fun l => l.add ⟨d, .ok v⟩
  | .error e => if e.isOrdinary then trace.map fun l => l.add ⟨d, .error e⟩ else trace

/-- Where a driven stack of computations stands, after so many items. -/
inductive Stand (P : Type) where
  /-- The innermost computation is about to be told something. -/
  | telling (solo : Solo P) (items : Nat)
  /-- The innermost computation has yielded an effect, which is about to be performed. -/
  | performing (d : Descriptor) (programs : P) (active : List Nat) (items : Nat)
  | awaiting (d : Descriptor) (programs : P) (active : List Nat) (items : Nat)
  | finished (o : Outcome)

/-- The innermost computation is told the outcome of its effect. -/
def Stand.tell (programs : P) (active : List Nat) (items : Nat) : Outcome → Stand P
  | .ok v => .telling ⟨programs, active, .send v⟩ items
  | .error e =>
    if e.isOrdinary then .telling ⟨programs, active, .throw e⟩ items else .finished (.error e)

/-- The innermost computation is told something once an outcome has been recorded, unless that
strained the trace: then it is told so. -/
def Stand.recorded (trace : Option Trace) (programs : P) (active : List Nat) (items minted : Nat)
    (signal : Signal) : Stand P :=
  .telling ⟨programs, active, if trace.any Trace.isStrained then
    .throw ⟨Nat.pair items minted, ValueFault.notCount.body⟩ else signal⟩ items

/-- The innermost computation is told the outcome of its effect, which has been recorded. -/
def Stand.answer (trace : Option Trace) (programs : P) (active : List Nat) (items minted : Nat) :
    Outcome → Stand P
  | .ok v => .recorded trace programs active items minted (.send v)
  | .error e =>
    if e.isOrdinary then .recorded trace programs active items minted (.throw e)
    else .finished (.error e)

/-- What comes of a pause. -/
def Stand.pause (items : Nat) : Pause P → Stand P
  | .ended o _ => .finished o
  | .yielded item programs active =>
    match Descriptor.parse item with
    | .error m =>
      .telling ⟨programs, active, .throw ⟨Nat.pair (items + 1) 0, m.body⟩⟩ (items + 1)
    | .ok d => .performing d programs active (items + 1)

/-- What the promise of the main task is completed with. -/
def result (captured : Bool) (o : Outcome) : Outcome := if captured then captureOutcome o else o

/-- The loop drives a stack of computations that stands there, with this trace. -/
inductive Stage (captured : Bool) (trace : Option Trace) : Stand P → State (P × Site W) → Prop
  | telling (q : Solo P) (x : State (Site W)) (notes : List Note) (j : Journey) (items : Nat)
      (control : x.control = .deliver 0 j captured q.signal) (active : q.active ≠ [])
      (traced : j.trace = trace) (counted : x.host.items = items) :
      Stage captured trace (.telling q items) (x.amid (Prod.mk q.programs) notes q.active)
  | performing (d : Descriptor) (p : P) (a : List Nat) (x : State (Site W)) (notes : List Note)
      (j : Journey) (items : Nat) (control : x.control = .perform 0 (.drive j captured) d)
      (current : j.current = some d) (active : a ≠ []) (traced : j.trace = trace)
      (counted : x.host.items = items) :
      Stage captured trace (.performing d p a items) (x.amid (Prod.mk p) notes a)
  | awaiting (d : Descriptor) (p : P) (a : List Nat) (x : State (Site W)) (notes : List Note)
      (j : Journey) (items : Nat) (engaged : Engaged 0 (.drive j captured) x)
      (current : j.current = some d) (active : a ≠ []) (traced : j.trace = trace)
      (counted : x.host.items = items) :
      Stage captured trace (.awaiting d p a items) (x.amid (Prod.mk p) notes a)
  | finished (o : Outcome) (s : State (P × Site W)) (hover : Over (some ⟨o, trace⟩) s)
      (outcome : s.outcome? 0 = some (result captured o)) : Stage captured trace (.finished o) s

variable (C : Programs P) (V : World W)

/-- What the loop shows of the computations that it drives. -/
def shows (s : State (P × Site W)) : List Event :=
  match s.control with
  | .deliver _ j _ signal => Solo.shows C ⟨s.host.1, j.active, signal⟩
  | .outcome _ (.drive j _) o =>
    match j.current with
    | some d => [.answered d o]
    | none => []
  | _ => []

/-- What is shown of a stack whose innermost computation is about to be told something. -/
theorem shows_of_telling {x : State (Site W)} {q : Solo P} {notes : List Note} {j : Journey}
    {captured : Bool} (control : x.control = .deliver 0 j captured q.signal) :
    shows C (x.amid (Prod.mk q.programs) notes q.active) = Solo.shows C q := by
  have hcontrol : (x.amid (Prod.mk q.programs) notes q.active).control =
      .deliver 0 (j.amid q.active) captured q.signal := congrArg (Control.amid q.active) control
  unfold shows
  rw [hcontrol]
  rfl

/-- Nothing is shown before the computation is begun. -/
theorem trail_begun (context : Value) (host : P × Site W) (run : Nat)
    (earlier : List (Nat × Outcome)) (g : Nat) (trace : Option Trace) (captured : Bool) :
    Transition.Trail (step (C.host V) context) (shows C)
        (State.start host run earlier (.drive (.computation g) trace captured)) []
        ((begun host.2 run earlier trace captured).amid (Prod.mk host.1) [] [g]) ∧
      Steady ((begun host.2 run earlier trace captured).amid (Prod.mk host.1) [] [g]) := by
  obtain ⟨t, hfirst, hidle, hsecond, hsteady⟩ :=
    reaches_begun C V context host run earlier g trace captured
  have hshows : shows C t = [] := by
    unfold shows
    rw [hidle]
  have hbegins : Transition.Trail _ (shows C) _ _ _ := .single hfirst
  have htrail := hbegins.tail hsecond
  rw [hshows] at htrail
  exact ⟨htrail, hsteady⟩

variable {captured : Bool} {trace : Option Trace} {items : Nat} {s u : State (P × Site W)}

/-- The end of a driven computation. -/
theorem stage_finishDrive {y : State (Site W)} {j : Journey} {o : Outcome} {p : P}
    {notes : List Note} {a : List Nat} (hy : Main y) (hgoing : Ongoing y) :
    Stage captured j.trace (.finished o : Stand P)
      ((finishDrive y 0 j captured o).amid (Prod.mk p) notes a) := by
  have hover : Over (some ⟨o, j.trace⟩) (finishDrive y 0 j captured o) :=
    over_finish hgoing.present ..
  refine .finished o _ ⟨phase_of_amid hover.finished, ?_⟩ ?_
  · intro h
    exact hover.elsewhere ((task?_control_amid a _).symm.trans h)
  · exact outcome_finish hy hgoing _ _

/-- The loop takes note of a pause. -/
theorem stage_paused {x : State (Site W)} {j : Journey} {pause : Pause P} {notes : List Note}
    (hmain : Main (settled V x .idle)) (hgoing : Ongoing (settled V x .idle))
    (hitems : (settled V x .idle).host.items = items)
    (hplain : ∀ item p a, pause = .yielded item p a → item.isComputation = false ∧ a ≠ []) :
    Stage captured j.trace (.pause items pause)
      ((paused V x j captured pause).amid (Prod.mk pause.programs) notes pause.active) := by
  cases pause with
  | ended o p => exact stage_finishDrive hmain hgoing
  | yielded item p a =>
    obtain ⟨hitem, ha⟩ := hplain item p a rfl
    have hheard : (settled V x .idle).host.hear (.yielded item) =
        ⟨(settled V x .idle).host.world, items + 1, 0⟩ := by
      rw [Site.hear_item _ hitem, hitems]
    show Stage captured j.trace _ (State.amid (Prod.mk p) notes a
      (receive V.still (heard (settled V x .idle) (.yielded item)) 0 j captured item))
    rw [receive_of_plain _ _ _ _ hitem]
    simp only [Stand.pause, heard, hheard]
    cases Descriptor.parse item with
    | error m => exact .telling ⟨p, a, _⟩ _ notes j _ rfl ha rfl rfl
    | ok d => exact .performing d p a _ notes { j with current := some d } _ rfl rfl ha rfl rfl

variable (context) in
/-- **The loop tells the innermost computation something**, and follows the stack on its
own. -/
theorem telling_step {q : Solo P} (hs : Steady s)
    (h : Stage captured trace (.telling q items) s) :
    ∃ u, step (C.host V) context s = .next u ∧ shows C s = Solo.shows C q ∧
      (Solo.step C q).Leads (fun q' => Stage captured trace (.telling q' items) u)
        (fun pause => Stage captured trace (.pause items pause) u) := by
  cases h with
  | telling q x notes j items control active traced counted =>
    have hbusy : (x.amid (Prod.mk q.programs) notes q.active).control.task? = some 0 := by
      show (x.control.amid q.active).task? = some 0
      rw [control]
      rfl
    have hgoing : Ongoing (settled V x .idle) := (ongoing_of_amid (hs.ongoing hbusy)).settled V
    have hmain : Main (settled V x .idle) := (main_of_amid hs.main).settled V
    have hitems : (settled V x .idle).host.items = items := (items_grantAll _).trans counted
    have hshows : shows C (x.amid (Prod.mk q.programs) notes q.active) = Solo.shows C q :=
      shows_of_telling C control
    have hstep := step_deliver C V context notes (p := q.programs)
      (lone_of_amid hs.lone) control active
    cases hq : Solo.step C q with
    | next q' =>
      rw [hq] at hstep
      obtain ⟨notes', hstep⟩ := hstep
      refine ⟨_, hstep, hshows, ?_⟩
      exact .telling q' _ notes' j items rfl (Solo.active_of_step hq) traced hitems
    | done pause =>
      rw [hq] at hstep
      obtain ⟨notes', hstep⟩ := hstep
      refine ⟨_, hstep, hshows, ?_⟩
      show Stage captured trace (.pause items pause) _
      rw [← traced]
      refine stage_paused V hmain hgoing hitems fun item p a hp => ?_
      subst hp
      obtain ⟨hplain, rfl⟩ := Solo.yielded_of_step hq
      exact ⟨hplain, active⟩

/-- A loop that is busy with something else shows nothing of the computations. -/
theorem shows_of_elsewhere (hs : Lone s) (h : s.control.task? ≠ some 0) : shows C s = [] := by
  cases htask : s.control.task? with
  | none =>
    unfold shows
    rw [Control.eq_idle htask]
  | some t =>
    have hquiet := hs.control t htask (by rintro rfl; exact h htask)
    unfold shows
    cases hc : s.control with
    | outcome k goal o =>
      cases goal with
      | drive j captured => rw [hc] at hquiet; cases hquiet
      | _ => rfl
    | deliver k j captured signal => rw [hc] at hquiet; cases hquiet
    | _ => rfl

/-- A trace that never has to be trimmed. -/
def Free (trace : Option Trace) : Prop := ∀ t, trace = some t → t.bound = .unbounded

theorem Free.keep (h : Free trace) (d : Descriptor) (o : Outcome) : Free (keep trace d o) := by
  have hadd : ∀ r : Record, Free (trace.map fun l => l.add r) := by
    intro r t ht
    obtain ⟨l, hl, rfl⟩ := Option.map_eq_some_iff.1 ht
    exact h l hl
  unfold EventLoop.keep
  split
  · exact hadd _
  · split
    · exact hadd _
    · exact h

theorem Free.isStrained {j : Journey} (h : Free j.trace) : j.isStrained = false := by
  unfold Journey.isStrained
  cases ht : j.trace with
  | none => rfl
  | some t => exact Trace.isStrained_of_unbounded (h t ht)

/-- Without strain the outcome is what the innermost computation is told. -/
theorem Stand.answer_of_free (h : Free trace) (p : P) (a : List Nat) (items minted : Nat)
    (o : Outcome) : Stand.answer trace p a items minted o = .tell p a items o := by
  have hcalm : trace.any Trace.isStrained = false := Free.isStrained (j := ⟨[], none, trace⟩) h
  cases o <;> simp [Stand.answer, Stand.recorded, Stand.tell, hcalm]

/-- The driven computation gets the outcome of its effect, which is recorded. -/
theorem stage_answerDrive {x : State (Site W)} {j : Journey} {d : Descriptor} {p : P}
    {notes : List Note} {a : List Nat} (hx : Main x) (hgoing : Ongoing x)
    (hcurrent : j.current = some d) (ha : a ≠ []) (o : Outcome) :
    Stage captured (keep j.trace d o)
      (.answer (keep j.trace d o) p a x.host.items x.host.minted o)
      ((answerDrive V.still x 0 j captured o).amid (Prod.mk p) notes a) := by
  have hrecord : ∀ o, (j.record o).trace = j.trace.map fun l => l.add ⟨d, o⟩ := by
    intro o
    unfold Journey.record
    rw [hcurrent]
  have hdeliver : ∀ o signal, Stage captured (j.record o).trace
      (.recorded (j.record o).trace p a x.host.items x.host.minted signal)
      ((deliverRecorded V.still x 0 (j.record o) captured signal).amid (Prod.mk p) notes a) := by
    intro o signal
    unfold deliverRecorded Journey.isStrained Stand.recorded
    split
    · exact .telling ⟨p, a, .throw _⟩ _ notes _ _ rfl ha rfl rfl
    · exact .telling ⟨p, a, signal⟩ _ notes _ _ rfl ha rfl rfl
  simp only [hrecord] at hdeliver
  unfold answerDrive keep Stand.answer
  cases o with
  | ok v => exact hdeliver (.ok v) (.send v)
  | error e =>
    dsimp only
    split
    · exact hdeliver (.error e) (.throw e)
    · exact stage_finishDrive hx hgoing

variable (context) in
/-- **The loop begins to perform an effect.** -/
theorem performing_step {d : Descriptor} {p : P} {a : List Nat} (hs : Steady s)
    (h : Stage captured trace (.performing d p a items) s) :
    ∃ u, step (C.host V) context s = .next u ∧ shows C s = [] ∧
      (∃ j, s.control = .perform 0 (.drive j captured) d) ∧
      Stage captured trace (.awaiting d p a items) u := by
  cases h with
  | performing d p a x notes j items control current active traced counted =>
    have hcontrol : (x.amid (Prod.mk p) notes a).control =
        .perform 0 (.drive (j.amid a) captured) d := by
      show x.control.amid a = _
      rw [control]
      rfl
    have hnext : step V.still context x =
        .next (perform V.still context x.toIdle 0 (.drive j captured) d) := by
      simp only [step, control]
      rfl
    have hstep := step_amid (C.around V p) notes a context x (lone_of_amid hs.lone)
      fun t j captured signal h => by rw [control] at h; cases h
    rw [hnext] at hstep
    refine ⟨_, hstep, ?_, ⟨_, hcontrol⟩, ?_⟩
    · unfold shows
      rw [hcontrol]
    · have hengaged := engaged_of_perform (main_of_amid hs.main).present control hnext
      exact .awaiting d p a _ notes j items hengaged current active traced
        ((items_of_step hnext).trans counted)

variable (context) in
/-- **The loop waits for the outcome of an effect**, gets it, or has nothing left to do. -/
theorem outcome_step {d : Descriptor} {p : P} {a : List Nat} (hs : Steady s)
    (h : Stage captured trace (.awaiting d p a items) s) :
    (∃ u, step (C.host V) context s = .next u ∧ shows C s = [] ∧
        (∀ goal o, s.control ≠ .outcome 0 goal o) ∧
        Stage captured trace (.awaiting d p a items) u) ∨
      (∃ o u, step (C.host V) context s = .next u ∧ shows C s = [.answered d o] ∧
        (∃ j, s.control = .outcome 0 (.drive j captured) o) ∧
        Stage captured (keep trace d o)
          (.answer (keep trace d o) p a items s.host.2.minted o) u) ∨
      (step (C.host V) context s = .done (.deadlock s) ∧ shows C s = [] ∧
        ∀ goal o, s.control ≠ .outcome 0 goal o) := by
  cases h with
  | awaiting d p a x notes j items engaged current active traced counted =>
    have hlone := lone_of_amid hs.lone
    have hstep := fun hc => step_amid (C.around V p) notes a context x hlone hc
    have hcontrol : (x.amid (Prod.mk p) notes a).control = x.control.amid a := rfl
    obtain ⟨phase, hphase, hgoal, helsewhere⟩ | ⟨o, hanswer⟩ := engaged
    · have helsewhere' : (x.amid (Prod.mk p) notes a).control.task? ≠ some 0 := by
        rw [hcontrol, task?_control_amid]
        exact helsewhere
      have hshows := shows_of_elsewhere C hs.lone helsewhere'
      have hnoanswer : ∀ goal o, (x.amid (Prod.mk p) notes a).control ≠ .outcome 0 goal o := by
        intro goal o h
        rw [h] at helsewhere'
        exact helsewhere' rfl
      have hstep := hstep (hlone.not_deliver helsewhere)
      cases hnext : step V.still context x with
      | next u =>
        rw [hnext] at hstep
        have hengaged := engaged_of_step hphase hgoal helsewhere hnext
        refine .inl ⟨_, hstep, hshows, hnoanswer, ?_⟩
        exact .awaiting d p a _ notes j items hengaged current active traced
          ((items_of_step hnext).trans counted)
      | done r =>
        rw [hnext] at hstep
        have hgoing : Ongoing (x.amid (Prod.mk p) notes a) := by
          rcases hs.timely with hgoing | ⟨report, hover⟩
          · exact hgoing
          · have hfinished := hover.finished
            rw [phase_of_amid hphase] at hfinished
            cases phase <;> cases hgoal <;> cases hfinished
        refine .inr (.inr ⟨?_, hshows, hnoanswer⟩)
        obtain ⟨-, ⟨o, -, ho⟩ | ⟨hr, -⟩⟩ := ends_of_main hs.main hstep
        · rw [hgoing.outcome] at ho
          cases ho
        · exact hstep.trans (congrArg Transition.done hr)
    · have hbusy : (x.amid (Prod.mk p) notes a).control.task? = some 0 := by
        rw [hcontrol, hanswer]
        rfl
      have hnext := step_of_answer V.still context hanswer
      have hstep := hstep fun t j captured signal h => by rw [hanswer] at h; cases h
      rw [hnext] at hstep
      refine .inr (.inl ⟨o, _, hstep, ?_, ⟨j.amid a, ?_⟩, ?_⟩)
      · unfold shows
        rw [hcontrol, hanswer]
        simp only [Control.amid, Goal.amid, Journey.amid, current]
      · rw [hcontrol, hanswer]
        rfl
      · have hgoing := ongoing_of_amid (hs.ongoing hbusy)
        have hmain := main_of_amid hs.main
        subst traced
        rw [← counted]
        exact stage_answerDrive V (x := x.toIdle) { hmain with due := hmain.due }
          ⟨hgoing.present, hgoing.made, hgoing.outcome⟩ current active o

variable (context) in
/-- The loop waits for the outcome of an effect, gets it, or has nothing left to do; and the
trace is never strained. -/
theorem awaiting_step {d : Descriptor} {p : P} {a : List Nat} (hs : Steady s)
    (h : Stage captured trace (.awaiting d p a items) s) (htrace : Free trace) :
    (∃ u, step (C.host V) context s = .next u ∧ shows C s = [] ∧
        (∀ goal o, s.control ≠ .outcome 0 goal o) ∧
        Stage captured trace (.awaiting d p a items) u) ∨
      (∃ o u, step (C.host V) context s = .next u ∧ shows C s = [.answered d o] ∧
        (∃ j, s.control = .outcome 0 (.drive j captured) o) ∧
        Stage captured (keep trace d o) (.tell p a items o) u) ∨
      (step (C.host V) context s = .done (.deadlock s) ∧ shows C s = [] ∧
        ∀ goal o, s.control ≠ .outcome 0 goal o) := by
  refine (outcome_step context C V hs h).imp_right (Or.imp_left ?_)
  rintro ⟨o, u, hu, hshows, hcontrol, hstage⟩
  rw [Stand.answer_of_free (htrace.keep d o)] at hstage
  exact ⟨o, u, hu, hshows, hcontrol, hstage⟩

variable (context) in
/-- **The main task is over**, and stays so until the loop ends with its outcome. -/
theorem over_step {o : Outcome} (hs : Steady s) (h : Stage captured trace (.finished o) s) :
    shows C s = [] ∧
      (step (C.host V) context s).Leads (fun u => Stage captured trace (.finished o) u)
        (fun r => r = .finished (result captured o) s) := by
  cases h with
  | finished o s hover outcome =>
    refine ⟨shows_of_elsewhere C hs.lone hover.elsewhere, ?_⟩
    cases hstep : step (C.host V) context s with
    | next u => exact .finished o u (over_of_step hover hstep) (outcome_of_step outcome hstep)
    | done r =>
      obtain ⟨-, ⟨o', rfl, ho⟩ | ⟨-, ho, -⟩⟩ := ends_of_main hs.main hstep
      · rw [outcome] at ho
        cases ho
        rfl
      · rw [outcome] at ho
        cases ho

end EventLoop
end DescribedEffects
