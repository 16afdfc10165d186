import DescribedEffects.EventLoop.State
import DescribedEffects.Transition

/-!
# How the event loop moves

One step of the loop does one of four things, as `Control` says: it takes the next
job from the ready queue, performs an effect for a task, hands a task the outcome
it waited for, or resumes a computation that a task drives.

## Performing an effect

A group becomes one task per member, in order, and a promise for all of them.  A
single effect is looked up in the context; what is found there is the outcome, or
is called.  The outcome of a call may have to be awaited.

## Driving a computation

The driver keeps a stack of active computations over one trace.  An item that is a
computation is pushed; an item that is no descriptor is refused by throwing the
reason into the computation that yielded it; an effect is performed, recorded with
its outcome, and answered.  Only ordinary exceptions are recorded and thrown;
others end the run.

## Batches and the end

The entries that are in the ready queue when it is looked at form a batch.  When
the main task is complete a job stops the loop, and what is left of the batch that
this job belongs to still runs.
-/

namespace DescribedEffects
namespace EventLoop

variable {σ : Type}

/-- How a run of the loop ends. -/
inductive Ending (σ : Type) where
  /-- The main task is complete. -/
  | finished (o : Outcome) (s : State σ)
  /-- Nothing is left to do and the main task is not complete. -/
  | deadlock (s : State σ)

variable (H : Host σ) (context : Value)

/-! ## Requests of the host -/

/-- Grants one request. -/
def grant (s : State σ) : Request → State σ
  | .complete run effect error value =>
    if run = s.run then
      let (first, s) := s.claim effect
      if first then s.enqueue (.settle effect error value) else s
    else s
  | .callLater delay f args => s.setTimer delay (.invoke f args)
  | .future id o delay =>
    let (p, s) := s.newPromise
    let s := { s with futures := s.futures ++ [(id, p)] }
    match o, delay with
    | none, _ => s
    | some o, none => s.complete p o
    | some o, some n => s.setTimer n (.fulfil p o)

/-- Grants the requests that the host has made, in order. -/
def grantAll (s : State σ) : State σ :=
  let (requests, host) := H.drain s.host
  requests.foldl grant { s with host }

/-! ## Exceptions -/

/-- An exception that is still to be made is the outcome a task waited for. -/
def arriveWith (s : State σ) (t : Nat) (goal : Goal) (body : ExnBody Value) : State σ :=
  let (e, host) := H.raise body s.host
  { s with host }.arrive t goal (.error e)

/-- An exception leaves the body of the code that performs an effect. -/
def arriveShielded (s : State σ) (t : Nat) (goal : Goal) (sentence : String) (e : Exn) :
    State σ :=
  let (e, host) := H.shield sentence e s.host
  { s with host }.arrive t goal (.error e)

/-! ## Waiting -/

/-- A task waits for a promise, not at all if the outcome is there. -/
def block (s : State σ) (t : Nat) (goal : Goal) (p : Nat) : State σ :=
  match s.outcome? p with
  | some o => s.arrive t goal o
  | none => ((s.subscribe p (.step t)).setPhase t (.blocked goal p)).toIdle

/-- A coroutine that a task awaits has run for a while. -/
def advance (s : State σ) (t : Nat) (goal : Goal) (k : Nat) : Progress → State σ
  | .finished o => s.arrive t goal o
  | .asleep 0 => ((s.setPhase t (.asleep goal k)).enqueue (.step t)).toIdle
  | .asleep n => ((s.setPhase t (.asleep goal k)).setTimer n (.step t)).toIdle

/-- A task awaits an open future of an earlier run, which nobody will complete.  The
refusal reaches the task at its next turn. -/
def refuseForeign (s : State σ) (t : Nat) (goal : Goal) : State σ :=
  let (e, host) := H.raise ValueFault.foreignFuture.body s.host
  let (p, s) := { s with host }.newPromise
  (((s.complete p (.error e)).setPhase t (.blocked goal p)).enqueue (.step t)).toIdle

/-- A task awaits a value. -/
def await (s : State σ) (t : Nat) (goal : Goal) : Value → State σ
  | .coroutine k =>
    let (progress, host) := H.start k s.host
    advance (grantAll H { s with host }) t goal k progress
  | .future id =>
    match s.futures.lookup id, s.earlier.lookup id with
    | some p, _ => block s t goal p
    | none, some o => s.arrive t goal o
    | none, none => refuseForeign H s t goal
  | .settled _ v => s.arrive t goal (.ok v)
  | .broken _ e => arriveShielded H s t goal "generator raised StopIteration" e
  | v => s.arrive t goal (.ok v)

/-- The tasks of a group, in order, with the group noticing each. -/
def launch (s : State σ) (group : Nat) : List Errand → List Nat × State σ
  | [] => ([], s)
  | errand :: rest =>
    let (t, s) := s.newTask errand
    let p := (s.tasks[t]?.map (·.promise)).getD 0
    let s := s.subscribe p (.notice group p)
    let (ps, s) := launch s group rest
    (p :: ps, s)

/-- A task waits for a group of new tasks.  An empty group is complete at once. -/
def gather (s : State σ) (t : Nat) (goal : Goal) (errands : List Errand) : State σ :=
  if errands.isEmpty then s.arrive t goal (.ok (.list []))
  else
    let (p, s) := s.newPromise
    let g := s.groups.length
    let s := { s with groups := s.groups ++ [(⟨[], errands.length, p⟩ : Group)] }
    let (members, s) := launch s g errands
    let group : Group := ⟨members, errands.length, p⟩
    let s := { s with groups := s.groups.set g group }
    block s t goal p

/-! ## Performing an effect -/

/-- What a direct function returned is the outcome, or is awaited. -/
def acceptDirect (s : State σ) (t : Nat) (goal : Goal) : Outcome → State σ
  | .error e => arriveShielded H s t goal "coroutine raised StopIteration" e
  | .ok v => if v.isAwaitable then await H s t goal v else s.arrive t goal (.ok v)

/-- Calls a function directly. -/
def performDirect (s : State σ) (t : Nat) (goal : Goal) (f : Value) (d : Descriptor) :
    State σ :=
  let (o, host) := H.call f d.args s.host
  acceptDirect H (grantAll H { s with host }) t goal o

/-- A callback-style function returned or failed.  A failure claims the effect if
it is the first to do so and is ignored otherwise. -/
def acceptCallback (s : State σ) (t : Nat) (goal : Goal) (effect p : Nat) (d : Descriptor) :
    Outcome → State σ
  | .error e =>
    if e.isOrdinary then
      let (first, s) := s.claim effect
      if first then arriveShielded H s t goal "coroutine raised StopIteration" e
      else block (s.note (.ignoring e d)) t goal p
    else s.arrive t goal (.error e)
  | .ok v =>
    if v.isAwaitable then block (s.newTask (.watch effect v)).2 t goal p
    else block s t goal p

/-- Calls a function with a completion callback and waits for the completion. -/
def performCallback (s : State σ) (t : Nat) (goal : Goal) (f : Value) (d : Descriptor) :
    State σ :=
  let (p, s) := s.newPromise
  let effect := s.effects.length
  let pending : PendingEffect := ⟨d, false, p⟩
  let s := { s with effects := s.effects ++ [pending] }
  let (o, host) := H.call f (d.args ++ [.done s.run effect]) s.host
  acceptCallback H (grantAll H { s with host }) t goal effect p d o

/-- Performs an effect for a task. -/
def perform (s : State σ) (t : Nat) (goal : Goal) (d : Descriptor) : State σ :=
  match d.mode with
  | .parallel =>
    gather (s.note (.dispatching d.args.length)) t goal (d.args.map .perform)
  | mode =>
    match Context.lookup context d.path with
    | .error fault =>
      let (e, host) := H.complain (fault.complaint (.tuple d.path) d.path) s.host
      arriveShielded H { s with host } t goal "coroutine raised StopIteration" e
    | .ok v =>
      let how := Context.classify v mode
      let s := s.note (.resolving d how)
      match how with
      | .value => s.arrive t goal (.ok v)
      | .direct => performDirect H s t goal v d
      | .callback => performCallback H s t goal v d

/-! ## The ends of tasks -/

/-- A task is complete. -/
def finish (s : State σ) (t : Nat) (report : Option Report) (o : Outcome) : State σ :=
  match s.tasks[t]? with
  | some task => ((s.setPhase t (.finished report)).complete task.promise o).toIdle
  | none => s.toIdle

/-- What the promise of a captured run is completed with: a failure that is an
ordinary exception is a result, and the result is in the report. -/
def captureOutcome : Outcome → Outcome
  | .ok _ => .ok .null
  | .error e => if e.isOrdinary then .ok .null else .error e

/-- A driven computation has ended. -/
def finishDrive (s : State σ) (t : Nat) (j : Journey) (captured : Bool) (o : Outcome) :
    State σ :=
  finish s t (some ⟨o, j.trace⟩) (if captured then captureOutcome o else o)

/-- The awaitable of a callback-style effect has ended.  A failure completes the
effect if nothing else claimed it before. -/
def finishWatch (s : State σ) (t : Nat) (effect : Nat) : Outcome → State σ
  | .ok _ => finish s t none (.ok .null)
  | .error e =>
    if e.isOrdinary then
      match s.effects[effect]? with
      | none => finish s t none (.ok .null)
      | some pending =>
        let (first, s) := s.claim effect
        let s :=
          if first then s.complete pending.promise (.error e)
          else s.note (.ignoring e pending.descriptor)
        finish s t none (.ok .null)
    else finish s t none (.error e)

/-! ## Driving -/

/-- Records the effect being performed with its outcome. -/
def Journey.record (j : Journey) (o : Outcome) : Journey :=
  match j.current with
  | none => j
  | some d => { j with current := none, trace := j.trace.map fun l => l.add ⟨d, o⟩ }

/-- The trace that is kept, if any, is strained. -/
def Journey.isStrained (j : Journey) : Bool := j.trace.any Trace.isStrained

/-- A recorded effect is answered, unless recording it strained the trace: then that
is what the driven computation hears of. -/
def deliverRecorded (s : State σ) (t : Nat) (j : Journey) (captured : Bool)
    (signal : Signal) : State σ :=
  if j.isStrained then
    let (e, host) := H.raise ValueFault.notCount.body s.host
    { s with host, control := .deliver t j captured (.throw e) }
  else { s with control := .deliver t j captured signal }

/-- The driven computation gets the outcome of its effect. -/
def answerDrive (s : State σ) (t : Nat) (j : Journey) (captured : Bool) : Outcome → State σ
  | .ok v => deliverRecorded H s t (j.record (.ok v)) captured (.send v)
  | .error e =>
    if e.isOrdinary then deliverRecorded H s t (j.record (.error e)) captured (.throw e)
    else finishDrive s t j captured (.error e)

/-- The innermost computation has ended with an outcome. -/
def leave (s : State σ) (t : Nat) (j : Journey) (captured : Bool) (o : Outcome) : State σ :=
  match j.active.tail with
  | [] => finishDrive s t j captured o
  | rest =>
    match o with
    | .ok v => { s with control := .deliver t { j with active := rest } captured (.send v) }
    | .error e =>
      if e.isOrdinary then
        { s with control := .deliver t { j with active := rest } captured (.throw e) }
      else finishDrive s t j captured (.error e)

/-- The innermost computation has yielded an item. -/
def receive (s : State σ) (t : Nat) (j : Journey) (captured : Bool) (item : Value) : State σ :=
  match item with
  | .computation g =>
    { s.note (.nested item) with
      control := .deliver t { j with active := g :: j.active } captured (.send .null) }
  | item =>
    match Descriptor.parse item with
    | .error m =>
      let (e, host) := H.raise m.body s.host
      { s with host, control := .deliver t j captured (.throw e) }
    | .ok d =>
      { s.note (.effect d) with
        control := .perform t (.drive { j with current := some d } captured) d }

/-- The note of a resumption: only thrown exceptions are worth one. -/
def noteSignal (s : State σ) : Signal → State σ
  | .send _ => s
  | .throw e => s.note (.throwing e)

/-- Resumes the innermost computation. -/
def deliver (s : State σ) (t : Nat) (j : Journey) (captured : Bool) (signal : Signal) :
    State σ :=
  match j.active with
  | [] => finishDrive s t j captured (.ok .null)
  | g :: _ =>
    let s := noteSignal s signal
    let (reply, host) := H.resume g signal s.host
    let s := grantAll H { s with host }
    match Host.settle reply with
    | .yielded item => receive H s t j captured item
    | .returned v => leave s t j captured (.ok v)
    | .raised e => leave s t j captured (.error e)

/-- Begins to drive a value. -/
def beginDrive (s : State σ) (t : Nat) (program : Value) (trace : Option Trace)
    (captured : Bool) : State σ :=
  match program with
  | .computation g =>
    { s with control := .deliver t ⟨[g], none, trace⟩ captured (.send .null) }
  | v =>
    let (e, host) := H.raise (Host.notComputation v) s.host
    finishDrive { s with host } t ⟨[], none, trace⟩ captured (.error e)

/-! ## Jobs -/

/-- Begins a task. -/
def begin (s : State σ) (t : Nat) : Errand → State σ
  | .perform item =>
    match Descriptor.parse item with
    | .error m => arriveWith H s t .answer m.body
    | .ok d => { s with control := .perform t .answer d }
  | .watch effect awaited => await H s t (.watch effect) awaited
  | .drive program trace captured => beginDrive H s t program trace captured
  | .convene programs bound =>
    gather (grantAll H s) t .answer
      (programs.map fun p => .drive p (some (.empty bound)) true)

/-- Begins a task or goes on with it. -/
def stepTask (s : State σ) (t : Nat) : State σ :=
  match (s.tasks[t]?).map Task.phase with
  | some (.fresh errand) => begin H (s.setPhase t .running) t errand
  | some (.asleep goal k) =>
    let (progress, host) := H.wake k s.host
    advance (grantAll H { s.setPhase t .running with host }) t goal k progress
  | some (.blocked goal p) =>
    match s.outcome? p with
    | some o => (s.setPhase t .running).arrive t goal o
    | none => s
  | _ => s

/-- The list of the members' outcomes, if all of them are there and none is a
failure. -/
def collect (s : State σ) : List Nat → Option (List Value)
  | [] => some []
  | p :: ps =>
    match s.outcome? p with
    | some (.ok v) => (collect s ps).map (v :: ·)
    | _ => none

/-- A group notices that a member is complete: the first failure, or the last
success, completes the group. -/
def notice (s : State σ) (group member : Nat) : State σ :=
  match s.groups[group]?, s.outcome? member with
  | some g, some (.error e) => s.complete g.promise (.error e)
  | some g, some (.ok _) =>
    let g := { g with remaining := g.remaining - 1 }
    let s := { s with groups := s.groups.set group g }
    if g.remaining = 0 then
      match collect s g.members with
      | some vs => s.complete g.promise (.ok (.list vs))
      | none => s
    else s
  | _, _ => s

/-- Carries out a completion: no error is a success, an ordinary exception is a
failure as it is, and anything else is a failure that says so.  No promise takes an
exception that marks the end of a computation, so the promise stays open then. -/
def settle (s : State σ) (effect : Nat) (error value : Value) : State σ :=
  match s.effects[effect]? with
  | none => s
  | some e =>
    if error.isMark then s
    else
      match error with
      | .null => s.complete e.promise (.ok value)
      | error =>
        let failed (s : State σ) : State σ :=
          let (x, host) := H.raise (.execution (.descriptor e.descriptor) error) s.host
          { s with host }.complete e.promise (.error x)
        match error with
        | .exn x => if x.isOrdinary then s.complete e.promise (.error x) else failed s
        | _ => failed s

/-- Runs a job. -/
def runJob (s : State σ) : Job → State σ
  | .step t => stepTask H s t
  | .notice g m => notice s g m
  | .settle effect error value => settle H s effect error value
  | .fulfil p o => s.complete p o
  | .invoke f args =>
    let (_, host) := H.call f args s.host
    grantAll H { s with host }
  | .stop => { s with stopping := true }

/-- Takes the next job, or the next batch, or moves the clock. -/
def stepIdle (s : State σ) : Transition (State σ) (Ending σ) :=
  match s.batch, s.ready with
  | n + 1, j :: rest => .next (runJob H { s with ready := rest, batch := n } j)
  | _ + 1, [] => .next { s with batch := 0 }
  | 0, ready =>
    if s.stopping then
      match s.outcome? 0 with
      | some o => .done (.finished o s)
      | none => .done (.deadlock s)
    else
      match ready, s.timers with
      | _ :: _, _ => .next { s with batch := ready.length }
      | [], t :: later =>
        .next { s with clock := t.due, ready := [t.job], timers := later }
      | [], [] => .done (.deadlock s)

/-- One step of the loop. -/
def step (s : State σ) : Transition (State σ) (Ending σ) :=
  match s.control with
  | .idle => stepIdle H s
  | .perform t goal d => .next (perform H context { s with control := .idle } t goal d)
  | .outcome t goal o =>
    let s := { s with control := .idle }
    match goal with
    | .answer => .next (finish s t none o)
    | .watch effect => .next (finishWatch s t effect o)
    | .drive j captured => .next (answerDrive H s t j captured o)
  | .deliver t j captured signal =>
    .next (deliver H { s with control := .idle } t j captured signal)

/-- Runs an errand on a new loop.  There is no answer if it takes more than `fuel`
steps. -/
def run (fuel : Nat) (host : σ) (number : Nat) (earlier : List (Nat × Outcome))
    (errand : Errand) : Option (Ending σ) :=
  Transition.runFor (step H context) fuel (State.start host number earlier errand)

end EventLoop
end DescribedEffects
