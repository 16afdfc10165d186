import DescribedEffects.Script.Evaluation
import DescribedEffects.Transition

/-!
# Running statements

A script runs on a machine with a stack of activations: the body at work and the
bodies that wait for it, innermost first.  Within a body, frames say what is left
to do.  `Doing` is what the machine is in the middle of: going on normally, taking
an early exit out of frames, or handing a body what it waited for.

## Early exits

A return and a raised exception unwind frames alike.  A handler takes the first
exception whose kind it names.  A cleanup runs on the way out of its attempt,
however that ends, and when it is over the interrupted exit goes on; an exit from
the cleanup itself takes its place.

## Calls aside

A call aside is an activation like any other, but a boundary: what runs above it sees
none of the exceptions that the bodies beneath it handle and does not know of the
event loop.  However it ends, the body beneath goes on with nothing.

## Who waits for whom

A function is called by the body beneath it, and a loop over a computation resumes
that computation; in both cases the new activation goes on top.  What ends or
yields on top of the stack is handed to the body beneath, or, if there is none, to
whoever started the machine: `Pause` lists the ways of coming to rest.
-/

namespace DescribedEffects
namespace Script

/-- What the machine is in the middle of. -/
inductive Doing where
  /-- Go on with the innermost frame. -/
  | proceed
  /-- Leave frames. -/
  | exit (e : Exit)
  /-- Hand the body what it waited for. -/
  | resume (v : Value)
  /-- The computation that a loop steps has ended. -/
  | exhausted

/-- How the machine comes to rest. -/
inductive Pause where
  | ended (e : Exit)
  | yielded (v : Value)
  | asleep (units : Nat)

/-- A state of the machine. -/
structure Config where
  active : Activation
  /-- The bodies that wait, innermost first. -/
  waiting : List Activation
  /-- What the one who started the machine is handling. -/
  outside : Option Exn
  doing : Doing
  store : Store

namespace Config

/-- Goes on with the innermost frame. -/
def proceed (c : Config) : Config := { c with doing := .proceed }

/-- Leaves frames with an exit. -/
def leave (c : Config) (e : Exit) : Config := { c with doing := .exit e }

/-- Replaces the frames of the running body. -/
def withFrames (c : Config) (frames : List Frame) : Config :=
  { c with active := { c.active with frames } }

/-- Puts a frame on top. -/
def push (c : Config) (f : Frame) : Config := c.withFrames (f :: c.active.frames)

/-- Binds a name in the running body. -/
def bind (c : Config) (name : String) (v : Value) : Config :=
  { c with active := { c.active with locals := Store.bind name v c.active.locals } }

/-- Binds a name if there is one. -/
def bindOptional (c : Config) (name : Option String) (v : Value) : Config :=
  match name with
  | some n => c.bind n v
  | none => c

/-- Raises an exception. -/
def raise (c : Config) (e : Exn) : Config := c.leave (.raise e)

/-- Raises a new exception. -/
def raiseNew (c : Config) (body : ExnBody Value) : Config :=
  let (e, store) := c.store.raise body
  { c with store }.raise e

/-- Runs a body on top of the running one. -/
def enter (c : Config) (a : Activation) (doing : Doing) : Config :=
  { c with active := a, waiting := c.active :: c.waiting, doing }

end Config

/-- Steps a computation to its end, with the exception that is being handled by the one
who does so, and collects what it yields. -/
abbrev Harvester := Option Exn → Stepper

/-- The exceptions that the frames of a body are at work on, innermost first. -/
def handled : List Frame → List Exn
  | [] => []
  | .handling e _ :: rest => e :: handled rest
  | .cleaning (some (.raise e)) :: rest => e :: handled rest
  | _ :: rest => handled rest

/-- The handler that takes an exception. -/
def findHandler (e : Exn) (handlers : List Handler) : Option Handler :=
  handlers.find? fun h => h.1.any fun k => e.kind.isA k

/-- The exceptions being handled by bodies, innermost first, out to a call aside. -/
def handledBy (outside : Option Exn) : List Activation → List Exn
  | [] => outside.toList
  | a :: waiting =>
    handled a.frames ++
      (match a.role with
      | .aside _ => []
      | _ => handledBy outside waiting)

/-- The exceptions being handled, innermost first. -/
def Config.handled (c : Config) : List Exn := handledBy c.outside (c.active :: c.waiting)

variable (harvester : Harvester)

/-- How the running body steps a computation to its end. -/
def Config.stepper (c : Config) : Stepper := fun g => harvester c.handled.head? g

/-- Evaluates an expression in the running body and goes on with its value. -/
def withValue (c : Config) (e : Expr) (go : Config → Value → Config) : Config :=
  match evaluate (c.stepper harvester) c.active.locals e c.store with
  | (.ok v, store) => go { c with store } v
  | (.error x, store) => { c with store }.raise x

/-- Evaluates expressions in the running body and goes on with their values. -/
def withValues (c : Config) (es : List Expr) (go : Config → List Value → Config) : Config :=
  match evaluateAll (c.stepper harvester) c.active.locals es c.store with
  | (.ok vs, store) => go { c with store } vs
  | (.error x, store) => { c with store }.raise x

/-- Turns a value into an exception in the running body. -/
def withException (c : Config) (v : Value) (go : Config → Exn → Config) : Config :=
  match (asException v).run c.store with
  | (.ok e, store) => go { c with store } e
  | (.error x, store) => { c with store }.raise x

/-! ## Calls -/

/-- Calls a completion callback: it asks the loop to complete the effect.  The
callback of an ended run fails the first time. -/
def callDone (c : Config) (run effect : Nat) (args : List Value) : Config :=
  if 2 < args.length then
    c.raiseNew
      (ValueFault.tooManyArguments "_invoke_callback_style.<locals>.done" 2 args.length).body
  else if c.store.loop = some run then
    { c with
      store := c.store.request (.complete run effect (args.getD 0 .null) (args.getD 1 .null))
      doing := .resume .null }
  else if c.store.abandoned.contains (run, effect) then
    { c with store :=
      { c.store with abandoned := c.store.abandoned.filter (· != (run, effect)) } }.raiseNew
        ValueFault.loopClosed.body
  else { c with doing := .resume .null }

/-- Calls a definition: a function runs, a computation or a coroutine is made. -/
def callDefinition (c : Config) (d : Definition) (args : List Value) : Config :=
  match d.kind with
  | .function => c.enter (d.called .function args) .proceed
  | .computation =>
    let (id, store) := c.store.fresh
    let store := store.stand id (.unstarted (d.called (.computation id) args))
    { c with store, doing := .resume (.computation id) }
  | .coroutine =>
    let (id, store) := c.store.fresh
    let store := store.stand id (.unstarted (d.called (.coroutine id) args))
    { c with store, doing := .resume (.coroutine id) }

/-- Calls a value.  The result arrives as what the running body waits for. -/
def callValue (c : Config) (f : Value) (args : List Value) : Config :=
  match f with
  | .function name =>
    match c.store.definitions.lookup name with
    | some d => callDefinition c d args
    | none => c.raiseNew (ValueFault.notCallable f.typeName).body
  | .kind k =>
    match (instantiate (c.stepper harvester) k args []).run c.store with
    | (.ok e, store) => { c with store, doing := .resume (.exn e) }
    | (.error x, store) => { c with store }.raise x
  | .done run effect => callDone c run effect args
  | v => c.raiseNew (ValueFault.notCallable v.typeName).body

/-- The statements that call a value and return what it returns. -/
def callingBody (f : Value) (args : List Value) : List Stmt :=
  [.call (.lit f) (args.map .lit) (some "result"), .return (.variable "result")]

/-- Calls a value aside. -/
def callValueAside (c : Config) (f : Value) (args : List Value) : Config :=
  { c with store := { c.store with isAside := true } }.enter
    ⟨.aside c.store.isAside, [], [.block (callingBody f args)]⟩ .proceed

/-- Asks the loop to call a value later. -/
def callValueLater (c : Config) (delay : Nat) (f : Value) (args : List Value) : Config :=
  if !c.store.knowsLoop then c.raiseNew ValueFault.noLoop.body
  else
    { c with
      store := c.store.request (.callLater delay f args)
      doing := .resume .null }

/-! ## Resuming a computation -/

/-- Resumes a computation on top of the running body, which waits for it. -/
def resumeInside (c : Config) (id : Nat) : Config :=
  match c.store.standing id with
  | .unstarted a => { c with store := c.store.stand id .running }.enter a .proceed
  | .suspended a => { c with store := c.store.stand id .running }.enter a (.resume .null)
  | .running => c.raiseNew ValueFault.stillRunning.body
  | .finished => { c with doing := .exhausted }

/-! ## Statements -/

/-- Raises a value, from a cause if one is given. -/
def raiseValue (c : Config) (v : Value) (cause : Option Expr) : Config :=
  withException c v fun c e =>
    match cause with
    | none => c.raise e
    | some x =>
      withValue harvester c x fun c w =>
        match w with
        | .null => { c with store := c.store.blame e.id none }.raise e
        | w =>
          if w matches .exn _ | .kind _ then
            withException c w fun c because =>
              { c with store := c.store.blame e.id (some because) }.raise e
          else c.raiseNew
            (ValueFault.saying .type "exception causes must derive from BaseException")

/-- Raises the exception being handled again. -/
def raiseAgain (c : Config) : Config :=
  match c.handled with
  | e :: _ => c.raise e
  | [] => c.raiseNew ValueFault.nothingHandled.body

/-- Begins a loop. -/
def iterateOver (c : Config) (name : String) (v : Value) (body : List Stmt) : Config :=
  match v with
  | .computation id => (c.push (.stepping name id body)).proceed
  | v =>
    match v.items with
    | .ok items => (c.push (.items name items body)).proceed
    | .error f => c.raiseNew f.body

/-- Executes a statement; what follows it is in the frames. -/
def execute (c : Config) : Stmt → Transition Config (Pause × Config)
  | .yield item bind =>
    match evaluate (c.stepper harvester) c.active.locals item c.store with
    | (.ok v, store) => .done (.yielded v, { c with store }.push (.receive bind))
    | (.error e, store) => .next ({ c with store }.raise e)
  | .return v => .next (withValue harvester c v fun c v => c.leave (.return v))
  | .log v => .next (withValue harvester c v fun c v => { c with store := c.store.write v }.proceed)
  | .raise none _ => .next (raiseAgain c)
  | .raise (some x) cause => .next (withValue harvester c x fun c v => raiseValue harvester c v cause)
  | .assign name v => .next (withValue harvester c v fun c v => (c.bind name v).proceed)
  | .assignGlobal name v =>
    .next (withValue harvester c v fun c v =>
      { c with store :=
        { c.store with globals := Store.bind name v c.store.globals } }.proceed)
  | .branch condition yes no =>
    .next (withValue harvester c condition fun c v =>
      (c.push (.block (if v.isTrue then yes else no))).proceed)
  | .iterate name source body => .next (withValue harvester c source fun c v => iterateOver c name v body)
  | .attempt body handlers cleanup =>
    .next (((c.push (.guarded handlers cleanup)).push (.block body)).proceed)
  | .sleep units => .done (.asleep units, c.push (.receive none))
  | .call callee args bind =>
    .next (withValue harvester c callee fun c f =>
      withValues harvester c args fun c vs => callValue harvester (c.push (.receive bind)) f vs)
  | .callLater delay callee args bind =>
    .next (withValue harvester c callee fun c f =>
      withValues harvester c args fun c vs => callValueLater (c.push (.receive bind)) delay f vs)
  | .callAside callee args bind =>
    .next (withValue harvester c callee fun c f =>
      withValues harvester c args fun c vs => callValueAside (c.push (.receive bind)) f vs)

/-! ## Frames -/

/-- Runs a cleanup on the way out, if there is one. -/
def cleanUp (c : Config) (cleanup : Option (List Stmt)) (interrupted : Option Exit) : Config :=
  match cleanup with
  | some body => ((c.push (.cleaning interrupted)).push (.block body)).proceed
  | none =>
    match interrupted with
    | some e => c.leave e
    | none => c.proceed

/-- Takes an early exit out of one frame. -/
def unwind (c : Config) (e : Exit) : Frame → Config
  | .guarded handlers cleanup =>
    match e with
    | .raise x =>
      match findHandler x handlers with
      | some (_, name, body) =>
        ((c.bindOptional name (.exn x)).push (.handling x cleanup)).push (.block body) |>.proceed
      | none => cleanUp c cleanup (some e)
    | .return _ => cleanUp c cleanup (some e)
  | .handling _ cleanup => cleanUp c cleanup (some e)
  | _ => c.leave e

/-- Goes on with a frame whose turn it is, the frames beneath it being in place. -/
def goOn (c : Config) : Frame → Transition Config (Pause × Config)
  | .block [] => .next c.proceed
  | .block (s :: rest) => execute harvester (c.push (.block rest)) s
  | .items _ [] _ => .next c.proceed
  | .items name (v :: rest) body =>
    .next (((c.bind name v).push (.items name rest body)).push (.block body)).proceed
  | .stepping name id body => .next (resumeInside (c.push (.stepping name id body)) id)
  | .guarded _ cleanup => .next (cleanUp c cleanup none)
  | .handling _ cleanup => .next (cleanUp c cleanup none)
  | .cleaning none => .next c.proceed
  | .cleaning (some e) => .next (c.leave e)
  | .receive bind => .next (c.bindOptional bind .null).proceed

/-- Hands a value to the frame that waits for it. -/
def hand (c : Config) (v : Value) : Frame → Config
  | .receive bind => (c.bindOptional bind v).proceed
  | .stepping name id body =>
    (((c.bind name v).push (.stepping name id body)).push (.block body)).proceed
  | f => (c.push f).proceed

/-! ## The ends of bodies -/

/-- An end-of-computation exception cannot leave the body of a computation or a
coroutine. -/
def shieldExit (role : Role) (e : Exit) (s : Store) : Exit × Store :=
  match role, e with
  | .function, e | .aside _, e => (e, s)
  | _, .return v => (.return v, s)
  | role, .raise x =>
    if x.isExhausted then
      let noun :=
        match role with
        | .coroutine _ => "coroutine"
        | _ => "generator"
      let (y, s) := s.raise (ValueFault.saying .runtime (noun ++ " raised StopIteration"))
      (.raise y, s.blame y.id (some x))
    else (.raise x, s)

/-- A body is over. -/
def retire (role : Role) (s : Store) : Store :=
  match role with
  | .function => s
  | .aside already => { s with isAside := already }
  | .computation id | .coroutine id => s.stand id .finished

/-- The running body has ended: the body beneath goes on. -/
def endBody (c : Config) (e : Exit) : Transition Config (Pause × Config) :=
  let role := c.active.role
  let (e, store) := shieldExit role e c.store
  let c := { c with store := retire role store }
  match c.waiting with
  | [] => .done (.ended e, c)
  | below :: rest =>
    let c := { c with active := below, waiting := rest }
    match role, e with
    | .aside _, _ => .next { c with doing := .resume .null }
    | _, .raise x => .next (c.raise x)
    | .function, .return v => .next { c with doing := .resume v }
    | _, .return _ => .next { c with doing := .exhausted }

/-- The running body yields or sleeps.  Beneath a computation that yields stands
the loop that steps it. -/
def rest (p : Pause) (c : Config) : Transition Config (Pause × Config) :=
  match p, c.active.role, c.waiting with
  | .yielded v, .computation id, below :: rest =>
    .next { c with
      store := c.store.stand id (.suspended c.active)
      active := below
      waiting := rest
      doing := .resume v }
  | p, _, _ => .done (p, c)

/-- What a step leads to, once pauses inside loops have been passed on. -/
def passOn : Transition Config (Pause × Config) → Transition Config (Pause × Config)
  | .done (p, c) =>
    match p with
    | .ended _ => .done (p, c)
    | p => rest p c
  | t => t

/-- One step of the machine. -/
def step (c : Config) : Transition Config (Pause × Config) :=
  match c.active.frames, c.doing with
  | [], .proceed => endBody c (.return .null)
  | [], .exit e => endBody c e
  | [], .resume _ => endBody c (.return .null)
  | [], .exhausted => endBody c (.return .null)
  | f :: frames, .proceed => passOn (goOn harvester (c.withFrames frames) f)
  | f :: frames, .exit e => .next (unwind (c.withFrames frames) e f)
  | f :: frames, .resume v => .next (hand (c.withFrames frames) v f)
  | .stepping .. :: frames, .exhausted => .next (c.withFrames frames).proceed
  | _ :: _, .exhausted => .next c.proceed

end Script
end DescribedEffects
