import DescribedEffects.Proofs.Manners.Plan

/-!
# Ways of handing over an outcome

The outcome of a function says nothing about the way in which it reaches the loop.  A function
that is called directly can return or raise it, or return something to be awaited: a coroutine
that sleeps before it comes to the outcome, an awaitable that has it, or a future that is
completed later (`Handover`).  A callback-style function can call back before it returns, from
a coroutine, from a timer or from another thread, or raise before it calls back
(`Announcement`).

Which of these ways is taken is up to a `Manner`, an automaton that is asked at every call.  It
has a state of its own, so that the same function can hand over its outcome in another way each
time.  `Callables.world` is the world in which the functions have their outcomes, handed over
in a given manner.

## Threads

A thread calls back at a moment of its own choice.  What it does is seen by the loop when the
loop next turns to the world, so the world keeps the reports of threads, and the manner says at
each turn which of them have been made (`Scene.listen`).  A thread gets there in finite time: a
timer stands for the latest moment, and does nothing if the thread was faster.
-/

namespace DescribedEffects

/-- How a function that is called directly hands over its outcome. -/
inductive Handover where
  /-- It returns or raises it. -/
  | plain
  /-- It returns a coroutine that comes to the outcome after it has slept. -/
  | coroutine (sleeps : List Nat)
  /-- It returns an awaitable that has the outcome. -/
  | awaitable (id : Nat)
  /-- It returns a future that has the outcome, or has it after a delay. -/
  | future (delay : Option Nat)

/-- How a callback-style function announces its outcome. -/
inductive Announcement where
  /-- It calls back before it returns. -/
  | called
  /-- It raises before it calls back.  A result cannot be raised and is announced at once. -/
  | raised
  /-- A timer calls back. -/
  | timer (delay : Nat)
  /-- Another thread calls back, after a delay at the latest. -/
  | thread (delay : Nat)
  /-- It returns a coroutine that calls back after it has slept, and sleeps again.  A failure
  can be raised by the coroutine instead. -/
  | coroutine (before : List Nat) (raises : Bool) (after : List Nat)

/-- Ways of handing over outcomes, from call to call. -/
structure Manner (S : Type) where
  direct : Value → List Value → S → Handover × S
  callback : Value → List Value → S → Announcement × S
  /-- The report of a thread has been made by now. -/
  hears : Request → S → Bool
  /-- Time passes. -/
  pass : S → S

/-- What a coroutine is still to do. -/
structure Body where
  /-- It sleeps for these times. -/
  before : List Nat
  /-- It calls back. -/
  report : Option Request
  /-- It sleeps again. -/
  after : List Nat
  outcome : Outcome

namespace Body

/-- Runs a coroutine until it sleeps or is over. -/
def run (b : Body) : Progress × List Request × Body :=
  match b.before, b.after with
  | n :: rest, _ => (.asleep n, [], { b with before := rest })
  | [], n :: rest => (.asleep n, b.report.toList, { b with report := none, after := rest })
  | [], [] => (.finished b.outcome, b.report.toList, { b with report := none })

/-- How often it still sleeps. -/
def naps (b : Body) : Nat := b.before.length + b.after.length

end Body

/-- What a completion callback is told of an outcome as the error. -/
def errorOf : Outcome → Value
  | .ok _ => .null
  | .error e => .exn e

/-- What a completion callback is told of an outcome as the value. -/
def valueOf : Outcome → Value
  | .ok v => v
  | .error _ => .null

/-- The completion of an effect with an outcome. -/
def Request.reporting (run effect : Nat) (o : Outcome) : Request :=
  .complete run effect (errorOf o) (valueOf o)

/-- What goes on beside the loop. -/
structure Scene (S : Type) where
  mood : S
  /-- The coroutines that were made. -/
  bodies : List Body
  /-- How many futures were made. -/
  futures : Nat
  /-- What threads are about to report. -/
  threads : List Request
  requests : List Request

namespace Scene

variable {S : Type} (M : Manner S)

/-- Nothing goes on yet. -/
def start (mood : S) : Scene S := ⟨mood, [], 0, [], []⟩

/-- Something is asked of the loop. -/
def ask (w : Scene S) (r : Request) : Scene S := { w with requests := w.requests ++ [r] }

/-- The loop turns to the world and hears of the threads that have called back. -/
def listen (w : Scene S) : Scene S :=
  { w with
    mood := M.pass w.mood
    threads := w.threads.filter fun r => !M.hears r w.mood
    requests := w.requests ++ w.threads.filter fun r => M.hears r w.mood }

/-- A coroutine is made. -/
def spawn (w : Scene S) (b : Body) : Outcome × Scene S :=
  (.ok (.coroutine w.bodies.length), { w with bodies := w.bodies ++ [b] })

/-- A coroutine goes on. -/
def proceed (k : Nat) (w : Scene S) : Progress × Scene S :=
  match w.bodies[k]? with
  | none => (.finished (.ok .null), w)
  | some b =>
    let (progress, reports, b) := b.run
    (progress, { w with bodies := w.bodies.set k b, requests := w.requests ++ reports })

/-- An awaitable that has an outcome. -/
def awaitable (id : Nat) : Outcome → Value
  | .ok v => .settled id v
  | .error e => .broken id e

/-- A function that is called directly hands over its outcome. -/
def handOver (o : Outcome) (w : Scene S) : Handover → Outcome × Scene S
  | .plain => (o, w)
  | .coroutine sleeps => w.spawn ⟨sleeps, none, [], o⟩
  | .awaitable id => (.ok (awaitable id o), w)
  | .future delay =>
    (.ok (.future w.futures),
      { w with futures := w.futures + 1 }.ask (.future w.futures (some o) delay))

/-- A completion callback is called later. -/
def callLater (run effect delay : Nat) (o : Outcome) (w : Scene S) : Scene S :=
  w.ask (.callLater delay (.done run effect) [errorOf o, valueOf o])

/-- A callback-style function announces its outcome. -/
def announce (run effect : Nat) (o : Outcome) (w : Scene S) : Announcement → Outcome × Scene S
  | .called => (.ok .null, w.ask (.reporting run effect o))
  | .raised =>
    match o with
    | .ok v => (.ok .null, w.ask (.reporting run effect (.ok v)))
    | .error e => (.error e, w)
  | .timer delay => (.ok .null, w.callLater run effect delay o)
  | .thread delay =>
    (.ok .null, { w with threads := w.threads ++ [Request.reporting run effect o] }.callLater run
      effect delay o)
  | .coroutine before raises after =>
    match raises, o with
    | true, .error e => w.spawn ⟨before, none, after, .error e⟩
    | _, o => w.spawn ⟨before, some (.reporting run effect o), after, .ok .null⟩

end Scene

namespace Callables

variable {S : Type} (K : Callables) (M : Manner S)

/-- Calls a function.  One that is given a completion callback announces its outcome. -/
def answer (f : Value) (args : List Value) (w : Scene S) : Outcome × Scene S :=
  match f, args.getLast? with
  | .done run effect, _ =>
    (.ok .null, w.ask (.complete run effect (args.getD 0 .null) (args.getD 1 .null)))
  | f, some (.done run effect) =>
    let (announcement, mood) := M.callback f args.dropLast w.mood
    { w with mood }.announce run effect (K.outcome f args.dropLast) announcement
  | f, _ =>
    let (handover, mood) := M.direct f args w.mood
    { w with mood }.handOver (K.outcome f args) handover

/-- The world in which functions have their outcomes, handed over in a manner. -/
def world : World (Scene S) where
  call f args w := Prod.map id (Scene.listen M) (K.answer M f args w)
  start k w := Prod.map id (Scene.listen M) (w.proceed k)
  wake k w := Prod.map id (Scene.listen M) (w.proceed k)
  blame _ _ w := w
  drain w := (w.requests, { w with requests := [] })
  drain_drain _ := rfl

end Callables
end DescribedEffects
