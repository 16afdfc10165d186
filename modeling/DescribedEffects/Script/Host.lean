import DescribedEffects.Script.Machine

/-!
# Scripts as a host

The drivers of this library ask a `Host` to resume, close, call, start and wake
what runs.  Here the script machine answers.

Every question comes down to one run of the machine: an activation is put on an
empty stack and runs until it ends, yields or sleeps (`work`), and what is left of
it is kept in the store until it is asked for again (`settleDown`).  What differs
is where the activation comes from and what it is handed.

## Starting, finished and running bodies

A computation that has not started can only be begun: it takes no value, and an
exception thrown into it meets no handler of its own.  A finished one returns
nothing or raises what is thrown into it.  A running one refuses.  Closing is an
exception of a kind of its own, thrown in; the computation may raise another one
instead of that, but must not yield.

## Computations inside expressions

The machine is given a way to step a computation to its end, for the exceptions that
keep what a computation yields.  Stepping it is a run of the machine again, whose own
expressions may do the same.  `harvesterAt` ties the two by counting how deep runs are
nested in that way.
-/

namespace DescribedEffects
namespace Script

/-- How many steps the machine may take before a program is given up. -/
def stepLimit : Nat := 100000000

/-- How deep runs may be nested inside expressions. -/
def nestingLimit : Nat := 1000

section

variable (harvester : Harvester)

/-- Runs an activation until it comes to rest. -/
def work (a : Activation) (outside : Option Exn) (doing : Doing) (s : Store) :
    Pause × Config :=
  match Transition.runFor (step harvester) stepLimit ⟨a, [], outside, doing, s⟩ with
  | some rested => rested
  | none =>
    let (e, s) := s.raise ValueFault.outOfSteps.body
    (.ended (.raise e), ⟨a, [], outside, .proceed, s⟩)

/-- What a body that came to rest leaves in the store: one that is not over waits
to be resumed. -/
def settleDown (id : Nat) : Pause × Config → Pause × Store
  | (.ended e, c) => (.ended e, c.store.stand id .finished)
  | (p, c) => (p, c.store.stand id (.suspended c.active))

/-- Runs the body of a computation or coroutine. -/
def workOn (id : Nat) (a : Activation) (outside : Option Exn) (doing : Doing) (s : Store) :
    Pause × Store :=
  settleDown id (work harvester a outside doing (s.stand id .running))

/-! ## Computations -/

/-- What a computation that came to rest answers with. -/
def Pause.reply : Pause → Reply
  | .ended (.return v) => .returned v
  | .ended (.raise e) => .raised e
  | .yielded v => .yielded v
  | .asleep _ => .yielded .null

/-- Raises an exception of the language of values. -/
def refuse (fault : ValueFault) (s : Store) : Reply × Store :=
  let (e, s) := s.raise fault.body
  (.raised e, s)

/-- What a signal makes a suspended body do. -/
def Signal.doing : Signal → Doing
  | .send v => .resume v
  | .throw e => .exit (.raise e)

/-- A body in which an exception is raised before its first statement. -/
def Activation.emptied (a : Activation) : Activation := { a with frames := [] }

/-- Begins a computation. -/
def beginBody (id : Nat) (a : Activation) (outside : Option Exn) (s : Store) :
    Signal → Reply × Store
  | .send .null =>
    let (p, s) := workOn harvester id a outside .proceed s
    (p.reply, s)
  | .send _ => refuse ValueFault.notStarted s
  | .throw e =>
    let (p, s) := workOn harvester id a.emptied outside (.exit (.raise e)) s
    (p.reply, s)

/-- Resumes a computation on behalf of code that is handling an exception, or none. -/
def resume (id : Nat) (signal : Signal) (outside : Option Exn) (s : Store) : Reply × Store :=
  match s.standing id with
  | .unstarted a => beginBody harvester id a outside s signal
  | .suspended a =>
    let (p, s) := workOn harvester id a outside (Signal.doing signal) s
    (p.reply, s)
  | .running => refuse ValueFault.stillRunning s
  | .finished =>
    match signal with
    | .send _ => (.returned .null, s)
    | .throw e => (.raised e, s)

/-- What comes of a closing exception: the computation must not yield, and what
marks the end of a computation is no failure. -/
def closed (r : Reply) (s : Store) : Option Exn × Store :=
  match r with
  | .returned _ => (none, s)
  | .raised e => if e.kind.isA .closing || e.isExhausted then (none, s) else (some e, s)
  | .yielded _ =>
    let (e, s) := s.raise ValueFault.ignoredClosing.body
    (some e, s)

/-- Closes a computation on account of an exception, which its body can raise again. -/
def close (id : Nat) (because : Exn) (s : Store) : Option Exn × Store :=
  match s.standing id with
  | .unstarted _ => (none, s.stand id .finished)
  | .suspended a =>
    let (e, s) := s.raise (.plain .closing [])
    let (p, s) := workOn harvester id a (some because) (.exit (.raise e)) s
    closed p.reply s
  | .running =>
    let (e, s) := s.raise ValueFault.stillRunning.body
    (some e, s)
  | .finished => (none, s)

/-! ## Stepping a computation to its end -/

/-- What a computation yielded up to its end, and the exception it ended with, if
any. -/
structure Harvest where
  items : List Value
  failure : Option Exn

/-- Takes the next item. -/
def gatherNext (id : Nat) (outside : Option Exn) :
    List Value × Store → Transition (List Value × Store) (Harvest × Store)
  | (taken, s) =>
    match resume harvester id (.send .null) outside s with
    | (.yielded v, s) => .next (taken ++ [v], s)
    | (.returned _, s) => .done (⟨taken, none⟩, s)
    | (.raised e, s) => .done (⟨taken, some e⟩, s)

/-- Steps a computation to its end. -/
def harvest (id : Nat) (outside : Option Exn) (s : Store) : Harvest × Store :=
  match Transition.runFor (gatherNext harvester id outside) stepLimit ([], s) with
  | some r => r
  | none =>
    let (e, s) := s.raise ValueFault.outOfSteps.body
    (⟨[], some e⟩, s)

/-- The items of a harvest, which must not have failed. -/
def Harvest.whole (h : Harvest) : Except Exn (List Value) :=
  match h.failure with
  | none => .ok h.items
  | some e => .error e

end

/-- Steps a computation to its end inside an expression, at most so many of them
inside one another. -/
def harvesterAt : Nat → Harvester
  | 0, _, _ => Eval.fail ValueFault.outOfSteps.body
  | depth + 1, outside, id => fun s =>
    let (h, s) := harvest (harvesterAt depth) id outside s
    (h.whole, s)

/-- Steps a computation to its end inside an expression. -/
def harvester : Harvester := harvesterAt nestingLimit

/-! ## Calls -/

/-- What an exit means to a caller. -/
def Exit.outcome : Exit → Outcome
  | .return v => .ok v
  | .raise e => .error e

/-- Calls a value. -/
def call (f : Value) (args : List Value) (s : Store) : Outcome × Store :=
  match work harvester ⟨.function, [], [.block (callingBody f args)]⟩ none .proceed s with
  | (.ended e, c) => (e.outcome, c.store)
  | (_, c) => (.ok .null, c.store)

/-! ## Coroutines -/

/-- How far a coroutine that came to rest has got. -/
def Pause.progress : Pause → Progress
  | .ended e => .finished e.outcome
  | .asleep n => .asleep n
  | .yielded _ => .asleep 0

/-- A coroutine that cannot be awaited. -/
def refuseAwaiting (fault : ValueFault) (s : Store) : Progress × Store :=
  let (e, s) := s.raise fault.body
  (.finished (.error e), s)

/-- Starts awaiting a coroutine. -/
def startAwaiting (id : Nat) (s : Store) : Progress × Store :=
  match s.standing id with
  | .unstarted a =>
    let (p, s) := workOn harvester id a none .proceed s
    (p.progress, s)
  | .finished => refuseAwaiting ValueFault.reawaited s
  | _ => refuseAwaiting ValueFault.awaitedElsewhere s

/-- Wakes a coroutine that sleeps. -/
def wake (id : Nat) (s : Store) : Progress × Store :=
  match s.standing id with
  | .suspended a =>
    let (p, s) := workOn harvester id a none (.resume .null) s
    (p.progress, s)
  | _ => refuseAwaiting ValueFault.reawaited s

/-- Scripts as a host of the drivers. -/
def host : Host Store where
  resume id signal s := resume harvester id signal none s
  close := close harvester
  call := call
  start := startAwaiting
  wake := wake
  fresh s := s.fresh
  blame id cause s := s.blame id (some cause)
  drain s := (s.requests, { s with requests := [] })

end Script
end DescribedEffects
