import DescribedEffects.Value.Access

/-!
# What runs computations

The library never looks inside a computation, a function or a coroutine.  It
knows what can be done with them: a suspended computation is resumed or closed, a
function is called, a coroutine is started and woken.  `Host` is that knowledge,
as a structure of functions over a state of the host's own.  Everything in the
library that drives programs is written over an arbitrary host, so that what is
said of it holds for every program whatsoever; the script language of this
library is one host among others.

## Resumption

A computation that is resumed does one of three things.  It yields a value and
stays suspended; it returns; or it raises.  A finished computation that is sent a
value returns nothing at once, and one that an exception is thrown into raises
that exception.

## Requests

While a host works it may ask something of the event loop: to report the
completion of an effect, to call a function later, to note a future.  Requests
are collected in the host's state and taken out with `drain`, in the order in
which they were made; nothing else about the loop is visible to the host.
-/

namespace DescribedEffects

/-- What a suspended computation is resumed with. -/
inductive Signal where
  | send (v : Value)
  | throw (e : Exn)

/-- What a resumed computation does. -/
inductive Reply where
  | yielded (item : Value)
  | returned (v : Value)
  | raised (e : Exn)

/-- How far a coroutine gets when it runs. -/
inductive Progress where
  | finished (o : Outcome)
  /-- It sleeps for so many units of time; zero means one turn of the ready queue. -/
  | asleep (units : Nat)

/-- What a host asks of the event loop. -/
inductive Request where
  /-- Report the completion of an effect of a run of the loop. -/
  | complete (run effect : Nat) (error value : Value)
  /-- Call a function later. -/
  | callLater (delay : Nat) (f : Value) (args : List Value)
  /-- A future with its outcome, which is there at once or after a delay.  A future
  without an outcome stays open for good.  No future fails with an exception that
  marks the end of a computation; whoever would make it do so is refused. -/
  | future (id : Nat) (outcome : Option Outcome) (delay : Option Nat)

/-- What can be done with the values that run. -/
structure Host (σ : Type) where
  /-- Resumes a computation. -/
  resume : Nat → Signal → σ → Reply × σ
  /-- Closes a computation on account of an exception; it may raise instead of ending
  quietly. -/
  close : Nat → Exn → σ → Option Exn × σ
  /-- Calls a value. -/
  call : Value → List Value → σ → Outcome × σ
  /-- Starts awaiting a coroutine. -/
  start : Nat → σ → Progress × σ
  /-- Wakes a coroutine that sleeps. -/
  wake : Nat → σ → Progress × σ
  /-- A number that no exception has yet. -/
  fresh : σ → Nat × σ
  /-- Notes that the first exception was caused by the second. -/
  blame : Nat → Exn → σ → σ
  /-- Takes out the requests made so far. -/
  drain : σ → List Request × σ

namespace Host

variable {σ : Type} (H : Host σ)

/-- Makes an exception. -/
def raise (body : ExnBody Value) (s : σ) : Exn × σ :=
  let (id, s) := H.fresh s
  (⟨id, body⟩, s)

/-- Makes an exception that was caused by another. -/
def raiseFrom (body : ExnBody Value) (cause : Exn) (s : σ) : Exn × σ :=
  let (e, s) := H.raise body s
  (e, H.blame e.id cause s)

/-- Turns a complaint into an exception. -/
def complain (c : Complaint) (s : σ) : Exn × σ :=
  match c with
  | .make body => H.raise body s
  | .pass e => (e, s)

/-- An end-of-computation exception cannot leave a body of code: it turns into an
error that it is the cause of.  Every other exception leaves as it is. -/
def shield (sentence : String) (e : Exn) (s : σ) : Exn × σ :=
  if e.isExhausted then H.raiseFrom (ValueFault.saying .runtime sentence) e s else (e, s)

/-- The exception for something that is to be driven and is no computation. -/
def notComputation (v : Value) : ExnBody Value :=
  ValueFault.saying .type ("Computation " ++ v.display ++
    " is not a generator; call the generator function before running it")

/-- What a computation does to the one that resumed it: an end-of-computation
exception is its return. -/
def settle : Reply → Reply
  | .raised e => if e.isExhausted then .returned e.returned else .raised e
  | r => r

end Host
end DescribedEffects
