import DescribedEffects.Computation.Host
import DescribedEffects.Expectation
import DescribedEffects.Note
import DescribedEffects.Transition

/-!
# The test harness as a machine

The harness steps a computation and answers every effect it yields from a list of
expectations.  A computation that is yielded is driven in place, so there is a
stack of active computations, innermost first, over one queue of expectations.

## What becomes of an exception

An exception that arises while the innermost computation is being answered goes
one of two ways (`State.fail`).  An ordinary exception is thrown into that
computation, which may catch it.  A verdict of the harness, and an exception that
ordinary handlers do not take, *escapes* instead: it leaves the computation for
good.

An escaping exception is unwound one active computation at a time
(`stepEscape`).  If it is a verdict the computation it leaves is closed first;
what is raised while closing takes its place.  Outside, the exception, which by
now may be a different one, again either escapes further or is thrown into the
next computation.

Verdicts are told by their kind alone, wherever they come from.
-/

namespace DescribedEffects
namespace Harness

variable {σ : Type}

/-- What the harness is about to do. -/
inductive Control where
  /-- Resume the innermost computation. -/
  | deliver (signal : Signal)
  /-- Take an exception out of the innermost computation. -/
  | escape (e : Exn)

/-- A state of the harness. -/
structure State (σ : Type) where
  host : σ
  /-- The active computations, innermost first. -/
  active : List Nat
  pending : List Expectation
  /-- How many expectations have been met. -/
  consumed : Nat
  notes : List Note
  control : Control

/-- How a run under the harness ends. -/
structure Ending (σ : Type) where
  outcome : Outcome
  host : σ
  pending : List Expectation
  consumed : Nat
  notes : List Note

namespace State

/-- The run ends here. -/
def finish (s : State σ) (o : Outcome) : Ending σ :=
  ⟨o, s.host, s.pending, s.consumed, s.notes⟩

/-- The state in which a signal is about to be delivered. -/
def deliver (s : State σ) (signal : Signal) : State σ := { s with control := .deliver signal }

/-- The state in which an exception is leaving the innermost computation. -/
def escape (s : State σ) (e : Exn) : State σ := { s with control := .escape e }

/-- An exception arose while the innermost computation was being answered. -/
def fail (s : State σ) (e : Exn) : State σ :=
  if e.isVerdict || !e.isOrdinary then s.escape e else s.deliver (.throw e)

end State

variable (H : Host σ) (matchArgs : Bool)

/-- An outcome arrives for the innermost computation. -/
def answer (s : State σ) : Outcome → State σ
  | .ok v => s.deliver (.send v)
  | .error e => s.fail e

/-- An exception that is still to be made arises. -/
def failWith (body : ExnBody Value) (s : State σ) : State σ :=
  let (e, host) := H.raise body s.host
  { s with host }.fail e

/-- The verdict that an effect was not the next expected one. -/
def reject (d : Descriptor) (expected : Value) (s : State σ) : State σ :=
  failWith H (.unexpected (.descriptor d) expected (.int s.consumed)) s

/-- Feeds back what a met expectation says. -/
def produce (x : Expectation) (d : Descriptor) (s : State σ) : State σ :=
  match x.answer d with
  | .value v => answer s (.ok v)
  | .raise e => answer s (.error e)
  | .call f args =>
    let (o, host) := H.call f args s.host
    answer { s with host } o

/-- Consumes the next expectation, which the effect has met. -/
def consume (x : Expectation) (rest : List Expectation) (d : Descriptor) (s : State σ) :
    State σ :=
  produce H x d { s with
    pending := rest
    consumed := s.consumed + 1
    notes := s.notes ++ [.matched s.consumed d] }

/-- Holds an effect against the next expectation. -/
def examine (d : Descriptor) (s : State σ) : State σ :=
  match s.pending with
  | [] => reject H d .null s
  | x :: rest =>
    match x.descriptor with
    | .error m => failWith H m.body s
    | .ok expected =>
      match ExpectationOf.compare expected d matchArgs with
      | .error f => failWith H f.body s
      | .ok false => reject H d (.descriptor expected) s
      | .ok true => consume H x rest d s

/-- The innermost computation yielded an item. -/
def receive (item : Value) (s : State σ) : State σ :=
  match item with
  | .computation g => { s with active := g :: s.active, control := .deliver (.send .null) }
  | item =>
    match Descriptor.parse item with
    | .error m => failWith H m.body s
    | .ok d => examine H matchArgs d s

/-- The innermost computation returned. -/
def leave (v : Value) (s : State σ) : Transition (State σ) (Ending σ) :=
  match s.active.tail with
  | [] => .done (s.finish (.ok v))
  | rest => .next ({ s with active := rest }.deliver (.send v))

/-- What the innermost computation did when it was resumed. -/
def react (s : State σ) : Reply → Transition (State σ) (Ending σ)
  | .yielded item => .next (receive H matchArgs item s)
  | .returned v => leave v s
  | .raised e => .next (s.escape e)

/-- Delivers a signal to the innermost computation. -/
def stepDeliver (signal : Signal) (s : State σ) : Transition (State σ) (Ending σ) :=
  match s.active with
  | [] => .done (s.finish (.ok .null))
  | g :: _ =>
    let (reply, host) := H.resume g signal s.host
    react H matchArgs { s with host } (Host.settle reply)

/-- Closes a computation that a verdict leaves; what is raised meanwhile takes the
place of the verdict. -/
def closeFor (e : Exn) (g : Nat) (host : σ) : Exn × σ :=
  if e.isVerdict then
    let (raised, host) := H.close g e host
    (raised.getD e, host)
  else (e, host)

/-- Takes an exception out of the innermost computation. -/
def stepEscape (e : Exn) (s : State σ) : Transition (State σ) (Ending σ) :=
  match s.active with
  | [] => .done (s.finish (.error e))
  | g :: rest =>
    let (e, host) := closeFor H e g s.host
    let s := { s with host, active := rest }
    if rest.isEmpty then .done (s.finish (.error e)) else .next (s.fail e)

/-- One step of the harness. -/
def step (s : State σ) : Transition (State σ) (Ending σ) :=
  match s.control with
  | .deliver signal => stepDeliver H matchArgs signal s
  | .escape e => stepEscape H e s

/-- The harness before it has resumed anything. -/
def start (host : σ) (program : Nat) (expectations : List Expectation) : State σ :=
  ⟨host, [program], expectations, 0, [], .deliver (.send .null)⟩

end Harness
end DescribedEffects
