import DescribedEffects.EventLoop.Step
import DescribedEffects.Value.Order

/-!
# Performing effects and running computations

The operations of this module each run one errand on a loop of its own and say how
it came out.  `perform` resolves a single effect.  `drive` drives a computation and
answers with what it returns or raises.  An `Interpreter` also keeps a trace: it
captures an ordinary exception as the result of the run, beside the effects that
led to it, and can run several computations side by side on one loop.

A loop can come to rest before its errand is done.  That is a `deadlock`, and it is
told apart from every exception a program can raise.
-/

namespace DescribedEffects

/-- Why an operation has no value. -/
inductive Halt where
  | raised (e : Exn)
  /-- The loop had nothing left to do. -/
  | deadlock
  /-- The steps that were allowed were not enough. -/
  | unfinished

/-- What an operation comes to. -/
abbrev Verdict (α : Type) := Except Halt α

/-- A run that is over: its verdict, the host as the run leaves it, the notes that
were made, the effects whose completion nobody had reported, and the outcomes that
futures have by now. -/
structure Finished (σ α : Type) where
  verdict : Verdict α
  host : σ
  notes : List Note
  unclaimed : List Nat
  futures : List (Nat × Outcome)

/-- How a driven computation came out, with the effects performed on the way. -/
structure RunResult where
  outcome : Outcome
  trace : Trace

namespace EventLoop

variable {σ α : Type}

/-- The effects whose completion nobody has reported. -/
def State.unclaimed (s : State σ) : List Nat :=
  (List.range s.effects.length).filter fun i =>
    (s.effects[i]?.map fun e => !e.claimed).getD false

/-- What is left of the loop's last state when the run is over. -/
def State.close (s : State σ) (verdict : Verdict α) : Finished σ α :=
  ⟨verdict, s.host, s.notes, s.unclaimed, s.settledFutures⟩

/-- Reads the end of a run off the loop's last state. -/
def conclude (read : State σ → Value → α) (host : σ) : Option (Ending σ) → Finished σ α
  | some (.finished (.ok v) s) => s.close (.ok (read s v))
  | some (.finished (.error e) s) => s.close (.error (.raised e))
  | some (.deadlock s) => s.close (.error .deadlock)
  | none => ⟨.error .unfinished, host, [], [], []⟩

/-- The result of a task that drove a computation and kept a trace. -/
def State.result? (s : State σ) (t : Nat) : Option RunResult :=
  match (s.tasks[t]?).map Task.phase with
  | some (.finished (some ⟨o, some trace⟩)) => some ⟨o, trace⟩
  | _ => none

end EventLoop

/-- What a run on a loop needs: the steps it may take, the number of the loop, the
outcomes of futures of earlier loops, and the context that effects are resolved
against. -/
structure Arena where
  fuel : Nat
  number : Nat
  earlier : List (Nat × Outcome)
  context : Value

namespace Arena

variable {σ : Type} (A : Arena) (H : Host σ)

/-- Runs an errand on a new loop. -/
def run (errand : EventLoop.Errand) (host : σ) : Option (EventLoop.Ending σ) :=
  EventLoop.run H A.context A.fuel host A.number A.earlier errand

/-- Performs one effect, written as an item. -/
def perform (item : Value) (host : σ) : Finished σ Value :=
  EventLoop.conclude (fun _ v => v) host (A.run H (.perform item) host)

/-- Drives a computation to its end. -/
def drive (program : Value) (host : σ) : Finished σ Value :=
  EventLoop.conclude (fun _ v => v) host (A.run H (.drive program none false) host)

end Arena

/-- A driver that keeps a trace. -/
structure Interpreter where
  bound : TraceBound

namespace Interpreter

variable {σ : Type} (I : Interpreter) (A : Arena) (H : Host σ)

/-- The refusal of a negative bound. -/
def negativeBound : ExnBody Value :=
  ValueFault.saying .value "max_trace_entries must be >= 0 or None"

/-- An interpreter whose trace keeps a whole number of effects. -/
def keeping (n : Int) : Except (ExnBody Value) Interpreter :=
  if n < 0 then .error negativeBound else .ok ⟨.most n.toNat⟩

/-- An interpreter whose trace has the bound that a value stands for.  A truth value
counts as zero or one, and NaN is below nothing, so it never bounds anything. -/
def ofBound (v : Value) : Except (ExnBody Value) Interpreter :=
  match v, v.integer? with
  | _, some n => keeping n
  | .null, none | .nan _, none => .ok ⟨.unbounded⟩
  | .real x, none =>
    if x.scaled.compare (.ofInt 0) == .lt then .error negativeBound else .ok ⟨.real x⟩
  | v, none => .error (Value.unordered v (.int 0)).body

/-- An empty trace. -/
def newTrace : Trace := .empty I.bound

/-- Drives a computation to its end, capturing its outcome and its trace. -/
def run (program : Value) (host : σ) : Finished σ RunResult :=
  EventLoop.conclude (fun s v => (s.result? 0).getD ⟨.ok v, I.newTrace⟩) host
    (A.run H (.drive program (some I.newTrace) true) host)

/-- Drives several computations side by side on one loop, capturing each. -/
def runAll (programs : List Value) (host : σ) : Finished σ (List RunResult) :=
  EventLoop.conclude (fun s _ => (List.range s.tasks.length).tail.filterMap s.result?) host
    (A.run H (.convene programs I.bound) host)

end Interpreter
end DescribedEffects
