import DescribedEffects.Harness.Test
import DescribedEffects.Interpreter
import DescribedEffects.Script.Host

/-!
# Sessions

A session is what stays when one operation of the library follows another over the
same scripts: what the scripts remember, the notes of the library, and how many
loops have been run.  Every operation is an `Operation`: it moves the session and
comes to a value or halts.

While a loop runs the store knows its number; a completion callback uses it to
tell its own loop from a later one.  When the loop is over, the effects that nobody
completed are remembered as abandoned, what was asleep will not wake again, and the
outcomes of futures stay.
-/

namespace DescribedEffects
namespace Script

/-- What stays from one operation to the next. -/
structure Session where
  store : Store
  notes : List Note
  /-- How many loops have been run. -/
  loops : Nat
  /-- The futures that have outcomes. -/
  futures : List (Nat × Outcome)

/-- An operation in a session. -/
abbrev Operation (α : Type) := ExceptT Halt (StateM Session) α

namespace Session

/-- A session in which nothing has happened. -/
def start (definitions : List (String × Definition)) : Session :=
  ⟨{ Store.empty with definitions }, [], 0, []⟩

/-- Forgets the log and the notes. -/
def clearRecords (s : Session) : Session :=
  { s with store := { s.store with log := [] }, notes := [] }

end Session

namespace Operation

variable {α : Type}

/-- Lets the store move. -/
def onStore (f : Store → Except Exn α × Store) : Operation α := do
  let s ← get
  let (r, store) := f s.store
  set { s with store }
  match r with
  | .ok a => pure a
  | .error e => throw (.raised e)

/-- Raises a new exception. -/
def fail (body : ExnBody Value) : Operation α := onStore fun s =>
  let (e, s) := s.raise body
  (.error e, s)

/-- The result of an operation on values. -/
def ofFault : Except ValueFault α → Operation α
  | .ok a => pure a
  | .error f => fail f.body

/-- The result of reading a descriptor. -/
def ofMalformed : Except Malformed α → Operation α
  | .ok a => pure a
  | .error m => fail m.body

/-- Raises what a complaint says. -/
def complain : Complaint → Operation α
  | .make body => fail body
  | .pass e => throw (.raised e)

/-- Turns an ordinary exception into a result. -/
def guarded (x : Operation α) : Operation (Except Exn α) :=
  tryCatch (do pure (.ok (← x))) fun h =>
    match h with
    | .raised e => if e.isOrdinary then pure (.error e) else throw h
    | h => throw h

end Operation

namespace Session

/-! ## Values -/

/-- The value of an expression outside any body. -/
def evaluate (e : Expr) : Operation Value :=
  Operation.onStore (Script.evaluate (harvester none) [] e)

/-- The values of expressions, from the left. -/
def evaluateAll (es : List Expr) : Operation (List Value) :=
  Operation.onStore (Script.evaluateAll (harvester none) [] es)

/-- Gives a global variable the value of an expression. -/
def define (name : String) (e : Expr) : Operation Unit := do
  let v ← evaluate e
  modify fun s =>
    { s with store := { s.store with globals := Store.bind name v s.store.globals } }

/-- What iterating over a value yields, and the exception it ends with, if any; a
computation is stepped. -/
def harvest (v : Value) : Operation Harvest :=
  match v with
  | .computation g => Operation.onStore fun s =>
    let (h, s) := Script.harvest harvester g none s
    (.ok h, s)
  | v => do pure ⟨← Operation.ofFault v.items, none⟩

/-- The items that iterating over a value yields. -/
def itemsOf (v : Value) : Operation (List Value) := do
  let h ← harvest v
  Operation.onStore fun s => (h.whole, s)

/-! ## Runs -/

/-- The store while a loop runs. -/
def openLoop (number : Nat) (s : Store) : Store := { s with loop := some number }

/-- Where a body stands when the loop it slept on is over. -/
def Standing.afterLoop (sleepers : List Nat) (p : Nat × Standing) : Nat × Standing :=
  if sleepers.contains p.1 then (p.1, .finished) else p

/-- The bodies that are asleep. -/
def sleepers (s : Store) : List Nat :=
  s.standings.filterMap fun p =>
    match p.2 with
    | .suspended a =>
      match a.role with
      | .coroutine _ => some p.1
      | _ => none
    | _ => none

/-- The store after a loop has run. -/
def closeLoop (number : Nat) (unclaimed : List Nat) (s : Store) : Store :=
  { s with
    loop := none
    abandoned := s.abandoned ++ unclaimed.map fun e => (number, e)
    standings := s.standings.map (Standing.afterLoop (sleepers s))
    requests := [] }

/-- Takes in what a run on a loop left behind. -/
def conclude {α : Type} (r : Finished Store α) (s : Session) : Session :=
  { s with
    store := closeLoop s.loops r.unclaimed r.host
    notes := s.notes ++ r.notes
    loops := s.loops + 1
    futures := r.futures }

/-- Runs something on a loop of its own, once what it needs has been prepared there. -/
def onLoop {α β : Type} (prepare : Operation (Value × β))
    (run : Arena → β → Store → Finished Store α) : Operation α := do
  modify fun s => { s with store := openLoop s.loops s.store }
  let prepared ← tryCatch prepare fun h => do
    modify fun s => conclude (⟨.error h, s.store, [], [], s.futures⟩ : Finished Store α) s
    throw h
  let s ← get
  let r := run ⟨stepLimit, s.loops, s.futures, prepared.1⟩ prepared.2 s.store
  set (conclude r s)
  match r.verdict with
  | .ok a => pure a
  | .error h => throw h

/-- Runs something in a context on a loop of its own. -/
def inContext {α : Type} (context : Value) (run : Arena → Store → Finished Store α) :
    Operation α :=
  onLoop (pure (context, ())) fun A _ => run A

/-- Performs one effect. -/
def perform (context item : Value) : Operation Value :=
  inContext context fun A => A.perform Script.host item

/-- Drives a computation. -/
def drive (context program : Value) : Operation Value :=
  inContext context fun A => A.drive Script.host program

/-- An interpreter whose trace has the given bound. -/
def interpreter (bound : Value) : Operation Interpreter := do
  match Interpreter.ofBound bound with
  | .ok i => pure i
  | .error body => Operation.fail body

/-- Drives a computation and captures its outcome. -/
def interpret (i : Interpreter) (context program : Value) : Operation RunResult :=
  inContext context fun A => i.run A Script.host program

/-- Drives computations side by side.  The context and the computations are made on
the loop. -/
def interpretAll (i : Interpreter) (context : Expr) (programs : List Expr) :
    Operation (List RunResult) :=
  onLoop (do pure (← evaluate context, ← evaluateAll programs)) fun A programs =>
    i.runAll A Script.host programs

/-- Runs a test. -/
def runTest (expectations program : Value) (strict matchArgs : Bool) : Operation Value := do
  let s ← get
  match Harness.runTest Script.host stepLimit expectations program strict matchArgs s.store with
  | none => throw .unfinished
  | some r => do
    set { s with store := r.host, notes := s.notes ++ r.notes }
    Operation.onStore fun store => (r.outcome, store)

/-! ## Contexts, descriptors and expectations -/

/-- One level further along the path that a computation yields.  A path that leads
nowhere is stepped to its end, and what is left of it is what the exception shows. -/
def walkOn (g : Nat) : Value × Store → Transition (Value × Store) (Except Exn Value × Store)
  | (current, s) =>
    match Script.host.resume g (.send .null) s with
    | (.returned _, s) => .done (.ok current, s)
    | (.raised e, s) => .done (.error e, s)
    | (.yielded segment, s) =>
      match Context.enter current segment with
      | .ok v => .next (v, s)
      | .error fault =>
        if fault.showsPath then
          let (h, s) := Script.harvest harvester g none s
          match h.failure with
          | some e => .done (.error e, s)
          | none =>
            let (e, s) := Script.host.complain (fault.complaint (.computation g) h.items) s
            .done (.error e, s)
        else
          let (e, s) := Script.host.complain (fault.complaint (.computation g) []) s
          .done (.error e, s)

/-- The value that a path addresses; the path is anything that can be iterated
over. -/
def lookup (context path : Value) : Operation Value := do
  match path with
  | .computation g =>
    let s ← get
    match Transition.runFor (walkOn g) stepLimit (context, s.store) with
    | some (r, store) => Operation.onStore fun _ => (r, store)
    | none => throw .unfinished
  | path =>
    let segments ← itemsOf path
    match Context.lookup context segments with
    | .ok v => pure v
    | .error fault => Operation.complain (fault.complaint path segments)

/-- Builds a descriptor as a program does. -/
def build (m : Maker) (around : Surroundings) (args : List Value) : Operation Value :=
  match m.apply around args with
  | .ok v => pure v
  | .error f => Operation.fail f.body

/-- Reads an entry as an expectation. -/
def coerce (entry : Value) : Operation Expectation :=
  match ExpectationOf.coerce entry with
  | .ok x => pure x
  | .error fault => Operation.complain fault.complaint

/-- Whether a descriptor is the one that an expectation is about. -/
def compare (x : Expectation) (actual : Descriptor) (matchArgs : Bool) : Operation Bool := do
  let expected ← Operation.ofMalformed x.descriptor
  Operation.ofFault (ExpectationOf.compare expected actual matchArgs)

/-- What an expectation feeds back for an effect. -/
def produce (x : Expectation) (actual : Descriptor) : Operation Value :=
  match x.answer actual with
  | .value v => pure v
  | .raise e => throw (.raised e)
  | .call f args => Operation.onStore (Script.host.call f args)

/-! ## Results -/

/-- The value of a successful result; a failed one raises its failure. -/
def unwrap (v : Value) : Operation Value :=
  match v with
  | .ok w => pure w
  | .err w => Operation.onStore fun s =>
    match (asException w).run s with
    | (.ok e, s) => (.error e, s)
    | (.error e, s) => (.error e, s)
  | v => Operation.ofFault (.error (.noAttribute v "unwrap"))

/-- The failure of a failed result. -/
def unwrapFailure (v : Value) : Operation Value :=
  match v with
  | .err w => pure w
  | .ok _ => Operation.fail (ValueFault.saying .runtime "Called unwrap_err on Ok value")
  | v => Operation.ofFault (.error (.noAttribute v "unwrap_err"))

end Session

/-- An outcome as a result value. -/
def resultOf : Outcome → Value
  | .ok v => .ok v
  | .error e => .err (.exn e)

end Script
end DescribedEffects
