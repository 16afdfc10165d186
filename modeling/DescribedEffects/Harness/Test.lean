import DescribedEffects.Harness.Machine

/-!
# Running a test

A test is a computation and its expectations.  Before anything runs, the
computation is checked to be one and the entries are read as expectations, in
order, up to the first that is none.  Entries can come from anything that can be
iterated over, a computation included; that one is stepped between readings.

After the run a strict test looks at what is left: expectations that were not met
are a verdict of their own.
-/

namespace DescribedEffects
namespace Harness

variable {σ : Type}

/-- Where the entries come from. -/
inductive Source where
  | items (rest : List Value)
  | computation (id : Nat)

/-- The reading of entries, so far. -/
structure Gathering (σ : Type) where
  host : σ
  source : Source
  taken : List Expectation

/-- What the reading of entries ends with. -/
abbrev Gathered (σ : Type) := Except Exn (List Expectation) × σ

variable (H : Host σ)

/-- Reads one entry.  An end-of-computation exception raised by a mapping does not
end the entries; it is an error. -/
def readEntry (entry : Value) (source : Source) (s : Gathering σ) :
    Transition (Gathering σ) (Gathered σ) :=
  match ExpectationOf.coerce entry with
  | .ok x => .next { s with source, taken := s.taken ++ [x] }
  | .error fault =>
    let (e, host) := H.complain fault.complaint s.host
    let (e, host) := H.shield "generator raised StopIteration" e host
    .done (.error e, host)

/-- Takes the next entry from the source. -/
def gather (s : Gathering σ) : Transition (Gathering σ) (Gathered σ) :=
  match s.source with
  | .items [] => .done (.ok s.taken, s.host)
  | .items (entry :: rest) => readEntry H entry (.items rest) s
  | .computation g =>
    let (reply, host) := H.resume g (.send .null) s.host
    let s := { s with host }
    match Host.settle reply with
    | .yielded entry => readEntry H entry (.computation g) s
    | .returned _ => .done (.ok s.taken, s.host)
    | .raised e => .done (.error e, s.host)

/-- Where the entries of a value come from. -/
def sourceOf : Value → Except ValueFault Source
  | .computation g => .ok (.computation g)
  | v => v.items.map .items

/-- The verdict on the expectations that were not met. -/
def leftOver (pending : List Expectation) : ExnBody Value :=
  .unused (pending.map (·.effect))

/-- What a strict test makes of a run: a run that ends well with expectations left
does not end well. -/
def judge (strict : Bool) (r : Ending σ) : Ending σ :=
  match r.outcome with
  | .error _ => r
  | .ok _ =>
    if strict && !r.pending.isEmpty then
      let (e, host) := H.raise (leftOver r.pending) r.host
      { r with outcome := .error e, host }
    else r

/-- A test that never starts. -/
def refuse (e : Exn) (host : σ) : Ending σ := ⟨.error e, host, [], 0, []⟩

/-- Runs the machine over expectations that have been read. -/
def runGathered (fuel : Nat) (program : Nat) (strict matchArgs : Bool) :
    Gathered σ → Option (Ending σ)
  | (.error e, host) => some (refuse e host)
  | (.ok xs, host) =>
    (Transition.runFor (step H matchArgs) fuel (start host program xs)).map (judge H strict)

/-- Runs a test.  There is no answer if it takes more than `fuel` steps. -/
def runTest (fuel : Nat) (expectations program : Value) (strict matchArgs : Bool) (host : σ) :
    Option (Ending σ) :=
  match program with
  | .computation g =>
    match sourceOf expectations with
    | .error f =>
      let (e, host) := H.raise f.body host
      some (refuse e host)
    | .ok source =>
      (Transition.runFor (gather H) fuel ⟨host, source, []⟩).bind
        (runGathered H fuel g strict matchArgs)
  | v =>
    let (e, host) := H.raise (Host.notComputation v) host
    some (refuse e host)

end Harness
end DescribedEffects
