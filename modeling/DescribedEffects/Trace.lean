import DescribedEffects.BoundedLog

/-!
# Traces

A trace is the log of the effects that a driver performed, each beside its outcome.
How long it may become is a `TraceBound`: without a bound it holds every effect, and
with a whole number it holds the most recent ones.

A real number is a bound too, as far as it goes.  A trace that is no longer than that
needs no trimming.  A longer one would have to lose a fraction of an entry, so it keeps
all of them and is *strained*; whoever drives the computation has to say so.
-/

namespace DescribedEffects

/-- An effect that a driver performed, with its outcome. -/
structure Record where
  descriptor : Descriptor
  outcome : Outcome

/-- How long a trace may become. -/
inductive TraceBound where
  | unbounded
  /-- So many effects are kept. -/
  | most (n : Nat)
  /-- More effects than this number cannot be trimmed. -/
  | real (x : Binary64)

namespace TraceBound

/-- The bound of the log behind a trace. -/
def ofLog : TraceBound → Option Int
  | .unbounded | .real _ => none
  | .most n => some n

/-- A real bound is less than a number of entries. -/
def isBelow (size : Nat) : TraceBound → Bool
  | .unbounded | .most _ => false
  | .real x => x.scaled.compare (.ofInt size) == .lt

end TraceBound

/-- The effects performed so far, as far as they are kept. -/
structure Trace where
  bound : TraceBound
  log : BoundedLog Record

namespace Trace

/-- A trace of no effects. -/
def empty (bound : TraceBound) : Trace := ⟨bound, BoundedLog.ofList [] bound.ofLog⟩

/-- Adds an effect. -/
def add (t : Trace) (r : Record) : Trace := { t with log := t.log.append r }

/-- The trace is too long for its bound and cannot be trimmed. -/
def isStrained (t : Trace) : Bool := t.bound.isBelow t.log.entries.length

@[simp] theorem bound_add (t : Trace) (r : Record) : (t.add r).bound = t.bound := rfl

@[simp] theorem log_add (t : Trace) (r : Record) : (t.add r).log = t.log.append r := rfl

@[simp] theorem bound_empty (b : TraceBound) : (empty b).bound = b := rfl

@[simp] theorem entries_empty (b : TraceBound) : (empty b).log.entries = [] := by
  cases b <;> simp [empty, BoundedLog.ofList, BoundedLog.trim, keepLast, TraceBound.ofLog]

/-- Without a bound nothing is ever strained. -/
theorem isStrained_of_unbounded {t : Trace} (h : t.bound = .unbounded) :
    t.isStrained = false := by
  simp [isStrained, h, TraceBound.isBelow]

/-- A whole number is never a strain. -/
theorem isStrained_of_most {t : Trace} {n : Nat} (h : t.bound = .most n) :
    t.isStrained = false := by
  simp [isStrained, h, TraceBound.isBelow]

end Trace
end DescribedEffects
