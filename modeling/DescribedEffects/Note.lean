import DescribedEffects.Context

/-!
# The library's own log

While logging is on, the library says what it does: the driver which items it is
given and what it throws back, the resolver how it performs each effect, and the
test harness which expectation an effect met.  A note holds the values it speaks
of; its text is computed from them, so that keeping notes never changes a run.
-/

namespace DescribedEffects

/-- One thing the library did. -/
inductive Note where
  /-- The driver was given another computation to drive. -/
  | nested (item : Value)
  /-- The driver was given an effect. -/
  | effect (d : Descriptor)
  /-- The driver resumes a computation with an exception. -/
  | throwing (e : Exn)
  | resolving (d : Descriptor) (how : Invocation)
  | dispatching (members : Nat)
  /-- A callback-style function failed after its effect was complete. -/
  | ignoring (e : Exn) (d : Descriptor)
  /-- An effect met the expectation with this number. -/
  | matched (index : Nat) (d : Descriptor)

/-- The part of the library that speaks. -/
def Note.component : Note → String
  | .nested _ | .effect _ | .throwing _ => "driver"
  | .resolving .. | .dispatching _ | .ignoring .. => "resolver"
  | .matched .. => "testing"

/-- The text of a note. -/
def Note.text : Note → String
  | .nested v => "driving nested computation " ++ v.display
  | .effect d => "effect: " ++ d.display
  | .throwing e => "throwing " ++ e.display ++ " into computation"
  | .resolving d how => "resolving " ++ d.display ++ " as " ++ how.label
  | .dispatching n => "dispatching " ++ toString n ++ " parallel effect(s)"
  | .ignoring e d => "ignoring " ++ e.display ++ " raised after " ++ d.display ++ " completed"
  | .matched i d => "expectation #" ++ toString i ++ " matched " ++ d.display

end DescribedEffects
