import DescribedEffects.Value.Display

/-!
# Why a descriptor is malformed

A malformed descriptor is reported with the value to blame and one reason.  The
reasons are a closed list; each has one wording.
-/

namespace DescribedEffects

/-- Why a value is no path. -/
inductive PathFault where
  | empty
  /-- The segment at a position is no non-empty string. -/
  | segment (index : Nat) (found : Value)
  /-- The value is neither a string nor a sequence. -/
  | notSequence (found : String)

/-- Why a value is no descriptor. -/
inductive DescriptorFault where
  | notList
  | empty
  | noPath
  | path (fault : PathFault)

/-- A malformed descriptor: the value to blame and the reason. -/
structure Malformed where
  descriptor : Value
  fault : DescriptorFault

/-- The wording of a fault in a path. -/
def PathFault.message : PathFault → String
  | .empty => "path must not be empty"
  | .segment i v =>
    "path segment " ++ toString i ++ " must be a non-empty str, got " ++ v.display
  | .notSequence t => "path must be str or a sequence of str, got " ++ t

/-- The wording of a fault in a descriptor. -/
def DescriptorFault.message : DescriptorFault → String
  | .notList => "expected a list of the form [mode?, path, *args]"
  | .empty => "descriptor is empty"
  | .noPath => "path is missing"
  | .path f => f.message

/-- The exception that reports a malformed descriptor. -/
def Malformed.body (m : Malformed) : ExnBody Value :=
  .malformed m.descriptor (.text m.fault.message) m.fault.message

@[simp] theorem Malformed.kind_body (m : Malformed) : m.body.kind = .malformed := rfl

end DescribedEffects
