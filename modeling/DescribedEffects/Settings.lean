import DescribedEffects.Note

/-!
# Settings

One switch in the environment turns two things on: factories record where their
descriptors are created, and the library says what it does.
-/

namespace DescribedEffects

/-- What the environment turns on. -/
structure Settings where
  debugging : Bool
  deriving DecidableEq

namespace Settings

/-- The words that turn the switch on, in any case. -/
def affirmations : List String := ["1", "true", "yes"]

/-- The settings for a value of the switch, which need not be set at all. -/
def ofSwitch (switch : Option String) : Settings :=
  ⟨affirmations.contains (String.ofList ((switch.getD "").toList.map Char.toLower))⟩

/-- The notes that are let through. -/
def audible (s : Settings) (notes : List Note) : List Note := if s.debugging then notes else []

example : ofSwitch (some "Yes") = ⟨true⟩ ∧ ofSwitch none = ⟨false⟩ := by decide +kernel

end Settings
end DescribedEffects
