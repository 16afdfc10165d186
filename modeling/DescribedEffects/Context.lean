import DescribedEffects.Descriptor.Shape
import DescribedEffects.Value.Access

/-!
# Contexts

A context is a nest of mappings, and a path addresses a value in it, one key per
level.  The walk can stop early in three ways: the value reached is no mapping,
the key is missing, or the mapping raises an exception of its own.  A mapping that
raises a missing-key exception, of whatever kind below that one, counts as a
mapping without the key; every other exception is passed on as it is.

What is found decides how an effect is performed: a value that cannot be called
is the outcome, and a function is called directly or with a completion callback,
as the mode says.
-/

namespace DescribedEffects

/-- Why a walk along a path stopped. -/
inductive LookupFault where
  /-- The value reached before this segment is no mapping. -/
  | belowNonMapping (segment : Value) (found : String)
  | missing (segment : Value)
  /-- The segment cannot be a key. -/
  | badKey (fault : ValueFault)
  /-- The mapping raised an exception of its own. -/
  | raised (e : Exn)

/-- How a value found in a context produces an outcome. -/
inductive Invocation where
  | value
  | direct
  | callback
  deriving DecidableEq

/-- The name an invocation is written with. -/
def Invocation.label : Invocation → String
  | .value => "VALUE"
  | .direct => "DIRECT"
  | .callback => "CALLBACK"

namespace Context

/-- One step of the walk. -/
def enter (current segment : Value) : Except LookupFault Value :=
  if current.isMapping then
    match Value.atKey segment current with
    | .ok v => .ok v
    | .error (.raised e) => if e.kind.isA .key then .error (.missing segment) else .error (.raised e)
    | .error (.fault (.missingKey _)) => .error (.missing segment)
    | .error (.fault f) => .error (.badKey f)
  else .error (.belowNonMapping segment current.typeName)

/-- The value that a path addresses. -/
def lookup (current : Value) : List Value → Except LookupFault Value
  | [] => .ok current
  | s :: rest => do lookup (← enter current s) rest

/-- How the value found produces an outcome. -/
def classify (v : Value) (mode : Mode) : Invocation :=
  if v.isCallable then if mode = .callback then .callback else .direct else .value

@[simp] theorem lookup_nil (c : Value) : lookup c [] = .ok c := rfl

theorem lookup_cons (c s : Value) (rest : List Value) :
    lookup c (s :: rest) = (enter c s).bind (fun v => lookup v rest) := rfl

/-- The walk along a joined path is a walk along its first part and, from the
value reached, along its second. -/
theorem lookup_append (c : Value) (p q : List Value) :
    lookup c (p ++ q) = (lookup c p).bind (fun v => lookup v q) := by
  induction p generalizing c with
  | nil => rfl
  | cons s p ih =>
    rw [List.cons_append, lookup_cons, lookup_cons]
    cases enter c s with
    | error f => rfl
    | ok v => exact ih v

end Context

/-- The exception for a stopped walk shows the path. -/
def LookupFault.showsPath : LookupFault → Bool
  | .belowNonMapping .. | .missing _ => true
  | _ => false

/-- The exception for a stopped walk.  It carries the path as it was given and as
a sequence of segments. -/
def LookupFault.complaint (given : Value) (path : List Value) : LookupFault → Complaint
  | .belowNonMapping s t =>
    .make (.notFound given path s (.text ("below a non-mapping " ++ t)))
  | .missing s => .make (.notFound given path s (.text "missing"))
  | .badKey f => .make f.body
  | .raised e => .pass e

end DescribedEffects
