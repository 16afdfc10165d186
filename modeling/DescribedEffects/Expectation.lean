import DescribedEffects.Descriptor.Shape
import DescribedEffects.Value.Access
import DescribedEffects.Value.Order

/-!
# Expectations

An expectation names one effect and the outcome to feed back for it: a value, a
function that is given the call arguments, or a failure.  It can be written as a
pair, as a mapping with the keys `effect`, `yields` and `raises`, or be an
expectation already.

Every spelling passes the same two checks: the effect is read as a descriptor,
and the failure, if there is one, is an ordinary exception.  So an expectation
that exists has an effect that can be read; `EntryFault` lists why an entry is
turned down.

Two descriptors match exactly, by equality, or loosely, by the equality of their
shapes.  Taking the shape can fail for a group put together by hand, and then so
does the comparison.
-/

namespace DescribedEffects

/-- Why an entry is no expectation. -/
inductive EntryFault where
  | malformed (m : Malformed)
  /-- The failure is no ordinary exception. -/
  | badFailure (found : String)
  /-- The mapping lacks the effect or has other keys; these are its keys. -/
  | badKeys (keys : List Value)
  /-- The entry is of no shape that an expectation is written in. -/
  | badEntry (found : String)
  | fault (f : ValueFault)
  /-- The mapping raised an exception of its own. -/
  | raised (e : Exn)

/-- The exception for an entry that is turned down. -/
def EntryFault.complaint : EntryFault → Complaint
  | .malformed m => .make m.body
  | .badFailure t =>
    .make (ValueFault.saying .type ("raises must be an Exception instance, got " ++ t))
  | .badKeys keys =>
    .make (ValueFault.saying .type
      ("expectation mapping needs an 'effect' key and only ['effect', 'raises', 'yields'], got " ++
        (Value.list keys).display))
  | .badEntry t =>
    .make (ValueFault.saying .type
      ("expectation must be an Expectation, an (effect, yields) pair or a mapping, got " ++ t))
  | .fault f => .make f.body
  | .raised e => .pass e

namespace ExpectationOf

/-- The failure an expectation is written with: nothing, or an ordinary
exception. -/
def failureOf : Value → Except EntryFault (Option Exn)
  | .null => .ok none
  | .exn e => if e.isOrdinary then .ok (some e) else .error (.badFailure e.kind.label)
  | v => .error (.badFailure v.typeName)

/-- Makes an expectation, checking its effect and its failure. -/
def make (effect yields raises : Value) : Except EntryFault Expectation := do
  let _ ← (Descriptor.parse effect).mapError .malformed
  let failure ← failureOf raises
  pure ⟨effect, yields, failure⟩

/-- The keys a mapping may have. -/
def allowedKeys : List Value := [.text "effect", .text "yields", .text "raises"]

/-- The key is one that a mapping may have. -/
def isAllowed (key : Value) : Bool := allowedKeys.any fun k => Value.same k key

/-- Whether a mapping has the key `effect`.  A mapping that raises a missing-key
exception has not. -/
def hasEffect (entry : Value) : Except EntryFault Bool :=
  match Value.atKey (.text "effect") entry with
  | .ok _ => .ok true
  | .error (.raised e) => if e.kind.isA .key then .ok false else .error (.raised e)
  | .error (.fault _) => .ok false

/-- Reads a mapping as an expectation. -/
def ofMapping (entry : Value) : Except EntryFault Expectation := do
  let keys := entry.entries.map (·.1)
  if !(← hasEffect entry) || keys.any (fun k => !isAllowed k) then
    let keys ← (Value.sorted keys).mapError .fault
    throw (.badKeys keys)
  let at_ (name : String) := (Value.find? (.text name) entry.entries).getD .null
  make (at_ "effect") (at_ "yields") (at_ "raises")

/-- Reads an entry as an expectation. -/
def coerce : Value → Except EntryFault Expectation
  | .expectation e => .ok e
  | .list [effect, yields] => make effect yields .null
  | .tuple [effect, yields] => make effect yields .null
  | entry =>
    if entry.isMapping then ofMapping entry else .error (.badEntry entry.typeName)

/-- The descriptor an expectation is about. -/
def descriptor (e : Expectation) : Except Malformed Descriptor := Descriptor.parse e.effect

/-- Whether a descriptor is the expected one: by equality, or by shape. -/
def compare (expected actual : Descriptor) (matchArgs : Bool) : Except ValueFault Bool :=
  if matchArgs then .ok (expected.same actual)
  else do
    let a ← expected.shape
    let b ← actual.shape
    pure (a.same b)

/-- What an expectation feeds back. -/
inductive Answer where
  | value (v : Value)
  | raise (e : Exn)
  /-- The outcome of calling a function with the arguments of the effect. -/
  | call (f : Value) (args : List Value)

/-- The answer to an effect: a failure wins over a value, and a function is
called. -/
def answer (e : Expectation) (actual : Descriptor) : Answer :=
  match e.raises with
  | some failure => .raise failure
  | none => if e.yields.isCallable then .call e.yields actual.args else .value e.yields

end ExpectationOf
end DescribedEffects
