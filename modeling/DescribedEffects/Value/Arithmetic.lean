import DescribedEffects.Value.Equality
import DescribedEffects.Value.Fault

/-!
# Sums and products of values

Numbers are added and multiplied, sequences of one sort are joined, and a
sequence is repeated a whole number of times.  Truth values count as integers;
an integer meeting a real becomes one.  Everything else is a fault.

A result that is not a number needs an identity (see `Value.nan`), so the
operations take the next free one; they use it only in that case.

Integers have any size, but positions and counts of repetitions are machine integers
(`isMachineInteger`), and an integer beyond the greatest real number cannot meet a
real.
-/

namespace DescribedEffects
namespace Value

/-- The real a number stands for, rounded if need be. -/
def real? : Value → Except ValueFault (Option Binary64)
  | .real x => .ok (some x)
  | .nan _ => .ok (some ⟨0x7FF8000000000000⟩)
  | v =>
    match v.integer? with
    | none => .ok none
    | some n =>
      let x := Binary64.ofInt n
      if x.isInfinite then .error .beyondReals else .ok (some x)

/-- The value is a real number or none at all. -/
def isReal : Value → Bool
  | .real _ | .nan _ => true
  | _ => false

/-- A real as a value; NaN takes the given identity. -/
def ofReal (fresh : Nat) (x : Binary64) : Value := if x.isNaN then .nan fresh else .real x

/-- The sum or product of two numbers, if both are numbers. -/
def combine? (fresh : Nat) (onInts : Int → Int → Int)
    (onReals : Binary64 → Binary64 → Binary64) (a b : Value) :
    Except ValueFault (Option Value) :=
  match a.integer?, b.integer? with
  | some m, some n => .ok (some (.int (onInts m n)))
  | _, _ =>
    if a.isReal || b.isReal then do
      match ← a.real?, ← b.real? with
      | some x, some y => pure (some (ofReal fresh (onReals x y)))
      | _, _ => pure none
    else .ok none

/-- The sum of two values. -/
def sum (fresh : Nat) (a b : Value) : Except ValueFault Value := do
  match ← combine? fresh (· + ·) Binary64.add a b with
  | some v => pure v
  | none =>
    match a, b with
    | .text s, .text t => pure (.text (s ++ t))
    | .bytes s, .bytes t => pure (.bytes (s ++ t))
    | .list s, .list t => pure (.list (s ++ t))
    | .tuple s, .tuple t => pure (.tuple (s ++ t))
    | .text _, b => throw (.notJoined "str" b.typeName)
    | .bytes _, b => throw (.notJoined "bytes" b.typeName)
    | .list _, b => throw (.notJoined "list" b.typeName)
    | .tuple _, b => throw (.notJoined "tuple" b.typeName)
    | a, b => throw (.unsupported "+" a.typeName b.typeName)

/-- The items of a sequence, a number of times over. -/
def repeated {α : Type} (n : Int) (items : List α) : List α :=
  if items.isEmpty then [] else (List.replicate n.toNat items).flatten

/-- A sequence repeated, if the value is a sequence. -/
def repeat? (n : Int) : Value → Option Value
  | .text s => some (.text (String.ofList (repeated n s.toList)))
  | .bytes s => some (.bytes (repeated n s))
  | .list s => some (.list (repeated n s))
  | .tuple s => some (.tuple (repeated n s))
  | _ => none

/-- The value is a sequence. -/
def isSequence : Value → Bool
  | .text _ | .bytes _ | .list _ | .tuple _ => true
  | _ => false

/-- The product of a value with an integer that is no number's factor: the value must
be a sequence.  `fault` is what it is otherwise. -/
def times (n : Int) (v : Value) (fault : ValueFault) : Except ValueFault Value :=
  if !v.isSequence then .error fault
  else if !isMachineInteger n then .error (.beyondPositions .overflow)
  else .ok ((repeat? n v).getD v)

/-- The product of two values. -/
def product (fresh : Nat) (a b : Value) : Except ValueFault Value := do
  match ← combine? fresh (· * ·) Binary64.mul a b with
  | some v => pure v
  | none =>
    let unsupported := ValueFault.unsupported "*" a.typeName b.typeName
    match a.integer?, b.integer? with
    | none, some n => times n a unsupported
    | some n, none => times n b unsupported
    | _, _ =>
      if a.isSequence then throw (.badRepeat b.typeName)
      else if b.isSequence then throw (.badRepeat a.typeName)
      else throw unsupported

end Value
end DescribedEffects
