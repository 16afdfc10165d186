import DescribedEffects.Sorting.Blocks
import DescribedEffects.Value.Equality
import DescribedEffects.Value.Fault

/-!
# Order of values

Numbers are ordered exactly, strings by code point, byte strings by byte, and
lists and tuples by their first difference.  Values of other sorts, and of two
different sorts, have no order: comparing them is a fault that names both types.

A read-only mapping is compared as the mapping it shows.  If it stands on the right,
it is asked whether it is greater, so the fault names the operands in that order.

Which pair of types a failing sort names depends on the comparisons it makes; that
is why `sorted` is the sort of `Sorting.Blocks` and not just any.
-/

namespace DescribedEffects
namespace Value

/-- Lexicographic order of lists under a given order. -/
def lessWords {α : Type} (less : α → α → Bool) : List α → List α → Bool
  | _, [] => false
  | [], _ :: _ => true
  | a :: as, b :: bs => less a b || (!less b a && lessWords less as bs)

/-- Order of two numbers, if both are numbers; NaN is below nothing. -/
def lessNumber? (a b : Value) : Option Bool :=
  match a, b with
  | .nan _, b => if b.number?.isSome || b.typeName == "float" then some false else none
  | a, .nan _ => if a.number?.isSome then some false else none
  | a, b =>
    match a.number?, b.number? with
    | some x, some y => some (x.compare y == .lt)
    | _, _ => none

/-- The fault of comparing two values that have no order. -/
def unordered (a b : Value) : ValueFault :=
  match a, b with
  | .view _, .view _ => .unordered ">" "dict" "dict"
  | .view _, b => .unordered "<" "dict" b.typeName
  | a, .view _ => .unordered ">" "dict" a.typeName
  | a, b => .unordered "<" a.typeName b.typeName

/-- Order of two values that contain no others. -/
def lessAtom (a b : Value) : Except ValueFault Bool :=
  match a, b with
  | .text a, .text b => .ok (lessWords (fun c d => decide (c < d)) a.toList b.toList)
  | .bytes a, .bytes b => .ok (lessWords (fun c d => decide (c < d)) a b)
  | a, b =>
    match lessNumber? a b with
    | some r => .ok r
    | none => .error (unordered a b)

mutual

/-- The order of two values. -/
def less : Value → Value → Except ValueFault Bool
  | .list as, b => match b with
    | .list bs => lessAll as bs
    | b => lessAtom (.list []) b
  | .tuple as, b => match b with
    | .tuple bs => lessAll as bs
    | b => lessAtom (.tuple []) b
  | .null, b => lessAtom .null b
  | .truth a, b => lessAtom (.truth a) b
  | .int a, b => lessAtom (.int a) b
  | .real a, b => lessAtom (.real a) b
  | .nan i, b => lessAtom (.nan i) b
  | .text a, b => lessAtom (.text a) b
  | .bytes a, b => lessAtom (.bytes a) b
  | .record _, b => lessAtom (.record []) b
  | .view _, b => lessAtom (.view []) b
  | .faulty e, b => lessAtom (.faulty e) b
  | .mode a, b => lessAtom (.mode a) b
  | .descriptor d, b => lessAtom (.descriptor d) b
  | .expectation e, b => lessAtom (.expectation e) b
  | .ok _, b => lessAtom (.ok .null) b
  | .err _, b => lessAtom (.err .null) b
  | .exn e, b => lessAtom (.exn e) b
  | .kind k, b => lessAtom (.kind k) b
  | .function f, b => lessAtom (.function f) b
  | .computation i, b => lessAtom (.computation i) b
  | .coroutine i, b => lessAtom (.coroutine i) b
  | .future i, b => lessAtom (.future i) b
  | .done r i, b => lessAtom (.done r i) b
  | .settled i _, b => lessAtom (.settled i .null) b
  | .broken i e, b => lessAtom (.broken i e) b
termination_by structural a => a

/-- The order of two sequences: that of the first elements that differ, and the
shorter one first if none do. -/
def lessAll : List Value → List Value → Except ValueFault Bool
  | [], bs => .ok (!bs.isEmpty)
  | a :: as, bs => match bs with
    | [] => .ok false
    | b :: bs => if same a b then lessAll as bs else less a b
termination_by structural as => as

end

/-- The values in ascending order; equal ones keep their order.  It fails as the first
comparison that fails. -/
def sorted (vs : List Value) : Except ValueFault (List Value) := Sorting.sort less vs

end Value
end DescribedEffects
