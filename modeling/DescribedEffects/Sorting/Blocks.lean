import DescribedEffects.Sorting.Merge

/-!
# Sorting by merging blocks

A list is cut into blocks from the front, and neighbouring blocks are merged.  The
sort is stable: equal elements keep their order.

A comparison is a question that can fail, and then the sort fails as the comparison
did.  It need not be an order, either: with elements that are below nothing and
above nothing there is no sorted list, and the answer is what the comparisons that
are made lead to.  So the order in which they are made is part of the answer, and
this module and the ones below it fix it.

## Blocks

A block is an ordered run: as long a run as the list begins with, a strictly falling
one turned round, or, if that is shorter than the least length of a block, the run
with as many of the following elements inserted by binary search.  Lists below 64
elements are one block; for longer ones the least length lies between 32 and 64 and
divides the list into parts of almost equal length.

## Which blocks are merged when

Between two neighbouring blocks lies a boundary.  Its *power* says how often the
whole interval has to be halved until a cut falls between the middles of the two
blocks: boundaries near the middle of the list have the smallest power.  Before a
new boundary is set up all earlier ones of a greater power are merged away, so the
powers of the open boundaries rise.  At the end the open boundaries are closed from
the back, but a block is first merged with a shorter one before it than with a longer
one behind it.
-/

namespace DescribedEffects
namespace Sorting

variable {α ε : Type} (less : α → α → Except ε Bool)

/-! ## Blocks -/

/-- Splits off the ordered run a list starts with: the run, ascending, and the rest.
`last` is the element before the list and `run` the run so far, latest first. -/
def splitRun (falling : Bool) (last : α) (run : List α) :
    List α → Except ε (List α × List α)
  | [] => pure (if falling then run else run.reverse, [])
  | v :: vs => do
    if (← less v last) == falling then splitRun falling v (v :: run) vs
    else pure (if falling then run else run.reverse, v :: vs)

/-- The ordered run that a list starts with, and the rest. -/
def firstRun : List α → Except ε (List α × List α)
  | [] => pure ([], [])
  | [v] => pure ([v], [])
  | v :: w :: vs => do
    let falling ← less w v
    splitRun less falling w [w, v] vs

/-- Inserts elements one by one into an ordered block, each behind all that do not
exceed it. -/
def insertAll (block : List α) : List α → Except ε (List α)
  | [] => pure block
  | v :: vs => do
    let elements := block.toArray
    let i ← bisect (fun i =>
      match elements[i]? with
      | some x => do pure !(← less v x)
      | none => pure false) 0 elements.size
    insertAll (block.take i ++ v :: block.drop i) vs

/-- The block that a list starts with, of a least length if the list is long enough,
and the rest. -/
def firstBlock (least : Nat) (xs : List α) : Except ε (List α × List α) := do
  let (run, rest) ← firstRun less xs
  let more := least - run.length
  pure (← insertAll less run (rest.take more), rest.drop more)

/-- The least length of a block in a list of a given length: its leading six binary
digits, rounded up. -/
def leastLength (length : Nat) (roundUp : Bool) : Nat :=
  if length < 64 then length + roundUp.toNat
  else leastLength (length / 2) (roundUp || length % 2 == 1)
termination_by length

/-! ## Boundaries -/

/-- The power of the boundary between two neighbouring blocks, the first of which
starts at a given position of a list of a given length. -/
def power (length start left right : Nat) : Nat :=
  let a := 2 * start + left
  let b := a + left + right
  let cut (k : Nat) : Bool := a * Nat.pow 2 k / length != b * Nat.pow 2 k / length
  ((List.range (length.log2 + 2)).find? cut).getD 0 + 1

/-- A block, and the power of the boundary behind it. -/
structure Pending (α : Type) where
  block : List α
  power : Nat

/-- Merges the newest block with those before it whose boundary has a greater power
than a new boundary.  The pending blocks are given latest first. -/
def collapse (newPower : Nat) (newest : Merged α) :
    List (Pending α) → Except ε (Merged α × List (Pending α))
  | [] => pure (newest, [])
  | p :: pending => do
    if newPower < p.power then
      collapse newPower (← merge less newest.eagerness p.block newest.block) pending
    else pure (newest, p :: pending)

/-- Closes all boundaries. -/
def finish (newest : Merged α) : List (Pending α) → Except ε (List α)
  | [] => pure newest.block
  | [p] => do pure (← merge less newest.eagerness p.block newest.block).block
  | p :: q :: pending => do
    if q.block.length < newest.block.length then
      let merged ← merge less newest.eagerness q.block p.block
      finish { newest with eagerness := merged.eagerness } (⟨merged.block, q.power⟩ :: pending)
    else
      finish (← merge less newest.eagerness p.block newest.block) (q :: pending)
termination_by pending => pending.length

/-- Cuts off block after block and merges as the powers say.  `start` is the position
of the newest block; there are at most `fuel` blocks. -/
def mergeBlocks (length least : Nat) :
    Nat → Nat → Merged α → List (Pending α) → List α → Except ε (List α)
  | 0, _, newest, pending, rest => do pure ((← finish less newest pending) ++ rest)
  | _ + 1, _, newest, pending, [] => finish less newest pending
  | fuel + 1, start, newest, pending, rest => do
    let (block, rest) ← firstBlock less least rest
    let boundary := power length start newest.block.length block.length
    let next := start + newest.block.length
    let (merged, pending) ← collapse less boundary newest pending
    mergeBlocks length least fuel next ⟨block, merged.eagerness⟩
      (⟨merged.block, boundary⟩ :: pending) rest

/-- The elements in ascending order; equal ones keep their order. -/
def sort (xs : List α) : Except ε (List α) := do
  let least := leastLength xs.length false
  let (block, rest) ← firstBlock less least xs
  mergeBlocks less xs.length least xs.length 0 ⟨block, longStretch⟩ [] rest

end Sorting
end DescribedEffects
