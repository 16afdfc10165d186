import DescribedEffects.Sorting.Search

/-!
# Merging two blocks

Two blocks in ascending order become one; of equal elements those of the left block
come first.  What a merge asks is whether an element of the right block is below one
of the left block.

## Two speeds

A merge takes one element at a time until one block has won so often in a row that
it is likely to go on winning.  From then on it gallops: it looks for the whole
stretch that one block wins and takes it at once, first of the left block, then of
the right, as long as the stretches are long.  The number of wins in a row that it
takes to start galloping is the *eagerness*; every round of galloping lowers it,
going back to single steps raises it, and it is handed on to the next merge.

## Two directions

The shorter block decides from which side the merge works.  `takeFront` and
`gallopFront` work from the front, and what is merged so far is kept latest first.
`takeBack` and `gallopBack` work from the back, on blocks that are given latest
first.  In both the side that works on its last element stops asking: the last
element of the left block ends a merge from the front, and the first one of the
right block begins what is merged from the back.
-/

namespace DescribedEffects
namespace Sorting

variable {α ε : Type} (less : α → α → Except ε Bool)

/-- A stretch is long, and a winner consistent, from this number on. -/
def longStretch : Nat := 7

/-- How many elements of an ascending block do not exceed a value. -/
def countUpTo (v : α) (block : List α) (hint : Nat) : Except ε Nat :=
  let elements := block.toArray
  gallop (fun i =>
    match elements[i]? with
    | some x => do pure !(← less v x)
    | none => pure false) elements.size hint

/-- How many elements of an ascending block are below a value. -/
def countBelow (v : α) (block : List α) (hint : Nat) : Except ε Nat :=
  let elements := block.toArray
  gallop (fun i =>
    match elements[i]? with
    | some x => less x v
    | none => pure false) elements.size hint

/-- A merged block, and the eagerness to gallop that is left. -/
structure Merged (α : Type) where
  block : List α
  eagerness : Nat

/-- What a round of galloping lowers the eagerness to. -/
def lowered (eagerness : Nat) : Nat := if 1 < eagerness then eagerness - 1 else eagerness

mutual

/-- Merges from the front by single steps. -/
def takeFront (eagerness wonLeft wonRight : Nat) (out : List α) :
    List α → List α → Except ε (Merged α)
  | left, [] => pure ⟨out.reverse ++ left, eagerness⟩
  | [], right => pure ⟨out.reverse ++ right, eagerness⟩
  | [a], right => pure ⟨out.reverse ++ right ++ [a], eagerness⟩
  | a :: a₁ :: left, b :: right => do
    if ← less b a then
      if right.isEmpty then pure ⟨(b :: out).reverse ++ a :: a₁ :: left, eagerness⟩
      else if eagerness ≤ wonRight + 1 then
        gallopFront (eagerness + 1) (b :: out) (a :: a₁ :: left) right
      else takeFront eagerness 0 (wonRight + 1) (b :: out) (a :: a₁ :: left) right
    else
      if left.isEmpty then pure ⟨(a :: out).reverse ++ b :: right ++ [a₁], eagerness⟩
      else if eagerness ≤ wonLeft + 1 then
        gallopFront (eagerness + 1) (a :: out) (a₁ :: left) (b :: right)
      else takeFront eagerness (wonLeft + 1) 0 (a :: out) (a₁ :: left) (b :: right)
termination_by left right => left.length + right.length

/-- Merges from the front by whole stretches. -/
def gallopFront (eagerness : Nat) (out : List α) :
    List α → List α → Except ε (Merged α)
  | left, [] => pure ⟨out.reverse ++ left, eagerness⟩
  | left, b :: right => do
    let eagerness := lowered eagerness
    let k ← countUpTo less b left 0
    let out := (left.take k).reverse ++ out
    match _left : left.drop k with
    | [] => pure ⟨out.reverse ++ b :: right, eagerness⟩
    | [a] => pure ⟨out.reverse ++ b :: right ++ [a], eagerness⟩
    | a :: a₁ :: left' =>
      let j ← countBelow less a right 0
      let out := (right.take j).reverse ++ b :: out
      match _right : right.drop j with
      | [] => pure ⟨out.reverse ++ a :: a₁ :: left', eagerness⟩
      | b₁ :: right' =>
        if left'.isEmpty then
          pure ⟨(a :: out).reverse ++ b₁ :: right' ++ [a₁], eagerness⟩
        else if longStretch ≤ k ∨ longStretch ≤ j then
          gallopFront eagerness (a :: out) (a₁ :: left') (b₁ :: right')
        else takeFront (eagerness + 1) 0 0 (a :: out) (a₁ :: left') (b₁ :: right')
termination_by left right => left.length + right.length
decreasing_by
  all_goals
    have short := congrArg List.length _left
    have shorter := congrArg List.length _right
    simp only [List.length_drop, List.length_cons] at short shorter ⊢
    omega

end

mutual

/-- Merges from the back by single steps. -/
def takeBack (eagerness wonLeft wonRight : Nat) (out : List α) :
    List α → List α → Except ε (Merged α)
  | [], right => pure ⟨right.reverse ++ out, eagerness⟩
  | left, [] => pure ⟨left.reverse ++ out, eagerness⟩
  | left, [b] => pure ⟨b :: left.reverse ++ out, eagerness⟩
  | a :: left, b :: b₁ :: right => do
    if ← less b a then
      if left.isEmpty then pure ⟨(b :: b₁ :: right).reverse ++ a :: out, eagerness⟩
      else if eagerness ≤ wonLeft + 1 then
        gallopBack (eagerness + 1) (a :: out) left (b :: b₁ :: right)
      else takeBack eagerness (wonLeft + 1) 0 (a :: out) left (b :: b₁ :: right)
    else
      if right.isEmpty then pure ⟨b₁ :: (a :: left).reverse ++ b :: out, eagerness⟩
      else if eagerness ≤ wonRight + 1 then
        gallopBack (eagerness + 1) (b :: out) (a :: left) (b₁ :: right)
      else takeBack eagerness 0 (wonRight + 1) (b :: out) (a :: left) (b₁ :: right)
termination_by left right => left.length + right.length

/-- Merges from the back by whole stretches. -/
def gallopBack (eagerness : Nat) (out : List α) :
    List α → List α → Except ε (Merged α)
  | left, [] => pure ⟨left.reverse ++ out, eagerness⟩
  | left, b :: right => do
    let eagerness := lowered eagerness
    let k := left.length - (← countUpTo less b left.reverse (left.length - 1))
    let out := (left.take k).reverse ++ out
    match _left : left.drop k with
    | [] => pure ⟨(b :: right).reverse ++ out, eagerness⟩
    | a :: left' =>
      match right with
      | [] => pure ⟨(a :: left').reverse ++ b :: out, eagerness⟩
      | [b₁] => pure ⟨b₁ :: (a :: left').reverse ++ b :: out, eagerness⟩
      | b₁ :: b₂ :: right =>
        let rest := b₁ :: b₂ :: right
        let j := rest.length - (← countBelow less a rest.reverse (rest.length - 1))
        let out := (rest.take j).reverse ++ b :: out
        match _right : rest.drop j with
        | [] => pure ⟨(a :: left').reverse ++ out, eagerness⟩
        | [b₃] => pure ⟨b₃ :: (a :: left').reverse ++ out, eagerness⟩
        | b₃ :: b₄ :: right' =>
          if left'.isEmpty then pure ⟨(b₃ :: b₄ :: right').reverse ++ a :: out, eagerness⟩
          else if longStretch ≤ k ∨ longStretch ≤ j then
            gallopBack eagerness (a :: out) left' (b₃ :: b₄ :: right')
          else takeBack (eagerness + 1) 0 0 (a :: out) left' (b₃ :: b₄ :: right')
termination_by left right => left.length + right.length
decreasing_by
  all_goals
    have short := congrArg List.length _left
    have shorter := congrArg List.length _right
    simp only [List.length_drop, List.length_cons, rest] at short shorter ⊢
    omega

end

/-- Merges the parts of two blocks that overlap, from the side of the shorter. -/
def mergeOverlap (eagerness : Nat) (left right : List α) : Except ε (Merged α) :=
  if left.length ≤ right.length then
    match right with
    | [] => pure ⟨left, eagerness⟩
    | b :: right => takeFront less eagerness 0 0 [b] left right
  else
    match left.reverse with
    | [] => pure ⟨right, eagerness⟩
    | a :: left => takeBack less eagerness 0 0 [a] left right.reverse

/-- Merges two blocks.  What the left one begins with and what the right one ends
with is in place already. -/
def merge (eagerness : Nat) (left right : List α) : Except ε (Merged α) :=
  match right with
  | [] => pure ⟨left, eagerness⟩
  | b :: _ => do
    let before := left.take (← countUpTo less b left 0)
    let overlap := left.drop before.length
    match overlap.getLast? with
    | none => pure ⟨left ++ right, eagerness⟩
    | some a => do
      let n ← countBelow less a right (right.length - 1)
      if n = 0 then pure ⟨left ++ right, eagerness⟩
      else
        let merged ← mergeOverlap less eagerness overlap (right.take n)
        pure { merged with block := before ++ merged.block ++ right.drop n }

end Sorting
end DescribedEffects
