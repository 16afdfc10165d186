import DescribedEffects.Value.Access

/-!
# Logs that forget

A bounded log keeps the most recent entries, at most as many as its bound; without
a bound it keeps them all.  A negative bound keeps nothing.

The log is a list whose own operations are `append`, `extend` and `setBound`, and
each of them trims.  Used as a plain list, through the operations that lists have,
it does not: an entry inserted in the middle stays until something trims.

`keepLast` is the view behind all of it: the last so many entries of a history.
-/

namespace DescribedEffects

/-- The last entries of a list, as many as the bound allows. -/
def keepLast {α : Type} : Option Int → List α → List α
  | none, xs => xs
  | some n, xs => xs.drop (xs.length - n.toNat)

/-- A list of entries with an optional bound. -/
structure BoundedLog (α : Type) where
  entries : List α
  bound : Option Int

namespace BoundedLog

variable {α : Type}

/-- Drops the oldest entries that the bound does not allow. -/
def trim (l : BoundedLog α) : BoundedLog α := { l with entries := keepLast l.bound l.entries }

/-- A log of some entries. -/
def ofList (xs : List α) (bound : Option Int) : BoundedLog α := trim ⟨xs, bound⟩

/-- Adds an entry. -/
def append (l : BoundedLog α) (x : α) : BoundedLog α :=
  trim { l with entries := l.entries ++ [x] }

/-- Adds entries. -/
def extend (l : BoundedLog α) (xs : List α) : BoundedLog α :=
  trim { l with entries := l.entries ++ xs }

/-- Changes the bound. -/
def setBound (l : BoundedLog α) (bound : Option Int) : BoundedLog α := trim { l with bound }

@[simp] theorem keepLast_none (xs : List α) : keepLast none xs = xs := rfl

theorem keepLast_some (n : Int) (xs : List α) :
    keepLast (some n) xs = xs.drop (xs.length - n.toNat) := rfl

/-- What is kept is the end of the history. -/
theorem keepLast_suffix (b : Option Int) (xs : List α) : keepLast b xs <:+ xs := by
  cases b with
  | none => exact List.suffix_refl xs
  | some n => exact List.drop_suffix _ _

@[simp] theorem bound_append (l : BoundedLog α) (x : α) : (l.append x).bound = l.bound := rfl

@[simp] theorem bound_extend (l : BoundedLog α) (xs : List α) :
    (l.extend xs).bound = l.bound := rfl

@[simp] theorem bound_setBound (l : BoundedLog α) (b : Option Int) :
    (l.setBound b).bound = b := rfl

@[simp] theorem entries_append (l : BoundedLog α) (x : α) :
    (l.append x).entries = keepLast l.bound (l.entries ++ [x]) := rfl

@[simp] theorem entries_extend (l : BoundedLog α) (xs : List α) :
    (l.extend xs).entries = keepLast l.bound (l.entries ++ xs) := rfl

@[simp] theorem entries_setBound (l : BoundedLog α) (b : Option Int) :
    (l.setBound b).entries = keepLast b l.entries := rfl

/-- The operations that a log shares with every list; none of them trims. -/
inductive ListEdit where
  | insert (position : Int) (x : Value)
  | pop (position : Option Int)
  | clear
  | reverse
  | remove (x : Value)
  | join (xs : List Value)

/-- Where an insertion takes place: positions before the start and past the end
are the two ends, and negative ones count from the end. -/
def insertAt (xs : List α) (position : Int) (x : α) : List α :=
  let i := if position < 0 then (position + xs.length).toNat else position.toNat
  xs.take i ++ x :: xs.drop i

/-- Edits the log as a plain list. -/
def edit (l : BoundedLog Value) : ListEdit → Except ValueFault (BoundedLog Value)
  | .insert i x => .ok { l with entries := insertAt l.entries i x }
  | .pop position =>
    if l.entries.isEmpty then .error .popFromEmpty
    else
      let n := position.getD (-1)
      let i := if n < 0 then n + l.entries.length else n
      if 0 ≤ i ∧ i < l.entries.length then
        .ok { l with entries := l.entries.eraseIdx i.toNat }
      else .error .popOutOfRange
  | .clear => .ok { l with entries := [] }
  | .reverse => .ok { l with entries := l.entries.reverse }
  | .remove x =>
    match l.entries.findIdx? fun y => Value.same y x with
    | some i => .ok { l with entries := l.entries.eraseIdx i }
    | none => .error .notInList
  | .join xs => .ok { l with entries := l.entries ++ xs }

end BoundedLog
end DescribedEffects
