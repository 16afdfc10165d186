/-!
# Searching for a boundary

A test that holds on an initial stretch of positions and fails from there on has a
boundary: the first position at which it fails.  `bisect` finds it by halving.
`gallop` starts at a hint, strides away from it in strides that double, and halves
only what the last stride jumped over, so that a boundary near the hint is found
soon.

Asking the test can itself fail.  The questions are asked in a fixed order, and the
first failing one decides; so the order in which positions are asked about is part
of what these functions say.
-/

namespace DescribedEffects
namespace Sorting

variable {ε : Type}

/-- The boundary of a test, looked for from one position up to another. -/
def bisect (test : Nat → Except ε Bool) (lo hi : Nat) : Except ε Nat :=
  if lo < hi then do
    let mid := (lo + hi) / 2
    if ← test mid then bisect test (mid + 1) hi else bisect test lo mid
  else pure lo
termination_by hi - lo

/-- Strides outward while the test holds, short of a limit: the last distance at
which it held, and the one the search stopped at. -/
def stride (test : Nat → Except ε Bool) (limit last next : Nat) : Except ε (Nat × Nat) :=
  if next < limit then do
    if ← test next then stride test limit next (2 * next + 1) else pure (last, next)
  else pure (last, limit)
termination_by limit - next

/-- The boundary of a test among the positions below `size`, looked for from a
hint. -/
def gallop (test : Nat → Except ε Bool) (size hint : Nat) : Except ε Nat := do
  if ← test hint then
    let (last, next) ← stride (fun i => test (hint + i)) (size - hint) 0 1
    bisect test (hint + last + 1) (hint + next)
  else
    let (last, next) ← stride (fun i => do pure !(← test (hint - i))) (hint + 1) 0 1
    bisect test (hint + 1 - next) (hint - last)

end Sorting
end DescribedEffects
