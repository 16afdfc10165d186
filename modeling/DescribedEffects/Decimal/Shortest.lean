/-!
# The fewest digits that identify a binary number

A binary64 number stands for a whole interval of reals: all those that are
nearer to it than to any other number of the format.  This module finds the
decimal with the fewest digits in that interval, by exact arithmetic on naturals
and nothing else.

## The interval

`Magnitude` is a non-negative number `significand * 2 ^ exponent`.  The interval
reaches half the gap to each neighbour.  The gap below is half the gap above
when the significand is a power of two (and a smaller exponent exists); the ends
belong to the interval exactly when the significand is even, because ties are
read to even.  `Magnitude.identifiedBy` says that a decimal lies in it.

## The search

On the grid of multiples of a power of ten only the two neighbours of the number
need be tried: if any point of the grid lies in the interval, so does one of
them.  `Magnitude.shortest` tries one digit, then two, and so on; of two hits the
nearer is taken, and of two equally near ones the even.  Seventeen digits are
always enough; the exact value stands behind the search, so that what is returned
is never a guess.
-/

namespace DescribedEffects
namespace Decimal

/-- A finite non-negative binary number. -/
structure Magnitude where
  significand : Nat
  exponent : Int
  /-- The next smaller number is half as far away as the next larger one. -/
  narrowBelow : Bool
  deriving DecidableEq

/-- The decimal `digits * 10 ^ scale`. -/
structure Digits where
  digits : Nat
  scale : Int
  deriving DecidableEq

/-- Compares `digits * 10 ^ scale` with `n * 2 ^ e`, by bringing both to a common
integer scale. -/
def Digits.compareWith (d : Digits) (n : Nat) (e : Int) : Ordering :=
  compare (d.digits * Nat.pow 10 d.scale.toNat * Nat.pow 2 (-e).toNat)
    (n * Nat.pow 2 e.toNat * Nat.pow 10 (-d.scale).toNat)

namespace Magnitude

/-- The decimal lies among the reals that are read as this number.  Both ends are
taken in quarters of the last binary place. -/
def identifiedBy (x : Magnitude) (d : Digits) : Bool :=
  let below := if x.narrowBelow then 4 * x.significand - 1 else 4 * x.significand - 2
  let above := 4 * x.significand + 2
  let closed := x.significand % 2 == 0
  let low := d.compareWith below (x.exponent - 2)
  let high := d.compareWith above (x.exponent - 2)
  (low == .gt || (closed && low == .eq)) && (high == .lt || (closed && high == .eq))

/-- The least `k` with `x < 10 ^ k`, for a positive number.  The binary logarithm
gives it up to one, and the comparison decides. -/
def decimalOrder (x : Magnitude) : Int :=
  let guess := ((x.significand.log2 : Int) + x.exponent) * 30103 / 100000 - 1
  let below (k : Int) : Bool :=
    (Digits.mk 1 k).compareWith x.significand x.exponent == .gt
  if below guess then guess
  else if below (guess + 1) then guess + 1
  else if below (guess + 2) then guess + 2
  else guess + 3

/-- How many times `10 ^ scale` goes into the number. -/
def quotient (x : Magnitude) (scale : Int) : Nat :=
  (x.significand * Nat.pow 2 x.exponent.toNat * Nat.pow 10 (-scale).toNat) /
    (Nat.pow 10 scale.toNat * Nat.pow 2 (-x.exponent).toNat)

/-- The better of the two neighbours of the number on a grid, if one of them
identifies it. -/
def onGrid? (x : Magnitude) (scale : Int) : Option Digits :=
  let down : Digits := ⟨x.quotient scale, scale⟩
  let up : Digits := ⟨x.quotient scale + 1, scale⟩
  match x.identifiedBy down, x.identifiedBy up with
  | true, true =>
    -- the middle between the two, against the number: twice each
    match (Digits.mk (2 * down.digits + 1) scale).compareWith (2 * x.significand) x.exponent with
    | .gt => some down
    | .lt => some up
    | .eq => some (if down.digits % 2 = 0 then down else up)
  | true, false => some down
  | false, true => some up
  | false, false => none

/-- The number itself as a decimal: a power of two below one is a power of five
over a power of ten. -/
def exactly (x : Magnitude) : Digits :=
  ⟨x.significand * Nat.pow 2 x.exponent.toNat * Nat.pow 5 (-x.exponent).toNat,
    -((-x.exponent).toNat : Int)⟩

/-- Moves trailing zeros of the digits into the scale; `fuel` bounds how many. -/
def stripZeros : Nat → Digits → Digits
  | 0, d => d
  | fuel + 1, d =>
    if d.digits % 10 = 0 && d.digits != 0 then stripZeros fuel ⟨d.digits / 10, d.scale + 1⟩ else d

/-- The decimal with the fewest digits that identifies a positive number. -/
def shortest (x : Magnitude) : Digits :=
  let order := x.decimalOrder
  let found := (List.range 17).findSome? fun (n : Nat) => x.onGrid? (order - n - 1)
  stripZeros 400 (found.getD x.exactly)

end Magnitude

end Decimal
end DescribedEffects
