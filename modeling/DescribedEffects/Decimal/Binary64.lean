import DescribedEffects.Decimal.Shortest

/-!
# Binary64 numbers

Real numbers of the value language are kept as their sixty-four bits, so that
two of them can be told apart (`0.0` from `-0.0`) and compared exactly: through
the integers that the bits stand for, never through rounding.

`Scaled` is the exact value `mantissa * 2 ^ exponent` of a finite number.
Integers of any size embed into it, so a mixed comparison of an integer with a
real number is a comparison of two such values.
-/

namespace DescribedEffects

/-- A binary64 number, by its bits. -/
structure Binary64 where
  bits : UInt64
  deriving DecidableEq

namespace Binary64

/-- The eleven exponent bits. -/
def exponentField (x : Binary64) : Nat := ((x.bits >>> 52) &&& 0x7FF).toNat

/-- The fifty-two fraction bits. -/
def fractionField (x : Binary64) : Nat := (x.bits &&& 0xFFFFFFFFFFFFF).toNat

/-- The sign bit. -/
def isNegative (x : Binary64) : Bool := x.bits >>> 63 != 0

/-- Neither a number nor an infinity. -/
def isNaN (x : Binary64) : Bool := x.exponentField == 0x7FF && x.fractionField != 0

/-- One of the two infinities. -/
def isInfinite (x : Binary64) : Bool := x.exponentField == 0x7FF && x.fractionField == 0

/-- One of the two zeros. -/
def isZero (x : Binary64) : Bool := x.exponentField == 0 && x.fractionField == 0

/-- The magnitude of a finite number.  Subnormal numbers have no hidden bit. -/
def magnitude (x : Binary64) : Decimal.Magnitude :=
  if x.exponentField = 0 then ⟨x.fractionField, -1074, false⟩
  else ⟨Nat.pow 2 52 + x.fractionField, (x.exponentField : Int) - 1075,
    x.fractionField == 0 && decide (1 < x.exponentField)⟩

/-- The exact value `mantissa * 2 ^ exponent`, or an infinity. -/
inductive Scaled where
  | below
  | exact (mantissa exponent : Int)
  | above

/-- Exact order of two values. -/
def Scaled.compare : Scaled → Scaled → Ordering
  | .below, .below => .eq
  | .below, _ => .lt
  | .above, .above => .eq
  | .above, _ => .gt
  | .exact _ _, .below => .gt
  | .exact _ _, .above => .lt
  | .exact m e, .exact n f =>
    Ord.compare (m * Int.pow 2 (e - f).toNat) (n * Int.pow 2 (f - e).toNat)

/-- The exact value of a number that is not NaN. -/
def scaled (x : Binary64) : Scaled :=
  if x.isInfinite then if x.isNegative then .below else .above
  else
    let m := x.magnitude
    .exact (if x.isNegative then -(m.significand : Int) else m.significand) m.exponent

/-- An integer as an exact value. -/
def Scaled.ofInt (n : Int) : Scaled := .exact n 0

/-- The number nearest to an integer. -/
def ofInt (n : Int) : Binary64 :=
  let x := Float.ofScientific n.natAbs false 0
  ⟨(if n < 0 then -x else x).toBits⟩

/-- The rounded sum. -/
def add (x y : Binary64) : Binary64 := ⟨(Float.ofBits x.bits + Float.ofBits y.bits).toBits⟩

/-- The rounded product. -/
def mul (x y : Binary64) : Binary64 := ⟨(Float.ofBits x.bits * Float.ofBits y.bits).toBits⟩

/-- Writes digits with a point after the first `n` of them (`n` may be past the
end or not positive). -/
def placePoint (digits : List Char) (n : Int) : List Char :=
  if n ≤ 0 then '0' :: '.' :: List.replicate (-n).toNat '0' ++ digits
  else if digits.length ≤ n.toNat then
    digits ++ List.replicate (n.toNat - digits.length) '0' ++ ['.', '0']
  else digits.take n.toNat ++ '.' :: digits.drop n.toNat

/-- Writes digits with one of them before the point and a signed exponent of at
least two digits. -/
def exponentForm (digits : List Char) (e : Int) : List Char :=
  let mantissa :=
    match digits with
    | [] => []
    | [d] => [d]
    | d :: rest => d :: '.' :: rest
  let size := (Nat.repr e.natAbs).toList
  mantissa ++ 'e' :: (if e < 0 then '-' else '+') ::
    (if size.length < 2 then '0' :: size else size)

/-- A positive finite number: positional while the exponent of its leading digit
is at least -4 and below 16, and in exponent form otherwise. -/
def layout (d : Decimal.Digits) : List Char :=
  let digits := (Nat.repr d.digits).toList
  let leading : Int := digits.length + d.scale - 1
  if -4 ≤ leading ∧ leading < 16 then placePoint digits (leading + 1)
  else exponentForm digits leading

/-- The text of a number: the fewest digits that identify it. -/
def render (x : Binary64) : String :=
  if x.isNaN then "nan"
  else
    let sign := if x.isNegative then "-" else ""
    let body :=
      if x.isInfinite then "inf"
      else if x.isZero then "0.0"
      else String.ofList (layout x.magnitude.shortest)
    sign ++ body

end Binary64
end DescribedEffects
