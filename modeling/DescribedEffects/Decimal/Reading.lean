import DescribedEffects.Decimal.Binary64

/-!
# Reading decimal numbers

A decimal text is an optional sign and then digits with an optional point and an
optional exponent, or one of the words for an infinity and for what is not a
number.  It is read as the binary64 number nearest to the value it writes.

Blanks around the text do not count, and an underscore may stand between two digits,
where it does not count either.
-/

namespace DescribedEffects
namespace Decimal

/-- A decimal number before rounding: its digits as one integer, and the power of
ten they are scaled by. -/
structure Written where
  digits : Nat
  scale : Int

/-- A blank. -/
def isBlank (c : Char) : Bool := c.isWhitespace || c == '\x0b' || c == '\x0c'

/-- A text without the blanks around it. -/
def withoutBlanks (cs : List Char) : List Char :=
  ((cs.dropWhile isBlank).reverse.dropWhile isBlank).reverse

/-- A text without the underscores that stand between two digits. -/
def joinDigits : List Char → List Char
  | a :: '_' :: b :: rest =>
    if a.isDigit && b.isDigit then a :: joinDigits (b :: rest)
    else a :: '_' :: joinDigits (b :: rest)
  | c :: cs => c :: joinDigits cs
  | [] => []

/-- The value of a text of digits; there must be one at least. -/
def digitsValue? (cs : List Char) : Option Nat :=
  if cs.isEmpty || !cs.all Char.isDigit then none
  else some (cs.foldl (fun n c => 10 * n + (c.toNat - '0'.toNat)) 0)

/-- Takes off a sign: whether it was a minus, and the rest. -/
def takeSign : List Char → Bool × List Char
  | '-' :: rest => (true, rest)
  | '+' :: rest => (false, rest)
  | cs => (false, cs)

/-- Reads the exponent behind its letter. -/
def readExponent? : List Char → Option Int
  | [] => some 0
  | _ :: cs =>
    let (negative, digits) := takeSign cs
    (digitsValue? digits).map fun n => if negative then -(n : Int) else n

/-- Reads the digits around a point. -/
def readDigits? (cs : List Char) : Option Written :=
  let whole := cs.takeWhile (· != '.')
  let fraction := (cs.dropWhile (· != '.')).drop 1
  (digitsValue? (whole ++ fraction)).map fun n => ⟨n, -(fraction.length : Int)⟩

/-- Reads an unsigned number in digits. -/
def readWritten? (cs : List Char) : Option Written := do
  let isLetter (c : Char) : Bool := c == 'e' || c == 'E'
  let w ← readDigits? (cs.takeWhile fun c => !isLetter c)
  let e ← readExponent? (cs.dropWhile fun c => !isLetter c)
  pure { w with scale := w.scale + e }

/-- The binary64 number nearest to a decimal one. -/
def Written.round (w : Written) : Float :=
  Float.ofScientific w.digits (decide (w.scale < 0)) w.scale.natAbs

/-- Reads an unsigned number or a word for one. -/
def readMagnitude? (cs : List Char) : Option Float :=
  let word := String.ofList (cs.map Char.toLower)
  if word = "inf" ∨ word = "infinity" then some (1 / 0)
  else if word = "nan" then some (0 / 0)
  else (readWritten? cs).map Written.round

end Decimal

/-- Reads a number. -/
def Binary64.ofText? (s : String) : Option Binary64 :=
  let (negative, rest) := Decimal.takeSign (Decimal.joinDigits (Decimal.withoutBlanks s.toList))
  (Decimal.readMagnitude? rest).map fun x => ⟨(if negative then -x else x).toBits⟩

example : Decimal.joinDigits "1_0._5".toList = "10._5".toList := by decide +kernel
example : Decimal.withoutBlanks " 1 2\n".toList = "1 2".toList := by decide +kernel

end DescribedEffects
