/-!
# Text between quotes

The textual form of a value writes every string between quotes, so that the form
can stand on one line and be told apart from the text around it.  This module
holds the quoting rule: which quote is chosen, which characters are escaped, and
how the escapes are spelled.

## Which quote

A single quote, unless the text holds a single quote and no double quote.  So at
most one kind of quote ever needs a backslash, and only where both occur.

## Which characters are hidden

A character that would not be seen on the page is written by its code point, in
the shortest of the widths two, four and eight.  `hiddenRanges` lists the
control, format, separator, private-use and noncharacter ranges; the plain space
is the one separator that is shown.
-/

namespace DescribedEffects
namespace Text

/-- Closed ranges of code points, ascending, that are never written as
themselves. -/
def hiddenRanges : List (Nat × Nat) :=
  [(0x00, 0x1F), (0x7F, 0xA0), (0xAD, 0xAD), (0x600, 0x605), (0x61C, 0x61C),
   (0x6DD, 0x6DD), (0x70F, 0x70F), (0x890, 0x891), (0x8E2, 0x8E2),
   (0x1680, 0x1680), (0x180E, 0x180E), (0x2000, 0x200F), (0x2028, 0x202F),
   (0x205F, 0x206F), (0x3000, 0x3000), (0xD800, 0xF8FF), (0xFDD0, 0xFDEF),
   (0xFEFF, 0xFEFF), (0xFFF0, 0xFFFB), (0xFFFE, 0xFFFF),
   (0x110BD, 0x110BD), (0x110CD, 0x110CD), (0x13430, 0x13438),
   (0x1BCA0, 0x1BCA3), (0x1D173, 0x1D17A), (0xE0000, 0xE00FF),
   (0xE01F0, 0x10FFFF)]

/-- Whether a character is written by its code point. -/
def isHidden (c : Char) : Bool :=
  hiddenRanges.any fun r => decide (r.1 ≤ c.toNat) && decide (c.toNat ≤ r.2)

/-- One hexadecimal digit, in lower case. -/
def hexDigit (n : Nat) : Char :=
  if n < 10 then Char.ofNat (48 + n) else Char.ofNat (87 + n)

/-- The last `width` hexadecimal digits of a number, padded with zeros. -/
def hex : Nat → Nat → List Char
  | 0, _ => []
  | width + 1, n => hex width (n / 16) ++ [hexDigit (n % 16)]

/-- The single quote. -/
def singleQuote : Char := '\x27'

/-- The double quote. -/
def doubleQuote : Char := '"'

/-- How a hidden character is spelled: the letter names the width that follows. -/
def codePoint (n : Nat) : List Char :=
  if n < 0x100 then '\\' :: 'x' :: hex 2 n
  else if n < 0x10000 then '\\' :: 'u' :: hex 4 n
  else '\\' :: 'U' :: hex 8 n

/-- The short escapes, which win over the code point: backslash, the quote in
use, and the three line characters. -/
def shortEscape? (quote c : Char) : Option Char :=
  if c = '\\' then some '\\'
  else if c = quote then some quote
  else if c = '\n' then some 'n'
  else if c = '\r' then some 'r'
  else if c = '\t' then some 't'
  else none

/-- One character as it stands between quotes. -/
def escape (quote c : Char) : List Char :=
  match shortEscape? quote c with
  | some letter => ['\\', letter]
  | none => if isHidden c then codePoint c.toNat else [c]

/-- The quote a text is written with. -/
def quoteFor (s : List Char) : Char :=
  if s.contains singleQuote && !s.contains doubleQuote then doubleQuote else singleQuote

/-- A text between quotes. -/
def quoted (s : String) : String :=
  let cs := s.toList
  let q := quoteFor cs
  String.ofList (q :: cs.flatMap (escape q) ++ [q])

/-- One byte as it stands between quotes: only the visible ASCII characters are
written as themselves. -/
def escapeByte (quote : Char) (b : UInt8) : List Char :=
  let c := Char.ofNat b.toNat
  match shortEscape? quote c with
  | some letter => ['\\', letter]
  | none =>
    if b.toNat < 0x20 || 0x7F ≤ b.toNat then '\\' :: 'x' :: hex 2 b.toNat else [c]

/-- A byte string between quotes, marked by a leading `b`. -/
def quotedBytes (bs : List UInt8) : String :=
  let q := quoteFor (bs.map fun b => Char.ofNat b.toNat)
  String.ofList ('b' :: q :: bs.flatMap (escapeByte q) ++ [q])

example : quoted "it" = "'it'" := by decide +kernel
example : quoted "a\x27b" = "\"a\x27b\"" := by decide +kernel
example : quoted "\x00é\u200b" = "'\\x00é\\u200b'" := by decide +kernel
example : quotedBytes [0x61, 0x0A, 0xFF] = "b'a\\n\\xff'" := by decide +kernel

end Text
end DescribedEffects
