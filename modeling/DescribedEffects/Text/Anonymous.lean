/-!
# Texts without addresses

A computation or coroutine is displayed with a number after `at 0x` that tells it
from others and means nothing to a reader.  `anonymous` takes such numbers out of a
text, and the names before them: what remains is `<generator object>` or
`<coroutine object>`.

The text alone decides.  A *mention* begins with an angle bracket, the noun and a
space, and ends at the first `at 0x`, hexadecimal digits and closing bracket that
follow on the same line, whatever stands between; so a text that only looks like a
mention counts as one.  Mentions do not overlap, and what is written in the place of
one is none.
-/

namespace DescribedEffects
namespace Text

/-- What mentions begin with, and what is written in their place. -/
def mentions : List (String × String) :=
  [("<generator object ", "<generator object>"), ("<coroutine object ", "<coroutine object>")]

/-- A hexadecimal digit, in lower case. -/
def isAddressDigit (c : Char) : Bool := c.isDigit || ('a' ≤ c && c ≤ 'f')

/-- The length of the address that a text begins with, its closing bracket included. -/
def addressLength? (cs : List Char) : Option Nat :=
  let mark := " at 0x".toList
  if mark.isPrefixOf cs then
    let digits := (cs.drop mark.length).takeWhile isAddressDigit
    let size := mark.length + digits.length
    if digits.isEmpty then none
    else if (cs.drop size).head? = some '>' then some (size + 1) else none
  else none

/-- How far it is to the end of the first address in a text, if there is one on its
first line. -/
def toAddressEnd? : List Char → Option Nat
  | [] => none
  | c :: cs =>
    match addressLength? (c :: cs) with
    | some n => some n
    | none => if c = '\n' then none else (toAddressEnd? cs).map (· + 1)

/-- The mention that a text begins with: its length, and what is written instead. -/
def mention? (cs : List Char) : Option (Nat × List Char) :=
  mentions.findSome? fun (opening, short) =>
    let start := opening.toList
    if start.isPrefixOf cs then
      (toAddressEnd? (cs.drop start.length)).map fun n => (start.length + n, short.toList)
    else none

/-- A text without the mentions in it; the first `skip` characters are those of a
mention that has been dealt with. -/
def withoutMentions : (skip : Nat) → List Char → List Char
  | _, [] => []
  | skip + 1, _ :: cs => withoutMentions skip cs
  | 0, c :: cs =>
    match mention? (c :: cs) with
    | some (n, short) => short ++ withoutMentions (n - 1) cs
    | none => c :: withoutMentions 0 cs

/-- A text without addresses. -/
def anonymous (s : String) : String := String.ofList (withoutMentions 0 s.toList)

example : anonymous "[<generator object f at 0x2a>]" = "[<generator object>]" := by decide +kernel
example : anonymous "<generator object f at 0x>" = "<generator object f at 0x>" := by
  decide +kernel

end Text
end DescribedEffects
