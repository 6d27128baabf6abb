import StackScript.Number.Digits
import StackScript.Text.Quoted

/-
  Text and its escaped form between quotes.

  Only a quote, a backslash and control characters are
  escaped. Any character may be written by its code units in
  hexadecimal; a unit that is half of a pair means nothing
  without the other half.

  Key definitions include:
    * `Json.escape`
    * `Json.unescape?`
-/

namespace StackScript
namespace Json

------------------------------------------------------------
-- Escaping
------------------------------------------------------------

/- The escaped form of a character. -/
def escapeChar (c : Char) : List Char :=
  if c = '"' then ['\\', '"']
  else if c = '\\' then ['\\', '\\']
  else if c = '\n' then ['\\', 'n']
  else if c = '\t' then ['\\', 't']
  else if c = '\r' then ['\\', 'r']
  else if c = '\x08' then ['\\', 'b']
  else if c = '\x0c' then ['\\', 'f']
  else if c.toNat < 0x20 then
    let ds := Text.hex c.toNat
    ['\\', 'u'] ++ Digits.zeros (4 - ds.length) ++ ds
  else [c]

/- The escaped form of a text. -/
def escape (text : List Char) : List Char :=
  text.flatMap escapeChar

------------------------------------------------------------
-- Resolving Escapes
------------------------------------------------------------

/- The character that a letter after a backslash stands for. -/
def letter? (c : Char) : Option Char :=
  if c = '"' ∨ c = '\\' ∨ c = '/' then some c
  else if c = 'n' then some '\n'
  else if c = 't' then some '\t'
  else if c = 'r' then some '\r'
  else if c = 'b' then some '\x08'
  else if c = 'f' then some '\x0c'
  else none

/- A unit that is the first half of a pair. -/
def isHigh (unit : Nat) : Bool :=
  decide (0xd800 ≤ unit) && decide (unit < 0xdc00)

/- A unit that is the second half of a pair. -/
def isLow (unit : Nat) : Bool :=
  decide (0xdc00 ≤ unit) && decide (unit < 0xe000)

/- The code point of a pair of units. -/
def pair (high low : Nat) : Nat :=
  0x10000 + (high - 0xd800) * 0x400 + (low - 0xdc00)

/-
  Resolve escapes from the left. The first argument is the
  first half of a pair whose second half has to follow.
-/
def unescapeAfter? :
    Option Nat → List Char → Option (List Char)
| none, [] => some []
| some _, [] => none
| high?, '\\' :: 'u' :: a :: b :: c :: d :: cs =>
    match Digits.read? 16 [a, b, c, d], high? with
    | none, _ => none
    | some unit, some high =>
        if isLow unit then
          (unescapeAfter? none cs).map
            (Char.ofNat (pair high unit) :: ·)
        else none
    | some unit, none =>
        if isHigh unit then unescapeAfter? (some unit) cs
        else if isLow unit then none
        else
          (unescapeAfter? none cs).map (Char.ofNat unit :: ·)
| some _, _ :: _ => none
| none, '\\' :: c :: cs =>
    match letter? c with
    | none => none
    | some r => (unescapeAfter? none cs).map (r :: ·)
| none, c :: cs => (unescapeAfter? none cs).map (c :: ·)

/- The text that an escaped form stands for, if it is one. -/
def unescape? (raw : List Char) : Option (List Char) :=
  unescapeAfter? none raw

end Json
end StackScript
