import StackScript.Text.Invisible

/-
  Text between double quotes, on one line and readable.

  A double quote, a backslash, and the four common control
  characters get a backslash; any other invisible character
  is written by its code point in hexadecimal.

  Key definitions include:
    * `Text.hex`
    * `Text.quoted`
-/

namespace StackScript
namespace Text

------------------------------------------------------------
-- Hexadecimal
------------------------------------------------------------

/- Lower-case hexadecimal digits without leading zeros. -/
def hex (n : Nat) : List Char :=
  Nat.toDigits 16 n

------------------------------------------------------------
-- Quoting
------------------------------------------------------------

/- How one character stands inside a quoted text. -/
def quotedChar (c : Char) : List Char :=
  if c = '"' then ['\\', '"']
  else if c = '\\' then ['\\', '\\']
  else if c = '\n' then ['\\', 'n']
  else if c = '\t' then ['\\', 't']
  else if c = '\r' then ['\\', 'r']
  else if c = '\x00' then ['\\', '0']
  else if isInvisible c then
    ['\\', 'u', '\x7b'] ++ hex c.toNat ++ ['\x7d']
  else [c]

/- A text between double quotes. -/
def quoted (text : String) : String :=
  String.ofList
    (['"'] ++ text.toList.flatMap quotedChar ++ ['"'])

end Text
end StackScript
