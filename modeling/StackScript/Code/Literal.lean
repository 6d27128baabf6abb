import StackScript.Code.Basic
import StackScript.Text.Blank

/-
  Numeric text.

  A number is an optional sign and then binary digits after
  `0b`, hexadecimal digits after `0x`, decimal digits, or
  decimal digits on both sides of a point. Blanks around it
  do not count.

  Key definitions include:
    * `Constant.ofText?`
-/

namespace StackScript
namespace Constant

/- A sign and what follows it. -/
def splitSign : List Char → Bool × List Char
| '-' :: cs => (true, cs)
| '+' :: cs => (false, cs)
| cs => (false, cs)

/- A magnitude with a sign. -/
def signed
    (negative : Bool)
    (n : Nat) : Int :=
  if negative then -(n : Int) else n

/- The decimal that digits on both sides of a point denote. -/
def fraction?
    (negative : Bool)
    (cs : List Char) : Option Decimal :=
  let whole := cs.takeWhile (· ≠ '.')
  match cs.dropWhile (· ≠ '.') with
  | [] => none
  | _ :: places =>
      if (Digits.read? 10 whole).isSome then
        if (Digits.read? 10 places).isSome then
          some
            ⟨signed negative (Digits.read 10 (whole ++ places)),
             places.length⟩
        else none
      else none

/- The constant that digits after a sign denote. -/
def unsigned?
    (negative : Bool)
    (cs : List Char) : Option Constant :=
  let integer (n : Nat) := ofInt (signed negative n)
  match cs with
  | '0' :: 'b' :: ds => (Digits.read? 2 ds).map integer
  | '0' :: 'x' :: ds => (Digits.read? 16 ds).map integer
  | ds =>
      match Digits.read? 10 ds with
      | some n => some (integer n)
      | none => (fraction? negative ds).map .decimal

/- The constant that a numeric text denotes. -/
def ofText? (text : String) : Option Constant :=
  let (negative, cs) := splitSign (Text.trim text.toList)
  unsigned? negative cs

end Constant
end StackScript
