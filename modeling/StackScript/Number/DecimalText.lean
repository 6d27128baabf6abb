import StackScript.Number.Decimal

/-
  Decimals as text.

  `display` is what programs print: positional, without
  trailing zeros. `stored` keeps every digit and the scale
  of a value that is not zero. `read?` accepts both, and an
  exponent.

  Key definitions include:
    * `Decimal.display`
    * `Decimal.stored`
    * `Decimal.read?`
-/

namespace StackScript
namespace Decimal

------------------------------------------------------------
-- Writing
------------------------------------------------------------

/- A sign where the digits are negative. -/
def sign (a : Decimal) : List Char :=
  if a.digits < 0 then ['-'] else []

/- The magnitude without an exponent, every digit kept. -/
def positional (a : Decimal) : List Char :=
  let ds := Digits.write a.digits.natAbs
  if a.scale ≤ 0 then ds ++ Digits.zeros (-a.scale).toNat
  else
    let k := a.scale.toNat
    let ds := Digits.zeros (k + 1 - ds.length) ++ ds
    ds.take (ds.length - k) ++ ['.'] ++ ds.drop (ds.length - k)

/- The text that programs see. -/
def display (a : Decimal) : List Char :=
  let a := a.normalize
  a.sign ++ a.positional

/- The magnitude with one digit before the point. -/
def scientific (a : Decimal) : List Char :=
  let ds := Digits.write a.digits.natAbs
  ds.take 1
    ++ (if ds.length ≤ 1 then [] else '.' :: ds.drop 1)
    ++ ['E'] ++ Digits.writeInt ((ds.length : Int) - 1 - a.scale)

/-
  The text that stored data carry: an exponent is written
  for more than five zeros after the point and for more than
  fifteen appended ones.
-/
def stored (a : Decimal) : List Char :=
  if a.digits = 0 then ['0']
  else if 5 < a.scale - a.count then a.sign ++ a.scientific
  else if a.scale < -15 then
    a.sign ++ Digits.write a.digits.natAbs
      ++ ['e', '+'] ++ Digits.writeInt (-a.scale)
  else a.sign ++ a.positional

------------------------------------------------------------
-- Reading
------------------------------------------------------------

/- Digits that may be grouped by underscores, not at the front. -/
def readDigits? (cs : List Char) : Option Nat :=
  if cs.head? = some '_' then none
  else Digits.read? 10 (cs.filter (· ≠ '_'))

/- Grouped digits with an optional sign. -/
def readSigned? (cs : List Char) : Option Int :=
  match cs with
  | '-' :: ds => (readDigits? ds).map fun n => -(n : Int)
  | '+' :: ds => (readDigits? ds).map fun n => (n : Int)
  | ds => (readDigits? ds).map fun n => (n : Int)

/-
  The digits of a mantissa, its point dropped, and how many
  of them stand after the point.
-/
def splitPoint (cs : List Char) : List Char × Nat :=
  let whole := cs.takeWhile (· ≠ '.')
  match cs.dropWhile (· ≠ '.') with
  | [] => (whole, 0)
  | _ :: fraction =>
      (whole ++ fraction, (fraction.filter (· ≠ '_')).length)

/- A character that starts an exponent. -/
def isExponentMark (c : Char) : Bool :=
  c == 'e' || c == 'E'

/- The decimal that a text denotes, digits kept as written. -/
def read? (cs : List Char) : Option Decimal := do
  let mantissa := cs.takeWhile (!isExponentMark ·)
  let exponent ←
    match cs.dropWhile (!isExponentMark ·) with
    | [] => some 0
    | _ :: es => Binary64.readExponent? es
  let (ds, places) := splitPoint mantissa
  let n ← readSigned? ds
  some ⟨n, places - exponent⟩

end Decimal
end StackScript
