import StackScript.Number.Shortest

/-
  Decimal numbers of any length.

  A decimal is an integer of digits and a scale, the number
  of them after the point; a negative scale appends zeros.
  Trailing zeros are kept, so one value has many decimals.
  Sums and products are exact, quotients carry at least a
  hundred digits, and `round` cuts a result to a precision.

  Key definitions include:
    * `Decimal`
    * `Decimal.add`, `Decimal.sub`, `Decimal.mul`
    * `Decimal.div`
    * `Decimal.rem`
    * `Decimal.compare`
    * `Decimal.round`
    * `Decimal.toBinary64`
    * `Decimal.ofBinary64?`
-/

namespace StackScript

/- The number `digits * 10 ^ (-scale)`. -/
structure Decimal where
  digits : Int
  scale : Int
deriving DecidableEq, Repr, Inhabited

namespace Decimal

------------------------------------------------------------
-- Construction and Views
------------------------------------------------------------

/- An integer as a decimal. -/
def ofInt (i : Int) : Decimal :=
  ⟨i, 0⟩

/- One. -/
def one : Decimal :=
  ofInt 1

/- The value is zero. -/
def isZero (a : Decimal) : Bool :=
  a.digits == 0

/- The value is below zero. -/
def isNegative (a : Decimal) : Bool :=
  decide (a.digits < 0)

/- How many digits are stored; zero has one. -/
def count (a : Decimal) : Nat :=
  Digits.count a.digits.natAbs

/- The digits at a scale that is not below the own one. -/
def digitsAt
    (a : Decimal)
    (scale : Int) : Int :=
  a.digits * Digits.tens (scale - a.scale).toNat

/- The integer part, the fraction dropped. -/
def truncate (a : Decimal) : Int :=
  (a.digits * Digits.tens (-a.scale).toNat).tdiv
    (Digits.tens a.scale.toNat)

/- The value is an integer. -/
def isIntegral (a : Decimal) : Bool :=
  a.digits % Digits.tens a.scale.toNat == 0

/- The same value without trailing zeros. -/
def normalize (a : Decimal) : Decimal :=
  if a.digits = 0 then ⟨0, 0⟩
  else
    let (m, k) := Digits.strip a.count a.digits.natAbs
    ⟨if a.digits < 0 then -(m : Int) else m, a.scale - k⟩

------------------------------------------------------------
-- Order
------------------------------------------------------------

/- Compare two decimals by value. -/
def compare (a b : Decimal) : Ordering :=
  let s := max a.scale b.scale
  Ord.compare (a.digitsAt s) (b.digitsAt s)

/- The first value is below the second. -/
def less (a b : Decimal) : Bool :=
  a.compare b == .lt

/- The value is one. -/
def isOne (a : Decimal) : Bool :=
  a.compare one == .eq

------------------------------------------------------------
-- Exact Arithmetic
------------------------------------------------------------

/- The negative. -/
def neg (a : Decimal) : Decimal :=
  ⟨-a.digits, a.scale⟩

/- The magnitude. -/
def abs (a : Decimal) : Decimal :=
  ⟨a.digits.natAbs, a.scale⟩

/- The sum, at the finer scale. -/
def add (a b : Decimal) : Decimal :=
  let s := max a.scale b.scale
  ⟨a.digitsAt s + b.digitsAt s, s⟩

/- The difference, at the finer scale. -/
def sub (a b : Decimal) : Decimal :=
  let s := max a.scale b.scale
  ⟨a.digitsAt s - b.digitsAt s, s⟩

/- The product. -/
def mul (a b : Decimal) : Decimal :=
  ⟨a.digits * b.digits, a.scale + b.scale⟩

/- The product, without trailing zeros when a factor is one. -/
def mulTidy (a b : Decimal) : Decimal :=
  if a = one then b.normalize
  else if b = one then a.normalize
  else a.mul b

/- The remainder, at the finer scale, with the dividend's sign. -/
def rem (a b : Decimal) : Decimal :=
  let s := max a.scale b.scale
  ⟨(a.digitsAt s).tmod (b.digitsAt s), s⟩

------------------------------------------------------------
-- Division
------------------------------------------------------------

/- How many digits a quotient is worked out to. -/
def quotientDigits : Nat :=
  100

/-
  Long division. Given the quotient so far, ten times the
  remainder, the scale and how many digits are still wanted,
  append digits until none is wanted or nothing remains;
  then round by the next digit.
-/
def longDivide
    (d : Nat) :
    Nat → Nat → Nat → Int → Nat × Int
| 0, q, r, s => (if 5 * d ≤ r then q + 1 else q, s)
| wanted + 1, q, r, s =>
    if r = 0 then (q, s)
    else longDivide d wanted (10 * q + r / d) (10 * (r % d)) (s + 1)

/- How many zeros make `n` at least `d`, both positive. -/
def zerosToReach (n d : Nat) : Nat :=
  let k := Digits.count d - Digits.count n
  if n * Digits.tens k < d then k + 1 else k

/- The quotient of two magnitudes, with the scale to start from. -/
def divide
    (n d : Nat)
    (scale : Int) : Nat × Int :=
  let k := zerosToReach n d
  let n := n * Digits.tens k
  let q := n / d
  let r := n % d
  if r = 0 then (q, scale + k)
  else
    longDivide d (quotientDigits - Digits.count q) q (10 * r)
      (scale + k)

/- The quotient, for a divisor that is not zero. -/
def div (a b : Decimal) : Decimal :=
  if a.isZero || b.isOne then a
  else if a.digits = b.digits then ⟨1, a.scale - b.scale⟩
  else
    let (q, s) :=
      divide a.digits.natAbs b.digits.natAbs (a.scale - b.scale)
    ⟨if a.isNegative == b.isNegative then q else -(q : Int), s⟩

------------------------------------------------------------
-- Rounding
------------------------------------------------------------

/- The first digit of a positive number is five or more. -/
def leadsHigh (n : Nat) : Bool :=
  decide (5 * Digits.tens (Digits.count n - 1) ≤ n)

/-
  Cut a decimal to `p` digits. A positive one goes up when
  the first digit cut is five or more; a negative one loses
  the digits.
-/
def cut
    (a : Decimal)
    (p : Nat) : Decimal :=
  let k := a.count - p
  let q := a.digits.tdiv (Digits.tens k)
  let r := a.digits.tmod (Digits.tens k)
  if Digits.tens k < 10 * r ∧ leadsHigh r.natAbs then
    ⟨q + 1, a.scale - k⟩
  else ⟨q, a.scale - k⟩

/- Keep at most `p` significant digits. -/
def round
    (a : Decimal)
    (p : Nat) : Decimal :=
  if p < a.count then a.cut p else a

------------------------------------------------------------
-- Floating-Point Numbers
------------------------------------------------------------

/- How often two divides a number, up to a bound. -/
def twos : Nat → Nat → Nat
| 0, _ => 0
| bound + 1, n => if n % 2 = 0 then twos bound (n / 2) + 1 else 0

/- The exact value of a finite floating-point number. -/
def ofBinary64? : Binary64 → Option Decimal
| .finite s m e _ =>
    if m = 0 then some ⟨0, 0⟩
    else
      let places := Nat.min (-e).toNat (twos 53 m)
      let m := m / Nat.pow 2 places
      let e := e + places
      let n : Int :=
        (Binary64.scaleUp m e * Nat.pow 5 (-e).toNat : Nat)
      some ⟨if s then -n else n, max 0 (-e)⟩
| _ => none

/- `10 ^ n` by squaring, rounded at every multiplication. -/
def tenPower : Nat → Nat → Binary64 → Binary64 → Binary64
| 0, _, r, _ => r
| steps + 1, n, r, a =>
    let r := if n % 2 = 1 then r.mul a else r
    if n / 2 = 0 then r else tenPower steps (n / 2) r (a.mul a)

/-
  A floating-point number near the value. Long digits lose
  their tail in blocks of nineteen first; then a fraction is
  rounded once, and an integer with appended zeros is the
  product of two rounded factors.
-/
def toBinary64 (a : Decimal) : Binary64 :=
  if a.digits = 0 then .zero false
  else if a.scale = 0 then .ofInt a.digits
  else
    let n := a.digits.natAbs
    let e : Nat :=
      (n.log2 + 2) * 30102999566398119521 / Digits.tens 20
    let tail : Nat := (e - 25) / 19 * 19
    let n := n / Digits.tens tail
    let s := a.scale - tail
    let x :=
      if 0 < s then Binary64.ofScientific false n (-s)
      else
        (Binary64.ofNat n).mul
          (tenPower 64 (-s).toNat .one (.ofNat 10))
    if a.digits < 0 then x.neg else x

end Decimal
end StackScript
