import StackScript.Number.Digits

/-
  Binary floating-point numbers of sixty-four bits.

  A finite number is a mantissa times a power of two, in
  the one form that the bit pattern allows. Every operation
  computes the exact rational result and rounds it to the
  nearest number, a tie to the even mantissa.

  Key definitions include:
    * `Binary64`
    * `Binary64.ofFraction`
    * `Binary64.ofInt`
    * `Binary64.ofScientific`
    * `Binary64.truncate?`
    * `Binary64.mul`
    * `Binary64.div`
-/

namespace StackScript

------------------------------------------------------------
-- The Type
------------------------------------------------------------

/-
  A mantissa and an exponent that stand for themselves: the
  mantissa has fifty-three bits, or the exponent is the
  least one and the mantissa has fewer.
-/
def Canonical
    (mantissa : Nat)
    (exponent : Int) : Prop :=
  mantissa < Nat.pow 2 53 ∧
    -1074 ≤ exponent ∧
    exponent ≤ 971 ∧
    (Nat.pow 2 52 ≤ mantissa ∨ exponent = -1074)

instance
    (mantissa : Nat)
    (exponent : Int) :
    Decidable (Canonical mantissa exponent) := by
  unfold Canonical
  infer_instance

/- A binary floating-point number of sixty-four bits. -/
inductive Binary64 where
| nan
| infinite (negative : Bool)
| finite
    (negative : Bool)
    (mantissa : Nat)
    (exponent : Int)
    (canonical : Canonical mantissa exponent)
deriving DecidableEq, Repr

namespace Binary64

/- A number with the given parts; past the range, infinity. -/
def make
    (negative : Bool)
    (mantissa : Nat)
    (exponent : Int) : Binary64 :=
  if h : Canonical mantissa exponent then
    .finite negative mantissa exponent h
  else .infinite negative

/- Zero, with a sign. -/
def zero (negative : Bool) : Binary64 :=
  .finite negative 0 (-1074) (by decide)

instance : Inhabited Binary64 :=
  ⟨zero false⟩

------------------------------------------------------------
-- Rounding
------------------------------------------------------------

/- `n` times `2 ^ e`, or `n` itself when `e` is negative. -/
def scaleUp
    (n : Nat)
    (e : Int) : Nat :=
  n * Nat.pow 2 e.toNat

/- The integer nearest to `n / d`, a tie to the even one. -/
def nearest (n d : Nat) : Nat :=
  let q := n / d
  let r := n % d
  if d < 2 * r ∨ (d = 2 * r ∧ q % 2 = 1) then q + 1 else q

/- The greatest `k` with `2 ^ k ≤ n / d`, for positive `n`, `d`. -/
def floorLog2 (n d : Nat) : Int :=
  let k := (n.log2 : Int) - d.log2
  if scaleUp d k ≤ scaleUp n (-k) then k else k - 1

/- The number nearest to a fraction. -/
def ofFraction
    (negative : Bool)
    (n d : Nat) : Binary64 :=
  if n = 0 ∨ d = 0 then zero negative
  else
    let e := max (floorLog2 n d - 52) (-1074)
    let m := nearest (scaleUp n (-e)) (scaleUp d e)
    if m = Nat.pow 2 53 then make negative (Nat.pow 2 52) (e + 1)
    else make negative m e

/- The number nearest to a natural number. -/
def ofNat (n : Nat) : Binary64 :=
  ofFraction false n 1

/- The number nearest to an integer. -/
def ofInt (i : Int) : Binary64 :=
  ofFraction (decide (i < 0)) i.natAbs 1

/- One. -/
def one : Binary64 :=
  ofNat 1

/-
  The number nearest to `n * 10 ^ e`. Beyond four hundred
  places of the point nothing finite and nothing but zero
  is left.
-/
def ofScientific
    (negative : Bool)
    (n : Nat)
    (e : Int) : Binary64 :=
  if n = 0 then zero negative
  else if 400 < Digits.count n + e then .infinite negative
  else if Digits.count n + e < -400 then zero negative
  else 
    ofFraction negative
      (n * Digits.tens e.toNat) (Digits.tens (-e).toNat)

------------------------------------------------------------
-- Views
------------------------------------------------------------

/- Zero of either sign. -/
def isZero : Binary64 → Bool
| .finite _ m _ _ => m == 0
| _ => false

/- Neither infinite nor a NaN. -/
def isFinite : Binary64 → Bool
| .finite .. => true
| _ => false

/- The sign, as the bit pattern has it. -/
def isNegative : Binary64 → Bool
| .nan => false
| .infinite s => s
| .finite s _ _ _ => s

/- A finite number without a fraction. -/
def isIntegral : Binary64 → Bool
| .finite _ m e _ => m % Nat.pow 2 (-e).toNat == 0
| _ => false

/- The integer part, the fraction dropped, of a finite number. -/
def truncate? : Binary64 → Option Int
| .finite s m e _ =>
    let n : Int := (scaleUp m e / Nat.pow 2 (-e).toNat : Nat)
    some (if s then -n else n)
| _ => none

/- The same number with the other sign. -/
def neg : Binary64 → Binary64
| .nan => .nan
| .infinite s => .infinite (!s)
| .finite s m e h => .finite (!s) m e h

------------------------------------------------------------
-- Multiplication and Division
------------------------------------------------------------

/- The product, rounded. -/
def mul : Binary64 → Binary64 → Binary64
| .nan, _ => .nan
| _, .nan => .nan
| .infinite s, y =>
    if y.isZero then .nan else .infinite (s != y.isNegative)
| x, .infinite t =>
    if x.isZero then .nan else .infinite (x.isNegative != t)
| .finite s m e _, .finite t n f _ =>
    ofFraction (s != t)
      (scaleUp (m * n) (e + f)) (Nat.pow 2 (-(e + f)).toNat)

/- The quotient, rounded. -/
def div : Binary64 → Binary64 → Binary64
| .nan, _ => .nan
| _, .nan => .nan
| .infinite _, .infinite _ => .nan
| .infinite s, y => .infinite (s != y.isNegative)
| x, .infinite t => zero (x.isNegative != t)
| .finite s m e _, .finite t n f _ =>
    if n = 0 then
      if m = 0 then .nan else .infinite (s != t)
    else
      ofFraction (s != t)
        (scaleUp m (e - f)) (scaleUp n (f - e))

------------------------------------------------------------
-- Bit Patterns
------------------------------------------------------------

/- The bit pattern of a number. -/
def toBits : Binary64 → UInt64
| .nan => 0x7ff8000000000000
| .infinite s => if s then 0xfff0000000000000 else 0x7ff0000000000000
| .finite s m e _ =>
    let sign := if s then Nat.pow 2 63 else 0
    let body :=
      if m < Nat.pow 2 52 then m
      else (e + 1075).toNat * Nat.pow 2 52 + (m - Nat.pow 2 52)
    UInt64.ofNat (sign + body)

/- The number with a bit pattern. -/
def ofBits (bits : UInt64) : Binary64 :=
  let n := bits.toNat
  let s := decide (Nat.pow 2 63 ≤ n)
  let e : Nat := n / Nat.pow 2 52 % Nat.pow 2 11
  let m : Nat := n % Nat.pow 2 52
  if e = 2047 then
    if m = 0 then .infinite s else .nan
  else if e = 0 then make s m (-1074)
  else make s (m + Nat.pow 2 52) ((e : Int) - 1075)

------------------------------------------------------------
-- Transcendental Functions
------------------------------------------------------------

/- A function of the machine's floating-point unit. -/
def lift
    (f : Float → Float)
    (x : Binary64) : Binary64 :=
  ofBits (f (Float.ofBits x.toBits)).toBits

/- The sine of an angle in radians. -/
def sin : Binary64 → Binary64 :=
  lift Float.sin

/- The cosine of an angle in radians. -/
def cos : Binary64 → Binary64 :=
  lift Float.cos

/- `x` to the power `y`. -/
def pow (x y : Binary64) : Binary64 :=
  ofBits
    (Float.pow
      (Float.ofBits x.toBits) (Float.ofBits y.toBits)).toBits

end Binary64
end StackScript
