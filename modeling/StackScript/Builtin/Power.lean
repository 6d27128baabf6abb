import StackScript.Builtin.Error

/-
  Powers and roots of decimals.

  Key definitions include:
    * `Decimal.power`
    * `Decimal.rootStep`
    * `Decimal.root`
-/

namespace StackScript
namespace Decimal

------------------------------------------------------------
-- Powers
------------------------------------------------------------

/-
  Multiply `result` by `square` to the power `e`, squaring
  and halving at most `steps` times and keeping every
  product to a precision.
-/
def powerFrom
    (precision : Nat) :
    Nat → Decimal → Decimal → Nat → Decimal
| 0, result, _, _ => result
| steps + 1, result, square, e =>
    if e = 0 then result
    else
      let result :=
        if e % 2 = 1 then
          (result.mulTidy square).round precision
        else result
      powerFrom precision steps result
        ((square.mulTidy square).round precision) (e / 2)

/- A decimal to a natural power, rounded at every product. -/
def power
    (a : Decimal)
    (e precision : Nat) : Decimal :=
  powerFrom precision (e.log2 + 1) one a e

------------------------------------------------------------
-- Roots
------------------------------------------------------------

/- How often an approximation is improved at most. -/
def rootIterations : Nat :=
  500

/- A first approximation to the `n`th root, by floating point. -/
def rootGuess
    (a : Decimal)
    (n : Nat) : Decimal :=
  let g := a.toBinary64.pow (Binary64.div .one (.ofNat n))
  if g.isFinite && !g.isNegative && !g.isZero then
    (ofBinary64? g).getD one
  else one

/- A better approximation to the `n`th root of `a` than `x`. -/
def rootStep
    (a : Decimal)
    (n working : Nat)
    (x : Decimal) : Decimal :=
  let correction := (a.div (x.power (n - 1) working)).round working
  let sum := (x.mul ((ofInt n).sub one)).add correction
  (sum.div (ofInt n)).round working

/-
  Improve an approximation until it moves by less than a
  tolerance, at most `steps` times.
-/
def refineRoot
    (a : Decimal)
    (n working : Nat)
    (tolerance : Decimal) :
    Nat → Decimal → Decimal
| 0, x => x
| steps + 1, x =>
    let next := a.rootStep n working x
    if (next.sub x).abs.less tolerance then next
    else refineRoot a n working tolerance steps next

/- The `n`th root of a positive decimal, to a precision. -/
def root
    (a : Decimal)
    (n precision : Nat) : Decimal :=
  let x :=
    refineRoot a n (precision + 5) ⟨1, precision + 2⟩
      rootIterations (a.rootGuess n)
  x.round precision

end Decimal
end StackScript
