import StackScript.Proofs.Number.Power
import StackScript.Proofs.Number.Quotient

/-
  Signs of decimals.

  Where at least one digit is kept the first one is, so that
  no rounding turns a number into zero or to the other side
  of it. Neither do powers, which are rounded at every
  product, and the steps to a root of a positive number stay
  positive.

  Key theorems include:
    * `Decimal.round_ne_zero`
    * `Decimal.quotient_pos`
    * `Decimal.power_ne_zero`
    * `Decimal.rootStep_pos`
-/

namespace StackScript
namespace Decimal

open Significant

variable {a b x : Decimal}
variable {n p : Nat}

------------------------------------------------------------
-- Roundings and Quotients
------------------------------------------------------------

theorem kept_pos
    {h y : ℚ}
    (hp : 1 ≤ p)
    (hh : 0 ≤ h)
    (hy : 0 < y) :
    0 < kept p h y :=
  lt_of_lt_of_le (by positivity) (place_le_kept hp hh hy)

theorem round_pos
    (hp : 1 ≤ p)
    (ha : 0 < a.value) :
    0 < (a.round p).value := by
  rw [value_round a hp, rounded_of_nonneg ha.le]
  exact kept_pos hp (by norm_num) ha

/- Below zero the digits are cut, and the first one is left. -/
theorem round_neg
    (hp : 1 ≤ p)
    (ha : a.value < 0) :
    (a.round p).value < 0 := by
  rw [value_round a hp, rounded_of_neg ha]
  exact neg_neg_of_pos (kept_pos hp le_rfl (neg_pos.2 ha))

theorem round_ne_zero
    (hp : 1 ≤ p)
    (ha : a.value ≠ 0) :
    (a.round p).value ≠ 0 := by
  rcases lt_or_gt_of_ne ha with hNeg | hPos
  · exact (round_neg hp hNeg).ne
  · exact (round_pos hp hPos).ne'

/- A quotient is rounded at a hundred digits or more. -/
theorem quotient_pos
    (ha : 0 < a.value)
    (hb : 0 < b.value) :
    0 < (a.div b).value := by
  have hQuotient : 0 < a.value / b.value := div_pos ha hb
  rcases value_div a hb.ne' with ⟨g, hg, hValue⟩
  rw [hValue, nearest_of_nonneg hQuotient.le]
  exact kept_pos (by omega) (by norm_num) hQuotient

------------------------------------------------------------
-- Powers
------------------------------------------------------------

/-
  What products and roundings keep of the base, and what one
  has, holds of its powers.
-/
theorem power_of_closed
    {P : ℚ → Prop}
    (hOne : P 1)
    (hMul : ∀ {y z}, P y → P z → P (y * z))
    (hRound : ∀ {c : Decimal}, P c.value → P (c.round p).value)
    (ha : P a.value)
    (e : Nat) :
    P (a.power e p).value := by
  have hProduct
      {r s : Decimal}
      (hr : P r.value)
      (hs : P s.value) :
      P ((r.mulTidy s).round p).value := by
    apply hRound
    rw [value_mulTidy]
    exact hMul hr hs
  refine power_induct
    (R := fun _ r => P r.value)
    (S := fun _ s => P s.value)
    (fun _ hr hs => hProduct hr hs) (fun _ hs => hProduct hs hs) ?_ ha
  rw [value_one]
  exact hOne

theorem power_ne_zero
    (hp : 1 ≤ p)
    (ha : a.value ≠ 0)
    (e : Nat) :
    (a.power e p).value ≠ 0 :=
  power_of_closed (P := fun y => y ≠ 0) one_ne_zero mul_ne_zero
    (round_ne_zero hp) ha e

theorem power_pos
    (hp : 1 ≤ p)
    (ha : 0 < a.value)
    (e : Nat) :
    0 < (a.power e p).value :=
  power_of_closed (P := fun y => 0 < y) one_pos mul_pos
    (round_pos hp) ha e

------------------------------------------------------------
-- Steps to a Root
------------------------------------------------------------

theorem value_ofInt_pos (hn : 1 ≤ n) : 0 < (ofInt n).value := by
  rw [value_ofInt]
  exact_mod_cast hn

/- The sum that a step divides by the degree. -/
theorem sum_pos
    (hn : 1 ≤ n)
    (hx : 0 < x.value)
    (hb : 0 < b.value) :
    0 < ((x.mul ((ofInt n).sub one)).add b).value := by
  have hFactor : (1 : ℚ) ≤ n := by exact_mod_cast hn
  have hOld : 0 ≤ x.value * ((n : ℚ) - 1) :=
    mul_nonneg hx.le (sub_nonneg.2 hFactor)
  rw [value_add, value_mul, value_sub, value_ofInt, value_one,
    Int.cast_natCast]
  exact add_pos_of_nonneg_of_pos hOld hb

/- A step from a positive number leads to a positive one. -/
theorem rootStep_pos
    (hn : 1 ≤ n)
    (hp : 1 ≤ p)
    (ha : 0 < a.value)
    (hx : 0 < x.value) :
    0 < (a.rootStep n p x).value := by
  have hRatio : 0 < (a.div (x.power (n - 1) p)).value :=
    quotient_pos ha (power_pos hp hx (n - 1))
  have hSum := sum_pos hn hx (round_pos hp hRatio)
  unfold rootStep
  exact round_pos hp (quotient_pos hSum (value_ofInt_pos hn))

end Decimal
end StackScript
