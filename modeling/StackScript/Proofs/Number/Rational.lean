import StackScript.Proofs.Number.StoredDecimal

/-
  Decimals as rational numbers.

  Order, sums, differences and products of decimals are
  those of the numbers that they denote.

  Key theorems include:
    * `Decimal.compare_eq`
    * `Decimal.value_add`
    * `Decimal.value_sub`
    * `Decimal.value_mul`
-/

namespace StackScript
namespace Decimal

variable {a b : Decimal}

------------------------------------------------------------
-- Signs
------------------------------------------------------------

theorem value_eq_zero_iff : a.value = 0 ↔ a.digits = 0 := by
  unfold value
  rw [mul_eq_zero, Int.cast_eq_zero]
  have hPower : (10 : ℚ) ^ (-a.scale) ≠ 0 := by positivity
  exact or_iff_left hPower

theorem isZero_iff : a.isZero = true ↔ a.value = 0 := by
  unfold isZero
  rw [beq_iff_eq, value_eq_zero_iff]

theorem value_neg_iff : a.value < 0 ↔ a.digits < 0 := by
  have hPower : (0 : ℚ) < 10 ^ (-a.scale) := by positivity
  unfold value
  rw [Rat.mul_neg_iff_of_pos_right hPower, Int.cast_lt_zero]

theorem value_pos_iff : 0 < a.value ↔ 0 < a.digits := by
  have hPower : (0 : ℚ) < 10 ^ (-a.scale) := by positivity
  unfold value
  rw [mul_pos_iff_of_pos_right hPower, Int.cast_pos]

theorem abs_value :
    |a.value| = a.digits.natAbs * (10 : ℚ) ^ (-a.scale) := by
  unfold value
  rw [abs_mul, abs_of_pos (by positivity : (0 : ℚ) < 10 ^ (-a.scale)),
    Nat.cast_natAbs, Int.cast_abs]

theorem value_ofInt (i : Int) : (ofInt i).value = i := by
  simp [value, ofInt]

------------------------------------------------------------
-- Common Scales
------------------------------------------------------------

/- At a finer scale a decimal has more digits. -/
theorem digitsAt_eq
    {s : Int}
    (h : a.scale ≤ s) :
    (a.digitsAt s : ℚ) = a.value * (10 : ℚ) ^ s := by
  have hPower :
      ((Digits.tens (s - a.scale).toNat : Nat) : ℚ) =
        (10 : ℚ) ^ (-a.scale) * (10 : ℚ) ^ s := by
    rw [← zpow_add₀ (by norm_num),
      show -a.scale + s = ((s - a.scale).toNat : Int) by omega,
      zpow_natCast]
    exact Nat.cast_pow 10 _
  unfold digitsAt value
  push_cast
  rw [hPower, mul_assoc]

/- Decimals are compared by value. -/
theorem compare_eq (a b : Decimal) :
    a.compare b = cmp a.value b.value := by
  have hPower : (0 : ℚ) < 10 ^ max a.scale b.scale := by positivity
  unfold compare
  dsimp only
  rw [← cmp_eq_compare,
    ← (Int.cast_strictMono (R := ℚ)).cmp_map_eq,
    digitsAt_eq (Int.le_max_left _ _), digitsAt_eq (Int.le_max_right _ _),
    cmp_mul_pos_right hPower]

theorem isOne_iff : a.isOne = true ↔ a.value = 1 := by
  unfold isOne one
  rw [beq_iff_eq, compare_eq, cmp_eq_eq_iff, value_ofInt, Int.cast_one]

------------------------------------------------------------
-- Exact Operations
------------------------------------------------------------

theorem value_add (a b : Decimal) :
    (a.add b).value = a.value + b.value := by
  have hPower : (10 : ℚ) ^ max a.scale b.scale ≠ 0 := by positivity
  unfold add
  dsimp only
  conv_lhs => unfold value
  push_cast
  rw [digitsAt_eq (Int.le_max_left _ _), digitsAt_eq (Int.le_max_right _ _),
    zpow_neg, ← add_mul, mul_inv_cancel_right₀ hPower]

theorem value_sub (a b : Decimal) :
    (a.sub b).value = a.value - b.value := by
  have hPower : (10 : ℚ) ^ max a.scale b.scale ≠ 0 := by positivity
  unfold sub
  dsimp only
  conv_lhs => unfold value
  push_cast
  rw [digitsAt_eq (Int.le_max_left _ _), digitsAt_eq (Int.le_max_right _ _),
    zpow_neg, ← sub_mul, mul_inv_cancel_right₀ hPower]

theorem value_mul (a b : Decimal) :
    (a.mul b).value = a.value * b.value := by
  unfold mul value
  dsimp only
  push_cast
  rw [neg_add, zpow_add₀ (by norm_num)]
  ring

end Decimal
end StackScript
