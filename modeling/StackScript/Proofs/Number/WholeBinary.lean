import StackScript.Proofs.Number.NearestBinary

/-
  Floating-point numbers that are integers.

  What the parts of a number say about its fraction, its
  integer part and zero, in terms of the rational number
  that it is.

  Key theorems include:
    * `Binary64.isZero_iff`
    * `Binary64.isIntegral_iff`
    * `Binary64.truncate?_of_value`
    * `Binary64.abs_value_lt_of_not_isIntegral`
-/

namespace StackScript
namespace Binary64

variable {m : Nat}
variable {e : Int}
variable {x : Binary64}

------------------------------------------------------------
-- Magnitudes
------------------------------------------------------------

/- Without a fraction nothing is dropped from a magnitude. -/
theorem magnitude_eq
    (hWhole : m % 2 ^ (-e).toNat = 0) :
    ((scaleUp m e / 2 ^ (-e).toNat : ℕ) : ℚ) = m * (2 : ℚ) ^ e := by
  unfold scaleUp
  rw [Nat.pow_eq]
  rcases le_total 0 e with hSign | hSign
  · rw [show (-e).toNat = 0 by omega, pow_zero, Nat.div_one]
    push_cast
    rw [← zpow_natCast, Int.toNat_of_nonneg hSign]
  · have hPower : ((2 ^ (-e).toNat : ℕ) : ℚ) ≠ 0 := by positivity
    rw [show e.toNat = 0 by omega, pow_zero, mul_one,
      Nat.cast_div (Nat.dvd_of_mod_eq_zero hWhole) hPower]
    push_cast
    rw [← zpow_natCast, Int.toNat_of_nonneg (by omega), zpow_neg,
      div_inv_eq_mul]

/- A magnitude that is a natural number has no fraction. -/
theorem mod_eq_zero_of_magnitude
    {n : Nat}
    (hValue : (m : ℚ) * (2 : ℚ) ^ e = n) :
    m % 2 ^ (-e).toNat = 0 := by
  rcases le_total 0 e with hSign | hSign
  · rw [show (-e).toNat = 0 by omega, pow_zero, Nat.mod_one]
  · have hProduct : (m : ℚ) = (n * 2 ^ (-e).toNat : ℕ) := by
      push_cast
      rw [← hValue, ← zpow_natCast, Int.toNat_of_nonneg (by omega), mul_assoc,
        ← zpow_add₀ (by norm_num), add_neg_cancel, zpow_zero, mul_one]
    rw [Nat.cast_inj.1 hProduct, Nat.mul_mod_left]

theorem abs_value_finite
    (s : Bool)
    (h : Canonical m e) :
    |value (.finite s m e h)| = m * (2 : ℚ) ^ e := by
  have hNonneg : (0 : ℚ) ≤ m * 2 ^ e := by positivity
  unfold value
  cases s with
  | false => exact abs_of_nonneg hNonneg
  | true =>
      simp only [if_true]
      rw [abs_neg, abs_of_nonneg hNonneg]

------------------------------------------------------------
-- Numbers
------------------------------------------------------------

theorem isZero_iff (hFinite : x.isFinite = true) :
    x.isZero = true ↔ x.value = 0 := by
  cases x with
  | nan => cases hFinite
  | infinite => cases hFinite
  | finite s m e h =>
    have hPower : (2 : ℚ) ^ e ≠ 0 := by positivity
    rw [← abs_eq_zero, abs_value_finite, mul_eq_zero, or_iff_left hPower,
      Nat.cast_eq_zero]
    exact beq_iff_eq

/- The integer part of a number without a fraction is the number. -/
theorem exists_truncate?
    (hWhole : x.isIntegral = true) :
    ∃ n : Int, x.truncate? = some n ∧ x.value = n := by
  cases x with
  | nan => cases hWhole
  | infinite => cases hWhole
  | finite s m e h =>
    have hMagnitude := magnitude_eq (beq_iff_eq.1 hWhole)
    refine ⟨_, rfl, ?_⟩
    unfold value
    cases s with
    | false => exact_mod_cast hMagnitude.symm
    | true =>
        simp only [if_true]
        rw [← hMagnitude]
        push_cast
        rfl

theorem isIntegral_iff (hFinite : x.isFinite = true) :
    x.isIntegral = true ↔ ∃ n : Int, x.value = n := by
  constructor
  · intro hWhole
    rcases exists_truncate? hWhole with ⟨n, -, hValue⟩
    exact ⟨n, hValue⟩
  · rintro ⟨n, hValue⟩
    cases x with
    | nan => cases hFinite
    | infinite => cases hFinite
    | finite s m e h =>
      have hMagnitude : (m : ℚ) * (2 : ℚ) ^ e = n.natAbs := by
        rw [← abs_value_finite s h, hValue, Nat.cast_natAbs, Int.cast_abs]
      exact beq_iff_eq.2 (mod_eq_zero_of_magnitude hMagnitude)

/- A number that is an integer has it for its integer part. -/
theorem truncate?_of_value
    {n : Int}
    (hFinite : x.isFinite = true)
    (hValue : x.value = n) :
    x.truncate? = some n := by
  rcases exists_truncate? ((isIntegral_iff hFinite).2 ⟨n, hValue⟩) with
    ⟨k, hTruncate, hSame⟩
  have hk : k = n := by
    exact_mod_cast hSame.symm.trans hValue
  rw [hTruncate, hk]

/- A number with a fraction has bits to spare for it. -/
theorem abs_value_lt_of_not_isIntegral
    (hx : x.isIntegral = false) :
    |x.value| < 2 ^ 52 := by
  cases x with
  | nan => norm_num [value]
  | infinite => norm_num [value]
  | finite s m e h =>
    have hExponent : e ≤ -1 := by
      by_contra hMore
      unfold isIntegral at hx
      dsimp only at hx
      rw [show (-e).toNat = 0 by omega] at hx
      simp [Nat.mod_one] at hx
    have hm : (m : ℚ) < 2 ^ 53 := by exact_mod_cast h.1
    rw [abs_value_finite]
    calc (m : ℚ) * (2 : ℚ) ^ e
        < 2 ^ 53 * (2 : ℚ) ^ e :=
          mul_lt_mul_of_pos_right hm (by positivity)
      _ ≤ 2 ^ 53 * (2 : ℚ) ^ (-1 : ℤ) :=
          mul_le_mul_of_nonneg_left
            (zpow_le_zpow_right₀ (by norm_num) hExponent) (by norm_num)
      _ = 2 ^ 52 := by norm_num

end Binary64
end StackScript
