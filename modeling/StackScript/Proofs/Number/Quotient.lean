import StackScript.Proofs.Number.Rounding

/-
  Quotients of decimals.

  Long division works a quotient out to a hundred digits, or
  to as many as stand before its point if they are more, and
  goes to the nearest from there. A quotient that ends
  earlier is exact, which is the same rounding: the number
  then fits.

  Key theorems include:
    * `Decimal.value_longDivide`
    * `Decimal.value_divide`
    * `Decimal.value_div`
-/

namespace StackScript
namespace Decimal

open Significant

variable {a b : Decimal}

------------------------------------------------------------
-- Long Division
------------------------------------------------------------

/-
  Whatever number of digits is found before nothing remains,
  the result is the quotient rounded at the last digit that
  was wanted.
-/
theorem value_longDivide
    {d m : Nat}
    (wanted q : Nat)
    (s : Int)
    (hm : m < d) :
    ((longDivide d wanted q (10 * m) s).1 : ℚ) *
        (10 : ℚ) ^ (-(longDivide d wanted q (10 * m) s).2) =
      ⌊((q : ℚ) + m / d) * 10 ^ wanted + 1 / 2⌋ *
        (10 : ℚ) ^ (-(s + wanted)) := by
  have hd : 0 < d := by omega
  have hd' : (d : ℚ) ≠ 0 := by exact_mod_cast hd.ne'
  induction wanted generalizing q m s with
  | zero =>
      have hSum : ((q : ℚ) + m / d) = ((d * q + m : ℕ) : ℚ) / d := by
        push_cast
        field_simp
      have hQuotient : (d * q + m) / d = q := by
        rw [Nat.mul_add_div hd, Nat.div_eq_of_lt hm, Nat.add_zero]
      have hRest : (d * q + m) % d = m := by
        rw [Nat.mul_add_mod, Nat.mod_eq_of_lt hm]
      have hTest : 5 * d ≤ 10 * m ↔ d ≤ 2 * m := by omega
      unfold longDivide
      dsimp only
      rw [pow_zero, mul_one, hSum, floor_add_half _ hd, hQuotient, hRest,
        Nat.cast_zero, add_zero]
      by_cases hUp : d ≤ 2 * m
      · rw [if_pos (hTest.2 hUp), if_pos hUp]
        norm_cast
      · rw [if_neg (mt hTest.1 hUp), if_neg hUp]
        norm_cast
  | succ wanted ih =>
      unfold longDivide
      by_cases hEnd : 10 * m = 0
      · have hZero : m = 0 := by omega
        have hWhole :
            ((q : ℚ) + (m : ℕ) / d) * 10 ^ (wanted + 1) =
              ((q * 10 ^ (wanted + 1) : ℤ) : ℚ) := by
          rw [hZero]
          push_cast
          ring
        have hNone : ⌊(1 / 2 : ℚ)⌋ = 0 := by norm_num
        rw [if_pos hEnd, hWhole, Int.floor_intCast_add, hNone, add_zero]
        push_cast
        rw [mul_assoc, ← zpow_natCast, ← zpow_add₀ (by norm_num)]
        congr 2
        push_cast
        ring
      · have hSplit :
        (10 * m : ℚ) = d * (10 * m / d : ℕ) + (10 * m % d : ℕ) := by
          exact_mod_cast (Nat.div_add_mod (10 * m) d).symm
        have hNext :
            (((10 * q + 10 * m / d : ℕ) : ℚ) + (10 * m % d : ℕ) / d) =
              10 * ((q : ℚ) + m / d) := by
          push_cast
          field_simp
          linarith
        rw [if_neg hEnd, ih _ _ (Nat.mod_lt _ hd), hNext]
        congr 1
        · congr 2
          ring
        · congr 2
          push_cast
          ring

/- The zeros that are appended let the divisor go in. -/
theorem le_tens_zerosToReach
    {n d : Nat}
    (hn : 0 < n) :
    d ≤ n * Digits.tens (zerosToReach n d) := by
  unfold zerosToReach
  dsimp only
  generalize hk : Digits.count d - Digits.count n = k
  by_cases hShort : n * Digits.tens k < d
  · rw [if_pos hShort]
    have hCount := Digits.count_pos n
    calc d ≤ 10 ^ Digits.count d := (Digits.lt_tens_count d).le
      _ ≤ 10 ^ (Digits.count n - 1 + (k + 1)) :=
          Nat.pow_le_pow_right (by omega) (by omega)
      _ = 10 ^ (Digits.count n - 1) * 10 ^ (k + 1) := Nat.pow_add _ _ _
      _ ≤ n * Digits.tens (k + 1) :=
          Nat.mul_le_mul_right _ (Digits.tens_pred_count_le hn)
  · rw [if_neg hShort]
    exact Nat.le_of_not_lt hShort

------------------------------------------------------------
-- Magnitudes
------------------------------------------------------------

/- A quotient of magnitudes is kept to a hundred digits or more. -/
theorem value_divide
    {n d : Nat}
    (s : Int)
    (hn : 0 < n)
    (hd : 0 < d) :
    ∃ g,
      100 ≤ g ∧
        ((divide n d s).1 : ℚ) * (10 : ℚ) ^ (-(divide n d s).2) =
          kept g (1 / 2) ((n : ℚ) / d * 10 ^ (-s)) := by
  have hReach := le_tens_zerosToReach (d := d) hn
  unfold divide
  dsimp only
  rw [Digits.tens_eq] at hReach ⊢
  generalize zerosToReach n d = k at *
  generalize hN : n * 10 ^ k = N at *
  have hd' : (d : ℚ) ≠ 0 := by exact_mod_cast hd.ne'
  have hValue : (n : ℚ) / d * 10 ^ (-s) = (N : ℚ) / d * 10 ^ (-(s + k)) := by
    rw [← hN, neg_add, zpow_add₀ (by norm_num), zpow_neg _ (k : ℤ),
      zpow_natCast]
    push_cast
    field_simp
  have hSplit : (N : ℚ) / d = (N / d : ℕ) + ((N % d : ℕ) : ℚ) / d := by
    have hSum : (N : ℚ) = d * (N / d : ℕ) + (N % d : ℕ) := by
      exact_mod_cast (Nat.div_add_mod N d).symm
    rw [hSum]
    field_simp
  rw [hValue]
  refine ⟨max 100 (Digits.count (N / d)), Nat.le_max_left _ _, ?_⟩
  by_cases hEnd : N % d = 0
  · rw [if_pos hEnd]
    dsimp only
    rw [hSplit, hEnd, Nat.cast_zero, zero_div, add_zero]
    symm
    apply kept_of_fits (by norm_num) (by norm_num) (by positivity)
    refine ⟨(N / d : ℕ), -(s + k), ?_, by push_cast; rfl⟩
    have hLess :=
      (Digits.lt_tens_count (N / d)).trans_le
        (Nat.pow_le_pow_right (by omega)
          (Nat.le_max_right 100 (Digits.count (N / d))))
    rw [Int.abs_eq_natAbs, Int.natAbs_natCast]
    exact_mod_cast hLess
  · rw [if_neg hEnd, value_longDivide _ _ _ (Nat.mod_lt N hd), ← hSplit]
    generalize hWanted : quotientDigits - Digits.count (N / d) = wanted
    have hDigits :
        max 100 (Digits.count (N / d)) = Digits.count (N / d) + wanted := by
      unfold quotientDigits at hWanted
      omega
    have hUnit :
        unit (max 100 (Digits.count (N / d)))
            ((N : ℚ) / d * 10 ^ (-(s + k))) =
          (10 : ℚ) ^ (-(s + k + wanted)) := by
      unfold unit
      rw [place_quotient hd hReach, hDigits]
      congr 1
      push_cast
      ring
    have hPower : (10 : ℚ) ^ (-(s + k)) ≠ 0 := by positivity
    have hShare :
        (N : ℚ) / d * 10 ^ (-(s + k)) / 10 ^ (-(s + k + wanted)) =
          N / d * 10 ^ wanted := by
      rw [neg_add (s + k), zpow_add₀ (by norm_num), zpow_neg _ (wanted : ℤ),
        zpow_natCast]
      field_simp
    unfold kept
    rw [hUnit, hShare]

------------------------------------------------------------
-- Quotients
------------------------------------------------------------

/- A quotient is positive if both signs are the same. -/
theorem sign_quotient
    (hA : a.digits ≠ 0)
    (hB : b.digits ≠ 0) :
    (a.isNegative == b.isNegative) = true ∧ 0 < a.value / b.value ∨
      (a.isNegative == b.isNegative) = false ∧
        a.value / b.value < 0 := by
  unfold isNegative
  rcases lt_or_gt_of_ne hA with hA | hA
  · rcases lt_or_gt_of_ne hB with hB | hB
    · left
      rw [decide_eq_true hA, decide_eq_true hB]
      exact ⟨rfl, div_pos_of_neg_of_neg (value_neg_iff.2 hA)
        (value_neg_iff.2 hB)⟩
    · right
      rw [decide_eq_true hA, decide_eq_false (by omega)]
      exact ⟨rfl, div_neg_of_neg_of_pos (value_neg_iff.2 hA)
        (value_pos_iff.2 hB)⟩
  · rcases lt_or_gt_of_ne hB with hB | hB
    · right
      rw [decide_eq_false (by omega), decide_eq_true hB]
      exact ⟨rfl, div_neg_of_pos_of_neg (value_pos_iff.2 hA)
        (value_neg_iff.2 hB)⟩
    · left
      rw [decide_eq_false (by omega), decide_eq_false (by omega)]
      exact ⟨rfl, div_pos (value_pos_iff.2 hA) (value_pos_iff.2 hB)⟩

/- A quotient goes to the nearest of at least a hundred digits. -/
theorem value_div
    (a : Decimal)
    (hb : b.value ≠ 0) :
    ∃ g, 100 ≤ g ∧ (a.div b).value = nearest g (a.value / b.value) := by
  have hExact
      {c : Decimal}
      (hc : c.value = a.value / b.value) :
      ∃ g, 100 ≤ g ∧ c.value = nearest g (a.value / b.value) := by
    refine ⟨max 100 c.count, Nat.le_max_left _ _, ?_⟩
    rw [← hc, nearest_of_fits (fits_value (Nat.le_max_right _ _))]
  unfold div
  by_cases hPlain : (a.isZero || b.isOne) = true
  · rw [if_pos hPlain]
    apply hExact
    rcases Bool.or_eq_true_iff.1 hPlain with hZero | hOne
    · rw [isZero_iff.1 hZero, zero_div]
    · rw [isOne_iff.1 hOne, div_one]
  rw [if_neg hPlain]
  have hA : a.digits ≠ 0 := by
    intro hZero
    rw [isZero_iff.2 (value_eq_zero_iff.2 hZero)] at hPlain
    exact hPlain rfl
  have hB : b.digits ≠ 0 := mt value_eq_zero_iff.2 hb
  by_cases hSame : a.digits = b.digits
  · rw [if_pos hSame]
    apply hExact
    unfold value
    rw [hSame]
    have hDigits : (b.digits : ℚ) ≠ 0 := by exact_mod_cast hB
    rw [mul_div_mul_left _ _ hDigits, ← zpow_sub₀ (by norm_num)]
    push_cast
    rw [one_mul]
    congr 1
    ring
  · rw [if_neg hSame]
    rcases value_divide (a.scale - b.scale) (Int.natAbs_pos.2 hA)
      (Int.natAbs_pos.2 hB) with ⟨g, hg, hValue⟩
    refine ⟨g, hg, ?_⟩
    have hMagnitude :
        (a.digits.natAbs : ℚ) / b.digits.natAbs *
            10 ^ (-(a.scale - b.scale)) =
          |a.value / b.value| := by
      rw [abs_div, abs_value, abs_value, mul_div_mul_comm,
        ← zpow_sub₀ (by norm_num)]
      congr 2
      ring
    rw [hMagnitude] at hValue
    generalize divide a.digits.natAbs b.digits.natAbs (a.scale - b.scale) =
      result at *
    rcases result with ⟨q, s⟩
    dsimp only at hValue ⊢
    rcases sign_quotient hA hB with ⟨hSign, hPos⟩ | ⟨hSign, hNeg⟩
    · rw [hSign, if_pos rfl, nearest_of_nonneg hPos.le]
      rw [abs_of_pos hPos] at hValue
      exact hValue
    · rw [hSign, if_neg Bool.false_ne_true, nearest_of_neg hNeg]
      rw [abs_of_neg hNeg] at hValue
      rw [← hValue]
      unfold value
      push_cast
      ring

end Decimal
end StackScript
