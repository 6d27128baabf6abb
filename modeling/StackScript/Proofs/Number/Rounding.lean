import StackScript.Proofs.Number.Counting
import StackScript.Proofs.Number.Rational
import StackScript.Proofs.Number.Significant

/-
  Decimals that are kept to a precision.

  What `round` does depends on the value alone, however many
  zeros are stored at the end: it is the rounding of
  rational numbers to significant digits, where a number
  below zero is cut.

  Key theorems include:
    * `Decimal.value_round`
    * `Decimal.count_normalize_le_iff`
    * `Decimal.round_laws`
-/

namespace StackScript

namespace Decimal

open Significant

variable {a b : Decimal}
variable {p : Nat}

------------------------------------------------------------
-- Places of Decimals
------------------------------------------------------------

/- The first digit stands as many places left as are counted. -/
theorem place_value (h : a.digits ≠ 0) :
    place a.value = a.count - 1 - a.scale := by
  have hQuotient :=
    place_quotient (s := a.scale) Nat.one_pos (Int.natAbs_pos.2 h)
  rw [Nat.cast_one, div_one, Nat.div_one, ← abs_value, place_abs]
    at hQuotient
  exact hQuotient

/- A decimal has as many digits as are stored, or fewer. -/
theorem fits_value (h : a.count ≤ p) : Fits p a.value := by
  refine ⟨a.digits, -a.scale, ?_, rfl⟩
  have hLess :=
    (Digits.lt_tens_count a.digits.natAbs).trans_le
      (Nat.pow_le_pow_right (by omega) h)
  rw [Int.abs_eq_natAbs]
  exact_mod_cast hLess

------------------------------------------------------------
-- Cutting
------------------------------------------------------------

/-
  The test for going up looks at the first digit of the rest
  only where the rest has as many digits as were cut.
-/
theorem goesUp_iff
    {k r : Nat}
    (hk : 0 < k)
    (hr : r < 10 ^ k) :
    10 ^ k < 10 * r ∧ leadsHigh r = true ↔ 10 ^ k ≤ 2 * r := by
  have hPower : 10 ^ k = 10 * 10 ^ (k - 1) := by
    rw [← Nat.pow_succ', Nat.succ_eq_add_one, Nat.sub_add_cancel hk]
  have hUnit : 0 < 10 ^ (k - 1) := Nat.pow_pos (by omega)
  have hCount (hLow : 10 ^ (k - 1) ≤ r) : Digits.count r = k := by
    have hMost : Digits.count r ≤ k := (Digits.count_le_iff hk).2 hr
    have hLeast : k - 1 < Digits.count r := by
      have hLess := lt_of_le_of_lt hLow (Digits.lt_tens_count r)
      exact (Nat.pow_lt_pow_iff_right (by omega)).1 hLess
    omega
  unfold leadsHigh
  rw [decide_eq_true_eq, Digits.tens_eq]
  constructor
  · rintro ⟨hRest, hLead⟩
    rw [hCount (by omega)] at hLead
    omega
  · intro hHalf
    refine ⟨by omega, ?_⟩
    rw [hCount (by omega)]
    omega

/- A unit in the last digit that is kept. -/
theorem unit_value
    (h : a.digits ≠ 0)
    (hp : p ≤ a.count) :
    unit p a.value =
      ((10 ^ (a.count - p) : ℕ) : ℚ) * 10 ^ (-a.scale) := by
  unfold unit
  rw [place_value h]
  push_cast
  rw [← zpow_natCast, ← zpow_add₀ (by norm_num)]
  congr 1
  omega

/- What is kept of a magnitude, from its digits. -/
theorem kept_abs_value
    {h : ℚ}
    (hDigits : a.digits ≠ 0)
    (hp : p ≤ a.count) :
    kept p h |a.value| =
      ⌊(a.digits.natAbs : ℚ) / (10 ^ (a.count - p) : ℕ) + h⌋ *
        (10 : ℚ) ^ (-(a.scale - (a.count - p : Nat))) := by
  have hUnit := unit_value hDigits hp
  have hScale : (10 : ℚ) ^ (-a.scale) ≠ 0 := by positivity
  have hPower :
      unit p a.value =
        (10 : ℚ) ^ (-(a.scale - (a.count - p : Nat))) := by
    rw [hUnit]
    push_cast
    rw [← zpow_natCast, ← zpow_add₀ (by norm_num)]
    congr 1
    omega
  unfold kept
  rw [unit_abs, hPower, ← hPower, hUnit, abs_value,
    mul_div_mul_right _ _ hScale]

/- Cutting a decimal rounds its value. -/
theorem value_cut (hp : p < a.count) (h : a.digits ≠ 0) :
    (a.cut p).value = rounded p a.value := by
  have hk : 0 < a.count - p := by omega
  have hPower : 0 < 10 ^ (a.count - p) := Nat.pow_pos (by omega)
  unfold cut
  dsimp only
  rw [Digits.tens_eq]
  by_cases hSign : a.digits < 0
  · have hAbs : -a.value = |a.value| :=
      (abs_of_neg (value_neg_iff.2 hSign)).symm
    have hFloor :
        ⌊(a.digits.natAbs : ℚ) / (10 ^ (a.count - p) : ℕ) + 0⌋ =
          ((a.digits.natAbs / 10 ^ (a.count - p) : ℕ) : ℤ) := by
      rw [add_zero]
      exact Rat.floor_natCast_div_natCast _ _
    have hDigits : a.digits = -(a.digits.natAbs : ℤ) := by omega
    have hQuotient :
        a.digits.tdiv ((10 ^ (a.count - p) : ℕ) : ℤ) =
          -((a.digits.natAbs / 10 ^ (a.count - p) : ℕ) : ℤ) := by
      conv_lhs => rw [hDigits]
      rw [Int.neg_tdiv]
      rfl
    have hRest : a.digits.tmod ((10 ^ (a.count - p) : ℕ) : ℤ) ≤ 0 := by
      rw [hDigits, Int.neg_tmod]
      exact Int.neg_nonpos_of_nonneg (Int.natCast_nonneg _)
    rw [if_neg (by omega), rounded_of_neg (value_neg_iff.2 hSign), hAbs,
      kept_abs_value h hp.le, hFloor, hQuotient]
    unfold value
    dsimp only
    push_cast
    ring
  · obtain ⟨n, hn⟩ : ∃ n : Nat, a.digits = n :=
      Int.eq_ofNat_of_zero_le (not_lt.1 hSign)
    have hNonneg : 0 ≤ a.value := by
      rw [← not_lt, value_neg_iff]
      exact hSign
    have hKept := kept_abs_value (h := 1 / 2) h hp.le
    have hRest := Nat.mod_lt n hPower
    have hUp := goesUp_iff hk hRest
    have hFloor := floor_add_half n hPower
    rw [abs_of_nonneg hNonneg] at hKept
    rw [rounded_of_nonneg hNonneg, hKept, hn, Int.natAbs_natCast, hFloor]
    have hQuotient :
        (n : ℤ).tdiv ((10 ^ (a.count - p) : ℕ) : ℤ) =
          (n / 10 ^ (a.count - p) : ℕ) := rfl
    have hRemainder :
        (n : ℤ).tmod ((10 ^ (a.count - p) : ℕ) : ℤ) =
          (n % 10 ^ (a.count - p) : ℕ) := rfl
    rw [hQuotient, hRemainder, Int.natAbs_natCast]
    by_cases hHalf : 10 ^ (a.count - p) ≤ 2 * (n % 10 ^ (a.count - p))
    · have hTest := hUp.2 hHalf
      rw [if_pos hHalf, if_pos ⟨by exact_mod_cast hTest.1, hTest.2⟩]
      rfl
    · rw [if_neg hHalf, if_neg]
      · rfl
      · rintro ⟨hMore, hLead⟩
        exact hHalf (hUp.1 ⟨by exact_mod_cast hMore, hLead⟩)

/- Rounding a decimal rounds its value. -/
theorem value_round
    (a : Decimal)
    (hp : 1 ≤ p) :
    (a.round p).value = rounded p a.value := by
  unfold round
  by_cases hMore : p < a.count
  · rw [if_pos hMore]
    apply value_cut hMore
    intro hZero
    unfold count at hMore
    rw [hZero] at hMore
    have hOne : Digits.count (0 : ℤ).natAbs = 1 := rfl
    omega
  · rw [if_neg hMore, rounded_of_fits (fits_value (not_lt.1 hMore))]

------------------------------------------------------------
-- Trailing Zeros
------------------------------------------------------------

/- Stripping trailing zeros keeps the value. -/
theorem value_normalize (a : Decimal) : a.normalize.value = a.value := by
  unfold normalize
  by_cases hZero : a.digits = 0
  · rw [if_pos hZero]
    simp [value, hZero]
  rw [if_neg hZero]
  have hStrip := Digits.strip_spec a.count a.digits.natAbs
  generalize Digits.strip a.count a.digits.natAbs = stripped at *
  rcases stripped with ⟨m, k⟩
  dsimp only at hStrip ⊢
  have hDigits :
      a.digits = (if a.digits < 0 then -(m : ℤ) else m) * 10 ^ k := by
    have hCast : (m : ℤ) * 10 ^ k = a.digits.natAbs := by
      exact_mod_cast hStrip
    split
    · rw [neg_mul, hCast]
      omega
    · rw [hCast]
      omega
  unfold value
  dsimp only
  conv_rhs => rw [hDigits]
  push_cast
  rw [mul_assoc, ← zpow_natCast, ← zpow_add₀ (by norm_num)]
  congr 2
  ring

/- No zero is left at the end of a number that has digits. -/
theorem normalize_digits_mod_ten (h : a.digits ≠ 0) :
    a.normalize.digits % 10 ≠ 0 := by
  have hLast :=
    Digits.strip_mod_ten (Int.natAbs_ne_zero.2 h)
      (Digits.lt_tens_count a.digits.natAbs)
  unfold normalize count
  rw [if_neg h]
  dsimp only
  split
  · omega
  · omega

/- The digits that are left are the significant ones. -/
theorem count_normalize_le_iff (hp : 1 ≤ p) :
    a.normalize.count ≤ p ↔ Fits p a.value := by
  constructor
  · intro hCount
    rw [← value_normalize]
    exact fits_value hCount
  · rintro ⟨n, e, hn, hValue⟩
    by_cases hZero : a.digits = 0
    · unfold normalize
      rw [if_pos hZero]
      exact hp
    have hLast := normalize_digits_mod_ten hZero
    have hMagnitude : a.normalize.digits.natAbs ≤ n.natAbs := by
      rw [← value_normalize] at hValue
      unfold value at hValue
      generalize a.normalize = c at *
      rcases le_or_gt (-c.scale) e with hWider | hFiner
      · obtain ⟨j, hj⟩ : ∃ j : Nat, e = -c.scale + j :=
          ⟨(e + c.scale).toNat, by omega⟩
        have hEq : c.digits = n * 10 ^ j := by
          rw [hj, zpow_add₀ (by norm_num), zpow_natCast, mul_comm _ (10 ^ j),
            ← mul_assoc] at hValue
          have hCancel :=
            mul_right_cancel₀
              (by positivity : (10 : ℚ) ^ (-c.scale) ≠ 0) hValue
          exact_mod_cast hCancel
        cases j with
        | zero =>
            rw [hEq, pow_zero, mul_one]
        | succ j =>
            rw [pow_succ, ← mul_assoc] at hEq
            exact absurd (by omega) hLast
      · obtain ⟨j, hj⟩ : ∃ j : Nat, -c.scale = e + j :=
          ⟨(-c.scale - e).toNat, by omega⟩
        have hEq : c.digits * 10 ^ j = n := by
          rw [hj, zpow_add₀ (by norm_num), zpow_natCast, mul_comm _ (10 ^ j),
            ← mul_assoc] at hValue
          have hCancel :=
            mul_right_cancel₀ (by positivity : (10 : ℚ) ^ e ≠ 0) hValue
          exact_mod_cast hCancel
        rw [← hEq, Int.natAbs_mul]
        apply Nat.le_mul_of_pos_right
        rw [Int.natAbs_pow]
        exact Nat.pow_pos (by decide)
    unfold count
    rw [Digits.count_le_iff hp]
    rw [Int.abs_eq_natAbs] at hn
    have hLess : n.natAbs < 10 ^ p := by exact_mod_cast hn
    omega

------------------------------------------------------------
-- The Laws of Rounding
------------------------------------------------------------

/-
  Equal values round to equal values; what is rounded has no
  more digits than wanted; it lies less than a unit in the
  last digit away, and nowhere else if the digits are few
  enough; rounding again changes nothing; and the order is
  kept.
-/
theorem round_laws
    (d e : Decimal)
    (hp : 1 ≤ p) :
    (d.value = e.value → (d.round p).value = (e.round p).value) ∧
      (d.round p).normalize.count ≤ p ∧
      |(d.round p).value - d.value| < unit p d.value ∧
      (d.normalize.count ≤ p → (d.round p).value = d.value) ∧
      ((d.round p).round p).value = (d.round p).value ∧
      (d.value ≤ e.value → (d.round p).value ≤ (e.round p).value) := by
  have hFits := fits_rounded hp d.value
  have hAgain := value_round (d.round p) hp
  rw [count_normalize_le_iff hp, count_normalize_le_iff hp, hAgain,
    value_round d hp, value_round e hp]
  refine ⟨?_, hFits, abs_rounded_sub_lt p d.value, rounded_of_fits,
    rounded_of_fits hFits, rounded_mono hp⟩
  intro hSame
  rw [hSame]

/-
  With three digits a carry runs through the nines, whether
  a zero is stored at the end or not; below zero the rest is
  cut.
-/
theorem round_laws_carrying :
    (⟨99950, 3⟩ : Decimal).round 3 = ⟨1000, 1⟩ ∧
      (⟨-99950, 3⟩ : Decimal).round 3 = ⟨-999, 1⟩ ∧
      ((⟨99950, 3⟩ : Decimal).round 3).value =
        ((⟨9995, 2⟩ : Decimal).round 3).value ∧
      ((⟨99950, 3⟩ : Decimal).round 3).normalize.count ≤ 3 ∧
      ((⟨-99950, 3⟩ : Decimal).round 3).value ≤
        ((⟨9995, 2⟩ : Decimal).round 3).value := by
  have hSame :
      (⟨99950, 3⟩ : Decimal).value = (⟨9995, 2⟩ : Decimal).value := by
    norm_num [value]
  have hLess :
      (⟨-99950, 3⟩ : Decimal).value ≤ (⟨9995, 2⟩ : Decimal).value := by
    norm_num [value]
  have hUp := round_laws ⟨99950, 3⟩ ⟨9995, 2⟩ (p := 3) (by decide)
  have hDown := round_laws ⟨-99950, 3⟩ ⟨9995, 2⟩ (p := 3) (by decide)
  exact ⟨by decide +kernel, by decide +kernel, hUp.1 hSame, hUp.2.1,
    hDown.2.2.2.2.2 hLess⟩

end Decimal
end StackScript
