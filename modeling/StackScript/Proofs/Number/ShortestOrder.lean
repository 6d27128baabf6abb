import StackScript.Proofs.Number.Rational
import StackScript.Proofs.Number.StoredBinary
import StackScript.Proofs.Number.WholeBinary
import StackScript.Value.Convert

/-
  The order of floating-point numbers and of their shortest
  decimals.

  A shortest decimal is rounded to the number that it stands
  for. Rounding respects the order, so the decimals stand in
  the order of the numbers, although most of them denote
  another rational. Whole numbers below `2 ^ 53` are denoted
  exactly; hence no decimal of a number with a fraction gets
  past an integer.

  Key definitions include:
    * `Binary64.written`

  Key theorems include:
    * `Binary64.rounded_shortest`
    * `Binary64.cmp_written`
    * `Binary64.cmp_intCast_written`
-/

namespace StackScript
namespace Binary64

variable {m : Nat}
variable {e : Int}
variable {x y : Binary64}

/- The value of the shortest decimal of a number; zero if it has none. -/
def written (x : Binary64) : ℚ :=
  ((Decimal.ofShortest? x).map Decimal.value).getD 0

------------------------------------------------------------
-- Shortest Decimals Read Back
------------------------------------------------------------

/- A decimal that is read as a positive number is rounded to it. -/
theorem rounded_of_ofScientific
    {a : Nat}
    {p : Int}
    {h : Canonical m e}
    (hm : 0 < m)
    (hRead : ofScientific false a p = .finite false m e h) :
    0 < a ∧ rounded (a * (10 : ℚ) ^ p) = m * (2 : ℚ) ^ e := by
  unfold ofScientific at hRead
  by_cases hZero : a = 0
  · rw [if_pos hZero] at hRead
    injection hRead with _ hMantissa
    omega
  rw [if_neg hZero] at hRead
  by_cases hLarge : 400 < (Digits.count a : Int) + p
  · rw [if_pos hLarge] at hRead
    cases hRead
  rw [if_neg hLarge] at hRead
  by_cases hSmall : (Digits.count a : Int) + p < -400
  · rw [if_pos hSmall] at hRead
    injection hRead with _ hMantissa
    omega
  rw [if_neg hSmall] at hRead
  have ha : 0 < a := Nat.pos_of_ne_zero hZero
  have hUp : 0 < Digits.tens p.toNat := Nat.pow_pos (by omega)
  have hDown : 0 < Digits.tens (-p).toNat := Nat.pow_pos (by omega)
  have hValue := rounded_of_ofFraction (Nat.mul_pos ha hUp) hDown hRead
  refine ⟨ha, ?_⟩
  rw [← hValue]
  congr 1
  unfold Digits.tens
  simp only [Nat.pow_eq]
  push_cast
  rcases le_total 0 p with hSign | hSign
  · rw [show (-p).toNat = 0 by omega, pow_zero, div_one, ← zpow_natCast,
      Int.toNat_of_nonneg hSign]
  · rw [show p.toNat = 0 by omega, pow_zero, mul_one, ← zpow_natCast,
      Int.toNat_of_nonneg (by omega), zpow_neg, div_inv_eq_mul]

/- What is found on a grid reads back. -/
theorem ofScientific_of_onGrid?
    {tie : Tie}
    {n d a : Nat}
    {p q : Int}
    (hFound : onGrid? tie x n d p = some (a, q)) :
    ofScientific false a q = x := by
  unfold onGrid? at hFound
  dsimp only at hFound
  split at hFound
  · rename_i hLow
    cases hFound
    rw [Bool.and_eq_true, decide_eq_true_eq] at hLow
    exact hLow.1
  · split at hFound
    · rename_i hHigh
      cases hFound
      rw [decide_eq_true_eq] at hHigh
      exact hHigh
    · cases hFound

/- So does what is found on finer and finer grids. -/
theorem refine_eq_or
    (tie : Tie)
    (x : Binary64)
    (n d : Nat)
    (all : Nat × Int)
    (steps : Nat)
    (p : Int) :
    refine tie x n d all steps p = all ∨
      ofScientific false (refine tie x n d all steps p).1
        (refine tie x n d all steps p).2 = x := by
  induction steps generalizing p with
  | zero => exact .inl rfl
  | succ steps ih =>
      unfold refine
      cases hGrid : onGrid? tie x n d p with
      | some found => exact .inr (ofScientific_of_onGrid? hGrid)
      | none => exact ih (p - 1)

/- All digits of a number denote it. -/
theorem allDigits_eq (m : Nat) (e : Int) :
    let all :=
      if 0 ≤ e then (scaleUp m e, 0)
      else (m * Nat.pow 5 (-e).toNat, e)
    (all.1 : ℚ) * (10 : ℚ) ^ all.2 = m * (2 : ℚ) ^ e := by
  dsimp only
  by_cases hSign : 0 ≤ e
  · rw [if_pos hSign]
    unfold scaleUp
    simp only [Nat.pow_eq]
    push_cast
    rw [mul_one, ← zpow_natCast, Int.toNat_of_nonneg hSign]
  · have hTen : (10 : ℚ) ^ e = (5 : ℚ) ^ e * (2 : ℚ) ^ e := by
      rw [← mul_zpow]
      norm_num
    rw [if_neg hSign]
    simp only [Nat.pow_eq]
    push_cast
    rw [← zpow_natCast, Int.toNat_of_nonneg (by omega), hTen, zpow_neg]
    have hPower : (5 : ℚ) ^ e ≠ 0 := by positivity
    field_simp

/- The shortest digits of a number are rounded to it. -/
theorem rounded_shortest
    (tie : Tie)
    (h : Canonical m e)
    (hm : 0 < m) :
    0 < (shortest tie m e).1 ∧
      rounded ((shortest tie m e).1 * (10 : ℚ) ^ (shortest tie m e).2) =
        m * (2 : ℚ) ^ e := by
  have hMake : make false m e = .finite false m e h := dif_pos h
  unfold shortest
  rw [if_neg (by omega)]
  dsimp only
  generalize hAll :
    (if 0 ≤ e then (scaleUp m e, (0 : Int))
      else (m * Nat.pow 5 (-e).toNat, e)) = all
  have hExact := allDigits_eq m e
  dsimp only at hExact
  rw [hAll] at hExact
  have hFound :=
    refine_eq_or tie (make false m e) (scaleUp m e)
      (Nat.pow 2 (-e).toNat) all 17
      (floorLog10 (scaleUp m e) (Nat.pow 2 (-e).toNat))
  generalize refine tie (make false m e) (scaleUp m e)
    (Nat.pow 2 (-e).toNat) all 17
    (floorLog10 (scaleUp m e) (Nat.pow 2 (-e).toNat)) = found at *
  have hDigits :
      0 < found.1 ∧
        rounded (found.1 * (10 : ℚ) ^ found.2) = m * (2 : ℚ) ^ e := by
    rcases hFound with rfl | hRead
    · rw [hExact]
      refine ⟨?_, rounded_canonical h hm⟩
      apply Nat.pos_of_ne_zero
      intro hZero
      rw [hZero, Nat.cast_zero, zero_mul] at hExact
      have hm' : (0 : ℚ) < m := by exact_mod_cast hm
      have hPos : (0 : ℚ) < m * 2 ^ e := by positivity
      exact hPos.ne hExact
    · rw [hMake] at hRead
      exact rounded_of_ofScientific hm hRead
  rcases found with ⟨a, p⟩
  dsimp only at hDigits ⊢
  have hStrip := Digits.strip_spec (Digits.count a) a
  generalize Digits.strip (Digits.count a) a = stripped at *
  rcases stripped with ⟨b, k⟩
  dsimp only at hStrip ⊢
  have hSame :
      (b : ℚ) * (10 : ℚ) ^ (p + k) = a * (10 : ℚ) ^ p := by
    rw [← hStrip, zpow_add₀ (by norm_num), zpow_natCast]
    push_cast
    ring
  rw [hSame]
  refine ⟨?_, hDigits.2⟩
  apply Nat.pos_of_ne_zero
  rintro rfl
  omega

------------------------------------------------------------
-- Written Values
------------------------------------------------------------

theorem mantissa_pos (h : (0 : ℚ) < m * (2 : ℚ) ^ e) : 0 < m := by
  apply Nat.pos_of_ne_zero
  rintro rfl
  rw [Nat.cast_zero, zero_mul] at h
  exact lt_irrefl _ h

/- The magnitude of a shortest decimal. -/
def writtenMagnitude
    (m : Nat)
    (e : Int) : ℚ :=
  (shortest .up m e).1 * (10 : ℚ) ^ (shortest .up m e).2

theorem writtenMagnitude_zero (e : Int) : writtenMagnitude 0 e = 0 := by
  simp [writtenMagnitude, shortest]

theorem writtenMagnitude_pos
    (h : Canonical m e)
    (hm : 0 < m) :
    0 < writtenMagnitude m e := by
  have hDigits : (0 : ℚ) < (shortest .up m e).1 := by
    exact_mod_cast (rounded_shortest .up h hm).1
  unfold writtenMagnitude
  positivity

theorem writtenMagnitude_nonneg (m : Nat) (e : Int) :
    0 ≤ writtenMagnitude m e := by
  unfold writtenMagnitude
  positivity

theorem written_finite
    (s : Bool)
    (h : Canonical m e) :
    written (.finite s m e h) =
      if s then -writtenMagnitude m e else writtenMagnitude m e := by
  have hPlaces (p : Int) :
      ((Digits.tens p.toNat : ℕ) : ℚ) * (10 : ℚ) ^ (-(max 0 (-p))) =
        (10 : ℚ) ^ p := by
    unfold Digits.tens
    simp only [Nat.pow_eq]
    push_cast
    rw [← zpow_natCast, ← zpow_add₀ (by norm_num)]
    congr 1
    omega
  unfold written writtenMagnitude Decimal.ofShortest?
  dsimp only
  rw [Option.map_some, Option.getD_some]
  unfold Decimal.value
  dsimp only
  cases s
  · simp only [Bool.false_eq_true, if_false]
    push_cast
    rw [mul_assoc, hPlaces]
  · simp only [if_true]
    push_cast
    rw [neg_mul, mul_assoc, hPlaces]

/- A greater magnitude is written as a greater one. -/
theorem writtenMagnitude_lt
    {n : Nat}
    {f : Int}
    (h : Canonical m e)
    (hMore : Canonical n f)
    (hLess : (m : ℚ) * (2 : ℚ) ^ e < n * (2 : ℚ) ^ f) :
    writtenMagnitude m e < writtenMagnitude n f := by
  have hn : 0 < n :=
    mantissa_pos (lt_of_le_of_lt (by positivity) hLess)
  rcases Nat.eq_zero_or_pos m with rfl | hm
  · rw [writtenMagnitude_zero]
    exact writtenMagnitude_pos hMore hn
  -- Both decimals round back, so they cannot stand the other way round.
  by_contra hOrder
  have hRounded :=
    rounded_mono (writtenMagnitude_pos hMore hn) (not_lt.1 hOrder)
  unfold writtenMagnitude at hRounded
  rw [(rounded_shortest .up h hm).2, (rounded_shortest .up hMore hn).2]
    at hRounded
  exact not_lt.2 hRounded hLess

/- A magnitude has one form, so it is written in one way. -/
theorem writtenMagnitude_congr
    {n : Nat}
    {f : Int}
    (h : Canonical m e)
    (hOther : Canonical n f)
    (hSame : (m : ℚ) * (2 : ℚ) ^ e = n * (2 : ℚ) ^ f) :
    writtenMagnitude m e = writtenMagnitude n f := by
  have hPower (k : Int) : (0 : ℚ) < 2 ^ k := by positivity
  rcases Nat.eq_zero_or_pos m with rfl | hm
  · have hn : n = 0 := by
      rw [Nat.cast_zero, zero_mul] at hSame
      have hCast := (mul_eq_zero.1 hSame.symm).resolve_right (hPower f).ne'
      exact_mod_cast hCast
    rw [hn, writtenMagnitude_zero, writtenMagnitude_zero]
  · have hm' : (0 : ℚ) < m := by exact_mod_cast hm
    have hn : 0 < n := by
      apply mantissa_pos (e := f)
      rw [← hSame]
      exact mul_pos hm' (hPower e)
    have hExponent : e = f := by
      rw [← exponent_canonical h hm, hSame, exponent_canonical hOther hn]
    subst hExponent
    have hMantissa : m = n := by
      exact_mod_cast mul_right_cancel₀ (hPower e).ne' hSame
    rw [hMantissa]

/- A greater number is written as a greater one. -/
theorem written_lt
    (hx : x.isFinite = true)
    (hy : y.isFinite = true)
    (hLess : x.value < y.value) :
    written x < written y := by
  cases x with
  | nan => cases hx
  | infinite => cases hx
  | finite s m e h =>
  cases y with
  | nan => cases hy
  | infinite => cases hy
  | finite t n f hOther =>
    have hLeft : (0 : ℚ) ≤ m * (2 : ℚ) ^ e := by positivity
    have hRight : (0 : ℚ) ≤ n * (2 : ℚ) ^ f := by positivity
    have hLeftWritten := writtenMagnitude_nonneg m e
    have hRightWritten := writtenMagnitude_nonneg n f
    rw [written_finite, written_finite]
    cases s with
    | false =>
        cases t with
        | false => exact writtenMagnitude_lt h hOther hLess
        | true =>
            have hOrder : (m : ℚ) * (2 : ℚ) ^ e < -(n * (2 : ℚ) ^ f) := hLess
            linarith
    | true =>
        cases t with
        | false =>
            have hOrder : -((m : ℚ) * (2 : ℚ) ^ e) < n * (2 : ℚ) ^ f := hLess
            simp only [if_true, Bool.false_eq_true, if_false]
            rcases Nat.eq_zero_or_pos n with rfl | hn
            · rw [Nat.cast_zero, zero_mul] at hOrder
              have hm := mantissa_pos (neg_lt_zero.1 hOrder)
              have hPos := writtenMagnitude_pos h hm
              linarith
            · have hPos := writtenMagnitude_pos hOther hn
              linarith
        | true =>
            have hOrder :
                -((m : ℚ) * (2 : ℚ) ^ e) < -(n * (2 : ℚ) ^ f) := hLess
            exact neg_lt_neg
              (writtenMagnitude_lt hOther h (neg_lt_neg_iff.1 hOrder))

/- Equal numbers, zeros of both signs too, are written as equals. -/
theorem written_congr
    (hx : x.isFinite = true)
    (hy : y.isFinite = true)
    (hSame : x.value = y.value) :
    written x = written y := by
  cases x with
  | nan => cases hx
  | infinite => cases hx
  | finite s m e h =>
  cases y with
  | nan => cases hy
  | infinite => cases hy
  | finite t n f hOther =>
    have hLeft : (0 : ℚ) ≤ m * (2 : ℚ) ^ e := by positivity
    have hRight : (0 : ℚ) ≤ n * (2 : ℚ) ^ f := by positivity
    have hZero
        {k : Nat}
        {g : Int}
        (hk : (k : ℚ) * (2 : ℚ) ^ g = 0) :
        writtenMagnitude k g = 0 := by
      have hPower : (2 : ℚ) ^ g ≠ 0 := by positivity
      have hNone : k = 0 := by
        exact_mod_cast (mul_eq_zero.1 hk).resolve_right hPower
      rw [hNone, writtenMagnitude_zero]
    rw [written_finite, written_finite]
    cases s with
    | false =>
        cases t with
        | false => exact writtenMagnitude_congr h hOther hSame
        | true =>
            have hBoth : (m : ℚ) * (2 : ℚ) ^ e = -(n * (2 : ℚ) ^ f) := hSame
            simp [hZero (k := m) (g := e) (by linarith),
              hZero (k := n) (g := f) (by linarith)]
    | true =>
        cases t with
        | false =>
            have hBoth : -((m : ℚ) * (2 : ℚ) ^ e) = n * (2 : ℚ) ^ f := hSame
            simp [hZero (k := m) (g := e) (by linarith),
              hZero (k := n) (g := f) (by linarith)]
        | true =>
            have hBoth :
                -((m : ℚ) * (2 : ℚ) ^ e) = -(n * (2 : ℚ) ^ f) := hSame
            exact congrArg Neg.neg
              (writtenMagnitude_congr h hOther (neg_inj.1 hBoth))

/- Numbers and what they are written as stand in one order. -/
theorem cmp_written
    (hx : x.isFinite = true)
    (hy : y.isFinite = true) :
    cmp (written x) (written y) = cmp x.value y.value := by
  rcases lt_trichotomy x.value y.value with hLess | hSame | hMore
  · rw [(cmp_eq_lt_iff _ _).2 hLess]
    exact (cmp_eq_lt_iff _ _).2 (written_lt hx hy hLess)
  · rw [(cmp_eq_eq_iff _ _).2 hSame]
    exact (cmp_eq_eq_iff _ _).2 (written_congr hx hy hSame)
  · rw [(cmp_eq_gt_iff _ _).2 hMore]
    exact (cmp_eq_gt_iff _ _).2 (written_lt hy hx hMore)

theorem written_zero (s : Bool) : written (zero s) = 0 := by
  unfold zero
  rw [written_finite, writtenMagnitude_zero, neg_zero, ite_self]

theorem value_zero (s : Bool) : (zero s).value = 0 := by
  simp [zero, value]

/- Only zero is written as zero. -/
theorem written_eq_zero_iff (hx : x.isFinite = true) :
    written x = 0 ↔ x.value = 0 := by
  have hSame := cmp_written (y := zero false) hx rfl
  rw [written_zero, value_zero] at hSame
  rw [← cmp_eq_eq_iff, hSame, cmp_eq_eq_iff]

------------------------------------------------------------
-- Integers
------------------------------------------------------------

/- The exact integers are numbers that are written as themselves. -/
theorem exists_exact
    {i : Int}
    (h : i.natAbs < 2 ^ 53) :
    ∃ x : Binary64, x.isFinite = true ∧ x.value = i ∧ written x = i := by
  by_cases hZero : i = 0
  · rw [hZero, Int.cast_zero]
    exact ⟨zero false, rfl, value_zero false, written_zero false⟩
  have hq : 0 < i.natAbs := Int.natAbs_pos.2 hZero
  have hLog := log2_lt_of_lt h
  have hCanonical := canonical_whole hq h
  have hMagnitude :
      ((i.natAbs * 2 ^ (52 - i.natAbs.log2) : ℕ) : ℚ) *
          (2 : ℚ) ^ ((i.natAbs.log2 : ℤ) - 52) =
        i.natAbs := by
    push_cast
    rw [mul_assoc, ← zpow_natCast, ← zpow_add₀ (by norm_num),
      show ((52 - i.natAbs.log2 : ℕ) : ℤ) + ((i.natAbs.log2 : ℤ) - 52) =
        0 by omega, zpow_zero, mul_one]
  have hWritten :
      writtenMagnitude (i.natAbs * 2 ^ (52 - i.natAbs.log2))
          ((i.natAbs.log2 : ℤ) - 52) =
        i.natAbs := by
    rcases shortest_whole .up hq h with ⟨a, j, hShortest, hValue⟩
    unfold writtenMagnitude
    rw [hShortest]
    dsimp only
    rw [zpow_natCast]
    exact_mod_cast hValue
  have hSign :
      (if decide (i < 0) = true then -(i.natAbs : ℚ) else i.natAbs) = i := by
    rw [Nat.cast_natAbs]
    by_cases hNeg : i < 0
    · simp [hNeg, abs_of_neg hNeg]
    · simp [hNeg, abs_of_nonneg (not_lt.1 hNeg)]
  refine ⟨.finite (decide (i < 0)) _ _ hCanonical, rfl, ?_, ?_⟩
  · unfold value
    dsimp only
    rw [hMagnitude]
    exact hSign
  · rw [written_finite, hWritten]
    exact hSign

/-
  No decimal of a number with a fraction gets past an
  integer: an exact one is a number too, and any other is
  further out than all numbers with fractions.
-/
theorem cmp_intCast_written
    (i : Int)
    (hFinite : x.isFinite = true)
    (hx : x.isIntegral = false) :
    cmp (i : ℚ) (written x) = cmp (i : ℚ) x.value := by
  by_cases hExact : i.natAbs < 2 ^ 53
  · rcases exists_exact hExact with ⟨y, hy, hValue, hWritten⟩
    have hSame := cmp_written hy hFinite
    rw [hValue, hWritten] at hSame
    exact hSame
  -- Beyond the exact integers the last of them lies between.
  have hInside := abs_lt.1 (abs_value_lt_of_not_isIntegral hx)
  have hLimit : (2 ^ 53 - 1 : ℤ).natAbs < 2 ^ 53 := by decide
  have hNegLimit : (-(2 ^ 53 - 1) : ℤ).natAbs < 2 ^ 53 := by decide
  rcases exists_exact hLimit with ⟨y, hy, hyValue, hyWritten⟩
  rcases exists_exact hNegLimit with ⟨z, hz, hzValue, hzWritten⟩
  push_cast at hyValue hyWritten hzValue hzWritten
  have hHigh := written_lt hFinite hy (by rw [hyValue]; linarith)
  have hLow := written_lt hz hFinite (by rw [hzValue]; linarith)
  rw [hyWritten] at hHigh
  rw [hzWritten] at hLow
  rcases lt_or_ge i 0 with hNeg | hPos
  · have hOut : (i : ℚ) ≤ -2 ^ 53 := by
      exact_mod_cast (by omega : i ≤ -2 ^ 53)
    rw [(cmp_eq_lt_iff _ _).2 (by linarith),
      (cmp_eq_lt_iff _ _).2 (by linarith)]
  · have hOut : (2 ^ 53 : ℚ) ≤ i := by
      exact_mod_cast (by omega : (2 ^ 53 : ℤ) ≤ i)
    rw [(cmp_eq_gt_iff _ _).2 (by linarith),
      (cmp_eq_gt_iff _ _).2 (by linarith)]

end Binary64
end StackScript
