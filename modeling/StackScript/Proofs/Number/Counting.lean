import StackScript.Proofs.Number.Numerals

/-
  The number of digits is exact.

  The search for it starts at or below the answer, since
  fifty-nine decimal digits are worth no more than a hundred
  and ninety-six binary ones.

  Key theorems include:
    * `Digits.lt_tens_count`
    * `Digits.tens_pred_count_le`
    * `Digits.count_le_iff`
    * `Digits.strip_mod_ten`
-/

namespace StackScript
namespace Digits

variable {n k : Nat}

theorem tens_eq (k : Nat) : tens k = 10 ^ k := rfl

------------------------------------------------------------
-- Counting
------------------------------------------------------------

/- The search ends above the number, given enough steps. -/
theorem lt_tens_climb
    {steps start : Nat}
    (h : n < tens (start + steps)) :
    n < tens (climb n steps start) := by
  induction steps generalizing start with
  | zero => exact h
  | succ steps ih =>
      unfold climb
      by_cases hMore : tens start ≤ n
      · rw [if_pos hMore]
        apply ih
        rw [Nat.add_right_comm]
        exact h
      · rw [if_neg hMore]
        exact Nat.lt_of_not_le hMore

/- It ends no further than one step above it. -/
theorem tens_pred_climb_le
    {start : Nat}
    (steps : Nat)
    (h : tens (start - 1) ≤ n) :
    tens (climb n steps start - 1) ≤ n := by
  induction steps generalizing start with
  | zero => exact h
  | succ steps ih =>
      unfold climb
      by_cases hMore : tens start ≤ n
      · rw [if_pos hMore]
        apply ih
        rw [Nat.add_sub_cancel]
        exact hMore
      · rw [if_neg hMore]
        exact h

/- The search starts at a power of ten that is not too large. -/
theorem tens_start_le (hn : 0 < n) :
    tens (n.log2 * 30102 / 100000) ≤ n := by
  have hLog : 2 ^ n.log2 ≤ n := Nat.log2_self_le (Nat.ne_of_gt hn)
  generalize hStart : n.log2 * 30102 / 100000 = start
  have hShare : 196 * start ≤ 59 * n.log2 := by omega
  have hPowers : (10 ^ start) ^ 59 ≤ (2 ^ n.log2) ^ 59 := by
    calc (10 ^ start) ^ 59 = (10 ^ 59) ^ start := by
          rw [← Nat.pow_mul, ← Nat.pow_mul, Nat.mul_comm]
      _ ≤ (2 ^ 196) ^ start := Nat.pow_le_pow_left (by decide) start
      _ = 2 ^ (196 * start) := by rw [Nat.pow_mul]
      _ ≤ 2 ^ (59 * n.log2) :=
          Nat.pow_le_pow_right (by omega) hShare
      _ = (2 ^ n.log2) ^ 59 := by
          rw [← Nat.pow_mul, Nat.mul_comm]
  have hRoots : 10 ^ start ≤ 2 ^ n.log2 :=
    (Nat.pow_le_pow_iff_left (by omega)).1 hPowers
  exact hRoots.trans hLog

/- A number takes no more digits than are counted. -/
theorem lt_tens_count (n : Nat) : n < tens (count n) := by
  have hEnough : n < tens (n.log2 * 30102 / 100000 + (n.log2 + 1)) := by
    calc n < 2 ^ (n.log2 + 1) := Nat.lt_log2_self
      _ ≤ 10 ^ (n.log2 + 1) := Nat.pow_le_pow_left (by omega) _
      _ ≤ tens (n.log2 * 30102 / 100000 + (n.log2 + 1)) :=
          Nat.pow_le_pow_right (by omega) (by omega)
  exact (lt_tens_climb hEnough).trans_le
    (Nat.pow_le_pow_right (by omega) (Nat.le_max_right _ _))

/- And no fewer. -/
theorem tens_pred_count_le (hn : 0 < n) : tens (count n - 1) ≤ n := by
  have hStart : tens (n.log2 * 30102 / 100000 - 1) ≤ n :=
    (Nat.pow_le_pow_right (by omega) (Nat.sub_le _ _)).trans
      (tens_start_le hn)
  have hClimb := tens_pred_climb_le (n.log2 + 1) hStart
  unfold count
  rcases Nat.le_total 1
      (climb n (n.log2 + 1) (n.log2 * 30102 / 100000)) with
    hLess | hMore
  · rw [Nat.max_eq_right hLess]
    exact hClimb
  · rw [Nat.max_eq_left hMore]
    exact hn

/- The digits are counted by the power of ten above a number. -/
theorem count_le_iff (hk : 0 < k) : count n ≤ k ↔ n < 10 ^ k := by
  constructor
  · intro hCount
    exact (lt_tens_count n).trans_le
      (Nat.pow_le_pow_right (by omega) hCount)
  · intro hLess
    by_contra hMore
    by_cases hZero : n = 0
    · rw [hZero] at hMore
      exact hMore hk
    · have hPower : 10 ^ k ≤ tens (count n - 1) :=
        Nat.pow_le_pow_right (by omega) (by omega)
      have hLow :=
        hPower.trans (tens_pred_count_le (Nat.pos_of_ne_zero hZero))
      omega

------------------------------------------------------------
-- Trailing Zeros
------------------------------------------------------------

/- Given enough steps, no zero is left at the end. -/
theorem strip_mod_ten
    {steps : Nat}
    (hn : n ≠ 0)
    (h : n < 10 ^ steps) :
    (strip steps n).1 % 10 ≠ 0 := by
  induction steps generalizing n with
  | zero => omega
  | succ steps ih =>
      unfold strip
      by_cases hZero : n % 10 = 0
      · rw [if_pos hZero]
        rw [Nat.pow_succ] at h
        exact ih (by omega) (by omega)
      · rw [if_neg hZero]
        exact hZero

end Digits
end StackScript
