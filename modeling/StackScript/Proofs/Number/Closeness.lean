import Mathlib.Algebra.Order.Ring.Pow
import StackScript.Proofs.Number.Power
import StackScript.Proofs.Number.Quotient

/-
  Positive numbers that are close up to some roundings.

  A rounding changes a share of a number, no more than half
  a unit in its last digit. Such shares add up along a
  computation with products and quotients, whatever is
  computed, and a power that is rounded at each product
  suffers as many of them as it has factors.

  Key definitions include:
    * `Significant.Close`

  Key theorems include:
    * `Significant.Close.trans`
    * `Decimal.close_round`
    * `Decimal.close_div`
    * `Decimal.close_power`
-/

namespace StackScript

------------------------------------------------------------
-- Closeness
------------------------------------------------------------

namespace Significant

/-
  Each number is at least the other one after `k` times a
  share of it has been lost.
-/
structure Close
    (share : ℚ)
    (k : Nat)
    (x y : ℚ) : Prop where
  low : (1 - share) ^ k * y ≤ x
  high : (1 - share) ^ k * x ≤ y

variable {share : ℚ}
variable {j k : Nat}
variable {x y z c : ℚ}

theorem Close.refl (x : ℚ) : Close share 0 x x := by
  constructor <;> rw [pow_zero, one_mul]

theorem Close.trans
    (hShare : share < 1)
    (hxy : Close share j x y)
    (hyz : Close share k y z) :
    Close share (j + k) x z := by
  have hRest (i : Nat) : 0 ≤ (1 - share) ^ i :=
    pow_nonneg (by linarith) i
  constructor
  · calc (1 - share) ^ (j + k) * z
        = (1 - share) ^ j * ((1 - share) ^ k * z) := by
          rw [pow_add, mul_assoc]
      _ ≤ (1 - share) ^ j * y :=
          mul_le_mul_of_nonneg_left hyz.low (hRest j)
      _ ≤ x := hxy.low
  · calc (1 - share) ^ (j + k) * x
        = (1 - share) ^ k * ((1 - share) ^ j * x) := by
          rw [pow_add, mul_comm ((1 - share) ^ j), mul_assoc]
      _ ≤ (1 - share) ^ k * y :=
          mul_le_mul_of_nonneg_left hxy.high (hRest k)
      _ ≤ z := hyz.high

/- What is close to a positive number is positive. -/
theorem Close.pos
    (hShare : share < 1)
    (h : Close share k x y)
    (hy : 0 < y) :
    0 < x := by
  have hRest : 0 < (1 - share) ^ k := pow_pos (by linarith) k
  exact (mul_pos hRest hy).trans_le h.low

theorem Close.mul
    {x' y' : ℚ}
    (hShare : share < 1)
    (hy : 0 < y)
    (hy' : 0 < y')
    (h : Close share j x y)
    (h' : Close share k x' y') :
    Close share (j + k) (x * x') (y * y') := by
  have hx := h.pos hShare hy
  have hx' := h'.pos hShare hy'
  have hRest (i : Nat) : 0 ≤ (1 - share) ^ i :=
    pow_nonneg (by linarith) i
  constructor
  · calc (1 - share) ^ (j + k) * (y * y')
        = ((1 - share) ^ j * y) * ((1 - share) ^ k * y') := by
          rw [pow_add]
          ring
      _ ≤ x * x' :=
          mul_le_mul h.low h'.low (mul_nonneg (hRest k) hy'.le) hx.le
  · calc (1 - share) ^ (j + k) * (x * x')
        = ((1 - share) ^ j * x) * ((1 - share) ^ k * x') := by
          rw [pow_add]
          ring
      _ ≤ y * y' :=
          mul_le_mul h.high h'.high (mul_nonneg (hRest k) hx'.le) hy.le

/- A factor that is exact changes nothing. -/
theorem Close.mul_left
    (hShare : share < 1)
    (hc : 0 < c)
    (hy : 0 < y)
    (h : Close share k x y) :
    Close share k (c * x) (c * y) := by
  have hFactor : Close share 0 c c := Close.refl c
  have hProduct := hFactor.mul hShare hc hy h
  rw [Nat.zero_add] at hProduct
  exact hProduct

/- A divisor passes on what it suffered. -/
theorem Close.div
    (hShare : share < 1)
    (hc : 0 < c)
    (hy : 0 < y)
    (h : Close share k x y) :
    Close share k (c / x) (c / y) := by
  have hx := h.pos hShare hy
  constructor
  · rw [le_div_iff₀ hx]
    calc (1 - share) ^ k * (c / y) * x
        = c / y * ((1 - share) ^ k * x) := by ring
      _ ≤ c / y * y :=
          mul_le_mul_of_nonneg_left h.high (div_pos hc hy).le
      _ = c := div_mul_cancel₀ c hy.ne'
  · rw [le_div_iff₀ hy]
    calc (1 - share) ^ k * (c / x) * y
        = c / x * ((1 - share) ^ k * y) := by ring
      _ ≤ c / x * x :=
          mul_le_mul_of_nonneg_left h.low (div_pos hc hx).le
      _ = c := div_mul_cancel₀ c hx.ne'

/- Powers of the two sides, with as many losses for each factor. -/
theorem Close.pow
    (hShare : share < 1)
    (hy : 0 < y)
    (h : Close share k x y)
    (n : Nat) :
    Close share (k * n) (x ^ n) (y ^ n) := by
  have hx := h.pos hShare hy
  have hRest : 0 ≤ (1 - share) ^ k := pow_nonneg (by linarith) k
  constructor
  · rw [pow_mul, ← mul_pow]
    exact pow_le_pow_left₀ (mul_nonneg hRest hy.le) h.low n
  · rw [pow_mul, ← mul_pow]
    exact pow_le_pow_left₀ (mul_nonneg hRest hx.le) h.high n

/- What is left of a number after small losses. -/
theorem one_sub_mul_le_pow
    (hShare : share < 1)
    (k : Nat) :
    1 - k * share ≤ (1 - share) ^ k := by
  have hBernoulli :=
    one_add_mul_le_pow (by linarith : (-2 : ℚ) ≤ -share) k
  rw [← sub_eq_add_neg] at hBernoulli
  linarith

------------------------------------------------------------
-- Roundings
------------------------------------------------------------

/- Half a unit is a small share of a number. -/
theorem unit_le
    (p : Nat)
    (hx : 0 < x) :
    unit p x ≤ 10 / 10 ^ p * x := by
  calc unit p x = 10 / 10 ^ p * (10 : ℚ) ^ place x := by
        unfold unit
        rw [zpow_sub₀ (by norm_num), zpow_add₀ (by norm_num), zpow_one,
          zpow_natCast]
        ring
    _ ≤ 10 / 10 ^ p * x :=
        mul_le_mul_of_nonneg_left (place_le hx) (by positivity)

/- A positive number that goes to the nearest loses one share at most. -/
theorem close_kept
    {p : Nat}
    (hShare : share < 1)
    (hHalf : 5 / 10 ^ p ≤ share)
    (hx : 0 < x) :
    Close share 1 (kept p (1 / 2) x) x := by
  have hUnit := unit_le p hx
  have hLow := lt_kept p (1 / 2) x
  have hHigh := kept_le p (1 / 2) x
  have hSmall : 5 / 10 ^ p * x ≤ share * x :=
    mul_le_mul_of_nonneg_right hHalf hx.le
  have hTwice : 10 / 10 ^ p * x = 2 * (5 / 10 ^ p * x) := by ring
  constructor <;> rw [pow_one]
  · linarith
  · have hUp : kept p (1 / 2) x ≤ (1 + share) * x := by linarith
    calc (1 - share) * kept p (1 / 2) x
        ≤ (1 - share) * ((1 + share) * x) :=
          mul_le_mul_of_nonneg_left hUp (by linarith)
      _ = x - share ^ 2 * x := by ring
      _ ≤ x := sub_le_self x (by positivity)

end Significant

------------------------------------------------------------
-- Operations on Decimals
------------------------------------------------------------

namespace Decimal

open Significant

variable {share : ℚ}
variable {a b : Decimal}
variable {p : Nat}

theorem close_round
    (hShare : share < 1)
    (hHalf : 5 / 10 ^ p ≤ share)
    (hp : 1 ≤ p)
    (ha : 0 < a.value) :
    Close share 1 (a.round p).value a.value := by
  rw [value_round a hp, rounded_of_nonneg ha.le]
  exact close_kept hShare hHalf ha

/- A quotient has been rounded at a hundred digits or more. -/
theorem close_div
    (hShare : share < 1)
    (hHalf : 5 / 10 ^ p ≤ share)
    (hp : p ≤ 100)
    (ha : 0 < a.value)
    (hb : 0 < b.value) :
    Close share 1 (a.div b).value (a.value / b.value) := by
  have hQuotient : 0 < a.value / b.value := div_pos ha hb
  rcases value_div a hb.ne' with ⟨g, hg, hValue⟩
  have hFiner : (5 : ℚ) / 10 ^ g ≤ share := by
    refine le_trans ?_ hHalf
    exact div_le_div_of_nonneg_left (by norm_num) (by positivity)
      (pow_le_pow_right₀ (by norm_num) (hp.trans hg))
  rw [hValue, nearest_of_nonneg hQuotient.le]
  exact close_kept hShare hFiner hQuotient

/- A product of two powers is rounded once. -/
theorem close_mulTidy
    {i j k l : Nat}
    {r s : Decimal}
    (hShare : share < 1)
    (hHalf : 5 / 10 ^ p ≤ share)
    (hp : 1 ≤ p)
    (ha : 0 < a.value)
    (hr : Close share i r.value (a.value ^ j))
    (hs : Close share k s.value (a.value ^ l)) :
    Close share (i + k + 1) ((r.mulTidy s).round p).value
      (a.value ^ (j + l)) := by
  have hExact :
      Close share (i + k) (r.mulTidy s).value (a.value ^ (j + l)) := by
    rw [value_mulTidy, pow_add]
    exact hr.mul hShare (pow_pos ha j) (pow_pos ha l) hs
  have hPos := hExact.pos hShare (pow_pos ha (j + l))
  have hRounded := close_round hShare hHalf hp hPos
  rw [Nat.add_comm]
  exact hRounded.trans hShare hExact

/-
  A power is rounded at each product: as many times as it
  has factors, and the square once less, since the first one
  is the base itself.
-/
theorem close_power
    {e : Nat}
    (hShare : share < 1)
    (hHalf : 5 / 10 ^ p ≤ share)
    (hp : 1 ≤ p)
    (ha : 0 < a.value) :
    Close share e (a.power e p).value (a.value ^ e) := by
  apply power_induct
    (R := fun k x => Close share k x.value (a.value ^ k))
    (S := fun k x => 0 < k ∧ Close share (k - 1) x.value (a.value ^ k))
  · rintro j k r s - hr ⟨hk, hs⟩
    have hTaken := close_mulTidy hShare hHalf hp ha hr hs
    rw [show j + (k - 1) + 1 = j + k by omega] at hTaken
    exact hTaken
  · rintro k s - ⟨hk, hs⟩
    have hSquare := close_mulTidy hShare hHalf hp ha hs hs
    rw [show k - 1 + (k - 1) + 1 = k + k - 1 by omega] at hSquare
    exact ⟨by omega, hSquare⟩
  · rw [value_one, pow_zero]
    exact Close.refl 1
  · rw [pow_one]
    exact ⟨Nat.one_pos, Close.refl a.value⟩

end Decimal
end StackScript
