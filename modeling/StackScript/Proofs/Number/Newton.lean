import Mathlib.Algebra.Order.Ring.Pow
import Mathlib.Tactic.FieldSimp
import Mathlib.Tactic.Linarith
import Mathlib.Tactic.Positivity
import Mathlib.Tactic.Ring

/-
  Newton's step toward an `n`th root, without rounding.

  The step scales an approximation by how far its power is
  from the radicand. By Bernoulli's inequality its result is
  never too small; and a power that is not too small before
  is at most half as far from the radicand after it.

  Key definitions include:
    * `Newton.step`

  Key theorems include:
    * `Newton.le_step_pow`
    * `Newton.step_pow_mul_le`
    * `Newton.sq_le_of_above`
    * `Newton.sq_le_of_near`
-/

namespace StackScript
namespace Newton

variable {n : Nat}
variable {a x : ℚ}

/- The weighted mean of an approximation and its counterpart. -/
def step
    (n : Nat)
    (a x : ℚ) : ℚ :=
  ((n - 1) * x + a / x ^ (n - 1)) / n

/- The step as a factor, from the share that the power has too much. -/
theorem step_eq
    (hn : 1 ≤ n)
    (hx : 0 < x) :
    step n a x = x * (1 - (1 - a / x ^ n) / n) := by
  have hDegree : (n : ℚ) ≠ 0 := by positivity
  have hPower : x ^ n = x ^ (n - 1) * x := by
    rw [← pow_succ, Nat.sub_add_cancel hn]
  have hLess : x ^ (n - 1) ≠ 0 := by positivity
  unfold step
  rw [hPower]
  field_simp
  ring

theorem step_pos
    (hn : 1 ≤ n)
    (ha : 0 < a)
    (hx : 0 < x) :
    0 < step n a x := by
  have hDegree : (1 : ℚ) ≤ n := by exact_mod_cast hn
  have hOld : 0 ≤ ((n : ℚ) - 1) * x :=
    mul_nonneg (by linarith) hx.le
  have hNew : 0 < a / x ^ (n - 1) := by positivity
  exact div_pos (by linarith) (by linarith)

/- A step does not end below the root. -/
theorem le_step_pow
    (hn : 1 ≤ n)
    (ha : 0 < a)
    (hx : 0 < x) :
    a ≤ step n a x ^ n := by
  have hDegree : (1 : ℚ) ≤ n := by exact_mod_cast hn
  have hPower : 0 < x ^ n := pow_pos hx n
  have hShare : 0 < a / x ^ n := div_pos ha hPower
  have hSmall : -2 ≤ -((1 - a / x ^ n) / n) := by
    rw [neg_le_neg_iff, div_le_iff₀ (by linarith)]
    linarith
  have hBernoulli := one_add_mul_le_pow hSmall n
  have hFactor : 1 + n * -((1 - a / x ^ n) / n) = a / x ^ n := by
    field_simp
    ring
  rw [hFactor, ← sub_eq_add_neg] at hBernoulli
  calc a = x ^ n * (a / x ^ n) := (mul_div_cancel₀ a hPower.ne').symm
    _ ≤ x ^ n * (1 - (1 - a / x ^ n) / n) ^ n :=
        mul_le_mul_of_nonneg_left hBernoulli hPower.le
    _ = step n a x ^ n := by rw [step_eq hn hx, mul_pow]

/-
  Nor far above it, unless the power was below half of the
  radicand.
-/
theorem step_pow_mul_le
    (hn : 1 ≤ n)
    (ha : 0 < a)
    (hx : 0 < x)
    (hHalf : a ≤ 2 * x ^ n) :
    step n a x ^ n * (2 * x ^ n - a) ≤ (x ^ n) ^ 2 := by
  have hDegree : (1 : ℚ) ≤ n := by exact_mod_cast hn
  have hPower : 0 < x ^ n := pow_pos hx n
  generalize hShare : 1 - a / x ^ n = d
  have hMost : d ≤ 1 := by
    have hPos : 0 < a / x ^ n := div_pos ha hPower
    linarith
  have hLeast : -1 ≤ d := by
    have hLess : a / x ^ n ≤ 2 := (div_le_iff₀ hPower).2 hHalf
    linarith
  have hQuotient : |d / n| ≤ 1 := by
    rw [abs_div, abs_of_pos (by linarith : (0 : ℚ) < n),
      div_le_iff₀ (by linarith), one_mul]
    exact (abs_le.2 ⟨hLeast, hMost⟩).trans hDegree
  have hBounds := abs_le.1 hQuotient
  have hBernoulli : 1 + d ≤ (1 + d / n) ^ n := by
    have hGeneral := one_add_mul_le_pow (by linarith : -2 ≤ d / n) n
    rw [mul_div_cancel₀ d (by linarith : (n : ℚ) ≠ 0)] at hGeneral
    exact hGeneral
  have hFactors : (1 - d / n) ^ n * (1 + d / n) ^ n ≤ 1 := by
    rw [← mul_pow]
    apply pow_le_one₀
    · exact mul_nonneg (by linarith) (by linarith)
    · have hSquare := sq_nonneg (d / n)
      linarith
  have hTwice : 2 * x ^ n - a = x ^ n * (1 + d) := by
    rw [← hShare]
    field_simp
    ring
  rw [hTwice, step_eq hn hx, hShare, mul_pow]
  calc x ^ n * (1 - d / n) ^ n * (x ^ n * (1 + d))
      = (x ^ n) ^ 2 * ((1 - d / n) ^ n * (1 + d)) := by ring
    _ ≤ (x ^ n) ^ 2 * ((1 - d / n) ^ n * (1 + d / n) ^ n) := by
        apply mul_le_mul_of_nonneg_left _ (by positivity)
        exact mul_le_mul_of_nonneg_left hBernoulli
          (pow_nonneg (by linarith) n)
    _ ≤ (x ^ n) ^ 2 * 1 :=
        mul_le_mul_of_nonneg_left hFactors (by positivity)
    _ = (x ^ n) ^ 2 := mul_one _

/-
  What this means for a share `X` of the radicand: above it,
  half of the excess is left, and the square of what it is
  off when it is near.
-/
theorem sq_le_of_above
    {X β T : ℚ}
    (hβ : 0 ≤ β)
    (hLow : β ≤ X)
    (hHigh : X ≤ β + T) :
    X ^ 2 ≤ (2 * X - β) * (β + T / 2) := by
  have hRest : (X - β) ^ 2 ≤ (X - β) * T := by
    rw [pow_two]
    exact mul_le_mul_of_nonneg_left (by linarith) (by linarith)
  have hBase : 0 ≤ β * (T / 2) := mul_nonneg hβ (by linarith)
  calc X ^ 2 = (2 * X - β) * β + (X - β) ^ 2 := by ring
    _ ≤ (2 * X - β) * β + (X - β) * T + β * (T / 2) := by linarith
    _ = (2 * X - β) * (β + T / 2) := by ring

theorem sq_le_of_near
    {X β s : ℚ}
    (hβ : 1 ≤ β)
    (hNear : |X - β| ≤ s)
    (hs : s ≤ 1 / 4) :
    X ^ 2 ≤ (2 * X - β) * (β + 2 * s ^ 2) := by
  have hBounds := abs_le.1 hNear
  have hFactor : 1 / 2 ≤ 2 * X - β := by linarith
  calc X ^ 2 = (2 * X - β) * β + (X - β) ^ 2 := by ring
    _ ≤ (2 * X - β) * β + 1 / 2 * (2 * s ^ 2) := by
        have hSquare := sq_le_sq' hBounds.1 hBounds.2
        linarith
    _ ≤ (2 * X - β) * β + (2 * X - β) * (2 * s ^ 2) := by
        have hRest :=
          mul_le_mul_of_nonneg_right hFactor
            (by positivity : 0 ≤ 2 * s ^ 2)
        linarith
    _ = (2 * X - β) * (β + 2 * s ^ 2) := by ring

end Newton
end StackScript
