import StackScript.Proofs.Number.Closeness
import StackScript.Proofs.Number.Newton

/-
  Newton's iteration with roundings.

  A rounded step is an exact one toward a radicand that is
  close to the given one, and its result is rounded again. A
  step never ends much below the root. From there on the
  excess of the power is halved at each step, down to a few
  of the roundings; and where two approximations lie close
  together, the later one is as good as the square of their
  distance.

  Key definitions include:
    * `Newton.RoundedStep`
    * `Newton.Regime`

  Key theorems include:
    * `Newton.RoundedStep.le_pow`
    * `Newton.RoundedStep.halved`
    * `Newton.RoundedStep.settled`
    * `Newton.run_pow_le`
-/

namespace StackScript
namespace Newton

open Significant

/-
  One step toward the `n`th root of `b`, where the radicand
  suffers one rounding for each factor and two more, and the
  result two.
-/
def RoundedStep
    (share : ℚ)
    (n : Nat)
    (b x y : ℚ) : Prop :=
  ∃ a, Close share (n + 1) a b ∧ Close share 2 y (step n a x)

/-
  A degree, a positive radicand, and a share so small that
  even all factors together lose little.
-/
structure Regime
    (share : ℚ)
    (n : Nat)
    (b : ℚ) : Prop where
  degree : 2 ≤ n
  share_nonneg : 0 ≤ share
  total_le : n * share ≤ 1 / 20000
  pos : 0 < b

variable {share : ℚ}
variable {n : Nat}
variable {b x y : ℚ}

namespace Regime

theorem one_le (h : Regime share n b) : (1 : ℚ) ≤ n := by
  have hDegree := h.degree
  exact_mod_cast (by omega : 1 ≤ n)

theorem total_nonneg (h : Regime share n b) : 0 ≤ n * share :=
  mul_nonneg (Nat.cast_nonneg n) h.share_nonneg

theorem share_lt_one (h : Regime share n b) : share < 1 := by
  have hLoss : share ≤ n * share :=
    le_mul_of_one_le_left h.share_nonneg h.one_le
  have hTotal := h.total_le
  linarith

/- A power as a multiple of the radicand. -/
theorem exists_eq_mul
    (h : Regime share n b)
    (z : ℚ) :
    ∃ X, z = b * X :=
  ⟨z / b, (mul_div_cancel₀ _ h.pos.ne').symm⟩

end Regime

namespace RoundedStep

------------------------------------------------------------
-- One Step
------------------------------------------------------------

theorem pos
    (hn : 2 ≤ n)
    (hShare : share < 1)
    (hb : 0 < b)
    (hx : 0 < x)
    (h : RoundedStep share n b x y) :
    0 < y := by
  rcases h with ⟨a, hRadicand, hResult⟩
  exact hResult.pos hShare
    (step_pos (by omega) (hRadicand.pos hShare hb) hx)

/- Wherever a step starts, it does not end far below the root. -/
theorem le_pow
    (hn : 2 ≤ n)
    (hPos : 0 ≤ share)
    (hShare : share < 1)
    (hb : 0 < b)
    (hx : 0 < x)
    (h : RoundedStep share n b x y) :
    (1 - share) ^ (4 * n) * b ≤ y ^ n := by
  rcases h with ⟨a, hRadicand, hResult⟩
  have ha := hRadicand.pos hShare hb
  have hStep := step_pos (n := n) (by omega) ha hx
  have hRest : 0 ≤ (1 - share) ^ (2 * n) :=
    pow_nonneg (by linarith) _
  calc (1 - share) ^ (4 * n) * b
      ≤ (1 - share) ^ (2 * n + (n + 1)) * b :=
        mul_le_mul_of_nonneg_right
          (pow_le_pow_of_le_one (by linarith) (by linarith) (by omega)) hb.le
    _ = (1 - share) ^ (2 * n) * ((1 - share) ^ (n + 1) * b) := by
        rw [pow_add, mul_assoc]
    _ ≤ (1 - share) ^ (2 * n) * a :=
        mul_le_mul_of_nonneg_left hRadicand.low hRest
    _ ≤ (1 - share) ^ (2 * n) * step n a x ^ n :=
        mul_le_mul_of_nonneg_left (le_step_pow (by omega) ha hx) hRest
    _ ≤ y ^ n := (hResult.pow hShare hStep n).low

/- The same in terms of the share that all factors lose. -/
theorem mul_le_pow
    (hRegime : Regime share n b)
    (hx : 0 < x)
    (h : RoundedStep share n b x y) :
    b * (1 - 4 * (n * share)) ≤ y ^ n := by
  have hMany := one_sub_mul_le_pow hRegime.share_lt_one (4 * n)
  have hScaled := mul_le_mul_of_nonneg_right hMany hRegime.pos.le
  have hLow :=
    h.le_pow hRegime.degree hRegime.share_nonneg hRegime.share_lt_one
      hRegime.pos hx
  push_cast at hScaled
  linarith

/- One rounding for each factor and one more leave this much of it. -/
theorem radicand_le
    {a : ℚ}
    (hRegime : Regime share n b)
    (h : Close share (n + 1) a b) :
    a ≤ b * (1 + 2 * (n * share)) := by
  have ha := h.pos hRegime.share_lt_one hRegime.pos
  have hFew := one_sub_mul_le_pow hRegime.share_lt_one (n + 1)
  have hTwice : 2 * share ≤ n * share :=
    mul_le_mul_of_nonneg_right (by exact_mod_cast hRegime.degree)
      hRegime.share_nonneg
  have hTotal := hRegime.total_nonneg
  have hSmall := hRegime.total_le
  have hHigh := h.high
  push_cast at hFew
  generalize hη : (n : ℚ) * share = η at *
  have hKept : 1 - 3 / 2 * η ≤ (1 - share) ^ (n + 1) := by linarith
  have hFactor : 1 ≤ (1 - 3 / 2 * η) * (1 + 2 * η) := by nlinarith
  calc a ≤ (1 - 3 / 2 * η) * (1 + 2 * η) * a :=
        le_mul_of_one_le_left ha.le hFactor
    _ = (1 - 3 / 2 * η) * a * (1 + 2 * η) := by ring
    _ ≤ (1 - share) ^ (n + 1) * a * (1 + 2 * η) :=
        mul_le_mul_of_nonneg_right
          (mul_le_mul_of_nonneg_right hKept ha.le) (by linarith)
    _ ≤ b * (1 + 2 * η) :=
        mul_le_mul_of_nonneg_right hHigh (by linarith)

/-
  A bound on the power after an exact step, from one on the
  share `X` of the radicand that it was before.
-/
theorem step_pow_le
    {a β X bound : ℚ}
    (hn : 1 ≤ n)
    (ha : 0 < a)
    (hb : 0 < b)
    (hx : 0 < x)
    (hMost : a ≤ b * β)
    (hPower : x ^ n = b * X)
    (hHalf : β < 2 * X)
    (hBound : X ^ 2 ≤ (2 * X - β) * bound) :
    step n a x ^ n ≤ b * bound := by
  have hStep := step_pos hn ha hx
  have hGap : 0 < b * (2 * X - β) := mul_pos hb (by linarith)
  have hTwice : b * (2 * X - β) ≤ 2 * x ^ n - a := by
    rw [hPower]
    linarith
  have hNewton := step_pow_mul_le hn ha hx (by linarith)
  refine le_of_mul_le_mul_right ?_ hGap
  calc step n a x ^ n * (b * (2 * X - β))
      ≤ step n a x ^ n * (2 * x ^ n - a) :=
        mul_le_mul_of_nonneg_left hTwice (pow_pos hStep n).le
    _ ≤ (x ^ n) ^ 2 := hNewton
    _ = b ^ 2 * X ^ 2 := by rw [hPower, mul_pow]
    _ ≤ b ^ 2 * ((2 * X - β) * bound) :=
        mul_le_mul_of_nonneg_left hBound (by positivity)
    _ = b * bound * (b * (2 * X - β)) := by ring

/- The same after a rounded step. -/
theorem pow_le
    {X bound : ℚ}
    (hRegime : Regime share n b)
    (hx : 0 < x)
    (h : RoundedStep share n b x y)
    (hPower : x ^ n = b * X)
    (hHalf : 1 + 2 * (n * share) < 2 * X)
    (hBound : X ^ 2 ≤ (2 * X - (1 + 2 * (n * share))) * bound) :
    (1 - 2 * (n * share)) * y ^ n ≤ b * bound := by
  have hn : 1 ≤ n := by
    have hDegree := hRegime.degree
    omega
  have hShare := hRegime.share_lt_one
  rcases h with ⟨a, hRadicand, hResult⟩
  have ha := hRadicand.pos hShare hRegime.pos
  have hStep := step_pos hn ha hx
  have hMany := one_sub_mul_le_pow hShare (2 * n)
  have hMost := radicand_le hRegime hRadicand
  push_cast at hMany
  calc (1 - 2 * (n * share)) * y ^ n
      ≤ (1 - share) ^ (2 * n) * y ^ n :=
        mul_le_mul_of_nonneg_right (by linarith)
          (pow_pos (hResult.pos hShare hStep) n).le
    _ ≤ step n a x ^ n := (hResult.pow hShare hStep n).high
    _ ≤ b * bound :=
        step_pow_le hn ha hRegime.pos hx hMost hPower hHalf hBound

/- The losses of the last roundings go into the bound. -/
theorem pow_le_of_bound
    {X bound goal : ℚ}
    (hRegime : Regime share n b)
    (hx : 0 < x)
    (h : RoundedStep share n b x y)
    (hPower : x ^ n = b * X)
    (hHalf : 1 + 2 * (n * share) < 2 * X)
    (hBound : X ^ 2 ≤ (2 * X - (1 + 2 * (n * share))) * bound)
    (hGoal : bound ≤ (1 - 2 * (n * share)) * goal) :
    y ^ n ≤ b * goal := by
  have hScaled := pow_le hRegime hx h hPower hHalf hBound
  have hFactor : 0 < 1 - 2 * (n * share) := by
    have hSmall := hRegime.total_le
    linarith
  refine le_of_mul_le_mul_left ?_ hFactor
  calc (1 - 2 * (n * share)) * y ^ n
      ≤ b * bound := hScaled
    _ ≤ b * ((1 - 2 * (n * share)) * goal) :=
        mul_le_mul_of_nonneg_left hGoal hRegime.pos.le
    _ = (1 - 2 * (n * share)) * (b * goal) := by ring

------------------------------------------------------------
-- Approach
------------------------------------------------------------

/- Half of the excess is left, and some roundings. -/
theorem halved
    {T : ℚ}
    (hRegime : Regime share n b)
    (hx : 0 < x)
    (h : RoundedStep share n b x y)
    (hT : 0 ≤ T)
    (hLow : b * (1 - 4 * (n * share)) ≤ x ^ n)
    (hHigh : x ^ n ≤ b * (1 + T)) :
    y ^ n ≤ b * (1 + (5 * (n * share) + 51 / 100 * T)) := by
  rcases hRegime.exists_eq_mul (x ^ n) with ⟨X, hX⟩
  have hη := hRegime.total_nonneg
  have hSmall := hRegime.total_le
  rw [hX] at hLow hHigh
  have hLow' := le_of_mul_le_mul_left hLow hRegime.pos
  have hHigh' := le_of_mul_le_mul_left hHigh hRegime.pos
  have hProduct : 2 * (n * share) * T ≤ 1 / 10000 * T :=
    mul_le_mul_of_nonneg_right (by linarith) hT
  have hSquare : (n * share) * (n * share) ≤ 1 / 20000 * (n * share) :=
    mul_le_mul_of_nonneg_right hSmall hη
  have hGoal :
      1 + 3 * (n * share) - 1 / 100 * (n * share) + T / 2 ≤
        (1 - 2 * (n * share)) *
          (1 + (5 * (n * share) + 51 / 100 * T)) := by
    linarith
  rcases le_total (1 + 2 * (n * share)) X with hAbove | hBelow
  · refine pow_le_of_bound hRegime hx h hX (by linarith)
      (sq_le_of_above (T := T) (by linarith) hAbove (by linarith)) ?_
    linarith
  · have hNear : |X - (1 + 2 * (n * share))| ≤ 6 * (n * share) :=
      abs_le.2 ⟨by linarith, by linarith⟩
    refine pow_le_of_bound hRegime hx h hX (by linarith)
      (sq_le_of_near (by linarith) hNear (by linarith)) ?_
    linarith

/- The first step may start from somewhat below the root. -/
theorem started
    {T : ℚ}
    (hRegime : Regime share n b)
    (hx : 0 < x)
    (h : RoundedStep share n b x y)
    (hT : 1 ≤ T)
    (hLow : 4 * b ≤ 5 * x ^ n)
    (hHigh : x ^ n ≤ b * (1 + T)) :
    y ^ n ≤ b * (1 + T) := by
  rcases hRegime.exists_eq_mul (x ^ n) with ⟨X, hX⟩
  have hη := hRegime.total_nonneg
  have hSmall := hRegime.total_le
  rw [hX] at hLow hHigh
  have hLow' : 4 ≤ 5 * X := le_of_mul_le_mul_left (by linarith) hRegime.pos
  have hHigh' := le_of_mul_le_mul_left hHigh hRegime.pos
  have hProduct : 2 * (n * share) * T ≤ 1 / 10000 * T :=
    mul_le_mul_of_nonneg_right (by linarith) (by linarith)
  rcases le_total (1 + 2 * (n * share)) X with hAbove | hBelow
  · refine pow_le_of_bound hRegime hx h hX (by linarith)
      (sq_le_of_above (T := T) (by linarith) hAbove (by linarith)) ?_
    linarith
  · have hNear : |X - (1 + 2 * (n * share))| ≤ 1 / 4 :=
      abs_le.2 ⟨by linarith, by linarith⟩
    refine pow_le_of_bound hRegime hx h hX (by linarith)
      (sq_le_of_near (by linarith) hNear le_rfl) ?_
    linarith

------------------------------------------------------------
-- Short Steps
------------------------------------------------------------

/- A short step has started not far above the root. -/
theorem pow_mul_le_of_short
    {κ : ℚ}
    (hRegime : Regime share n b)
    (hx : 0 < x)
    (h : RoundedStep share n b x y)
    (hκ : 0 ≤ κ)
    (hShort : n * κ ≤ 1 / 9)
    (hMove : x ≤ (1 + κ) * y) :
    x ^ n * (1 - (n * κ + 2 * (n * share))) ≤ b * (1 + 2 * (n * share)) := by
  have hDegree := hRegime.one_le
  have hPos := hRegime.share_nonneg
  have hSmall := hRegime.total_le
  have hLoss : share ≤ n * share := le_mul_of_one_le_left hPos hDegree
  have hLess : κ ≤ n * κ := le_mul_of_one_le_left hκ hDegree
  have hShare := hRegime.share_lt_one
  have hy := h.pos hRegime.degree hShare hRegime.pos hx
  rcases h with ⟨a, hRadicand, hResult⟩
  have hMost := radicand_le hRegime hRadicand
  have hPower : 0 < x ^ n := pow_pos hx n
  have hTwo := one_sub_mul_le_pow hShare 2
  have hEnd : (1 - 2 * share) * y ≤ step n a x := by
    push_cast at hTwo
    exact (mul_le_mul_of_nonneg_right hTwo hy.le).trans hResult.high
  have hStart : (1 - 2 * share - κ) * x ≤ step n a x := by
    have hFactor : (1 - 2 * share - κ) * (1 + κ) ≤ 1 - 2 * share := by
      have hProduct : 0 ≤ share * κ := mul_nonneg hPos hκ
      have hSquare := sq_nonneg κ
      linarith
    calc (1 - 2 * share - κ) * x
        ≤ (1 - 2 * share - κ) * ((1 + κ) * y) :=
          mul_le_mul_of_nonneg_left hMove (by linarith)
      _ = (1 - 2 * share - κ) * (1 + κ) * y := by ring
      _ ≤ (1 - 2 * share) * y := mul_le_mul_of_nonneg_right hFactor hy.le
      _ ≤ step n a x := hEnd
  have hQuotient : (1 - a / x ^ n) / n ≤ 2 * share + κ := by
    rw [step_eq (by exact_mod_cast hDegree) hx, mul_comm x] at hStart
    have hFactor := le_of_mul_le_mul_right hStart hx
    linarith
  have hExcess : 1 - a / x ^ n ≤ n * κ + 2 * (n * share) := by
    rw [div_le_iff₀ (by linarith)] at hQuotient
    linarith
  have hRatio : (1 - (n * κ + 2 * (n * share))) * x ^ n ≤ a := by
    rw [← le_div_iff₀ hPower]
    linarith
  linarith

/- From the bounds on a share `X` of the radicand its distance. -/
theorem abs_sub_le_of_bounds
    {X l η : ℚ}
    (hη : 0 ≤ η)
    (hSmall : η ≤ 1 / 20000)
    (hl : 0 ≤ l)
    (hShort : l ≤ 1 / 9)
    (hHigh : X * (1 - (l + 2 * η)) ≤ 1 + 2 * η)
    (hLow : (1 - l) * (1 - 4 * η) ≤ X) :
    |X - (1 + 2 * η)| ≤ 6 / 5 * (l + 6 * η) := by
  have hProduct : 0 ≤ l * η := mul_nonneg hl hη
  rw [abs_le]
  refine ⟨by linarith, ?_⟩
  by_contra hMore
  have hScaled :=
    mul_lt_mul_of_pos_right (not_le.1 hMore)
      (by linarith : 0 < 1 - (l + 2 * η))
  have hExcess :
      88 / 100 * (6 / 5 * (l + 6 * η)) ≤
        (1 - (l + 2 * η)) * (6 / 5 * (l + 6 * η)) :=
    mul_le_mul_of_nonneg_right (by linarith) (by linarith)
  have hLost : (1 + 2 * η) * (l + 2 * η) ≤ 101 / 100 * (l + 2 * η) :=
    mul_le_mul_of_nonneg_right (by linarith) (by linarith)
  linarith

/-
  Where the step is short, the power was near to the
  radicand before, and the step squares what it was off by.
-/
theorem settled
    {κ : ℚ}
    (hRegime : Regime share n b)
    (hx : 0 < x)
    (h : RoundedStep share n b x y)
    (hκ : 0 ≤ κ)
    (hShort : n * κ ≤ 1 / 9)
    (hLow : b * (1 - 4 * (n * share)) ≤ y ^ n)
    (hMove : |y - x| ≤ κ * y) :
    y ^ n ≤
      b * (1 + (5 * (n * share) + 3 * (n * κ + 6 * (n * share)) ^ 2)) := by
  have hη := hRegime.total_nonneg
  have hSmall := hRegime.total_le
  have hl : 0 ≤ n * κ := mul_nonneg (Nat.cast_nonneg n) hκ
  have hLess : κ ≤ n * κ := le_mul_of_one_le_left hκ hRegime.one_le
  have hy := h.pos hRegime.degree hRegime.share_lt_one hRegime.pos hx
  have hBounds := abs_le.1 hMove
  have hHigh := pow_mul_le_of_short hRegime hx h hκ hShort (by linarith)
  have hBefore : (1 - n * κ) * (b * (1 - 4 * (n * share))) ≤ x ^ n := by
    calc (1 - n * κ) * (b * (1 - 4 * (n * share)))
        ≤ (1 - n * κ) * y ^ n :=
          mul_le_mul_of_nonneg_left hLow (by linarith)
      _ ≤ (1 - κ) ^ n * y ^ n :=
          mul_le_mul_of_nonneg_right
            (one_sub_mul_le_pow (by linarith) n) (pow_pos hy n).le
      _ = ((1 - κ) * y) ^ n := (mul_pow _ _ n).symm
      _ ≤ x ^ n :=
          pow_le_pow_left₀ (mul_nonneg (by linarith) hy.le) (by linarith) n
  rcases hRegime.exists_eq_mul (x ^ n) with ⟨X, hX⟩
  rw [hX] at hHigh hBefore
  have hHigh' :
      X * (1 - (n * κ + 2 * (n * share))) ≤ 1 + 2 * (n * share) :=
    le_of_mul_le_mul_left (by linarith) hRegime.pos
  have hLow' : (1 - n * κ) * (1 - 4 * (n * share)) ≤ X :=
    le_of_mul_le_mul_left (by linarith) hRegime.pos
  have hNear := abs_sub_le_of_bounds hη hSmall hl hShort hHigh' hLow'
  have hAbove := (abs_le.1 hNear).1
  have hOwn : n * share * (n * share) ≤ 1 / 20000 * (n * share) :=
    mul_le_mul_of_nonneg_right hSmall hη
  have hSquare := sq_nonneg (n * κ + 6 * (n * share))
  have hRest :
      n * share * (n * κ + 6 * (n * share)) ^ 2 ≤
        1 / 20000 * (n * κ + 6 * (n * share)) ^ 2 :=
    mul_le_mul_of_nonneg_right hSmall hSquare
  refine pow_le_of_bound hRegime hx h hX (by linarith)
    (sq_le_of_near (by linarith) hNear (by linarith)) ?_
  rw [mul_pow]
  generalize (n * κ + 6 * (n * share)) ^ 2 = square at *
  linarith

end RoundedStep

------------------------------------------------------------
-- Runs
------------------------------------------------------------

variable {xs : Nat → ℚ}

theorem run_pos
    (hn : 2 ≤ n)
    (hShare : share < 1)
    (hb : 0 < b)
    (hFirst : 0 < xs 0)
    (hSteps : ∀ k, RoundedStep share n b (xs k) (xs (k + 1)))
    (k : Nat) :
    0 < xs k := by
  induction k with
  | zero => exact hFirst
  | succ k ih => exact (hSteps k).pos hn hShare hb ih

/-
  After a start that is not far away each approximation is
  half as far from the root as the one before, by induction
  on their number; what the roundings leave stays as it is.
-/
theorem run_pow_le
    {T : ℚ}
    (hRegime : Regime share n b)
    (hFirst : 0 < xs 0)
    (hSteps : ∀ k, RoundedStep share n b (xs k) (xs (k + 1)))
    (hT : 1 ≤ T)
    (hLow : 4 * b ≤ 5 * xs 0 ^ n)
    (hHigh : xs 0 ^ n ≤ b * (1 + T))
    (k : Nat) :
    xs (k + 1) ^ n ≤
      b * (1 + (11 * (n * share) + (51 / 100) ^ k * T)) := by
  have hη := hRegime.total_nonneg
  have hAll :=
    run_pos hRegime.degree hRegime.share_lt_one hRegime.pos hFirst hSteps
  induction k with
  | zero =>
      have hStart := (hSteps 0).started hRegime hFirst hT hLow hHigh
      refine hStart.trans (mul_le_mul_of_nonneg_left ?_ hRegime.pos.le)
      rw [pow_zero, one_mul]
      linarith
  | succ k ih =>
      have hRest : (0 : ℚ) ≤ (51 / 100) ^ k * T :=
        mul_nonneg (by positivity) (by linarith)
      have hBefore := (hSteps k).mul_le_pow hRegime (hAll k)
      have hNext :=
        (hSteps (k + 1)).halved hRegime (hAll (k + 1)) (by linarith) hBefore ih
      refine hNext.trans (mul_le_mul_of_nonneg_left ?_ hRegime.pos.le)
      rw [pow_succ]
      linarith

end Newton
end StackScript
