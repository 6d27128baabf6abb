import StackScript.Proofs.Number.Convergence
import StackScript.Proofs.Number.Sign

/-
  Roots of decimals.

  Every approximation after the first lies above the root,
  or below it by a few roundings. The last one is also not
  far above it, if the iteration has come to rest there and
  the root is not too small for the tolerance, or if the
  starting point was not too far away for the number of
  steps.

  Key definitions include:
    * `Decimal.rootDigits`
    * `Decimal.approximation`
    * `Decimal.Reaches`
    * `Decimal.Settles`
    * `Decimal.StartsNear`

  Key theorems include:
    * `Decimal.refineRoot_cases`
    * `Decimal.roundedStep_rootStep`
    * `Decimal.root_near`
-/

namespace StackScript
namespace Decimal

open Significant Newton

variable {a g : Decimal}
variable {n p : Nat}

------------------------------------------------------------
-- Digits of Roots
------------------------------------------------------------

/-
  How many digits of a root count: those that are kept, as
  far as a quotient of a hundred digits has five to spare.
-/
def rootDigits (p : Nat) : Nat :=
  min p 95

/- What a rounding on the way takes of a number at most. -/
def rootShare (p : Nat) : ℚ :=
  5 / 10 ^ (rootDigits p + 5)

theorem rootShare_pos (p : Nat) : 0 < rootShare p := by
  unfold rootShare
  positivity

/- Five digits more than wanted lose no more than that. -/
theorem working_le_rootShare (p : Nat) :
    (5 : ℚ) / 10 ^ (p + 5) ≤ rootShare p := by
  unfold rootShare rootDigits
  exact div_le_div_of_nonneg_left (by norm_num) (by positivity)
    (pow_le_pow_right₀ (by norm_num) (by omega))

/- It is a small share of a unit in the last digit that counts. -/
theorem rootShare_eq (p : Nat) :
    rootShare p = 1 / 20000 * (1 / 10 ^ rootDigits p) := by
  unfold rootShare
  rw [pow_add]
  ring

theorem rootShare_le (p : Nat) : rootShare p ≤ 1 / 20000 := by
  have hLess : (1 : ℚ) / 10 ^ rootDigits p ≤ 1 := by
    rw [div_le_one (by positivity)]
    exact one_le_pow₀ (by norm_num)
  rw [rootShare_eq]
  linarith

theorem rootShare_lt_one (p : Nat) : rootShare p < 1 := by
  have hSmall := rootShare_le p
  linarith

------------------------------------------------------------
-- Steps
------------------------------------------------------------

theorem value_abs (a : Decimal) : a.abs.value = |a.value| := by
  rw [abs_value]
  rfl

theorem less_iff {b : Decimal} : a.less b = true ↔ a.value < b.value := by
  unfold less
  rw [beq_iff_eq, compare_eq, cmp_eq_lt_iff]

/- Apart from its roundings a step is the exact one. -/
theorem roundedStep_rootStep
    {x : Decimal}
    (hn : 2 ≤ n)
    (ha : 0 < a.value)
    (hx : 0 < x.value) :
    RoundedStep (rootShare p) n a.value x.value
      (a.rootStep n (p + 5) x).value := by
  have hShare := rootShare_lt_one p
  have hWorking := working_le_rootShare p
  have hDigits : rootDigits p + 5 ≤ 100 := by
    unfold rootDigits
    omega
  have hPower : 0 < x.value ^ (n - 1) := pow_pos hx (n - 1)
  have hDegree : 0 < (ofInt n).value := by
    rw [value_ofInt]
    exact_mod_cast (by omega : 0 < n)
  generalize hCorrection :
    (a.div (x.power (n - 1) (p + 5))).round (p + 5) = c
  have hExact : Close (rootShare p) (n + 1) c.value
      (a.value / x.value ^ (n - 1)) := by
    have hRaised : Close (rootShare p) (n - 1)
        (x.power (n - 1) (p + 5)).value (x.value ^ (n - 1)) :=
      close_power hShare hWorking (by omega) hx
    have hRaisedPos := hRaised.pos hShare hPower
    have hDivided :=
      close_div hShare (le_refl (rootShare p)) hDigits ha hRaisedPos
    have hDividedPos := hDivided.pos hShare (div_pos ha hRaisedPos)
    have hRounded :=
      close_round hShare hWorking (by omega : 1 ≤ p + 5) hDividedPos
    have hTotal :=
      hRounded.trans hShare
        (hDivided.trans hShare (hRaised.div hShare ha hPower))
    rw [hCorrection, show 1 + (1 + (n - 1)) = n + 1 by omega] at hTotal
    exact hTotal
  have hc : 0 < c.value := hExact.pos hShare (div_pos ha hPower)
  generalize hSum : (x.mul ((ofInt n).sub one)).add c = sum
  have hSumValue : sum.value = (n - 1) * x.value + c.value := by
    rw [← hSum, value_add, value_mul, value_sub, value_ofInt, value_one]
    push_cast
    ring
  have hSumPos : 0 < sum.value := by
    have hFactor : (1 : ℚ) ≤ n := by exact_mod_cast (by omega : 1 ≤ n)
    have hOld : 0 ≤ ((n : ℚ) - 1) * x.value :=
      mul_nonneg (by linarith) hx.le
    linarith
  have hMean :=
    close_div hShare (le_refl (rootShare p)) hDigits hSumPos hDegree
  have hMeanPos := hMean.pos hShare (div_pos hSumPos hDegree)
  have hNext :=
    (close_round hShare hWorking (by omega : 1 ≤ p + 5) hMeanPos).trans
      hShare hMean
  refine ⟨x.value ^ (n - 1) * c.value, ?_, ?_⟩
  · have hScaled := hExact.mul_left hShare hPower (div_pos ha hPower)
    rw [mul_div_cancel₀ _ hPower.ne'] at hScaled
    exact hScaled
  · unfold rootStep
    dsimp only
    rw [hCorrection, hSum]
    unfold Newton.step
    rw [mul_div_cancel_left₀ _ hPower.ne', ← hSumValue]
    rw [value_ofInt, Int.cast_natCast] at hNext
    exact hNext

------------------------------------------------------------
-- Iteration
------------------------------------------------------------

/- The approximations that follow a starting point. -/
def approximation
    (a : Decimal)
    (n p : Nat)
    (g : Decimal)
    (k : Nat) : Decimal :=
  (a.rootStep n (p + 5))^[k] g

theorem approximation_zero
    (a : Decimal)
    (n p : Nat)
    (g : Decimal) :
    a.approximation n p g 0 = g := rfl

theorem approximation_succ
    (a : Decimal)
    (n p : Nat)
    (g : Decimal)
    (k : Nat) :
    a.approximation n p g (k + 1) =
      a.rootStep n (p + 5) (a.approximation n p g k) := by
  unfold approximation
  exact Function.iterate_succ_apply' _ k g

/- They are those that follow the first step, one later. -/
theorem approximation_shift
    (a : Decimal)
    (n p : Nat)
    (g : Decimal)
    (k : Nat) :
    a.approximation n p g (k + 1) =
      a.approximation n p (a.rootStep n (p + 5) g) k :=
  Function.iterate_succ_apply _ k g

/- The approximation after `k` steps moves by less than the tolerance. -/
def Rests
    (a : Decimal)
    (n p : Nat)
    (g : Decimal)
    (k : Nat) : Prop :=
  |(a.approximation n p g (k + 1)).value -
      (a.approximation n p g k).value| <
    1 / 10 ^ (p + 2)

theorem rests_shift
    (a : Decimal)
    (n p : Nat)
    (g : Decimal)
    (k : Nat) :
    a.Rests n p g (k + 1) ↔ a.Rests n p (a.rootStep n (p + 5) g) k := by
  unfold Rests
  rw [approximation_shift, approximation_shift a n p g k]

theorem value_tolerance (p : Nat) :
    (⟨1, p + 2⟩ : Decimal).value = 1 / 10 ^ (p + 2) := by
  unfold value
  rw [Int.cast_one, one_mul, zpow_neg, one_div]
  exact congrArg Inv.inv (zpow_natCast 10 (p + 2))

/-
  The loop ends at the first approximation that moves by
  less than the tolerance, or when its steps are used up; by
  induction on the steps.
-/
theorem refineRoot_cases
    (a : Decimal)
    (n p steps : Nat)
    (g : Decimal) :
    (∃ k < steps,
      a.refineRoot n (p + 5) ⟨1, p + 2⟩ steps g =
          a.approximation n p g (k + 1) ∧
        a.Rests n p g k) ∨
      a.refineRoot n (p + 5) ⟨1, p + 2⟩ steps g =
          a.approximation n p g steps ∧
        ∀ k < steps, ¬a.Rests n p g k := by
  induction steps generalizing g with
  | zero => exact .inr ⟨rfl, fun k hk => absurd hk (Nat.not_lt_zero k)⟩
  | succ steps ih =>
      have hRests :
          ((a.rootStep n (p + 5) g).sub g).abs.less ⟨1, p + 2⟩ = true ↔
            a.Rests n p g 0 := by
        unfold Rests
        rw [less_iff, value_abs, value_sub, value_tolerance,
          approximation_shift, approximation_zero, approximation_zero]
      unfold refineRoot
      dsimp only
      by_cases hEnd : a.Rests n p g 0
      · rw [if_pos (hRests.2 hEnd)]
        refine .inl ⟨0, Nat.succ_pos steps, ?_, hEnd⟩
        rw [approximation_shift, approximation_zero]
      · rw [if_neg (mt hRests.1 hEnd)]
        rcases ih (a.rootStep n (p + 5) g) with
          ⟨k, hk, hResult, hMove⟩ | ⟨hResult, hAll⟩
        · rw [← approximation_shift] at hResult
          exact .inl ⟨k + 1, Nat.succ_lt_succ hk, hResult,
            (rests_shift a n p g k).2 hMove⟩
        · rw [← approximation_shift] at hResult
          refine .inr ⟨hResult, ?_⟩
          intro k hk
          cases k with
          | zero => exact hEnd
          | succ k =>
              rw [rests_shift]
              exact hAll k (Nat.lt_of_succ_lt_succ hk)

------------------------------------------------------------
-- Starting Points
------------------------------------------------------------

theorem twos_dvd (bound m : Nat) : 2 ^ twos bound m ∣ m := by
  induction bound generalizing m with
  | zero => exact one_dvd m
  | succ bound ih =>
      unfold twos
      by_cases hEven : m % 2 = 0
      · rw [if_pos hEven, pow_succ]
        have hHalf := Nat.mul_dvd_mul_right (ih (m / 2)) 2
        rw [Nat.div_mul_cancel (Nat.dvd_of_mod_eq_zero hEven)] at hHalf
        exact hHalf
      · rw [if_neg hEven, pow_zero]
        exact one_dvd m

/- A positive floating-point number is a positive decimal. -/
theorem exists_ofBinary64?
    {x : Binary64}
    (hFinite : x.isFinite = true)
    (hSign : x.isNegative = false)
    (hZero : x.isZero = false) :
    ∃ d, ofBinary64? x = some d ∧ 0 < d.value := by
  cases x with
  | nan => cases hFinite
  | infinite => cases hFinite
  | finite s m e h =>
      have hNonneg : s = false := hSign
      have hm : m ≠ 0 := ne_of_beq_false hZero
      unfold ofBinary64?
      dsimp only
      rw [if_neg hm]
      refine ⟨_, rfl, ?_⟩
      rw [value_pos_iff, hNonneg]
      generalize hPlaces : Nat.min (-e).toNat (twos 53 m) = places
      have hMost : 2 ^ places ∣ m := by
        rw [← hPlaces]
        exact (pow_dvd_pow 2 (Nat.min_le_right _ _)).trans (twos_dvd 53 m)
      have hShifted : 0 < m / 2 ^ places :=
        Nat.div_pos (Nat.le_of_dvd (Nat.pos_of_ne_zero hm) hMost)
          (Nat.pow_pos (by decide))
      have hDigits :
          0 < Binary64.scaleUp (m / 2 ^ places) (e + places) *
            5 ^ (-(e + places)).toNat :=
        Nat.mul_pos
          (Nat.mul_pos hShifted (Nat.pow_pos (by decide)))
          (Nat.pow_pos (by decide))
      exact Int.natCast_pos.2 hDigits

/- Whatever floating point gives, the starting point is positive. -/
theorem rootGuess_pos
    (a : Decimal)
    (n : Nat) :
    0 < (a.rootGuess n).value := by
  have hOne : 0 < one.value := by
    rw [value_one]
    exact one_pos
  unfold rootGuess
  dsimp only
  generalize a.toBinary64.pow (Binary64.div .one (.ofNat n)) = x
  split
  · rename_i hTest
    rw [Bool.and_eq_true, Bool.and_eq_true, Bool.not_eq_true',
      Bool.not_eq_true'] at hTest
    rcases exists_ofBinary64? hTest.1.1 hTest.1.2 hTest.2 with
      ⟨d, hd, hPos⟩
    rw [hd]
    exact hPos
  · exact hOne

------------------------------------------------------------
-- The Last Rounding
------------------------------------------------------------

/- The last rounding takes no more than half of a unit. -/
theorem round_bounds
    {y : Decimal}
    (hp : 1 ≤ p)
    (hy : 0 < y.value) :
    y.value - unit (rootDigits p) y.value / 2 ≤ (y.round p).value ∧
      (y.round p).value ≤ y.value + unit (rootDigits p) y.value / 2 ∧
      0 < (y.round p).value ∧
      unit (rootDigits p) y.value ≤
        unit (rootDigits p) (y.round p).value := by
  have hUnit : unit p y.value ≤ unit (rootDigits p) y.value :=
    unit_anti y.value (Nat.min_le_left p 95)
  have hLow := lt_kept p (1 / 2) y.value
  have hHigh := kept_le p (1 / 2) y.value
  have hFirst := place_le_kept (h := 1 / 2) hp (by norm_num) hy
  rw [value_round y hp, rounded_of_nonneg hy.le]
  have hPos : 0 < kept p (1 / 2) y.value :=
    lt_of_lt_of_le (by positivity) hFirst
  refine ⟨by linarith, by linarith, hPos, ?_⟩
  have hPlace : place y.value ≤ place (kept p (1 / 2) y.value) := by
    have hNext := hFirst.trans_lt (lt_place_succ hPos.le)
    have hLess :=
      (zpow_lt_zpow_iff_right₀ (by norm_num : (1 : ℚ) < 10)).1 hNext
    omega
  unfold unit
  exact zpow_le_zpow_right₀ (by norm_num) (by omega)

/- A unit is a share of the number that depends on the digits alone. -/
theorem mul_lt_unit
    {x : ℚ}
    (q : Nat)
    (hx : 0 < x) :
    1 / 10 ^ q * x < unit q x := by
  calc 1 / 10 ^ q * x < 1 / 10 ^ q * (10 : ℚ) ^ (place x + 1) :=
        mul_lt_mul_of_pos_left (lt_place_succ hx.le) (by positivity)
    _ = unit q x := by
        unfold unit
        rw [zpow_sub₀ (by norm_num), zpow_natCast]
        ring

/- What is not far below the root is no more than a unit below it. -/
theorem le_round_pow
    {y : Decimal}
    (hp : 1 ≤ p)
    (hy : 0 < y.value)
    (hLow : (1 - rootShare p) ^ (4 * n) * a.value ≤ y.value ^ n) :
    a.value ≤
      ((y.round p).value +
        unit (rootDigits p) (y.round p).value) ^ n := by
  have hShare := rootShare_lt_one p
  have hRest : 0 < (1 - rootShare p) ^ 4 := pow_pos (by linarith) 4
  have hFew := one_sub_mul_le_pow hShare 4
  have hSmall : rootShare p ≤ 1 / 20000 := rootShare_le p
  rcases round_bounds hp hy with ⟨hAbove, -, hPos, hUnits⟩
  have hUnit := mul_lt_unit (rootDigits p) hy
  have hLoss : rootShare p * y.value ≤
      1 / 20000 * unit (rootDigits p) y.value := by
    rw [rootShare_eq]
    linarith
  generalize unit (rootDigits p) (y.round p).value = u at *
  generalize unit (rootDigits p) y.value = v at *
  have hu : 0 < v := lt_trans (by positivity) hUnit
  have hSum : y.value ≤ (1 - rootShare p) ^ 4 * ((y.round p).value + u) := by
    have hProduct : rootShare p * v ≤ 1 / 20000 * v :=
      mul_le_mul_of_nonneg_right hSmall hu.le
    calc y.value
        ≤ (1 - 4 * rootShare p) * (y.value + v / 2) := by linarith
      _ ≤ (1 - 4 * rootShare p) * ((y.round p).value + u) :=
          mul_le_mul_of_nonneg_left (by linarith) (by linarith)
      _ ≤ (1 - rootShare p) ^ 4 * ((y.round p).value + u) := by
          push_cast at hFew
          exact mul_le_mul_of_nonneg_right hFew (by linarith)
  refine le_of_mul_le_mul_left ?_ (pow_pos hRest n)
  calc ((1 - rootShare p) ^ 4) ^ n * a.value
      = (1 - rootShare p) ^ (4 * n) * a.value := by rw [pow_mul]
    _ ≤ y.value ^ n := hLow
    _ ≤ ((1 - rootShare p) ^ 4 * ((y.round p).value + u)) ^ n :=
        pow_le_pow_left₀ hy.le hSum n
    _ = ((1 - rootShare p) ^ 4) ^ n * ((y.round p).value + u) ^ n :=
        mul_pow _ _ n

/- What is not far above the root is no more than a unit above it. -/
theorem round_pow_le
    {y : Decimal}
    (hp : 1 ≤ p)
    (ha : 0 < a.value)
    (hy : 0 < y.value)
    (hHigh :
      y.value ^ n ≤ a.value * (1 + n * (1 / 10 ^ rootDigits p) / 2)) :
    max 0 ((y.round p).value -
        unit (rootDigits p) (y.round p).value) ^ n ≤
      a.value := by
  rcases round_bounds hp hy with ⟨-, hBelow, -, hUnits⟩
  have hUnit := mul_lt_unit (rootDigits p) hy
  have hSmall : (1 : ℚ) / 10 ^ rootDigits p ≤ 1 := by
    rw [div_le_one (by positivity)]
    exact one_le_pow₀ (by norm_num)
  have hPos : (0 : ℚ) < 1 / 10 ^ rootDigits p := by positivity
  generalize (1 : ℚ) / 10 ^ rootDigits p = e at *
  have hLess :
      max 0 ((y.round p).value -
          unit (rootDigits p) (y.round p).value) ≤
        (1 - e / 2) * y.value :=
    max_le (mul_nonneg (by linarith) hy.le) (by linarith)
  have hFactor : (1 - e / 2) ^ n * (1 + n * e / 2) ≤ 1 := by
    have hBernoulli :=
      one_add_mul_le_pow (by linarith : (-2 : ℚ) ≤ e / 2) n
    calc (1 - e / 2) ^ n * (1 + n * e / 2)
        ≤ (1 - e / 2) ^ n * (1 + e / 2) ^ n :=
          mul_le_mul_of_nonneg_left (by linarith)
            (pow_nonneg (by linarith) n)
      _ = (1 - (e / 2) ^ 2) ^ n := by
          rw [← mul_pow]
          congr 1
          ring
      _ ≤ 1 := by
          apply pow_le_one₀ _ (sub_le_self 1 (sq_nonneg (e / 2)))
          have hSquare : (e / 2) ^ 2 ≤ 1 ^ 2 :=
            pow_le_pow_left₀ (by linarith) (by linarith) 2
          linarith
  calc max 0 ((y.round p).value -
          unit (rootDigits p) (y.round p).value) ^ n
      ≤ ((1 - e / 2) * y.value) ^ n :=
        pow_le_pow_left₀ (le_max_left _ _) hLess n
    _ = (1 - e / 2) ^ n * y.value ^ n := mul_pow _ _ n
    _ ≤ (1 - e / 2) ^ n * (a.value * (1 + n * e / 2)) :=
        mul_le_mul_of_nonneg_left hHigh (pow_nonneg (by linarith) n)
    _ = a.value * ((1 - e / 2) ^ n * (1 + n * e / 2)) := by ring
    _ ≤ a.value * 1 := mul_le_mul_of_nonneg_left hFactor ha.le
    _ = a.value := mul_one _

------------------------------------------------------------
-- Where the Iteration Ends
------------------------------------------------------------

/-
  The tolerance is fine enough for the root: with `m` zeros
  between its point and its first digit, the degree times
  the square of what they make up is within its digits.
-/
def Reaches
    (a : Decimal)
    (n p : Nat) : Prop :=
  ∃ m : Nat,
    1 ≤ a.value * ((10 : ℚ) ^ (m + 1)) ^ n ∧
      n * 10 ^ (2 * m) ≤ 10 ^ rootDigits p

/- The degree is then within the digits by itself. -/
theorem Reaches.few (h : a.Reaches n p) :
    n * (1 / 10 ^ rootDigits p : ℚ) ≤ 1 := by
  rcases h with ⟨m, -, hMost⟩
  have hLess : n ≤ 10 ^ rootDigits p :=
    (Nat.le_mul_of_pos_right n (Nat.pow_pos (by decide))).trans hMost
  rw [mul_one_div, div_le_one (by positivity)]
  exact_mod_cast hLess

/- The iteration comes to rest within its steps. -/
def Settles
    (a : Decimal)
    (n p : Nat) : Prop :=
  ∃ k < rootIterations, a.Rests n p (a.rootGuess n) k

/- The starting point is not far from the root. -/
def StartsNear
    (a : Decimal)
    (n : Nat) : Prop :=
  4 * a.value ≤ 5 * (a.rootGuess n).value ^ n ∧
    (a.rootGuess n).value ^ n ≤ 10 ^ 40 * a.value

/- All factors together lose little if the degree is not too large. -/
theorem regime_of_few
    (hn : 2 ≤ n)
    (ha : 0 < a.value)
    (hFew : n * (1 / 10 ^ rootDigits p : ℚ) ≤ 1) :
    Regime (rootShare p) n a.value := by
  refine ⟨hn, (rootShare_pos p).le, ?_, ha⟩
  rw [rootShare_eq]
  linarith

theorem approximation_pos
    (hn : 1 ≤ n)
    (ha : 0 < a.value)
    (hg : 0 < g.value)
    (k : Nat) :
    0 < (a.approximation n p g k).value := by
  induction k with
  | zero => exact hg
  | succ k ih =>
      rw [approximation_succ]
      exact rootStep_pos hn (by omega) ha ih

theorem roundedStep_approximation
    (hn : 2 ≤ n)
    (ha : 0 < a.value)
    (hg : 0 < g.value)
    (k : Nat) :
    RoundedStep (rootShare p) n a.value (a.approximation n p g k).value
      (a.approximation n p g (k + 1)).value := by
  rw [approximation_succ]
  exact roundedStep_rootStep hn ha
    (approximation_pos (one_le_two.trans hn) ha hg k)

/- Halving the excess as often as the loop may leaves nothing of it. -/
theorem halves_le :
    (51 / 100 : ℚ) ^ 499 * 10 ^ 40 ≤ 1 / 4 * (1 / 10 ^ 95) := by
  have hSeven : (51 / 100 : ℚ) ^ 7 ≤ 1 / 100 := by norm_num
  calc (51 / 100 : ℚ) ^ 499 * 10 ^ 40
      = ((51 / 100) ^ 7) ^ 71 * ((51 / 100) ^ 2 * 10 ^ 40) := by
        rw [show 499 = 7 * 71 + 2 from rfl, pow_add, pow_mul, mul_assoc]
    _ ≤ (1 / 100) ^ 71 * ((51 / 100) ^ 2 * 10 ^ 40) :=
        mul_le_mul_of_nonneg_right
          (pow_le_pow_left₀ (by norm_num) hSeven 71) (by norm_num)
    _ ≤ 1 / 4 * (1 / 10 ^ 95) := by norm_num

/- After all steps from near by the root is met. -/
theorem pow_le_of_startsNear
    (hn : 2 ≤ n)
    (ha : 0 < a.value)
    (hFew : n * (1 / 10 ^ rootDigits p : ℚ) ≤ 1)
    (hNear : a.StartsNear n) :
    (a.approximation n p (a.rootGuess n) (499 + 1)).value ^ n ≤
      a.value * (1 + n * (1 / 10 ^ rootDigits p) / 2) := by
  have hGuess := a.rootGuess_pos n
  have hDegree : (1 : ℚ) ≤ n := by exact_mod_cast (by omega : 1 ≤ n)
  have hHigh :
      (a.rootGuess n).value ^ n ≤ a.value * (1 + 10 ^ 40) := by
    have hNot := hNear.2
    linarith
  have hRun :
      (a.approximation n p (a.rootGuess n) (499 + 1)).value ^ n ≤
        a.value *
          (1 + (11 * (n * rootShare p) + (51 / 100) ^ 499 * 10 ^ 40)) :=
    run_pow_le (regime_of_few hn ha hFew) hGuess
      (roundedStep_approximation hn ha hGuess) (by norm_num) hNear.1 hHigh
      499
  refine hRun.trans (mul_le_mul_of_nonneg_left ?_ ha.le)
  have hLeast : (1 : ℚ) / 10 ^ 95 ≤ 1 / 10 ^ rootDigits p :=
    one_div_le_one_div_of_le (by positivity)
      (pow_le_pow_right₀ (by norm_num) (Nat.min_le_right p 95))
  have hAll : (1 : ℚ) / 10 ^ rootDigits p ≤ n * (1 / 10 ^ rootDigits p) :=
    le_mul_of_one_le_left (by positivity) hDegree
  have hHalves := halves_le
  rw [rootShare_eq]
  generalize (51 / 100 : ℚ) ^ 499 * 10 ^ 40 = rest at *
  linarith

/- An approximation has its first digit where the root has it. -/
theorem le_mul_approximation
    {m k : Nat}
    (hn : 2 ≤ n)
    (ha : 0 < a.value)
    (hg : 0 < g.value)
    (hLeast : 1 ≤ a.value * ((10 : ℚ) ^ (m + 1)) ^ n) :
    9 / 100 ≤ 10 ^ m * (a.approximation n p g (k + 1)).value := by
  have hShare := rootShare_lt_one p
  have hOld := approximation_pos (p := p) (one_le_two.trans hn) ha hg k
  have hNew := approximation_pos (p := p) (one_le_two.trans hn) ha hg (k + 1)
  have hLow :=
    (roundedStep_approximation (p := p) hn ha hg k).le_pow hn
      (rootShare_pos p).le hShare ha hOld
  generalize (a.approximation n p g (k + 1)).value = y at *
  have hPowers :
      ((1 - rootShare p) ^ 4) ^ n ≤ ((10 : ℚ) ^ (m + 1) * y) ^ n := by
    have hRest : 0 ≤ ((1 - rootShare p) ^ 4) ^ n := by positivity
    calc ((1 - rootShare p) ^ 4) ^ n
        ≤ ((1 - rootShare p) ^ 4) ^ n *
            (a.value * ((10 : ℚ) ^ (m + 1)) ^ n) :=
          le_mul_of_one_le_right hRest hLeast
      _ = (1 - rootShare p) ^ (4 * n) * a.value *
            ((10 : ℚ) ^ (m + 1)) ^ n := by
          rw [pow_mul, mul_assoc]
      _ ≤ y ^ n * ((10 : ℚ) ^ (m + 1)) ^ n :=
          mul_le_mul_of_nonneg_right hLow (by positivity)
      _ = ((10 : ℚ) ^ (m + 1) * y) ^ n := by
          rw [mul_pow, mul_comm]
  have hRoots : (1 - rootShare p) ^ 4 ≤ (10 : ℚ) ^ (m + 1) * y :=
    le_of_pow_le_pow_left₀ (by omega) (by positivity) hPowers
  have hFew := one_sub_mul_le_pow hShare 4
  have hSmall : rootShare p ≤ 1 / 20000 := rootShare_le p
  rw [pow_succ (10 : ℚ) m] at hRoots
  push_cast at hFew
  linarith

/-
  How far two approximations can lie apart when they are at
  rest, as a share of the later one.
-/
theorem exists_share_of_rests
    {m k : Nat}
    (hn : 2 ≤ n)
    (ha : 0 < a.value)
    (hg : 0 < g.value)
    (hLeast : 1 ≤ a.value * ((10 : ℚ) ^ (m + 1)) ^ n)
    (hRests : a.Rests n p g k) :
    ∃ κ : ℚ,
      0 ≤ κ ∧
        κ ≤ 1 / 9 * (10 ^ m * (1 / 10 ^ rootDigits p)) ∧
        |(a.approximation n p g (k + 1)).value -
            (a.approximation n p g k).value| ≤
          κ * (a.approximation n p g (k + 1)).value := by
  have hFirst := le_mul_approximation (p := p) (k := k) hn ha hg hLeast
  have hNew := approximation_pos (p := p) (one_le_two.trans hn) ha hg (k + 1)
  have hTolerance :
      (1 : ℚ) / 10 ^ (p + 2) ≤ 1 / 100 * (1 / 10 ^ rootDigits p) := by
    have hFiner : (10 : ℚ) ^ rootDigits p ≤ 10 ^ p :=
      pow_le_pow_right₀ (by norm_num) (Nat.min_le_left p 95)
    have hLess :=
      one_div_le_one_div_of_le (by positivity : (0 : ℚ) < _) hFiner
    calc (1 : ℚ) / 10 ^ (p + 2) = 1 / 100 * (1 / 10 ^ p) := by
          rw [pow_add]
          ring
      _ ≤ 1 / 100 * (1 / 10 ^ rootDigits p) := by linarith
  refine ⟨1 / 10 ^ (p + 2) / (a.approximation n p g (k + 1)).value,
    by positivity, ?_, ?_⟩
  · have hScaled :=
      mul_le_mul_of_nonneg_right hFirst
        (by positivity : (0 : ℚ) ≤ 1 / 10 ^ rootDigits p)
    rw [div_le_iff₀ hNew]
    linarith
  · rw [div_mul_cancel₀ _ hNew.ne']
    exact hRests.le

/-
  What is left of such a distance after a step, and of the
  roundings: less than half of a unit for each factor.
-/
theorem rest_le
    {m : Nat}
    {κ : ℚ}
    (hκ : 0 ≤ κ)
    (hMost : n * 10 ^ (2 * m) ≤ 10 ^ rootDigits p)
    (hShare : κ ≤ 1 / 9 * (10 ^ m * (1 / 10 ^ rootDigits p))) :
    n * κ ≤ 1 / 9 ∧
      5 * (n * rootShare p) + 3 * (n * κ + 6 * (n * rootShare p)) ^ 2 ≤
        n * (1 / 10 ^ rootDigits p) / 2 := by
  have hOne : (1 : ℚ) ≤ 10 ^ m := one_le_pow₀ (by norm_num)
  have hSquares : n * (((10 : ℚ) ^ m) ^ 2 * (1 / 10 ^ rootDigits p)) ≤ 1 := by
    rw [← pow_mul, mul_comm m 2, ← mul_assoc, mul_one_div,
      div_le_one (by positivity)]
    exact_mod_cast hMost
  have hPos : (0 : ℚ) < 1 / 10 ^ rootDigits p := by positivity
  have hDegree : (0 : ℚ) ≤ n := Nat.cast_nonneg n
  rw [rootShare_eq]
  generalize (1 : ℚ) / 10 ^ rootDigits p = e at *
  generalize (10 : ℚ) ^ m = M at *
  have hFew : n * (M * e) ≤ 1 := by
    refine le_trans (mul_le_mul_of_nonneg_left ?_ hDegree) hSquares
    exact mul_le_mul_of_nonneg_right (le_self_pow₀ hOne (by decide)) hPos.le
  have hFewer : n * e ≤ 1 := by
    refine le_trans (mul_le_mul_of_nonneg_left ?_ hDegree) hFew
    exact le_mul_of_one_le_left hPos.le hOne
  have hAll : 0 ≤ n * e := mul_nonneg hDegree hPos.le
  have hTotal : n * κ ≤ 1 / 9 * (n * (M * e)) := by
    have hScaled := mul_le_mul_of_nonneg_left hShare hDegree
    linarith
  have hOwn : (n * e) ^ 2 ≤ n * e := by
    rw [pow_two]
    exact mul_le_of_le_one_right hAll hFewer
  have hMoved : (n * κ) ^ 2 ≤ 1 / 81 * (n * e) := by
    calc (n * κ) ^ 2
        ≤ (1 / 9 * (n * (M * e))) ^ 2 :=
          pow_le_pow_left₀ (mul_nonneg hDegree hκ) hTotal 2
      _ = 1 / 81 * (n * e) * (n * (M ^ 2 * e)) := by ring
      _ ≤ 1 / 81 * (n * e) :=
          mul_le_of_le_one_right (by linarith) hSquares
  have hSum (s t : ℚ) : (s + t) ^ 2 ≤ 2 * s ^ 2 + 2 * t ^ 2 := by
    have hDifference := sq_nonneg (s - t)
    linarith
  have hBoth := hSum (n * κ) (6 * (n * (1 / 20000 * e)))
  refine ⟨by linarith, ?_⟩
  have hRounded :
      (6 * (n * (1 / 20000 * e))) ^ 2 = 9 / 100000000 * (n * e) ^ 2 := by
    ring
  linarith

/- Where two approximations lie close together the root is met. -/
theorem pow_le_of_rests
    {k : Nat}
    (hn : 2 ≤ n)
    (ha : 0 < a.value)
    (hg : 0 < g.value)
    (hReach : a.Reaches n p)
    (hRests : a.Rests n p g k) :
    (a.approximation n p g (k + 1)).value ^ n ≤
      a.value * (1 + n * (1 / 10 ^ rootDigits p) / 2) := by
  have hRegime := regime_of_few hn ha hReach.few
  rcases hReach with ⟨m, hLeast, hMost⟩
  rcases exists_share_of_rests hn ha hg hLeast hRests with
    ⟨κ, hκ, hShare, hMove⟩
  rcases rest_le hκ hMost hShare with ⟨hShort, hRest⟩
  have hOld := approximation_pos (p := p) (one_le_two.trans hn) ha hg k
  have hStep := roundedStep_approximation (p := p) hn ha hg k
  have hLow := hStep.mul_le_pow hRegime hOld
  have hSettled := hStep.settled hRegime hOld hκ hShort hLow hMove
  exact hSettled.trans (mul_le_mul_of_nonneg_left (by linarith) ha.le)

------------------------------------------------------------
-- Roots
------------------------------------------------------------

/-
  A root is positive and no more than a unit in its last
  digit that counts below the exact one; and no more than
  that above it, if the tolerance reaches it and the
  iteration comes to rest or started near by.
-/
theorem root_near
    (hn : 2 ≤ n)
    (hp : 1 ≤ p)
    (ha : 0 < a.value) :
    0 < (a.root n p).value ∧
      a.value ≤
        ((a.root n p).value +
          unit (rootDigits p) (a.root n p).value) ^ n ∧
      (a.Reaches n p →
        a.Settles n p ∨ a.StartsNear n →
        max 0 ((a.root n p).value -
            unit (rootDigits p) (a.root n p).value) ^ n ≤
          a.value) := by
  have hGuess := a.rootGuess_pos n
  -- The last approximation follows another one in each case.
  obtain ⟨k, hLast, hHigh⟩ :
      ∃ k,
        a.refineRoot n (p + 5) ⟨1, p + 2⟩ rootIterations (a.rootGuess n) =
            a.approximation n p (a.rootGuess n) (k + 1) ∧
          (a.Reaches n p →
            a.Settles n p ∨ a.StartsNear n →
            (a.approximation n p (a.rootGuess n) (k + 1)).value ^ n ≤
              a.value * (1 + n * (1 / 10 ^ rootDigits p) / 2)) := by
    rcases refineRoot_cases a n p rootIterations (a.rootGuess n) with
      ⟨k, -, hEnd, hRests⟩ | ⟨hEnd, hNever⟩
    · exact ⟨k, hEnd, fun hReach _ =>
        pow_le_of_rests hn ha hGuess hReach hRests⟩
    · have hSteps : rootIterations = 499 + 1 := rfl
      rw [hSteps] at hEnd
      refine ⟨499, hEnd, ?_⟩
      rintro hReach (⟨k, hk, hRests⟩ | hNear)
      · exact absurd hRests (hNever k hk)
      · exact pow_le_of_startsNear hn ha hReach.few hNear
  have hRoot :
      a.root n p =
        (a.approximation n p (a.rootGuess n) (k + 1)).round p := by
    rw [← hLast]
    rfl
  have hPos :=
    approximation_pos (p := p) (one_le_two.trans hn) ha hGuess (k + 1)
  have hLow :=
    (roundedStep_approximation (p := p) hn ha hGuess k).le_pow hn
      (rootShare_pos p).le (rootShare_lt_one p) ha
      (approximation_pos (one_le_two.trans hn) ha hGuess k)
  rw [hRoot]
  refine ⟨(round_bounds hp hPos).2.2.1, le_round_pow hp hPos hLow, ?_⟩
  intro hReach hEither
  exact round_pow_le hp ha hPos (hHigh hReach hEither)

end Decimal
end StackScript
