import StackScript.Builtin.Power
import StackScript.Proofs.Number.Rounding

/-
  Powers of decimals by repeated squaring.

  The loop takes the binary digits of the exponent from the
  last one on. What holds of its two numbers, result and
  square, is carried along with the powers that they stand
  for; the square that is computed last is not used, so that
  no power beyond the exponent matters.

  Key theorems include:
    * `Decimal.powerFrom_induct`
    * `Decimal.power_induct`
    * `Decimal.value_power`
-/

namespace StackScript
namespace Decimal

variable {a b : Decimal}
variable {q : Nat}

------------------------------------------------------------
-- The Loop
------------------------------------------------------------

/- An odd exponent takes one factor, and half the rest is squared. -/
theorem add_mul_of_odd
    {e : Nat}
    (j k : Nat)
    (hOdd : e % 2 = 1) :
    j + k * e = j + k + (k + k) * (e / 2) := by
  conv_lhs => rw [← Nat.div_add_mod e 2, hOdd]
  ring

/- An even exponent takes none. -/
theorem add_mul_of_even
    {e : Nat}
    (j k : Nat)
    (hEven : ¬ e % 2 = 1) :
    j + k * e = j + (k + k) * (e / 2) := by
  conv_lhs => rw [← Nat.div_add_mod e 2, Nat.mod_two_ne_one.1 hEven]
  ring

/-
  Whatever holds of results and squares holds in the end, by
  induction on the steps: the power of the result and the
  powers that are left add up to the same number throughout.
-/
theorem powerFrom_induct
    {R S : Nat → Decimal → Prop}
    {most steps e j k : Nat}
    {result square : Decimal}
    (hTake :
      ∀ {j k r s},
        j + k ≤ most → R j r → S k s → R (j + k) ((r.mulTidy s).round q))
    (hSquare :
      ∀ {k s}, k + k ≤ most → S k s → S (k + k) ((s.mulTidy s).round q))
    (hSteps : e < 2 ^ steps)
    (hMost : j + k * e ≤ most)
    (hResult : R j result)
    (hRest : 0 < e → S k square) :
    R (j + k * e) (powerFrom q steps result square e) := by
  induction steps generalizing e j k result square with
  | zero =>
      have hEnd : e = 0 := by omega
      rw [hEnd, Nat.mul_zero, Nat.add_zero]
      exact hResult
  | succ steps ih =>
      unfold powerFrom
      by_cases hEnd : e = 0
      · rw [if_pos hEnd, hEnd, Nat.mul_zero, Nat.add_zero]
        exact hResult
      rw [if_neg hEnd]
      dsimp only
      have hPower : S k square := hRest (Nat.pos_of_ne_zero hEnd)
      have hHalf : e / 2 < 2 ^ steps := by
        rw [Nat.pow_succ] at hSteps
        omega
      -- The square is needed only if a digit of the exponent is left.
      have hNext : 0 < e / 2 → S (k + k) ((square.mulTidy square).round q) := by
        intro hMore
        have hTwice : k * 2 ≤ k * e := Nat.mul_le_mul_left k (by omega)
        exact hSquare (by omega) hPower
      by_cases hOdd : e % 2 = 1
      · have hSplit := add_mul_of_odd j k hOdd
        rw [if_pos hOdd, hSplit]
        rw [hSplit] at hMost
        exact ih hHalf hMost (hTake (by omega) hResult hPower) hNext
      · have hSplit := add_mul_of_even j k hOdd
        rw [if_neg hOdd, hSplit]
        rw [hSplit] at hMost
        exact ih hHalf hMost hResult hNext

theorem power_induct
    {R S : Nat → Decimal → Prop}
    {e : Nat}
    (hTake :
      ∀ {j k r s},
        j + k ≤ e → R j r → S k s → R (j + k) ((r.mulTidy s).round q))
    (hSquare :
      ∀ {k s}, k + k ≤ e → S k s → S (k + k) ((s.mulTidy s).round q))
    (hResult : R 0 one)
    (hBase : S 1 a) :
    R e (a.power e q) := by
  have hLoop :=
    powerFrom_induct hTake hSquare (Nat.lt_log2_self (n := e))
      (by omega : 0 + 1 * e ≤ e) hResult fun _ => hBase
  rw [Nat.zero_add, Nat.one_mul] at hLoop
  exact hLoop

------------------------------------------------------------
-- Products
------------------------------------------------------------

theorem value_one : one.value = 1 := by
  unfold one
  rw [value_ofInt, Int.cast_one]

/- What a factor of one does to the digits leaves the value. -/
theorem value_mulTidy (a b : Decimal) :
    (a.mulTidy b).value = a.value * b.value := by
  unfold mulTidy
  split
  · rename_i hOne
    rw [value_normalize, hOne, value_one, one_mul]
  split
  · rename_i hOne
    rw [value_normalize, hOne, value_one, mul_one]
  · exact value_mul a b

/- A number does not get longer without its trailing zeros. -/
theorem natAbs_digits_normalize_le (a : Decimal) :
    a.normalize.digits.natAbs ≤ a.digits.natAbs := by
  unfold normalize
  split
  · exact Nat.zero_le _
  · have hStrip := Digits.strip_spec a.count a.digits.natAbs
    generalize Digits.strip a.count a.digits.natAbs = stripped at *
    rcases stripped with ⟨m, k⟩
    dsimp only at hStrip ⊢
    have hLess : m ≤ m * 10 ^ k :=
      Nat.le_mul_of_pos_right m (Nat.pow_pos (by decide))
    split <;> omega

theorem natAbs_digits_mulTidy_le (a b : Decimal) :
    (a.mulTidy b).digits.natAbs ≤ a.digits.natAbs * b.digits.natAbs := by
  unfold mulTidy
  split
  · rename_i hOne
    rw [hOne]
    exact (natAbs_digits_normalize_le b).trans (Nat.one_mul _).ge
  split
  · rename_i hOne
    rw [hOne]
    exact (natAbs_digits_normalize_le a).trans (Nat.mul_one _).ge
  · exact (Int.natAbs_mul _ _).le

------------------------------------------------------------
-- Exact Powers
------------------------------------------------------------

/- A power of a decimal with no more digits than that of its own. -/
def IsPower
    (a : Decimal)
    (k : Nat)
    (x : Decimal) : Prop :=
  x.value = a.value ^ k ∧ x.digits.natAbs ≤ a.digits.natAbs ^ k

theorem isPower_one (a : Decimal) : a.IsPower 0 one :=
  ⟨by rw [value_one, pow_zero], (pow_zero a.digits.natAbs).ge⟩

theorem isPower_self (a : Decimal) : a.IsPower 1 a :=
  ⟨(pow_one a.value).symm, (pow_one a.digits.natAbs).ge⟩

/- A product of two powers that fits is not rounded. -/
theorem IsPower.mul
    {j k : Nat}
    {x y : Decimal}
    (hq : 1 ≤ q)
    (hFits : a.digits.natAbs ^ (j + k) < 10 ^ q)
    (hx : a.IsPower j x)
    (hy : a.IsPower k y) :
    a.IsPower (j + k) ((x.mulTidy y).round q) := by
  have hDigits :
      (x.mulTidy y).digits.natAbs ≤ a.digits.natAbs ^ (j + k) := by
    calc (x.mulTidy y).digits.natAbs
        ≤ x.digits.natAbs * y.digits.natAbs := natAbs_digits_mulTidy_le x y
      _ ≤ a.digits.natAbs ^ j * a.digits.natAbs ^ k :=
          Nat.mul_le_mul hx.2 hy.2
      _ = a.digits.natAbs ^ (j + k) := (pow_add _ j k).symm
  have hCount : (x.mulTidy y).count ≤ q :=
    (Digits.count_le_iff hq).2 (lt_of_le_of_lt hDigits hFits)
  unfold round
  rw [if_neg (by omega)]
  refine ⟨?_, hDigits⟩
  rw [value_mulTidy, hx.1, hy.1, pow_add]

/- The powers up to one that fits do so. -/
theorem pow_lt_of_count
    {m e k : Nat}
    (hq : 1 ≤ q)
    (hCount : Digits.count (m ^ e) ≤ q)
    (hk : k ≤ e) :
    m ^ k < 10 ^ q := by
  rcases Nat.eq_zero_or_pos m with hZero | hPos
  · calc m ^ k ≤ 1 ^ k := Nat.pow_le_pow_left (by omega) k
      _ = 1 := Nat.one_pow k
      _ < 10 ^ q := Nat.one_lt_pow (by omega) (by decide)
  · exact lt_of_le_of_lt (Nat.pow_le_pow_right hPos hk)
      ((Digits.count_le_iff hq).1 hCount)

/- If the power of the digits fits, then the power is exact. -/
theorem value_power
    {e : Nat}
    (hq : 1 ≤ q)
    (hCount : Digits.count (a.digits.natAbs ^ e) ≤ q) :
    (a.power e q).value = a.value ^ e := by
  have hPower : a.IsPower e (a.power e q) :=
    power_induct (S := a.IsPower)
      (fun hLess hx hy => hx.mul hq (pow_lt_of_count hq hCount hLess) hy)
      (fun hLess hx => hx.mul hq (pow_lt_of_count hq hCount hLess) hx)
      a.isPower_one a.isPower_self
  exact hPower.1

theorem fits_pow
    {e : Nat}
    (hq : 1 ≤ q)
    (hCount : Digits.count (a.digits.natAbs ^ e) ≤ q) :
    Significant.Fits q (a.value ^ e) := by
  refine ⟨a.digits ^ e, -a.scale * e, ?_, ?_⟩
  · rw [abs_pow, Int.abs_eq_natAbs]
    exact_mod_cast (Digits.count_le_iff hq).1 hCount
  · unfold value
    rw [mul_pow, zpow_mul, zpow_natCast, Int.cast_pow]

end Decimal
end StackScript
