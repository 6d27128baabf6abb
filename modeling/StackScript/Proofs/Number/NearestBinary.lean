import Mathlib
import StackScript.Number.Binary64

/-
  Rounding to floating-point numbers as a function of
  rational numbers.

  A fraction is rounded by its value alone, rounding
  respects the order, and a number in the form that is kept
  is rounded to itself.

  Key definitions include:
    * `Binary64.value`
    * `Binary64.evenNearest`
    * `Binary64.rounded`

  Key theorems include:
    * `Binary64.floorLog2_eq`
    * `Binary64.rounded_mono`
    * `Binary64.rounded_of_ofFraction`
    * `Binary64.rounded_canonical`
-/

namespace StackScript
namespace Binary64

/- The rational number that a finite number is; zero for others. -/
def value : Binary64 → ℚ
| .finite s m e _ => if s then -(m * (2 : ℚ) ^ e) else m * (2 : ℚ) ^ e
| _ => 0

/- The natural number nearest to a rational, a tie to the even one. -/
def evenNearest (x : ℚ) : Nat :=
  if 1 / 2 < x - ⌊x⌋₊ ∨ (x - ⌊x⌋₊ = 1 / 2 ∧ ⌊x⌋₊ % 2 = 1) then
    ⌊x⌋₊ + 1
  else ⌊x⌋₊

/- The exponent that a positive number is rounded at. -/
def exponent (r : ℚ) : Int :=
  max (Int.log 2 r - 52) (-1074)

/- The value that a positive number is rounded to. -/
def rounded (r : ℚ) : ℚ :=
  evenNearest (r / (2 : ℚ) ^ exponent r) * (2 : ℚ) ^ exponent r

variable {n d : Nat}
variable {r t x y : ℚ}

------------------------------------------------------------
-- Nearest Natural Numbers
------------------------------------------------------------

theorem floor_le_evenNearest (x : ℚ) : ⌊x⌋₊ ≤ evenNearest x := by
  unfold evenNearest
  split <;> omega

theorem evenNearest_le_floor_succ (x : ℚ) :
    evenNearest x ≤ ⌊x⌋₊ + 1 := by
  unfold evenNearest
  split <;> omega

theorem evenNearest_natCast (n : Nat) : evenNearest n = n := by
  unfold evenNearest
  rw [Nat.floor_natCast, sub_self, if_neg]
  norm_num

/- Of two numbers between the same neighbours the greater goes up first. -/
theorem evenNearest_mono (hxy : x ≤ y) :
    evenNearest x ≤ evenNearest y := by
  rcases (Nat.floor_mono hxy).eq_or_lt with hSame | hLess
  · unfold evenNearest
    rw [← hSame]
    by_cases hUp :
        1 / 2 < x - ⌊x⌋₊ ∨ (x - ⌊x⌋₊ = 1 / 2 ∧ ⌊x⌋₊ % 2 = 1)
    · have hUp' :
          1 / 2 < y - ⌊x⌋₊ ∨ (y - ⌊x⌋₊ = 1 / 2 ∧ ⌊x⌋₊ % 2 = 1) := by
        rcases hUp with hMore | ⟨hTie, hOdd⟩
        · left
          linarith
        · rcases hxy.eq_or_lt with rfl | hAbove
          · exact .inr ⟨hTie, hOdd⟩
          · left
            linarith
      rw [if_pos hUp, if_pos hUp']
    · rw [if_neg hUp]
      split <;> omega
  · exact (evenNearest_le_floor_succ x).trans
      (Nat.succ_le_of_lt (hLess.trans_le (floor_le_evenNearest y)))

/- The nearest number to a quotient, from its remainder. -/
theorem nearest_eq (n : Nat) (hd : 0 < d) :
    nearest n d = evenNearest ((n : ℚ) / d) := by
  have hd' : (0 : ℚ) < d := by exact_mod_cast hd
  have hSplit : (n : ℚ) = d * (n / d : ℕ) + (n % d : ℕ) := by
    exact_mod_cast (Nat.div_add_mod n d).symm
  have hRest : (n : ℚ) / d - (n / d : ℕ) = (n % d : ℕ) / d := by
    rw [hSplit]
    field_simp
    norm_num
  have hMore : (1 : ℚ) / 2 < (n % d : ℕ) / d ↔ d < 2 * (n % d) := by
    rw [div_lt_div_iff₀ (by norm_num) hd', one_mul, mul_comm _ (2 : ℚ)]
    norm_cast
  have hTie : ((n % d : ℕ) : ℚ) / d = 1 / 2 ↔ d = 2 * (n % d) := by
    rw [div_eq_div_iff hd'.ne' (by norm_num), one_mul, mul_comm _ (2 : ℚ),
      eq_comm]
    norm_cast
  unfold nearest evenNearest
  dsimp only
  rw [Nat.floor_div_eq_div, hRest]
  simp only [hMore, hTie]

------------------------------------------------------------
-- Scales
------------------------------------------------------------

/- Scaling both parts of a fraction scales the fraction. -/
theorem scaleUp_div (n d : Nat) (e : Int) :
    ((scaleUp n (-e) : ℕ) : ℚ) / (scaleUp d e : ℕ) =
      (n : ℚ) / d / (2 : ℚ) ^ e := by
  unfold scaleUp
  simp only [Nat.pow_eq]
  push_cast
  rcases le_total 0 e with hUp | hDown
  · rw [show (-e).toNat = 0 by omega, pow_zero, mul_one, div_div]
    congr 2
    rw [← zpow_natCast, Int.toNat_of_nonneg hUp]
  · have hPower : (2 : ℚ) ^ e = ((2 : ℚ) ^ (-e).toNat)⁻¹ := by
      rw [← zpow_natCast, Int.toNat_of_nonneg (by omega), zpow_neg, inv_inv]
    rw [show e.toNat = 0 by omega, pow_zero, mul_one, hPower, div_inv_eq_mul]
    ring

theorem scaleUp_pos (hn : 0 < n) (e : Int) : 0 < scaleUp n e :=
  Nat.mul_pos hn (Nat.two_pow_pos _)

/- A power of two is tested without leaving the natural numbers. -/
theorem scaleUp_le_iff (hd : 0 < d) (k : Int) :
    scaleUp d k ≤ scaleUp n (-k) ↔ (2 : ℚ) ^ k ≤ (n : ℚ) / d := by
  have hPower : (0 : ℚ) < 2 ^ k := by positivity
  have hScaled : (0 : ℚ) < (scaleUp d k : ℕ) := by
    exact_mod_cast scaleUp_pos hd k
  rw [← one_le_div₀ hPower, ← scaleUp_div, one_le_div₀ hScaled]
  norm_cast

theorem two_zpow_le_iff
    {k : Int}
    (hr : 0 < r) :
    (2 : ℚ) ^ k ≤ r ↔ k ≤ Int.log 2 r := by
  have hLog := Int.zpow_le_iff_le_log (b := 2) (x := k) (by norm_num) hr
  rw [Nat.cast_ofNat] at hLog
  exact hLog

theorem lt_two_zpow_iff
    {k : Int}
    (hr : 0 < r) :
    r < (2 : ℚ) ^ k ↔ Int.log 2 r < k := by
  rw [← not_le, two_zpow_le_iff hr, not_le]

/- The logarithm of a fraction. -/
theorem floorLog2_eq (hn : 0 < n) (hd : 0 < d) :
    floorLog2 n d = Int.log 2 ((n : ℚ) / d) := by
  have hn' : (0 : ℚ) < n := by exact_mod_cast hn
  have hd' : (0 : ℚ) < d := by exact_mod_cast hd
  have hr : (0 : ℚ) < n / d := by positivity
  have hnLow : ((2 ^ n.log2 : ℕ) : ℚ) ≤ n := by
    exact_mod_cast Nat.log2_self_le hn.ne'
  have hnHigh : (n : ℚ) < ((2 ^ (n.log2 + 1) : ℕ) : ℚ) := by
    exact_mod_cast Nat.lt_log2_self
  have hdLow : ((2 ^ d.log2 : ℕ) : ℚ) ≤ d := by
    exact_mod_cast Nat.log2_self_le hd.ne'
  have hdHigh : (d : ℚ) < ((2 ^ (d.log2 + 1) : ℕ) : ℚ) := by
    exact_mod_cast Nat.lt_log2_self
  push_cast at hnLow hnHigh hdLow hdHigh
  have hLow : (2 : ℚ) ^ ((n.log2 : ℤ) - d.log2 - 1) ≤ n / d := by
    rw [le_div_iff₀ hd']
    calc (2 : ℚ) ^ ((n.log2 : ℤ) - d.log2 - 1) * d
        ≤ 2 ^ ((n.log2 : ℤ) - d.log2 - 1) * 2 ^ (d.log2 + 1) :=
          mul_le_mul_of_nonneg_left hdHigh.le (by positivity)
      _ = 2 ^ n.log2 := by
          rw [← zpow_natCast, ← zpow_natCast, ← zpow_add₀ (by norm_num)]
          congr 1
          push_cast
          ring
      _ ≤ n := hnLow
  have hHigh : (n : ℚ) / d < 2 ^ ((n.log2 : ℤ) - d.log2 + 1) := by
    rw [div_lt_iff₀ hd']
    calc (n : ℚ) < 2 ^ (n.log2 + 1) := hnHigh
      _ = 2 ^ ((n.log2 : ℤ) - d.log2 + 1) * 2 ^ d.log2 := by
          rw [← zpow_natCast, ← zpow_natCast, ← zpow_add₀ (by norm_num)]
          congr 1
          push_cast
          ring
      _ ≤ 2 ^ ((n.log2 : ℤ) - d.log2 + 1) * d :=
          mul_le_mul_of_nonneg_left hdLow (by positivity)
  have hLeast := (two_zpow_le_iff hr).1 hLow
  have hMost := (lt_two_zpow_iff hr).1 hHigh
  unfold floorLog2
  dsimp only
  by_cases hReach :
      scaleUp d ((n.log2 : ℤ) - d.log2) ≤
        scaleUp n (-((n.log2 : ℤ) - d.log2))
  · have hLog := (two_zpow_le_iff hr).1 ((scaleUp_le_iff hd _).1 hReach)
    rw [if_pos hReach]
    omega
  · have hBelow := lt_of_not_ge (mt (scaleUp_le_iff hd _).2 hReach)
    have hLog := (lt_two_zpow_iff hr).1 hBelow
    rw [if_neg hReach]
    omega

------------------------------------------------------------
-- Rounded Values
------------------------------------------------------------

/- A mantissa has fifty-three bits at most, before it is rounded. -/
theorem div_exponent_lt (r : ℚ) :
    r / (2 : ℚ) ^ exponent r < (2 ^ 53 : ℕ) := by
  have hPower : (0 : ℚ) < 2 ^ exponent r := by positivity
  have hLog := Int.lt_zpow_succ_log_self (b := 2) (by norm_num) r
  push_cast at hLog ⊢
  rw [div_lt_iff₀ hPower]
  calc r < (2 : ℚ) ^ (Int.log 2 r + 1) := hLog
    _ ≤ (2 : ℚ) ^ (53 + exponent r) := by
        apply zpow_le_zpow_right₀ (by norm_num)
        unfold exponent
        omega
    _ = 2 ^ 53 * (2 : ℚ) ^ exponent r := by
        rw [zpow_add₀ (by norm_num)]
        norm_cast

/- And that many, unless the exponent is the least one. -/
theorem le_div_exponent
    (hr : 0 < r)
    (hNormal : -1074 < exponent r) :
    ((2 ^ 52 : ℕ) : ℚ) ≤ r / (2 : ℚ) ^ exponent r := by
  have hPower : (0 : ℚ) < 2 ^ exponent r := by positivity
  have hLog := Int.zpow_log_le_self (b := 2) (by norm_num) hr
  push_cast at hLog ⊢
  rw [le_div_iff₀ hPower]
  calc 2 ^ 52 * (2 : ℚ) ^ exponent r
      = (2 : ℚ) ^ (52 + exponent r) := by
        rw [zpow_add₀ (by norm_num)]
        norm_cast
    _ ≤ (2 : ℚ) ^ Int.log 2 r := by
        apply zpow_le_zpow_right₀ (by norm_num)
        unfold exponent at hNormal ⊢
        omega
    _ ≤ r := hLog

theorem evenNearest_le (hr : 0 < r) :
    evenNearest (r / (2 : ℚ) ^ exponent r) ≤ 2 ^ 53 := by
  have hFloor :
      ⌊r / (2 : ℚ) ^ exponent r⌋₊ < 2 ^ 53 :=
    (Nat.floor_lt (by positivity)).2 (div_exponent_lt r)
  exact (evenNearest_le_floor_succ _).trans hFloor

theorem le_evenNearest
    (hr : 0 < r)
    (hNormal : -1074 < exponent r) :
    2 ^ 52 ≤ evenNearest (r / (2 : ℚ) ^ exponent r) :=
  (Nat.le_floor (le_div_exponent hr hNormal)).trans
    (floor_le_evenNearest _)

/-
  Rounding respects the order. Numbers with one exponent are
  rounded as their mantissas; between two exponents lies a
  power of two, which neither number passes.
-/
theorem rounded_mono
    (hr : 0 < r)
    (hrt : r ≤ t) :
    rounded r ≤ rounded t := by
  have hLog := Int.log_mono_right (b := 2) hr hrt
  have hExponent : exponent r ≤ exponent t := by
    unfold exponent
    omega
  rcases hExponent.eq_or_lt with hSame | hLess
  · have hShare :
        r / (2 : ℚ) ^ exponent t ≤ t / (2 : ℚ) ^ exponent t := by gcongr
    unfold rounded
    rw [hSame]
    exact mul_le_mul_of_nonneg_right
      (by exact_mod_cast evenNearest_mono hShare) (by positivity)
  · have hLeast : -1074 ≤ exponent r := le_max_right _ _
    have hLow :
        (evenNearest (r / (2 : ℚ) ^ exponent r) : ℚ) ≤ 2 ^ 53 := by
      exact_mod_cast evenNearest_le hr
    have hHigh :
        (2 : ℚ) ^ 52 ≤ evenNearest (t / (2 : ℚ) ^ exponent t) := by
      exact_mod_cast
        le_evenNearest (hr.trans_le hrt) (hLeast.trans_lt hLess)
    calc rounded r ≤ 2 ^ 53 * (2 : ℚ) ^ exponent r :=
          mul_le_mul_of_nonneg_right hLow (by positivity)
      _ = (2 : ℚ) ^ (53 + exponent r) := by
          rw [zpow_add₀ (by norm_num)]
          norm_cast
      _ ≤ (2 : ℚ) ^ (52 + exponent t) :=
          zpow_le_zpow_right₀ (by norm_num) (by omega)
      _ = 2 ^ 52 * (2 : ℚ) ^ exponent t := by
          rw [zpow_add₀ (by norm_num)]
          norm_cast
      _ ≤ rounded t :=
          mul_le_mul_of_nonneg_right hHigh (by positivity)

/- What a fraction is made of. -/
theorem ofFraction_eq
    (s : Bool)
    (hn : 0 < n)
    (hd : 0 < d)
    (hr : (n : ℚ) / d = r) :
    ofFraction s n d =
      if evenNearest (r / (2 : ℚ) ^ exponent r) = 2 ^ 53 then
        make s (2 ^ 52) (exponent r + 1)
      else make s (evenNearest (r / (2 : ℚ) ^ exponent r)) (exponent r) := by
  have hExponent : max (floorLog2 n d - 52) (-1074) = exponent r := by
    rw [floorLog2_eq hn hd, hr]
    rfl
  unfold ofFraction
  rw [if_neg (by omega), hExponent]
  dsimp only
  rw [nearest_eq _ (scaleUp_pos hd _), scaleUp_div, hr]
  rfl

/- A finite result has the rounded value. -/
theorem rounded_of_ofFraction
    {s : Bool}
    {m : Nat}
    {e : Int}
    {h : Canonical m e}
    (hn : 0 < n)
    (hd : 0 < d)
    (hFinite : ofFraction s n d = .finite s m e h) :
    rounded ((n : ℚ) / d) = m * (2 : ℚ) ^ e := by
  rw [ofFraction_eq s hn hd rfl] at hFinite
  unfold rounded
  generalize exponent ((n : ℚ) / d) = k at *
  generalize evenNearest ((n : ℚ) / d / (2 : ℚ) ^ k) = q at *
  unfold make at hFinite
  split at hFinite
  · rename_i hCarry
    split at hFinite
    · cases hFinite
      rw [hCarry, zpow_add₀ (by norm_num)]
      push_cast
      ring
    · cases hFinite
  · split at hFinite
    · cases hFinite
      rfl
    · cases hFinite

/- A number in the form that is kept is rounded at its own exponent. -/
theorem exponent_canonical
    {m : Nat}
    {e : Int}
    (h : Canonical m e)
    (hm : 0 < m) :
    exponent (m * (2 : ℚ) ^ e) = e := by
  rcases h with ⟨hHigh, hLeast, -, hForm⟩
  have hm' : (0 : ℚ) < m := by exact_mod_cast hm
  have hPos : (0 : ℚ) < m * 2 ^ e := by positivity
  have hBelow : Int.log 2 (m * (2 : ℚ) ^ e) < 53 + e := by
    rw [← lt_two_zpow_iff hPos, zpow_add₀ (by norm_num)]
    apply mul_lt_mul_of_pos_right _ (by positivity)
    exact_mod_cast hHigh
  unfold exponent
  rcases hForm with hNormal | rfl
  · have hAbove : 52 + e ≤ Int.log 2 (m * (2 : ℚ) ^ e) := by
      rw [← two_zpow_le_iff hPos, zpow_add₀ (by norm_num)]
      apply mul_le_mul_of_nonneg_right _ (by positivity)
      exact_mod_cast hNormal
    omega
  · omega

/- Hence it is rounded to itself. -/
theorem rounded_canonical
    {m : Nat}
    {e : Int}
    (h : Canonical m e)
    (hm : 0 < m) :
    rounded (m * (2 : ℚ) ^ e) = m * (2 : ℚ) ^ e := by
  have hPower : (2 : ℚ) ^ e ≠ 0 := by positivity
  unfold rounded
  rw [exponent_canonical h hm, mul_div_cancel_right₀ _ hPower,
    evenNearest_natCast]

end Binary64
end StackScript
