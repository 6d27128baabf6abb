import StackScript.Proofs.Number.Counting

/-
  Significant digits of rational numbers.

  The first digit of a number other than zero stands at the
  greatest power of ten that its magnitude reaches, and a
  unit in the `p`-th digit is `p - 1` places below that.
  Numbers are kept to `p` digits in one way for every share
  of a unit from which what is cut goes up: `kept` with no
  share cuts, with a half it goes to the nearest.

  Key definitions include:
    * `Significant.unit`
    * `Significant.Fits`
    * `Significant.kept`
    * `Significant.rounded`

  Key theorems include:
    * `Significant.kept_mono`
    * `Significant.fits_kept`
    * `Significant.kept_of_fits`
    * `Significant.rounded_mono`
    * `Significant.abs_rounded_sub_lt`
-/

namespace StackScript
namespace Significant

/- The place of the first digit, zero for a one before the point. -/
def place (x : ℚ) : ℤ :=
  Int.log 10 |x|

/- A unit in the `p`-th significant digit. -/
def unit
    (p : Nat)
    (x : ℚ) : ℚ :=
  (10 : ℚ) ^ (place x + 1 - p)

/- A number has at most `p` significant digits. -/
def Fits
    (p : Nat)
    (x : ℚ) : Prop :=
  ∃ n e : ℤ, |n| < 10 ^ p ∧ x = n * (10 : ℚ) ^ e

/-
  A number from zero on with `p` digits, where the rest goes
  up if a share `h` of a unit completes it.
-/
def kept
    (p : Nat)
    (h x : ℚ) : ℚ :=
  ⌊x / unit p x + h⌋ * unit p x

/-
  The nearest number with `p` digits, away from zero from
  the middle on.
-/
def nearest
    (p : Nat)
    (x : ℚ) : ℚ :=
  if x < 0 then -kept p (1 / 2) (-x) else kept p (1 / 2) x

/-
  A number with `p` digits: one below zero is cut, any other
  goes to the nearest.
-/
def rounded
    (p : Nat)
    (x : ℚ) : ℚ :=
  if x < 0 then -kept p 0 (-x) else kept p (1 / 2) x

variable {p g : Nat}
variable {h x y : ℚ}

------------------------------------------------------------
-- Places and Units
------------------------------------------------------------

theorem place_neg (x : ℚ) : place (-x) = place x := by
  unfold place
  rw [abs_neg]

theorem place_abs (x : ℚ) : place |x| = place x := by
  unfold place
  rw [abs_abs]

theorem unit_abs
    (p : Nat)
    (x : ℚ) :
    unit p |x| = unit p x := by
  unfold unit
  rw [place_abs]

theorem unit_neg
    (p : Nat)
    (x : ℚ) :
    unit p (-x) = unit p x := by
  unfold unit
  rw [place_neg]

theorem unit_pos
    (p : Nat)
    (x : ℚ) :
    0 < unit p x := by
  unfold unit
  positivity

/- The first digit of a number is not a zero. -/
theorem place_le (hx : 0 < x) : (10 : ℚ) ^ place x ≤ x := by
  have hLog := Int.zpow_log_le_self (b := 10) (by norm_num) hx
  unfold place
  rw [abs_of_pos hx]
  exact_mod_cast hLog

/- Nothing stands in front of the first digit. -/
theorem lt_place_succ
    (hx : 0 ≤ x) :
    x < (10 : ℚ) ^ (place x + 1) := by
  have hLog := Int.lt_zpow_succ_log_self (b := 10) (by norm_num) x
  unfold place
  rw [abs_of_nonneg hx]
  exact_mod_cast hLog

/- The place is determined by the powers around a number. -/
theorem place_eq
    {k : ℤ}
    (hLow : (10 : ℚ) ^ k ≤ x)
    (hHigh : x < (10 : ℚ) ^ (k + 1)) :
    place x = k := by
  have hx : 0 < x := lt_of_lt_of_le (by positivity) hLow
  have hUp : k < place x + 1 :=
    (zpow_lt_zpow_iff_right₀ (by norm_num)).1
      (lt_of_le_of_lt hLow (lt_place_succ hx.le))
  have hDown : place x < k + 1 :=
    (zpow_lt_zpow_iff_right₀ (by norm_num)).1
      (lt_of_le_of_lt (place_le hx) hHigh)
  omega

theorem place_mono
    (hx : 0 < x)
    (hxy : x ≤ y) :
    place x ≤ place y := by
  have hLess :=
    lt_of_le_of_lt ((place_le hx).trans hxy)
      (lt_place_succ (hx.le.trans hxy))
  have hPlaces :=
    (zpow_lt_zpow_iff_right₀ (by norm_num : (1 : ℚ) < 10)).1 hLess
  omega

/- Places below the unit are counted in powers of ten. -/
theorem zpow_eq_mul_unit
    {k : ℤ}
    {j : Nat}
    (hj : k = place x + 1 - p + j) :
    (10 : ℚ) ^ k = ((10 ^ j : ℤ) : ℚ) * unit p x := by
  unfold unit
  rw [hj, zpow_add₀ (by norm_num), zpow_natCast, mul_comm]
  push_cast
  rfl

/- More digits have smaller units. -/
theorem unit_anti
    (x : ℚ)
    (hpg : p ≤ g) :
    unit g x ≤ unit p x := by
  unfold unit
  apply zpow_le_zpow_right₀ (by norm_num)
  omega

------------------------------------------------------------
-- Quotients of Natural Numbers
------------------------------------------------------------

/- A quotient goes up from the middle on. -/
theorem floor_add_half
    {d : Nat}
    (n : Nat)
    (hd : 0 < d) :
    ⌊(n : ℚ) / d + 1 / 2⌋ =
      if d ≤ 2 * (n % d) then (n / d : Nat) + 1 else (n / d : Nat) := by
  have hPos : (0 : ℚ) < d := by exact_mod_cast hd
  have hSplit : (n : ℚ) = d * (n / d : Nat) + (n % d : Nat) := by
    exact_mod_cast (Nat.div_add_mod n d).symm
  have hRest : ((n % d : Nat) : ℚ) < d := by
    exact_mod_cast Nat.mod_lt n hd
  have hNone : (0 : ℚ) ≤ (n % d : Nat) := Nat.cast_nonneg _
  have hShare :
      (n : ℚ) / d = (n / d : Nat) + ((n % d : Nat) : ℚ) / d := by
    rw [hSplit]
    field_simp
  rw [hShare]
  generalize (n / d : Nat) = q
  generalize (n % d : Nat) = r at *
  rw [Int.floor_eq_iff]
  by_cases hUp : d ≤ 2 * r
  · have hUp' : (d : ℚ) ≤ 2 * r := by exact_mod_cast hUp
    have hLow : (1 : ℚ) / 2 ≤ r / d := by
      rw [div_le_div_iff₀ (by norm_num) hPos]
      linarith
    have hHigh : (r : ℚ) / d < 1 := (div_lt_one hPos).2 hRest
    rw [if_pos hUp]
    push_cast
    constructor
    · linarith
    · linarith
  · have hUp' : 2 * (r : ℚ) < d := by exact_mod_cast Nat.lt_of_not_le hUp
    have hLow : 0 ≤ (r : ℚ) / d := by positivity
    have hHigh : (r : ℚ) / d < 1 / 2 := by
      rw [div_lt_div_iff₀ hPos (by norm_num)]
      linarith
    rw [if_neg hUp]
    push_cast
    constructor
    · linarith
    · linarith

/- The first digit of a quotient, from its digits before the point. -/
theorem place_quotient
    {n d : Nat}
    {s : Int}
    (hd : 0 < d)
    (hReach : d ≤ n) :
    place ((n : ℚ) / d * 10 ^ (-s)) =
      Digits.count (n / d) - 1 - s := by
  have hPos : (0 : ℚ) < d := by exact_mod_cast hd
  have hPower : (0 : ℚ) < 10 ^ (-s) := by positivity
  have hQuotient : 0 < n / d := Nat.div_pos hReach hd
  have hCount := Digits.count_pos (n / d)
  have hLow : ((10 ^ (Digits.count (n / d) - 1) : ℕ) : ℚ) ≤ n / d := by
    rw [le_div_iff₀ hPos]
    exact_mod_cast
      (Nat.le_div_iff_mul_le hd).1 (Digits.tens_pred_count_le hQuotient)
  have hHigh : (n : ℚ) / d < ((10 ^ Digits.count (n / d) : ℕ) : ℚ) := by
    rw [div_lt_iff₀ hPos]
    exact_mod_cast
      (Nat.div_lt_iff_lt_mul hd).1 (Digits.lt_tens_count (n / d))
  apply place_eq
  · calc (10 : ℚ) ^ ((Digits.count (n / d) : ℤ) - 1 - s)
        = ((10 ^ (Digits.count (n / d) - 1) : ℕ) : ℚ) * 10 ^ (-s) := by
          push_cast
          rw [← zpow_natCast, ← zpow_add₀ (by norm_num)]
          congr 1
          omega
      _ ≤ (n : ℚ) / d * 10 ^ (-s) :=
          mul_le_mul_of_nonneg_right hLow hPower.le
  · calc (n : ℚ) / d * 10 ^ (-s)
        < ((10 ^ Digits.count (n / d) : ℕ) : ℚ) * 10 ^ (-s) :=
          mul_lt_mul_of_pos_right hHigh hPower
      _ = (10 : ℚ) ^ ((Digits.count (n / d) : ℤ) - 1 - s + 1) := by
          push_cast
          rw [← zpow_natCast, ← zpow_add₀ (by norm_num)]
          congr 1
          omega

------------------------------------------------------------
-- Numbers That Fit
------------------------------------------------------------

theorem Fits.neg (hx : Fits p x) : Fits p (-x) := by
  rcases hx with ⟨n, e, hn, rfl⟩
  refine ⟨-n, e, ?_, ?_⟩
  · rw [abs_neg]
    exact hn
  · push_cast
    ring

theorem Fits.mono
    (hx : Fits p x)
    (hpg : p ≤ g) :
    Fits g x := by
  rcases hx with ⟨n, e, hn, hValue⟩
  exact ⟨n, e,
    lt_of_lt_of_le hn (pow_le_pow_right₀ (by norm_num) hpg), hValue⟩

/- A number that fits is a number of units. -/
theorem Fits.units
    (hx : Fits p x)
    (hPos : 0 < x) :
    ∃ n : ℤ, x = n * unit p x := by
  rcases hx with ⟨n, e, hn, hValue⟩
  have hn' : ((|n| : ℤ) : ℚ) < (10 : ℚ) ^ (p : ℤ) := by
    rw [zpow_natCast]
    exact_mod_cast hn
  have hLess : x < (10 : ℚ) ^ (e + p) := by
    calc x = n * (10 : ℚ) ^ e := hValue
      _ ≤ ((|n| : ℤ) : ℚ) * (10 : ℚ) ^ e := by
          have hAbs : (n : ℚ) ≤ ((|n| : ℤ) : ℚ) := by
            exact_mod_cast le_abs_self n
          exact mul_le_mul_of_nonneg_right hAbs (by positivity)
      _ < (10 : ℚ) ^ (p : ℤ) * (10 : ℚ) ^ e :=
          mul_lt_mul_of_pos_right hn' (by positivity)
      _ = (10 : ℚ) ^ (e + p) := by
          rw [zpow_add₀ (by norm_num), mul_comm]
  have hPlace : place x < e + p :=
    (zpow_lt_zpow_iff_right₀ (by norm_num : (1 : ℚ) < 10)).1
      (lt_of_le_of_lt (place_le hPos) hLess)
  obtain ⟨j, hj⟩ : ∃ j : Nat, e = place x + 1 - p + j :=
    ⟨(e - (place x + 1 - p)).toNat, by omega⟩
  refine ⟨n * 10 ^ j, ?_⟩
  calc x = n * (10 : ℚ) ^ e := hValue
    _ = n * (((10 ^ j : ℤ) : ℚ) * unit p x) := by
        rw [zpow_eq_mul_unit hj]
    _ = ((n * 10 ^ j : ℤ) : ℚ) * unit p x := by
        push_cast
        ring

------------------------------------------------------------
-- Kept Digits
------------------------------------------------------------

/- What is cut goes up by no more than the share. -/
theorem kept_le
    (p : Nat)
    (h x : ℚ) :
    kept p h x ≤ x + h * unit p x := by
  have hUnit := unit_pos p x
  have hFloor := Int.floor_le (x / unit p x + h)
  unfold kept
  calc (⌊x / unit p x + h⌋ : ℚ) * unit p x
      ≤ (x / unit p x + h) * unit p x :=
        mul_le_mul_of_nonneg_right hFloor hUnit.le
    _ = x + h * unit p x := by
        rw [add_mul, div_mul_cancel₀ x hUnit.ne']

/- Less than what is left of a unit is cut. -/
theorem lt_kept
    (p : Nat)
    (h x : ℚ) :
    x - (1 - h) * unit p x < kept p h x := by
  have hUnit := unit_pos p x
  have hFloor := Int.lt_floor_add_one (x / unit p x + h)
  unfold kept
  calc x - (1 - h) * unit p x
      = (x / unit p x + h - 1) * unit p x := by
        rw [sub_mul (x / unit p x + h), add_mul,
          div_mul_cancel₀ x hUnit.ne']
        ring
    _ < (⌊x / unit p x + h⌋ : ℚ) * unit p x :=
        mul_lt_mul_of_pos_right (by linarith) hUnit

/- The first digit is kept. -/
theorem place_le_kept
    (hp : 1 ≤ p)
    (hh : 0 ≤ h)
    (hx : 0 < x) :
    (10 : ℚ) ^ place x ≤ kept p h x := by
  have hUnit := unit_pos p x
  have hFirst : (10 : ℚ) ^ place x = ((10 ^ (p - 1) : ℤ) : ℚ) * unit p x :=
    zpow_eq_mul_unit (by omega)
  have hShare : ((10 ^ (p - 1) : ℤ) : ℚ) ≤ x / unit p x := by
    rw [le_div_iff₀ hUnit, ← hFirst]
    exact place_le hx
  have hFloor : (10 ^ (p - 1) : ℤ) ≤ ⌊x / unit p x + h⌋ :=
    Int.le_floor.2 (by linarith)
  unfold kept
  rw [hFirst]
  exact mul_le_mul_of_nonneg_right (by exact_mod_cast hFloor) hUnit.le

/- At most a one appears in front of the first digit. -/
theorem kept_le_place_succ
    (hh : h < 1)
    (hx : 0 ≤ x) :
    kept p h x ≤ (10 : ℚ) ^ (place x + 1) := by
  have hUnit := unit_pos p x
  have hNext : (10 : ℚ) ^ (place x + 1) = ((10 ^ p : ℤ) : ℚ) * unit p x :=
    zpow_eq_mul_unit (by omega)
  have hShare : x / unit p x < ((10 ^ p : ℤ) : ℚ) := by
    rw [div_lt_iff₀ hUnit, ← hNext]
    exact lt_place_succ hx
  have hFloor : ⌊x / unit p x + h⌋ < (10 ^ p : ℤ) + 1 := by
    rw [Int.floor_lt]
    push_cast at hShare ⊢
    linarith
  have hLess : ⌊x / unit p x + h⌋ ≤ (10 ^ p : ℤ) := by omega
  unfold kept
  rw [hNext]
  exact mul_le_mul_of_nonneg_right (by exact_mod_cast hLess) hUnit.le

theorem kept_zero
    (hh : 0 ≤ h)
    (hLess : h < 1) :
    kept p h 0 = 0 := by
  unfold kept
  rw [zero_div, zero_add, Int.floor_eq_zero_iff.2 ⟨hh, hLess⟩]
  simp

theorem kept_nonneg
    (hh : 0 ≤ h)
    (hx : 0 ≤ x) :
    0 ≤ kept p h x := by
  have hUnit := unit_pos p x
  have hFloor : 0 ≤ ⌊x / unit p x + h⌋ := by
    apply Int.floor_nonneg.2
    positivity
  unfold kept
  exact mul_nonneg (by exact_mod_cast hFloor) hUnit.le

/-
  Keeping digits respects the order. Numbers with the first
  digit at one place have one unit; between two places lies
  a power of ten, which neither number passes.
-/
theorem kept_mono
    (hp : 1 ≤ p)
    (hh : 0 ≤ h)
    (hLess : h < 1)
    (hx : 0 ≤ x)
    (hxy : x ≤ y) :
    kept p h x ≤ kept p h y := by
  rcases hx.eq_or_lt with rfl | hPos
  · rw [kept_zero hh hLess]
    exact kept_nonneg hh hxy
  rcases (place_mono hPos hxy).eq_or_lt with hSame | hMore
  · have hUnits : unit p x = unit p y := by
      unfold unit
      rw [hSame]
    have hUnit := unit_pos p y
    have hShare : x / unit p y + h ≤ y / unit p y + h := by gcongr
    unfold kept
    rw [hUnits]
    exact mul_le_mul_of_nonneg_right
      (by exact_mod_cast Int.floor_le_floor hShare) hUnit.le
  · calc kept p h x ≤ (10 : ℚ) ^ (place x + 1) :=
          kept_le_place_succ hLess hx
      _ ≤ (10 : ℚ) ^ place y :=
          zpow_le_zpow_right₀ (by norm_num) hMore
      _ ≤ kept p h y := place_le_kept hp hh (hPos.trans_le hxy)

/- A number that fits is kept as it is. -/
theorem kept_of_fits
    (hh : 0 ≤ h)
    (hLess : h < 1)
    (hx : 0 ≤ x)
    (hFits : Fits p x) :
    kept p h x = x := by
  rcases hx.eq_or_lt with rfl | hPos
  · exact kept_zero hh hLess
  rcases hFits.units hPos with ⟨n, hn⟩
  have hUnit := unit_pos p x
  have hShare : x / unit p x = n := (div_eq_iff hUnit.ne').2 hn
  have hNone : ⌊h⌋ = 0 := Int.floor_eq_zero_iff.2 ⟨hh, hLess⟩
  unfold kept
  rw [hShare, Int.floor_intCast_add, hNone, add_zero]
  exact hn.symm

/- What is kept fits: a carry through all digits leaves a one. -/
theorem fits_kept
    (hp : 1 ≤ p)
    (hh : 0 ≤ h)
    (hLess : h < 1)
    (hx : 0 ≤ x) :
    Fits p (kept p h x) := by
  rcases (kept_le_place_succ (p := p) hLess hx).eq_or_lt with
    hCarry | hInside
  · refine ⟨1, place x + 1, ?_, ?_⟩
    · rw [abs_one]
      exact one_lt_pow₀ (by norm_num) (by omega)
    · rw [hCarry, Int.cast_one, one_mul]
  · have hUnit := unit_pos p x
    refine ⟨⌊x / unit p x + h⌋, place x + 1 - p, ?_, rfl⟩
    have hFloor : 0 ≤ ⌊x / unit p x + h⌋ := by
      apply Int.floor_nonneg.2
      positivity
    rw [abs_of_nonneg hFloor]
    rw [zpow_eq_mul_unit (x := x) (p := p) (j := p) (by omega)]
      at hInside
    exact_mod_cast lt_of_mul_lt_mul_right hInside hUnit.le

------------------------------------------------------------
-- Nearest Numbers
------------------------------------------------------------

theorem nearest_of_neg (hx : x < 0) :
    nearest p x = -kept p (1 / 2) (-x) :=
  if_pos hx

theorem nearest_of_nonneg (hx : 0 ≤ x) :
    nearest p x = kept p (1 / 2) x :=
  if_neg (not_lt.2 hx)

/- A number that fits is the nearest to itself. -/
theorem nearest_of_fits (hx : Fits p x) : nearest p x = x := by
  rcases lt_or_ge x 0 with hNeg | hPos
  · rw [nearest_of_neg hNeg,
      kept_of_fits (by norm_num) (by norm_num) (neg_nonneg.2 hNeg.le)
        hx.neg, neg_neg]
  · rw [nearest_of_nonneg hPos,
      kept_of_fits (by norm_num) (by norm_num) hPos hx]

------------------------------------------------------------
-- Rounded Numbers
------------------------------------------------------------

theorem rounded_of_neg (hx : x < 0) : rounded p x = -kept p 0 (-x) :=
  if_pos hx

theorem rounded_of_nonneg (hx : 0 ≤ x) : rounded p x = kept p (1 / 2) x :=
  if_neg (not_lt.2 hx)

/- A number that is not negative moves by half a unit at most. -/
theorem abs_rounded_sub_le
    (hx : 0 ≤ x) :
    |rounded p x - x| ≤ unit p x / 2 := by
  have hLow := lt_kept p (1 / 2) x
  have hHigh := kept_le p (1 / 2) x
  rw [rounded_of_nonneg hx, abs_le]
  constructor
  · linarith
  · linarith

/- A negative number goes up, by less than a unit. -/
theorem rounded_of_neg_bounds
    (hx : x < 0) :
    x ≤ rounded p x ∧ rounded p x < x + unit p x := by
  have hLow := lt_kept p 0 (-x)
  have hHigh := kept_le p 0 (-x)
  rw [unit_neg] at hLow hHigh
  rw [rounded_of_neg hx]
  constructor
  · linarith
  · linarith

/- Rounding moves a number by less than a unit. -/
theorem abs_rounded_sub_lt
    (p : Nat)
    (x : ℚ) :
    |rounded p x - x| < unit p x := by
  have hUnit := unit_pos p x
  rcases lt_or_ge x 0 with hNeg | hPos
  · rcases rounded_of_neg_bounds (p := p) hNeg with ⟨hLow, hHigh⟩
    rw [abs_lt]
    constructor
    · linarith
    · linarith
  · have hHalf := abs_rounded_sub_le (p := p) hPos
    linarith

/- Rounding respects the order. -/
theorem rounded_mono
    (hp : 1 ≤ p)
    (hxy : x ≤ y) :
    rounded p x ≤ rounded p y := by
  rcases lt_or_ge x 0 with hx | hx
  · rw [rounded_of_neg hx]
    rcases lt_or_ge y 0 with hy | hy
    · rw [rounded_of_neg hy]
      have hKept :=
        kept_mono (h := 0) hp le_rfl (by norm_num)
          (neg_nonneg.2 hy.le) (neg_le_neg hxy)
      linarith
    · rw [rounded_of_nonneg hy]
      have hLow :=
        kept_nonneg (p := p) (h := 0) le_rfl (neg_nonneg.2 hx.le)
      have hHigh :=
        kept_nonneg (p := p) (h := 1 / 2) (by norm_num) hy
      linarith
  · rw [rounded_of_nonneg hx, rounded_of_nonneg (hx.trans hxy)]
    exact kept_mono hp (by norm_num) (by norm_num) hx hxy

/- A number that fits is not moved. -/
theorem rounded_of_fits (hx : Fits p x) : rounded p x = x := by
  rcases lt_or_ge x 0 with hNeg | hPos
  · rw [rounded_of_neg hNeg,
      kept_of_fits le_rfl (by norm_num) (neg_nonneg.2 hNeg.le) hx.neg,
      neg_neg]
  · rw [rounded_of_nonneg hPos,
      kept_of_fits (by norm_num) (by norm_num) hPos hx]

/- What is rounded fits. -/
theorem fits_rounded
    (hp : 1 ≤ p)
    (x : ℚ) :
    Fits p (rounded p x) := by
  rcases lt_or_ge x 0 with hNeg | hPos
  · rw [rounded_of_neg hNeg]
    exact
      (fits_kept hp le_rfl (by norm_num) (neg_nonneg.2 hNeg.le)).neg
  · rw [rounded_of_nonneg hPos]
    exact fits_kept hp (by norm_num) (by norm_num) hPos

------------------------------------------------------------
-- Rounding Twice
------------------------------------------------------------

/- Keeping digits moves the first one only to make a power of ten. -/
theorem kept_power_or_place
    (hp : 1 ≤ p)
    (hh : 0 ≤ h)
    (hLess : h < 1)
    (hx : 0 < x) :
    kept p h x = (10 : ℚ) ^ (place x + 1) ∨
      place (kept p h x) = place x := by
  rcases (kept_le_place_succ (p := p) hLess hx.le).eq_or_lt with
    hCarry | hInside
  · exact .inl hCarry
  · exact .inr (place_eq (place_le_kept hp hh hx) hInside)

/-
  Digits of a number that went to the nearest first. The two
  errors add up, also where the first step reaches a power
  of ten, which the second one does not move.
-/
theorem kept_kept_bounds
    (hp : 1 ≤ p)
    (hg : 1 ≤ g)
    (hh : 0 ≤ h)
    (hLess : h < 1)
    (hx : 0 ≤ x) :
    x - (1 - h) * unit p x - unit g x / 2 <
        kept p h (kept g (1 / 2) x) ∧
      kept p h (kept g (1 / 2) x) ≤
        x + h * unit p x + unit g x / 2 := by
  have hUnit := unit_pos p x
  have hFine := unit_pos g x
  have hDown : 0 ≤ (1 - h) * unit p x :=
    mul_nonneg (by linarith) hUnit.le
  have hUp : 0 ≤ h * unit p x := mul_nonneg hh hUnit.le
  have hLow := lt_kept g (1 / 2) x
  have hHigh := kept_le g (1 / 2) x
  rcases hx.eq_or_lt with rfl | hPos
  · rw [kept_zero (by norm_num) (by norm_num), kept_zero hh hLess]
    constructor
    · linarith
    · linarith
  rcases kept_power_or_place (h := 1 / 2) hg (by norm_num)
      (by norm_num) hPos with hPower | hPlace
  · have hFits : Fits p (kept g (1 / 2) x) := by
      refine ⟨1, place x + 1, ?_, ?_⟩
      · rw [abs_one]
        exact one_lt_pow₀ (by norm_num) (by omega)
      · rw [hPower, Int.cast_one, one_mul]
    have hNonneg : 0 ≤ kept g (1 / 2) x := by
      rw [hPower]
      positivity
    rw [kept_of_fits hh hLess hNonneg hFits]
    constructor
    · linarith
    · linarith
  · have hUnits : unit p (kept g (1 / 2) x) = unit p x := by
      unfold unit
      rw [hPlace]
    have hNextLow := lt_kept p h (kept g (1 / 2) x)
    have hNextHigh := kept_le p h (kept g (1 / 2) x)
    rw [hUnits] at hNextLow hNextHigh
    constructor
    · linarith
    · linarith

/-
  A result lies near a number: half a unit away, or above a
  number below zero by less than a unit, and by some slack
  in any case.
-/
def Near
    (p : Nat)
    (slack x r : ℚ) : Prop :=
  (0 ≤ x → |r - x| ≤ unit p x / 2 + slack) ∧
    (x < 0 → x - slack ≤ r ∧ r < x + unit p x + slack)

theorem Near.mono
    {slack wider r : ℚ}
    (hNear : Near p slack x r)
    (hSlack : slack ≤ wider) :
    Near p wider x r := by
  refine ⟨fun hx => ?_, fun hx => ?_⟩
  · have hHalf := hNear.1 hx
    linarith
  · rcases hNear.2 hx with ⟨hLow, hHigh⟩
    constructor
    · linarith
    · linarith

/- Rounding once needs no slack. -/
theorem near_rounded
    (p : Nat)
    (x : ℚ) :
    Near p 0 x (rounded p x) := by
  refine ⟨fun hx => ?_, fun hx => ?_⟩
  · rw [add_zero]
    exact abs_rounded_sub_le hx
  · rw [sub_zero, add_zero]
    exact rounded_of_neg_bounds hx

/- Rounding the nearest number adds half of its unit. -/
theorem near_rounded_nearest
    (hp : 1 ≤ p)
    (hg : 1 ≤ g)
    (x : ℚ) :
    Near p (unit g x / 2) x (rounded p (nearest g x)) := by
  refine ⟨fun hx => ?_, fun hx => ?_⟩
  · have hKept : 0 ≤ kept g (1 / 2) x := kept_nonneg (by norm_num) hx
    rcases kept_kept_bounds (h := 1 / 2) hp hg (by norm_num)
      (by norm_num) hx with ⟨hLow, hHigh⟩
    rw [nearest_of_nonneg hx, rounded_of_nonneg hKept, abs_le]
    constructor
    · linarith
    · linarith
  · have hNeg : 0 < -x := neg_pos.2 hx
    have hKept : 0 < kept g (1 / 2) (-x) :=
      lt_of_lt_of_le (by positivity)
        (place_le_kept hg (by norm_num) hNeg)
    rcases kept_kept_bounds (h := 0) hp hg le_rfl (by norm_num)
      hNeg.le with ⟨hLow, hHigh⟩
    rw [unit_neg, unit_neg] at hLow hHigh
    rw [nearest_of_neg hx, rounded_of_neg (neg_neg_of_pos hKept), neg_neg]
    constructor
    · linarith
    · linarith

end Significant
end StackScript
