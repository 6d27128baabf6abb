import StackScript.Proofs.Number.Power

/-
  Powers with scales of sixty-four bits.

  A scale is stored as a signed integer of sixty-four bits,
  and there is no decimal with a scale beyond them. The
  checked loop is repeated squaring that stops at the first
  such scale, be it that of the last square, which no result
  uses. When it does not stop it gives what the loop gives
  for scales of any size, and it does not stop if the scale
  and the digits of the power take less than half the range.

  Key definitions include:
    * `Decimal.Storable`
    * `Decimal.power?`, `Decimal.raise?`
    * `Decimal.PowerInRange`
    * `Decimal.Spans`

  Key theorems include:
    * `Decimal.eq_power_of_power?`
    * `Decimal.power?_eq`, `Decimal.raise?_eq`
-/

namespace StackScript
namespace Decimal

variable {a x y d : Decimal}
variable {e j k q : Nat}

------------------------------------------------------------
-- Stored Scales
------------------------------------------------------------

/- Sixty-four bits hold the scale. -/
def Storable (a : Decimal) : Prop :=
  -2 ^ 63 ≤ a.scale ∧ a.scale < 2 ^ 63

instance (a : Decimal) : Decidable a.Storable :=
  inferInstanceAs (Decidable (_ ∧ _))

/- The same decimal, if its scale can be stored. -/
def stored? (a : Decimal) : Option Decimal :=
  if a.Storable then some a else none

/- A rounded product whose scales can be stored on the way. -/
def mulRound?
    (q : Nat)
    (a b : Decimal) : Option Decimal := do
  let product ← (a.mulTidy b).stored?
  (product.round q).stored?

/- Repeated squaring, up to a scale that cannot be stored. -/
def powerFrom?
    (q : Nat) :
    Nat → Decimal → Decimal → Nat → Option Decimal
| 0, result, _, _ => some result
| steps + 1, result, square, e =>
    if e = 0 then some result
    else do
      let taken :=
        if e % 2 = 1 then mulRound? q result square else some result
      powerFrom? q steps (← taken) (← mulRound? q square square) (e / 2)

/- A natural power, if the loop stays within stored scales. -/
def power?
    (a : Decimal)
    (e q : Nat) : Option Decimal :=
  powerFrom? q (e.log2 + 1) one a e

/-
  A decimal to a natural power with `p` digits: the checked
  loop with five digits to spare, rounded to what can be
  stored.
-/
def raise?
    (a : Decimal)
    (e p : Nat) : Option Decimal := do
  ((← a.power? e (p + 5)).round p).stored?

------------------------------------------------------------
-- The Checked Loop Is the Loop
------------------------------------------------------------

theorem eq_of_stored? (h : a.stored? = some d) : d = a := by
  unfold stored? at h
  split at h
  · exact (Option.some.inj h).symm
  · cases h

theorem stored?_eq (h : a.Storable) : a.stored? = some a :=
  if_pos h

theorem eq_of_mulRound?
    (h : mulRound? q x y = some d) :
    d = (x.mulTidy y).round q := by
  rcases Option.bind_eq_some_iff.1 h with ⟨product, hProduct, hRound⟩
  rw [eq_of_stored? hRound, eq_of_stored? hProduct]

theorem mulRound?_eq
    (hProduct : (x.mulTidy y).Storable)
    (hRound : ((x.mulTidy y).round q).Storable) :
    mulRound? q x y = some ((x.mulTidy y).round q) := by
  unfold mulRound?
  rw [stored?_eq hProduct]
  exact stored?_eq hRound

/- Where the checked loop ends it has done what the loop does. -/
theorem eq_powerFrom_of_powerFrom?
    {steps : Nat}
    (h : powerFrom? q steps x y e = some d) :
    d = powerFrom q steps x y e := by
  induction steps generalizing x y e with
  | zero => exact (Option.some.inj h).symm
  | succ steps ih =>
      unfold powerFrom? at h
      unfold powerFrom
      by_cases hEnd : e = 0
      · rw [if_pos hEnd] at h ⊢
        exact (Option.some.inj h).symm
      rw [if_neg hEnd] at h ⊢
      rcases Option.bind_eq_some_iff.1 h with ⟨result, hTake, hRest⟩
      rcases Option.bind_eq_some_iff.1 hRest with
        ⟨square, hSquare, hLoop⟩
      rw [eq_of_mulRound? hSquare] at hLoop
      dsimp only
      by_cases hOdd : e % 2 = 1
      · rw [if_pos hOdd] at hTake ⊢
        rw [eq_of_mulRound? hTake] at hLoop
        exact ih hLoop
      · rw [if_neg hOdd] at hTake ⊢
        rw [← Option.some.inj hTake] at hLoop
        exact ih hLoop

theorem eq_power_of_power?
    (h : a.power? e q = some d) :
    d = a.power e q :=
  eq_powerFrom_of_powerFrom? h

/-
  The checked loop ends if products of results and squares
  can be stored, also those of a last square with itself.
-/
theorem powerFrom?_eq
    {W : Nat → Decimal → Prop}
    {most steps : Nat}
    (hMul :
      ∀ {j k x y},
        j + k ≤ most → W j x → W k y → W (j + k) ((x.mulTidy y).round q))
    (hStored :
      ∀ {j k x y},
        j ≤ most → k ≤ most → W j x → W k y →
          mulRound? q x y = some ((x.mulTidy y).round q))
    (hSteps : e < 2 ^ steps)
    (hMost : j + k * e ≤ most)
    (hResult : W j x)
    (hRest : 0 < e → W k y) :
    powerFrom? q steps x y e = some (powerFrom q steps x y e) := by
  induction steps generalizing e j k x y with
  | zero => rfl
  | succ steps ih =>
      unfold powerFrom? powerFrom
      by_cases hEnd : e = 0
      · rw [if_pos hEnd, if_pos hEnd]
      rw [if_neg hEnd, if_neg hEnd]
      have hSquare : W k y := hRest (Nat.pos_of_ne_zero hEnd)
      have hHalf : e / 2 < 2 ^ steps := by
        rw [Nat.pow_succ] at hSteps
        omega
      have hOnce : k ≤ k * e :=
        Nat.le_mul_of_pos_right k (Nat.pos_of_ne_zero hEnd)
      have hNext : 0 < e / 2 → W (k + k) ((y.mulTidy y).round q) := by
        intro hMore
        have hTwice : k * 2 ≤ k * e := Nat.mul_le_mul_left k (by omega)
        exact hMul (by omega) hSquare hSquare
      have hLast : mulRound? q y y = some ((y.mulTidy y).round q) :=
        hStored (by omega) (by omega) hSquare hSquare
      by_cases hOdd : e % 2 = 1
      · have hSplit := add_mul_of_odd j k hOdd
        have hTaken : mulRound? q x y = some ((x.mulTidy y).round q) :=
          hStored (by omega) (by omega) hResult hSquare
        simp only [if_pos hOdd, hTaken, hLast, Option.bind_eq_bind,
          Option.bind_some]
        exact ih hHalf (by omega) (hMul (by omega) hResult hSquare) hNext
      · have hSplit := add_mul_of_even j k hOdd
        simp only [if_neg hOdd, hLast, Option.bind_eq_bind,
          Option.bind_some]
        exact ih hHalf (by omega) hResult hNext

------------------------------------------------------------
-- Scales of Powers
------------------------------------------------------------

/-
  The scale and the digits of a power take less than half of
  the range, which is enough for the square of it.
-/
def PowerInRange
    (a : Decimal)
    (e : Nat) : Prop :=
  a.scale.natAbs * e + Digits.count (a.digits.natAbs ^ e) < 2 ^ 62

instance
    (a : Decimal)
    (e : Nat) :
    Decidable (a.PowerInRange e) :=
  inferInstanceAs (Decidable (_ < _))

/-
  How far the scale of a power of a decimal can be from the
  multiple of its own: by the zeros that it has dropped.
-/
def Spans
    (a : Decimal)
    (k : Nat)
    (x : Decimal) : Prop :=
  ∃ zeros : Nat,
    10 ^ zeros * max 1 x.digits.natAbs ≤ max 1 a.digits.natAbs ^ k ∧
      x.scale.natAbs ≤ a.scale.natAbs * k + zeros

theorem spans_one (a : Decimal) : a.Spans 0 one :=
  ⟨0, le_refl 1, Nat.zero_le _⟩

theorem spans_self (a : Decimal) : a.Spans 1 a :=
  ⟨0, by rw [pow_zero, one_mul, pow_one], by omega⟩

theorem Spans.normalize (h : a.Spans k x) : a.Spans k x.normalize := by
  rcases h with ⟨zeros, hDigits, hScale⟩
  unfold Decimal.normalize
  by_cases hZero : x.digits = 0
  · rw [if_pos hZero]
    rw [hZero] at hDigits
    exact ⟨zeros, hDigits, Nat.zero_le _⟩
  · rw [if_neg hZero]
    have hStrip := Digits.strip_spec x.count x.digits.natAbs
    generalize Digits.strip x.count x.digits.natAbs = stripped at *
    rcases stripped with ⟨m, dropped⟩
    dsimp only at hStrip ⊢
    have hSome : 1 ≤ m := by
      rcases Nat.eq_zero_or_pos m with hNone | hPos
      · rw [hNone, Nat.zero_mul] at hStrip
        omega
      · exact hPos
    have hMagnitude :
        (if x.digits < 0 then -(m : Int) else m).natAbs = m := by
      split <;> omega
    have hMoved : (x.scale - dropped).natAbs ≤
        a.scale.natAbs * k + (zeros + dropped) := by
      omega
    refine ⟨zeros + dropped, ?_, hMoved⟩
    rw [hMagnitude, Nat.max_eq_right hSome, pow_add, mul_assoc,
      mul_comm (10 ^ dropped), hStrip]
    rwa [Nat.max_eq_right (by omega)] at hDigits

theorem Spans.mulTidy
    (hx : a.Spans j x)
    (hy : a.Spans k y) :
    a.Spans (j + k) (x.mulTidy y) := by
  -- A factor of one leaves the other, whatever power it stands for.
  have hWiden {i l : Nat} {z : Decimal} (hLess : i ≤ l)
      (hz : a.Spans i z) : a.Spans l z := by
    rcases hz with ⟨zeros, hDigits, hScale⟩
    exact ⟨zeros,
      hDigits.trans (Nat.pow_le_pow_right (Nat.le_max_left _ _) hLess),
      hScale.trans (Nat.add_le_add_right
        (Nat.mul_le_mul_left _ hLess) zeros)⟩
  unfold Decimal.mulTidy
  split
  · exact hWiden (Nat.le_add_left k j) hy.normalize
  split
  · exact hWiden (Nat.le_add_right j k) hx.normalize
  rcases hx with ⟨left, hLeft, hLeftScale⟩
  rcases hy with ⟨right, hRight, hRightScale⟩
  refine ⟨left + right, ?_, ?_⟩
  · have hDigits :
        max 1 (x.mul y).digits.natAbs ≤
          max 1 x.digits.natAbs * max 1 y.digits.natAbs := by
      unfold mul
      rw [Int.natAbs_mul]
      exact Nat.max_le.2
        ⟨Nat.mul_pos (Nat.le_max_left _ _) (Nat.le_max_left _ _),
          Nat.mul_le_mul (Nat.le_max_right _ _) (Nat.le_max_right _ _)⟩
    calc 10 ^ (left + right) * max 1 (x.mul y).digits.natAbs
        ≤ 10 ^ (left + right) *
            (max 1 x.digits.natAbs * max 1 y.digits.natAbs) :=
          Nat.mul_le_mul_left _ hDigits
      _ = (10 ^ left * max 1 x.digits.natAbs) *
            (10 ^ right * max 1 y.digits.natAbs) := by ring
      _ ≤ max 1 a.digits.natAbs ^ j * max 1 a.digits.natAbs ^ k :=
          Nat.mul_le_mul hLeft hRight
      _ = max 1 a.digits.natAbs ^ (j + k) := (pow_add _ j k).symm
  · have hSum : (x.mul y).scale.natAbs ≤ x.scale.natAbs + y.scale.natAbs :=
      Int.natAbs_add_le _ _
    rw [Nat.mul_add]
    omega

/- Dropped zeros and digits, rounded off or not, are those of the power. -/
theorem Spans.scale_le
    {n : Nat}
    (h : a.Spans k x)
    (hFits : max 1 a.digits.natAbs ^ k < 10 ^ n) :
    x.scale.natAbs ≤ a.scale.natAbs * k + n ∧
      (x.round q).scale.natAbs ≤ a.scale.natAbs * k + n := by
  rcases h with ⟨zeros, hDigits, hScale⟩
  have hLess : 10 ^ zeros * max 1 x.digits.natAbs < 10 ^ n :=
    hDigits.trans_lt hFits
  have hZeros : zeros < n := by
    have hOnly : 10 ^ zeros < 10 ^ n :=
      (Nat.le_mul_of_pos_right _ (Nat.le_max_left _ _)).trans_lt hLess
    exact (Nat.pow_lt_pow_iff_right (by decide)).1 hOnly
  have hCount : x.count ≤ n - zeros := by
    apply (Digits.count_le_iff (by omega)).2
    rw [show n = zeros + (n - zeros) by omega, pow_add] at hLess
    exact (Nat.le_max_right 1 _).trans_lt
      (Nat.lt_of_mul_lt_mul_left hLess)
  refine ⟨by omega, ?_⟩
  unfold round
  split
  · have hCut : (x.cut q).scale = x.scale - (x.count - q : Nat) := by
      unfold cut
      dsimp only
      split <;> rfl
    omega
  · omega

/- A power of a number that may be zero fits if that of the digits does. -/
theorem max_pow_lt
    {n : Nat}
    (hn : 1 ≤ n)
    (hCount : Digits.count (a.digits.natAbs ^ e) ≤ n)
    (hk : k ≤ e) :
    max 1 a.digits.natAbs ^ k < 10 ^ n := by
  rcases Nat.eq_zero_or_pos a.digits.natAbs with hZero | hPos
  · rw [hZero, Nat.max_eq_left (Nat.zero_le 1), one_pow]
    exact Nat.one_lt_pow (by omega) (by decide)
  · rw [Nat.max_eq_right hPos]
    exact pow_lt_of_count hn hCount hk

/- A product that fits is not rounded, so it spans its power. -/
theorem Spans.mul
    (hq : 1 ≤ q)
    (hCount : Digits.count (a.digits.natAbs ^ e) ≤ q)
    (hMost : j + k ≤ e)
    (hx : a.Spans j x)
    (hy : a.Spans k y) :
    a.Spans (j + k) ((x.mulTidy y).round q) := by
  have hProduct := hx.mulTidy hy
  have hFew : (x.mulTidy y).count ≤ q := by
    rcases hProduct with ⟨zeros, hDigits, -⟩
    apply (Digits.count_le_iff hq).2
    calc (x.mulTidy y).digits.natAbs
        ≤ max 1 (x.mulTidy y).digits.natAbs := Nat.le_max_right _ _
      _ ≤ 10 ^ zeros * max 1 (x.mulTidy y).digits.natAbs :=
          Nat.le_mul_of_pos_left _ (Nat.pow_pos (by decide))
      _ ≤ max 1 a.digits.natAbs ^ (j + k) := hDigits
      _ < 10 ^ q := max_pow_lt hq hCount hMost
  unfold round
  rwa [if_neg (by omega)]

theorem storable_of_le
    {n : Nat}
    (hScale : x.scale.natAbs ≤ n)
    (hLess : n < 2 ^ 63) :
    x.Storable := by
  unfold Storable
  omega

/- Products of two powers can be stored if the whole one is in range. -/
theorem Spans.mulRound?_eq
    (hRange : a.PowerInRange e)
    (hj : j ≤ e)
    (hk : k ≤ e)
    (hx : a.Spans j x)
    (hy : a.Spans k y) :
    mulRound? q x y = some ((x.mulTidy y).round q) := by
  unfold PowerInRange at hRange
  generalize hDigits : Digits.count (a.digits.natAbs ^ e) = n at hRange
  have hn : 1 ≤ n := hDigits ▸ Digits.count_pos _
  have hFits : max 1 a.digits.natAbs ^ (j + k) < 10 ^ (n + n) := by
    rw [pow_add, pow_add]
    exact Nat.mul_lt_mul'' (max_pow_lt hn hDigits.le hj)
      (max_pow_lt hn hDigits.le hk)
  have hScales := (hx.mulTidy hy).scale_le (q := q) hFits
  have hMultiple :
      a.scale.natAbs * (j + k) ≤ a.scale.natAbs * e + a.scale.natAbs * e := by
    rw [← Nat.mul_add]
    exact Nat.mul_le_mul_left _ (Nat.add_le_add hj hk)
  exact Decimal.mulRound?_eq
    (storable_of_le hScales.1 (by omega))
    (storable_of_le hScales.2 (by omega))

/- In range the checked loop ends, with the power. -/
theorem power?_eq
    (hq : 1 ≤ q)
    (hCount : Digits.count (a.digits.natAbs ^ e) ≤ q)
    (hRange : a.PowerInRange e) :
    a.power? e q = some (a.power e q) := by
  unfold power? power
  exact powerFrom?_eq (W := a.Spans) (Spans.mul hq hCount)
    (Spans.mulRound?_eq hRange) Nat.lt_log2_self
    (by omega : 0 + 1 * e ≤ e) a.spans_one fun _ => a.spans_self

/- The last rounding of such a power can be stored too. -/
theorem storable_round_power
    {p : Nat}
    (hq : 1 ≤ q)
    (hCount : Digits.count (a.digits.natAbs ^ e) ≤ q)
    (hRange : a.PowerInRange e) :
    ((a.power e q).round p).Storable := by
  have hSpans : a.Spans e (a.power e q) :=
    power_induct (Spans.mul hq hCount)
      (fun hLess hs => hs.mul hq hCount hLess hs) a.spans_one
      a.spans_self
  have hFits :=
    max_pow_lt (Digits.count_pos (a.digits.natAbs ^ e)) (le_refl _)
      (le_refl e)
  have hScales := hSpans.scale_le (q := p) hFits
  unfold PowerInRange at hRange
  exact storable_of_le hScales.2 (by omega)

/- In range it is the power, rounded. -/
theorem raise?_eq
    {p : Nat}
    (hCount : Digits.count (a.digits.natAbs ^ e) ≤ p + 5)
    (hRange : a.PowerInRange e) :
    a.raise? e p = some ((a.power e (p + 5)).round p) := by
  unfold raise?
  rw [power?_eq (by omega) hCount hRange, Option.bind_eq_bind,
    Option.bind_some]
  exact stored?_eq (storable_round_power (by omega) hCount hRange)

/- A tenth to a power of two squares its way out of the range. -/
example :
    ((⟨1, 1⟩ : Decimal).power? (2 ^ 62) 20).isSome = false ∧
      ((⟨1, 1⟩ : Decimal).power? (2 ^ 61) 20).isSome = true := by
  decide +kernel

end Decimal
end StackScript
