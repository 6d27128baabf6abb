import StackScript.Machine.Arithmetic
import StackScript.Proofs.Number.Quotient

/-
  How near the results of decimal arithmetic are.

  Sums, differences and products are exact before they are
  kept to the precision. A quotient has gone to the nearest
  of a hundred digits or more by then, so that it is rounded
  twice, and a precision beyond those digits adds none.
  Results below zero are cut.

  Key definitions include:
    * `Value.exactOp?`

  Key theorems include:
    * `Value.arithmetic_decimals`
    * `Value.arithmetic_decimals_near`
-/

namespace StackScript
namespace Value

open Significant

/- What an operation means for rational numbers. -/
def exactOp? : Op → Option (ℚ → ℚ → ℚ)
| .add => some (· + ·)
| .sub => some (· - ·)
| .mul => some (· * ·)
| .div => some (· / ·)
| _ => none

variable {op : Op}
variable {a b : Decimal}
variable {p : Nat}

/- Two decimals are kept as they are and the result is rounded. -/
theorem arithmetic_decimals
    {f : Decimal → Decimal → Decimal}
    (hOp : decimalOp? op = some f)
    (hDivisor : divides op = true → b.isZero = false) :
    arithmetic op (.decimal a) (.decimal b) p =
      .ok (.decimal ((f a b).round p)) := by
  have hZero : (divides op && b.isZero) = false := by
    cases hDivides : divides op with
    | false => rfl
    | true => exact hDivisor hDivides
  have hText :
      ¬(op = .add ∧ (isText (.decimal a) || isText (.decimal b)) = true) := by
    rintro ⟨_, hText⟩
    cases hText
  unfold arithmetic
  rw [if_neg hText]
  simp only [promote, isNumeric, wantsDecimal, asDecimal, toDecimal?,
    Bool.and_self, Bool.not_true, Bool.or_self, Bool.false_eq_true,
    if_false, if_true, bind, Except.bind, pure, Except.pure, hZero, hOp]

/- Of the operations with such a meaning one divides. -/
theorem eq_div_of_divides
    {f : ℚ → ℚ → ℚ}
    (hOp : exactOp? op = some f)
    (hDivides : divides op = true) :
    op = .div := by
  cases op with
  | div => rfl
  | mod => cases hOp
  | _ => cases hDivides

/- A result before it is rounded. -/
theorem exists_decimalOp
    {f : ℚ → ℚ → ℚ}
    (hOp : exactOp? op = some f)
    (hDivisor : op = .div → b.value ≠ 0) :
    ∃ g n,
      decimalOp? op = some g ∧
        100 ≤ n ∧
        ((g a b).value = f a.value b.value ∨
          op = .div ∧ (g a b).value = nearest n (f a.value b.value)) := by
  cases op with
  | add =>
      cases hOp
      exact ⟨.add, 100, rfl, le_rfl, .inl (Decimal.value_add a b)⟩
  | sub =>
      cases hOp
      exact ⟨.sub, 100, rfl, le_rfl, .inl (Decimal.value_sub a b)⟩
  | mul =>
      cases hOp
      exact ⟨.mul, 100, rfl, le_rfl, .inl (Decimal.value_mul a b)⟩
  | div =>
      cases hOp
      rcases Decimal.value_div a (hDivisor rfl) with ⟨n, hn, hValue⟩
      exact ⟨.div, n, rfl, hn, .inr ⟨rfl, hValue⟩⟩
  | _ => cases hOp

/-
  The result of an operation on decimals. Where it is not a
  quotient of more than a hundred digits, it is the exact
  one, rounded: half a unit in the last digit away at most
  from zero on, and cut below zero. Any other quotient is
  off by half a unit in its hundredth digit more.
-/
theorem arithmetic_decimals_near
    {f : ℚ → ℚ → ℚ}
    (hOp : exactOp? op = some f)
    (hDivisor : op = .div → b.value ≠ 0)
    (hp : 1 ≤ p) :
    ∃ d : Decimal,
      arithmetic op (.decimal a) (.decimal b) p = .ok (.decimal d) ∧
        (op ≠ .div ∨ Fits 100 (f a.value b.value) →
          d.value = rounded p (f a.value b.value) ∧
            Near p 0 (f a.value b.value) d.value) ∧
        Near p (unit 100 (f a.value b.value) / 2)
          (f a.value b.value) d.value := by
  rcases exists_decimalOp (a := a) hOp hDivisor with
    ⟨g, n, hDecimal, hn, hValue⟩
  have hZero : divides op = true → b.isZero = false := by
    intro hDivides
    rw [← Bool.not_eq_true, Decimal.isZero_iff]
    exact hDivisor (eq_div_of_divides hOp hDivides)
  refine ⟨(g a b).round p, arithmetic_decimals hDecimal hZero, ?_⟩
  rw [Decimal.value_round _ hp]
  generalize f a.value b.value = x at *
  have hSlack : (0 : ℚ) ≤ unit 100 x / 2 := by
    have hUnit := unit_pos 100 x
    linarith
  rcases hValue with hExact | ⟨hDiv, hNearest⟩
  · rw [hExact]
    exact ⟨fun _ => ⟨rfl, near_rounded p x⟩, (near_rounded p x).mono hSlack⟩
  · rw [hNearest]
    refine ⟨fun hFits => ?_, ?_⟩
    · have hSame : nearest n x = x :=
        nearest_of_fits ((hFits.resolve_left (not_not.2 hDiv)).mono hn)
      rw [hSame]
      exact ⟨rfl, near_rounded p x⟩
    · have hUnit := unit_anti x hn
      exact (near_rounded_nearest hp (by omega) x).mono (by linarith)

/-
  Minus two thirds with five digits: the digits that follow
  are more than half a unit, and are cut.
-/
theorem arithmetic_decimals_near_thirds :
    exactOp? .div = some (· / ·) ∧
      (⟨-30, 1⟩ : Decimal).value ≠ 0 ∧
      1 ≤ 5 ∧
      arithmetic .div (.decimal ⟨20, 1⟩) (.decimal ⟨-30, 1⟩) 5 =
        .ok (.decimal ⟨-66666, 5⟩) ∧
      Near 5 (unit 100 (-2 / 3) / 2) (-2 / 3)
        (⟨-66666, 5⟩ : Decimal).value := by
  have hDivisor : (⟨-30, 1⟩ : Decimal).value ≠ 0 := by
    norm_num [Decimal.value]
  have hExact :
      (⟨20, 1⟩ : Decimal).value / (⟨-30, 1⟩ : Decimal).value = -2 / 3 := by
    norm_num [Decimal.value]
  have hRound :
      ((⟨20, 1⟩ : Decimal).div ⟨-30, 1⟩).round 5 = ⟨-66666, 5⟩ := by
    decide +kernel
  have hRun :
      arithmetic .div (.decimal ⟨20, 1⟩) (.decimal ⟨-30, 1⟩) 5 =
        .ok (.decimal ⟨-66666, 5⟩) := by
    rw [arithmetic_decimals rfl fun _ => rfl, hRound]
  have hOp : exactOp? .div = some (· / ·) := rfl
  rcases arithmetic_decimals_near (a := ⟨20, 1⟩) (b := ⟨-30, 1⟩) (p := 5)
    hOp (fun _ => hDivisor) (by decide) with ⟨d, hResult, _, hNear⟩
  rw [hRun] at hResult
  cases hResult
  rw [hExact] at hNear
  exact ⟨hOp, hDivisor, by decide, hRun, hNear⟩

end Value
end StackScript
