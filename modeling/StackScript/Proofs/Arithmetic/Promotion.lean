import StackScript.Machine.Arithmetic
import StackScript.Proofs.Number.ShortestOrder

/-
  Two numbers in one representation.

  As an integer a number stands for itself, as a decimal for
  what its shortest text denotes. What the conversions give
  is stated here in terms of rational numbers, and when two
  numbers are converted to which.

  Key definitions include:
    * `Value.IsFinite`
    * `Value.NeedsDecimal`
    * `Value.Denotes`
    * `Value.exact`, `Value.shown`

  Key theorems include:
    * `Value.wantsDecimal_iff`
    * `Value.promote_integers`
    * `Value.promote_decimals`
-/

namespace StackScript
namespace Value

------------------------------------------------------------
-- Sorts of Numbers
------------------------------------------------------------

/- A number other than the infinities and the NaN. -/
def IsFinite : Value → Prop
| .number x => x.isFinite = true
| .integer _ => True
| .decimal _ => True
| _ => False

/- A number that no integer can stand for. -/
inductive NeedsDecimal : Value → Prop
| decimal (d : Decimal) :
    NeedsDecimal (.decimal d)
| fraction
    (x : Binary64)
    (hFinite : x.isFinite = true)
    (hFraction : ¬∃ n : Int, x.value = n) :
    NeedsDecimal (.number x)

/-
  A number that stands for an integer; the infinities stand
  for the greatest integers below which all are exact.
-/
inductive Denotes : Value → Int → Prop
| integer (i : Int) :
    Denotes (.integer i) i
| whole
    (x : Binary64)
    (n : Int)
    (hFinite : x.isFinite = true)
    (hValue : x.value = n) :
    Denotes (.number x) n
| positive :
    Denotes (.number (.infinite false)) (2 ^ 53 - 1)
| negative :
    Denotes (.number (.infinite true)) (-(2 ^ 53 - 1))

/- The rational number that a finite number is. -/
def exact : Value → ℚ
| .number x => x.value
| .integer i => i
| .decimal d => d.value
| _ => 0

/- The rational number that its shortest text denotes. -/
def shown : Value → ℚ
| .number x => x.written
| .integer i => i
| .decimal d => d.value
| _ => 0

variable {i j : Int}
variable {l r v : Value}

theorem IsFinite.isNumeric (h : v.IsFinite) : v.isNumeric = true := by
  cases v <;> first | rfl | cases h

theorem Denotes.isNumeric (h : v.Denotes i) : v.isNumeric = true := by
  cases h <;> rfl

/- The test for a decimal is the one for what no integer can stand for. -/
theorem wantsDecimal_iff : v.wantsDecimal = true ↔ v.NeedsDecimal := by
  constructor
  · intro hWants
    cases v with
    | decimal d => exact .decimal d
    | number x =>
        have hTest : x.isFinite = true ∧ x.isIntegral = false := by
          simpa [wantsDecimal] using hWants
        refine .fraction x hTest.1 ?_
        rw [← Binary64.isIntegral_iff hTest.1, hTest.2]
        exact Bool.false_ne_true
    | _ => cases hWants
  · intro hNeeds
    cases hNeeds with
    | decimal d => rfl
    | fraction x hFinite hFraction =>
        rw [← Binary64.isIntegral_iff hFinite, Bool.not_eq_true] at hFraction
        simp only [wantsDecimal, hFinite, hFraction, Bool.not_false,
          Bool.and_self]

/- A finite number is shown as zero only if it is. -/
theorem shown_eq_zero_iff (hFinite : v.IsFinite) :
    v.shown = 0 ↔ v.exact = 0 := by
  cases v with
  | number x => exact Binary64.written_eq_zero_iff hFinite
  | integer i => rfl
  | decimal d => rfl
  | _ => cases hFinite

/- The test for zero is the one for the number. -/
theorem isZero_iff (hFinite : v.IsFinite) :
    v.isZero = true ↔ v.exact = 0 := by
  cases v with
  | number x => exact Binary64.isZero_iff hFinite
  | integer i =>
      unfold exact
      rw [Int.cast_eq_zero]
      exact beq_iff_eq
  | decimal d => exact Decimal.isZero_iff
  | _ => cases hFinite

/- What stands for an integer is zero if the integer is. -/
theorem Denotes.isZero_iff (h : v.Denotes i) :
    v.isZero = true ↔ i = 0 := by
  cases h with
  | integer => exact beq_iff_eq
  | whole x _ hFinite hValue =>
      have hZero : x.isZero = true ↔ x.value = 0 :=
        Binary64.isZero_iff hFinite
      rw [hValue, Int.cast_eq_zero] at hZero
      exact hZero
  | positive => decide
  | negative => decide

/- A finite number that needs no decimal stands for an integer. -/
theorem exists_denotes
    (hFinite : v.IsFinite)
    (hWhole : ¬v.NeedsDecimal) :
    ∃ i : Int, v.Denotes i ∧ v.exact = i := by
  cases v with
  | number x =>
      by_cases hValue : ∃ n : Int, x.value = n
      · rcases hValue with ⟨n, hValue⟩
        exact ⟨n, .whole x n hFinite hValue, hValue⟩
      · exact (hWhole (.fraction x hFinite hValue)).elim
  | integer i => exact ⟨i, .integer i, rfl⟩
  | decimal d => exact (hWhole (.decimal d)).elim
  | _ => cases hFinite

/- A value stands for one integer at most. -/
theorem Denotes.unique
    (hi : v.Denotes i)
    (hj : v.Denotes j) :
    i = j := by
  cases hi with
  | integer => cases hj; rfl
  | whole x _ hFinite hValue =>
      cases hj with
      | whole _ _ _ hSame => exact_mod_cast hValue.symm.trans hSame
      | positive => cases hFinite
      | negative => cases hFinite
  | positive =>
      cases hj with
      | whole _ _ hFinite => cases hFinite
      | positive => rfl
  | negative =>
      cases hj with
      | whole _ _ hFinite => cases hFinite
      | negative => rfl

/- What stands for an integer needs no decimal. -/
theorem Denotes.not_needsDecimal (h : v.Denotes i) : ¬v.NeedsDecimal := by
  rintro (_ | ⟨x, hFinite, hFraction⟩)
  · cases h
  · cases h with
    | whole _ _ _ hValue => exact hFraction ⟨i, hValue⟩
    | positive => cases hFinite
    | negative => cases hFinite

------------------------------------------------------------
-- Conversions
------------------------------------------------------------

/- What stands for an integer is converted to it. -/
theorem Denotes.asInteger (h : v.Denotes i) : v.asInteger = .ok i := by
  cases h with
  | whole x _ hFinite hValue =>
      cases x with
      | nan => cases hFinite
      | infinite => cases hFinite
      | finite s m e h =>
          have hTruncate := Binary64.truncate?_of_value hFinite hValue
          simp only [Value.asInteger, hTruncate]
  | integer => rfl
  | positive => rfl
  | negative => rfl

/- Finite numbers are converted to what they are shown as. -/
theorem exists_asDecimal (hFinite : v.IsFinite) :
    ∃ d : Decimal, v.asDecimal = .ok d ∧ d.value = v.shown := by
  cases v with
  | number x =>
      cases x with
      | nan => cases hFinite
      | infinite => cases hFinite
      | finite s m e h => exact ⟨_, rfl, rfl⟩
  | integer i => exact ⟨.ofInt i, rfl, Decimal.value_ofInt i⟩
  | decimal d => exact ⟨d, rfl, rfl⟩
  | _ => cases hFinite

------------------------------------------------------------
-- Pairs
------------------------------------------------------------

theorem promote_of_not_isNumeric
    (h : ¬(l.isNumeric = true ∧ r.isNumeric = true)) :
    promote l r = .ok none := by
  unfold promote
  rw [if_pos]
  rw [Bool.not_eq_true', ← Bool.not_eq_true, Bool.and_eq_true]
  exact h

theorem promote_of_needsDecimal
    (hNumeric : l.isNumeric = true ∧ r.isNumeric = true)
    (hNeeds : l.NeedsDecimal ∨ r.NeedsDecimal) :
    promote l r = do
      let a ← l.asDecimal
      let b ← r.asDecimal
      return some (.decimals a b) := by
  have hWants : (l.wantsDecimal || r.wantsDecimal) = true := by
    rw [Bool.or_eq_true, wantsDecimal_iff, wantsDecimal_iff]
    exact hNeeds
  unfold promote
  rw [hNumeric.1, hNumeric.2, hWants, if_neg (by decide), if_pos rfl]

theorem promote_of_not_needsDecimal
    (hNumeric : l.isNumeric = true ∧ r.isNumeric = true)
    (hWhole : ¬(l.NeedsDecimal ∨ r.NeedsDecimal)) :
    promote l r = do
      let a ← l.asInteger
      let b ← r.asInteger
      return some (.integers a b) := by
  have hWants : (l.wantsDecimal || r.wantsDecimal) = false := by
    rw [← Bool.not_eq_true, Bool.or_eq_true, wantsDecimal_iff,
      wantsDecimal_iff]
    exact hWhole
  unfold promote
  rw [hNumeric.1, hNumeric.2, hWants, if_neg (by decide),
    if_neg Bool.false_ne_true]

theorem promote_integers
    (hl : l.Denotes i)
    (hr : r.Denotes j) :
    promote l r = .ok (some (.integers i j)) := by
  have hWhole : ¬(l.NeedsDecimal ∨ r.NeedsDecimal) := by
    rintro (hNeeds | hNeeds)
    · exact hl.not_needsDecimal hNeeds
    · exact hr.not_needsDecimal hNeeds
  rw [promote_of_not_needsDecimal ⟨hl.isNumeric, hr.isNumeric⟩ hWhole,
    hl.asInteger, hr.asInteger]
  rfl

theorem promote_decimals
    (hl : l.IsFinite)
    (hr : r.IsFinite)
    (hNeeds : l.NeedsDecimal ∨ r.NeedsDecimal) :
    ∃ a b : Decimal,
      promote l r = .ok (some (.decimals a b)) ∧
        a.value = l.shown ∧
        b.value = r.shown := by
  rcases exists_asDecimal hl with ⟨a, hLeft, ha⟩
  rcases exists_asDecimal hr with ⟨b, hRight, hb⟩
  refine ⟨a, b, ?_, ha, hb⟩
  rw [promote_of_needsDecimal ⟨hl.isNumeric, hr.isNumeric⟩ hNeeds, hLeft,
    hRight]
  rfl

end Value
end StackScript
