import StackScript.Proofs.Arithmetic.Promotion

/-
  What arithmetic comes to.

  Text is joined; then the sorts of the operands, their range
  and a zero divisor are looked at, in this order. What is
  left has a result: a decimal if an operand needs one, and
  the exact integer otherwise.

  Key definitions include:
    * `Value.Joins`
    * `Value.Clashes`
    * `Value.exactInteger?`
    * `Value.Outcome`
    * `Value.Settled`

  Key theorems include:
    * `Value.outcome_arithmetic`
    * `Value.arithmetic_settled`
-/

namespace StackScript
namespace Value

------------------------------------------------------------
-- Cases
------------------------------------------------------------

/- The operations of arithmetic. -/
def arithmeticOps : List Op :=
  [.add, .sub, .mul, .div, .mod]

/- The operation joins the operands as texts. -/
def Joins
    (op : Op)
    (l r : Value) : Prop :=
  op = .add ∧ ((∃ s, l = .text s) ∨ ∃ s, r = .text s)

/- Both operands are numbers of some sort. -/
def BothNumeric (l r : Value) : Prop :=
  l.isNumeric = true ∧ r.isNumeric = true

/- One of the infinities. -/
def IsInfinite (v : Value) : Prop :=
  ∃ s, v = .number (.infinite s)

/- No representation has both numbers. -/
def Clashes (l r : Value) : Prop :=
  l = .number .nan ∨
    r = .number .nan ∨
    (l.IsInfinite ∧ r.NeedsDecimal) ∨
    (r.IsInfinite ∧ l.NeedsDecimal)

/- The operation is a division by zero. -/
def DividesByZero
    (op : Op)
    (r : Value) : Prop :=
  (op = .div ∨ op = .mod) ∧ r.isZero = true

/- The integer next to a rational number toward zero. -/
def towardZero (q : ℚ) : Int :=
  if 0 ≤ q then ⌊q⌋ else ⌈q⌉

/- What an operation means for integers. -/
def exactInteger? : Op → Option (Int → Int → Int)
| .add => some (· + ·)
| .sub => some (· - ·)
| .mul => some (· * ·)
| .div => some fun i j => towardZero (i / j)
| .mod => some fun i j => i - towardZero (i / j) * j
| _ => none

/- What an operation on two values comes to. -/
inductive Outcome
    (op : Op)
    (l r : Value) : Except EvalError Value → Prop where
| joined
    (hJoins : Joins op l r) :
    Outcome op l r (.ok (.text (l.display ++ r.display)))
| mismatch
    (hJoins : ¬Joins op l r)
    (hNumeric : ¬BothNumeric l r) :
    Outcome op l r (.error (.typeMismatch op l.kind r.kind))
| notFinite
    (v : Value)
    (hNumeric : BothNumeric l r)
    (hClashes : Clashes l r)
    (hOperand : v = l ∨ v = r)
    (hInfinite : ¬v.IsFinite) :
    Outcome op l r (.error (.notFinite v))
| divisionByZero
    (hNumeric : BothNumeric l r)
    (hClashes : ¬Clashes l r)
    (hZero : DividesByZero op r) :
    Outcome op l r (.error (.divisionByZero l r))
| decimal
    (d : Decimal)
    (hNumeric : BothNumeric l r)
    (hClashes : ¬Clashes l r)
    (hZero : ¬DividesByZero op r)
    (hNeeds : l.NeedsDecimal ∨ r.NeedsDecimal) :
    Outcome op l r (.ok (.decimal d))
| integer
    (i j : Int)
    (f : Int → Int → Int)
    (hClashes : ¬Clashes l r)
    (hZero : ¬DividesByZero op r)
    (hLeft : l.Denotes i)
    (hRight : r.Denotes j)
    (hOp : exactInteger? op = some f) :
    Outcome op l r (.ok (.integer (f i j)))

variable {op : Op}
variable {l r v : Value}
variable {i j : Int}

------------------------------------------------------------
-- Integer Division
------------------------------------------------------------

/- The remainder is less than the divisor, on the dividend's side. -/
theorem tmod_bounds
    (i : Int)
    (hj : j ≠ 0) :
    |i.tmod j| < |j| ∧ 0 ≤ i.tmod j * i := by
  constructor
  · rw [Int.abs_eq_natAbs, Int.abs_eq_natAbs, Int.natAbs_tmod]
    exact_mod_cast Nat.mod_lt _ (Int.natAbs_pos.2 hj)
  · rcases le_total 0 i with hi | hi
    · exact mul_nonneg (Int.tmod_nonneg j hi) hi
    · have hNeg := Int.tmod_nonneg j (neg_nonneg.2 hi)
      rw [Int.neg_tmod] at hNeg
      exact mul_nonneg_of_nonpos_of_nonpos (neg_nonneg.1 hNeg) hi

/- The quotient of the division with that remainder is truncated. -/
theorem towardZero_div
    (i : Int)
    (hj : j ≠ 0) :
    towardZero ((i : ℚ) / j) = i.tdiv j := by
  have hj' : (j : ℚ) ≠ 0 := by exact_mod_cast hj
  have hSplit : (i : ℚ) / j = i.tdiv j + (i.tmod j : ℚ) / j := by
    rw [← mul_div_cancel_right₀ (i.tdiv j : ℚ) hj', ← add_div]
    congr 1
    exact_mod_cast (Int.tdiv_mul_add_tmod i j).symm
  rcases tmod_bounds i hj with ⟨hSmall, hSide⟩
  have hLess : |(i.tmod j : ℚ) / j| < 1 := by
    rw [abs_div, div_lt_one (abs_pos.2 hj')]
    exact_mod_cast hSmall
  have hSame : 0 ≤ (i.tmod j : ℚ) / j * (i / j) := by
    rw [div_mul_div_comm]
    exact div_nonneg (by exact_mod_cast hSide) (mul_self_nonneg _)
  rw [abs_lt] at hLess
  unfold towardZero
  rcases lt_trichotomy ((i : ℚ) / j) 0 with hNeg | hZero | hPos
  · have hRest := nonpos_of_mul_nonneg_left hSame hNeg
    rw [if_neg (not_le.2 hNeg), Int.ceil_eq_iff]
    constructor <;> linarith
  · have hi : i = 0 := by
      have hi' := (div_eq_zero_iff.1 hZero).resolve_right hj'
      exact_mod_cast hi'
    rw [hi]
    simp
  · have hRest := nonneg_of_mul_nonneg_left hSame hPos
    rw [if_pos hPos.le, Int.floor_eq_iff]
    constructor <;> linarith

/- Without a zero divisor an operation gives the exact result. -/
theorem exists_integerOp
    (hOp : op ∈ arithmeticOps)
    (i : Int)
    (hDivisor : divides op = true → j ≠ 0) :
    ∃ f g,
      exactInteger? op = some f ∧ integerOp? op = some g ∧ g i j = f i j := by
  cases op with
  | add => exact ⟨_, _, rfl, rfl, rfl⟩
  | sub => exact ⟨_, _, rfl, rfl, rfl⟩
  | mul => exact ⟨_, _, rfl, rfl, rfl⟩
  | div => exact ⟨_, _, rfl, rfl, (towardZero_div i (hDivisor rfl)).symm⟩
  | mod =>
      refine ⟨_, _, rfl, rfl, ?_⟩
      have hSplit := Int.tdiv_mul_add_tmod i j
      rw [towardZero_div i (hDivisor rfl)]
      omega
  | _ => exact absurd hOp (by decide)

------------------------------------------------------------
-- Failing Promotion
------------------------------------------------------------

theorem numeric_cases (h : v.isNumeric = true) :
    v.IsFinite ∨ v.IsInfinite ∨ v = .number .nan := by
  cases v with
  | number x =>
      cases x with
      | nan => exact .inr (.inr rfl)
      | infinite s => exact .inr (.inl ⟨s, rfl⟩)
      | finite => exact .inl rfl
  | integer i => exact .inl trivial
  | decimal d => exact .inl trivial
  | _ => cases h

theorem not_isFinite_nan : ¬(Value.number .nan).IsFinite :=
  Bool.false_ne_true

theorem IsInfinite.not_isFinite (h : v.IsInfinite) : ¬v.IsFinite := by
  rcases h with ⟨s, rfl⟩
  exact Bool.false_ne_true

theorem NeedsDecimal.isFinite (h : v.NeedsDecimal) : v.IsFinite := by
  cases h with
  | decimal => trivial
  | fraction _ hFinite => exact hFinite

/- No other number becomes a decimal. -/
theorem asDecimal_of_not_isFinite
    (hNumeric : v.isNumeric = true)
    (hInfinite : ¬v.IsFinite) :
    v.asDecimal = .error (.notFinite v) := by
  rcases numeric_cases hNumeric with hFinite | ⟨s, rfl⟩ | rfl
  · exact (hInfinite hFinite).elim
  · rfl
  · rfl

/- A number that needs no decimal stands for an integer, but for the NaN. -/
theorem exists_denotes_of_ne_nan
    (hNumeric : v.isNumeric = true)
    (hNaN : v ≠ .number .nan)
    (hWhole : ¬v.NeedsDecimal) :
    ∃ i, v.Denotes i := by
  rcases numeric_cases hNumeric with hFinite | ⟨s, rfl⟩ | hSame
  · rcases exists_denotes hFinite hWhole with ⟨i, hDenotes, -⟩
    exact ⟨i, hDenotes⟩
  · cases s with
    | false => exact ⟨_, .positive⟩
    | true => exact ⟨_, .negative⟩
  · exact (hNaN hSame).elim

/- Where one operand needs a decimal, a clash is about the range. -/
theorem clashes_iff_of_needsDecimal
    (hNumeric : BothNumeric l r)
    (hNeeds : l.NeedsDecimal ∨ r.NeedsDecimal) :
    Clashes l r ↔ ¬(l.IsFinite ∧ r.IsFinite) := by
  constructor
  · rintro (rfl | rfl | ⟨hInfinite, -⟩ | ⟨hInfinite, -⟩) ⟨hl, hr⟩
    · exact not_isFinite_nan hl
    · exact not_isFinite_nan hr
    · exact hInfinite.not_isFinite hl
    · exact hInfinite.not_isFinite hr
  · intro hInfinite
    rcases numeric_cases hNumeric.1 with hl | hl | hl
    · rcases numeric_cases hNumeric.2 with hr | hr | hr
      · exact (hInfinite ⟨hl, hr⟩).elim
      · have hLeft : l.NeedsDecimal :=
          hNeeds.resolve_right fun hRight => hr.not_isFinite hRight.isFinite
        exact .inr (.inr (.inr ⟨hr, hLeft⟩))
      · exact .inr (.inl hr)
    · have hRight : r.NeedsDecimal :=
        hNeeds.resolve_left fun hLeft => hl.not_isFinite hLeft.isFinite
      exact .inr (.inr (.inl ⟨hl, hRight⟩))
    · exact .inl hl

/- Otherwise it is about the NaN. -/
theorem clashes_iff_of_not_needsDecimal
    (hWhole : ¬(l.NeedsDecimal ∨ r.NeedsDecimal)) :
    Clashes l r ↔ l = .number .nan ∨ r = .number .nan := by
  constructor
  · rintro (hl | hr | ⟨-, hNeeds⟩ | ⟨-, hNeeds⟩)
    · exact .inl hl
    · exact .inr hr
    · exact (hWhole (.inr hNeeds)).elim
    · exact (hWhole (.inl hNeeds)).elim
  · rintro (hl | hr)
    · exact .inl hl
    · exact .inr (.inl hr)

/- Operands that clash fail with one that is to blame. -/
theorem exists_promote_error
    (hNumeric : BothNumeric l r)
    (hClashes : Clashes l r) :
    ∃ v,
      promote l r = .error (.notFinite v) ∧
        (v = l ∨ v = r) ∧
        ¬v.IsFinite := by
  by_cases hNeeds : l.NeedsDecimal ∨ r.NeedsDecimal
  · rw [promote_of_needsDecimal hNumeric hNeeds]
    by_cases hl : l.IsFinite
    · have hr : ¬r.IsFinite := fun hr =>
        (clashes_iff_of_needsDecimal hNumeric hNeeds).1 hClashes ⟨hl, hr⟩
      rcases exists_asDecimal hl with ⟨a, ha, -⟩
      refine ⟨r, ?_, .inr rfl, hr⟩
      rw [ha, asDecimal_of_not_isFinite hNumeric.2 hr]
      rfl
    · refine ⟨l, ?_, .inl rfl, hl⟩
      rw [asDecimal_of_not_isFinite hNumeric.1 hl]
      rfl
  · rw [promote_of_not_needsDecimal hNumeric hNeeds]
    rw [clashes_iff_of_not_needsDecimal hNeeds] at hClashes
    by_cases hl : l = .number .nan
    · subst hl
      exact ⟨_, rfl, .inl rfl, not_isFinite_nan⟩
    · have hr := hClashes.resolve_left hl
      have hWhole : ¬l.NeedsDecimal := fun hLeft => hNeeds (.inl hLeft)
      rcases exists_denotes_of_ne_nan hNumeric.1 hl hWhole with ⟨i, hi⟩
      subst hr
      refine ⟨_, ?_, .inr rfl, not_isFinite_nan⟩
      rw [hi.asInteger]
      rfl

------------------------------------------------------------
-- Outcomes
------------------------------------------------------------

theorem divides_iff : divides op = true ↔ op = .div ∨ op = .mod := by
  cases op <;> decide

/- Text on either side of `ADD` is the case that is asked for first. -/
theorem joins_iff :
    Joins op l r ↔ op = .add ∧ (l.isText || r.isText) = true := by
  have hText (v : Value) : v.isText = true ↔ ∃ s, v = .text s := by
    cases v <;> simp [isText]
  unfold Joins
  rw [Bool.or_eq_true, hText, hText]

theorem exists_decimalOp_of_mem (hOp : op ∈ arithmeticOps) :
    ∃ f, decimalOp? op = some f := by
  cases op with
  | add => exact ⟨_, rfl⟩
  | sub => exact ⟨_, rfl⟩
  | mul => exact ⟨_, rfl⟩
  | div => exact ⟨_, rfl⟩
  | mod => exact ⟨_, rfl⟩
  | _ => exact absurd hOp (by decide)

/- Without a clash, operands that become decimals are finite. -/
theorem isFinite_of_not_clashes
    (hNumeric : BothNumeric l r)
    (hClashes : ¬Clashes l r)
    (hNeeds : l.NeedsDecimal ∨ r.NeedsDecimal) :
    l.IsFinite ∧ r.IsFinite := by
  rw [clashes_iff_of_needsDecimal hNumeric hNeeds] at hClashes
  exact not_not.1 hClashes

/- All others stand for integers. -/
theorem exists_denotes_of_not_clashes
    (hNumeric : BothNumeric l r)
    (hClashes : ¬Clashes l r)
    (hWhole : ¬(l.NeedsDecimal ∨ r.NeedsDecimal)) :
    ∃ i j, l.Denotes i ∧ r.Denotes j := by
  rw [clashes_iff_of_not_needsDecimal hWhole] at hClashes
  rw [not_or] at hClashes hWhole
  rcases exists_denotes_of_ne_nan hNumeric.1 hClashes.1 hWhole.1 with ⟨i, hi⟩
  rcases exists_denotes_of_ne_nan hNumeric.2 hClashes.2 hWhole.2 with ⟨j, hj⟩
  exact ⟨i, j, hi, hj⟩

/- As a decimal a divisor is zero exactly if it was before. -/
theorem dividesByZero_decimal
    {d : Decimal}
    (hFinite : r.IsFinite)
    (hValue : d.value = r.shown) :
    (divides op && d.isZero) = true ↔ DividesByZero op r := by
  rw [Bool.and_eq_true, divides_iff, Decimal.isZero_iff, hValue,
    shown_eq_zero_iff hFinite, ← isZero_iff hFinite]
  rfl

/- As an integer it is, too. -/
theorem dividesByZero_integer (hr : r.Denotes j) :
    (divides op && j == 0) = true ↔ DividesByZero op r := by
  rw [Bool.and_eq_true, divides_iff, beq_iff_eq, ← hr.isZero_iff]
  rfl

/- Every operation on two values has one of the outcomes. -/
theorem outcome_arithmetic
    (hOp : op ∈ arithmeticOps)
    (l r : Value)
    (p : Nat) :
    Outcome op l r (arithmetic op l r p) := by
  unfold arithmetic
  by_cases hJoins : Joins op l r
  · rw [if_pos (joins_iff.1 hJoins)]
    exact .joined hJoins
  rw [if_neg fun h => hJoins (joins_iff.2 h)]
  by_cases hNumeric : BothNumeric l r
  swap
  · rw [promote_of_not_isNumeric hNumeric]
    exact .mismatch hJoins hNumeric
  by_cases hClashes : Clashes l r
  · rcases exists_promote_error hNumeric hClashes with
      ⟨v, hPromote, hOperand, hInfinite⟩
    rw [hPromote]
    exact .notFinite v hNumeric hClashes hOperand hInfinite
  by_cases hNeeds : l.NeedsDecimal ∨ r.NeedsDecimal
  · rcases isFinite_of_not_clashes hNumeric hClashes hNeeds with ⟨hl, hr⟩
    rcases promote_decimals hl hr hNeeds with ⟨a, b, hPromote, -, hb⟩
    rcases exists_decimalOp_of_mem hOp with ⟨f, hf⟩
    have hTest : (divides op && b.isZero) = true ↔ DividesByZero op r :=
      dividesByZero_decimal hr hb
    rw [hPromote]
    simp only [bind, Except.bind, hf]
    by_cases hZero : DividesByZero op r
    · rw [if_pos (hTest.2 hZero)]
      exact .divisionByZero hNumeric hClashes hZero
    · rw [if_neg (hTest.not.2 hZero)]
      exact .decimal _ hNumeric hClashes hZero hNeeds
  · rcases exists_denotes_of_not_clashes hNumeric hClashes hNeeds with
      ⟨i, j, hi, hj⟩
    have hTest : (divides op && j == 0) = true ↔ DividesByZero op r :=
      dividesByZero_integer hj
    rw [promote_integers hi hj]
    simp only [bind, Except.bind]
    by_cases hZero : DividesByZero op r
    · rw [if_pos (hTest.2 hZero)]
      exact .divisionByZero hNumeric hClashes hZero
    · have hDivisor : divides op = true → j ≠ 0 := by
        rintro hDivides rfl
        exact hZero (hTest.1 (by rw [hDivides]; rfl))
      rcases exists_integerOp hOp i hDivisor with ⟨f, g, hf, hg, hSame⟩
      rw [if_neg (hTest.not.2 hZero)]
      simp only [hg]
      rw [hSame]
      exact .integer i j f hClashes hZero hi hj hf

------------------------------------------------------------
-- When Outcomes Arise
------------------------------------------------------------

theorem Joins.not_bothNumeric (h : Joins op l r) : ¬BothNumeric l r := by
  rintro ⟨hl, hr⟩
  rcases h with ⟨-, ⟨s, rfl⟩ | ⟨s, rfl⟩⟩
  · cases hl
  · cases hr

namespace Outcome

variable {result : Except EvalError Value}

/- Joining texts is the only way to text, and goes before all else. -/
theorem eq_joined
    (h : Outcome op l r result)
    (hJoins : Joins op l r) :
    result = .ok (.text (l.display ++ r.display)) := by
  have hNumeric := hJoins.not_bothNumeric
  cases h with
  | joined => rfl
  | mismatch hNone => exact (hNone hJoins).elim
  | notFinite _ h => exact (hNumeric h).elim
  | divisionByZero h => exact (hNumeric h).elim
  | decimal _ h => exact (hNumeric h).elim
  | integer _ _ _ _ _ hLeft hRight =>
      exact (hNumeric ⟨hLeft.isNumeric, hRight.isNumeric⟩).elim

theorem text_iff (h : Outcome op l r result) :
    (∃ s, result = .ok (.text s)) ↔ Joins op l r := by
  constructor
  · rintro ⟨s, hResult⟩
    cases h with
    | joined hJoins => exact hJoins
    | _ => cases hResult
  · intro hJoins
    exact ⟨_, h.eq_joined hJoins⟩

theorem typeMismatch_iff
    (h : Outcome op l r result)
    (hJoins : ¬Joins op l r) :
    (∃ o k m, result = .error (.typeMismatch o k m)) ↔
      ¬BothNumeric l r := by
  constructor
  · rintro ⟨o, k, m, hResult⟩
    cases h with
    | mismatch _ hNumeric => exact hNumeric
    | _ => cases hResult
  · intro hNumeric
    cases h with
    | mismatch => exact ⟨_, _, _, rfl⟩
    | joined h => exact (hJoins h).elim
    | notFinite _ h => exact (hNumeric h).elim
    | divisionByZero h => exact (hNumeric h).elim
    | decimal _ h => exact (hNumeric h).elim
    | integer _ _ _ _ _ hLeft hRight =>
        exact (hNumeric ⟨hLeft.isNumeric, hRight.isNumeric⟩).elim

theorem notFinite_iff
    (h : Outcome op l r result)
    (hNumeric : BothNumeric l r) :
    (∃ v, result = .error (.notFinite v)) ↔ Clashes l r := by
  constructor
  · rintro ⟨v, hResult⟩
    cases h with
    | notFinite _ _ hClashes => exact hClashes
    | _ => cases hResult
  · intro hClashes
    cases h with
    | notFinite v => exact ⟨v, rfl⟩
    | joined h => exact (h.not_bothNumeric hNumeric).elim
    | mismatch _ h => exact (h hNumeric).elim
    | divisionByZero _ h => exact (h hClashes).elim
    | decimal _ _ h => exact (h hClashes).elim
    | integer _ _ _ h => exact (h hClashes).elim

theorem divisionByZero_iff
    (h : Outcome op l r result)
    (hNumeric : BothNumeric l r)
    (hClashes : ¬Clashes l r) :
    (∃ a b, result = .error (.divisionByZero a b)) ↔
      DividesByZero op r := by
  constructor
  · rintro ⟨a, b, hResult⟩
    cases h with
    | divisionByZero _ _ hZero => exact hZero
    | _ => cases hResult
  · intro hZero
    cases h with
    | divisionByZero => exact ⟨l, r, rfl⟩
    | joined h => exact (h.not_bothNumeric hNumeric).elim
    | mismatch _ h => exact (h hNumeric).elim
    | notFinite _ _ h => exact (hClashes h).elim
    | decimal _ _ _ h => exact (h hZero).elim
    | integer _ _ _ _ h => exact (h hZero).elim

/- What is left has a result. -/
theorem decimal_or_integer
    (h : Outcome op l r result)
    (hNumeric : BothNumeric l r)
    (hClashes : ¬Clashes l r)
    (hZero : ¬DividesByZero op r) :
    (l.NeedsDecimal ∨ r.NeedsDecimal) ∧ (∃ d, result = .ok (.decimal d)) ∨
      ∃ i j f,
        l.Denotes i ∧
          r.Denotes j ∧
          exactInteger? op = some f ∧
          result = .ok (.integer (f i j)) := by
  cases h with
  | decimal d _ _ _ hNeeds => exact .inl ⟨hNeeds, d, rfl⟩
  | integer i j f _ _ hLeft hRight hOp =>
      exact .inr ⟨i, j, f, hLeft, hRight, hOp, rfl⟩
  | joined h => exact (h.not_bothNumeric hNumeric).elim
  | mismatch _ h => exact (h hNumeric).elim
  | notFinite _ _ h => exact (hClashes h).elim
  | divisionByZero _ _ h => exact (hZero h).elim

theorem decimal_iff
    (h : Outcome op l r result)
    (hNumeric : BothNumeric l r)
    (hClashes : ¬Clashes l r)
    (hZero : ¬DividesByZero op r) :
    (∃ d, result = .ok (.decimal d)) ↔
      l.NeedsDecimal ∨ r.NeedsDecimal := by
  rcases h.decimal_or_integer hNumeric hClashes hZero with
    ⟨hNeeds, hResult⟩ | ⟨i, j, f, hLeft, hRight, -, hResult⟩
  · exact iff_of_true hResult hNeeds
  · refine iff_of_false ?_ ?_
    · rintro ⟨d, hDecimal⟩
      rw [hResult] at hDecimal
      cases hDecimal
    · rintro (hNeeds | hNeeds)
      · exact hLeft.not_needsDecimal hNeeds
      · exact hRight.not_needsDecimal hNeeds

/- The failures name the operation and the operands. -/
theorem eq_failure
    {e : EvalError}
    (h : Outcome op l r (.error e)) :
    e = .typeMismatch op l.kind r.kind ∨
      (∃ v, (v = l ∨ v = r) ∧ ¬v.IsFinite ∧ e = .notFinite v) ∨
      e = .divisionByZero l r := by
  cases h with
  | mismatch => exact .inl rfl
  | notFinite v _ _ hOperand hInfinite =>
      exact .inr (.inl ⟨v, hOperand, hInfinite, rfl⟩)
  | divisionByZero => exact .inr (.inr rfl)

end Outcome

/- Operands that stand for integers do not clash. -/
theorem not_clashes_of_denotes
    (hl : l.Denotes i)
    (hr : r.Denotes j) :
    ¬Clashes l r := by
  rintro (rfl | rfl | ⟨-, hNeeds⟩ | ⟨-, hNeeds⟩)
  · rcases hl with _ | ⟨_, _, hFinite⟩
    cases hFinite
  · rcases hr with _ | ⟨_, _, hFinite⟩
    cases hFinite
  · exact hr.not_needsDecimal hNeeds
  · exact hl.not_needsDecimal hNeeds

/- They give the exact integer. -/
theorem arithmetic_denotes
    (p : Nat)
    (hOp : op ∈ arithmeticOps)
    (hl : l.Denotes i)
    (hr : r.Denotes j)
    (hZero : ¬DividesByZero op r) :
    ∃ f,
      exactInteger? op = some f ∧
        arithmetic op l r p = .ok (.integer (f i j)) := by
  have hOutcome := outcome_arithmetic hOp l r p
  rcases hOutcome.decimal_or_integer ⟨hl.isNumeric, hr.isNumeric⟩
    (not_clashes_of_denotes hl hr) hZero with
    ⟨hLeft | hRight, -⟩ | ⟨m, n, f, hLeft, hRight, hf, hResult⟩
  · exact (hl.not_needsDecimal hLeft).elim
  · exact (hr.not_needsDecimal hRight).elim
  · rw [hLeft.unique hl, hRight.unique hr] at hResult
    exact ⟨f, hf, hResult⟩

/-
  The quotient of two integers is cut toward zero, and the
  remainder makes up for it.
-/
theorem arithmetic_division
    (p : Nat)
    (hl : l.Denotes i)
    (hr : r.Denotes j)
    (hDivisor : r.isZero = false) :
    ∃ q m,
      arithmetic .div l r p = .ok (.integer q) ∧
        arithmetic .mod l r p = .ok (.integer m) ∧
        q = towardZero (i / j) ∧
        i = q * j + m ∧
        |m| < |j| ∧
        0 ≤ m * i := by
  have hZero (o : Op) : ¬DividesByZero o r := by
    rintro ⟨-, hIsZero⟩
    rw [hDivisor] at hIsZero
    cases hIsZero
  have hj : j ≠ 0 := by
    rw [Ne, ← hr.isZero_iff, hDivisor]
    exact Bool.false_ne_true
  have hDiv : Op.div ∈ arithmeticOps := by decide
  have hMod : Op.mod ∈ arithmeticOps := by decide
  rcases arithmetic_denotes p hDiv hl hr (hZero _) with ⟨f, hf, hQuotient⟩
  rcases arithmetic_denotes p hMod hl hr (hZero _) with ⟨g, hg, hRest⟩
  cases hf
  cases hg
  dsimp only at hQuotient hRest
  have hSame : i - towardZero (i / j) * j = i.tmod j := by
    have hSplit := Int.tdiv_mul_add_tmod i j
    rw [towardZero_div i hj]
    omega
  refine ⟨_, _, hQuotient, hRest, rfl, (add_sub_cancel _ _).symm, ?_⟩
  rw [hSame]
  exact tmod_bounds i hj

------------------------------------------------------------
-- All Outcomes
------------------------------------------------------------

/-
  Which results and failures an operation has and when, each
  case among the operands that the cases before it leave.
-/
structure Settled
    (op : Op)
    (l r : Value)
    (p : Nat) : Prop where
  text :
    (∃ s, arithmetic op l r p = .ok (.text s)) ↔ Joins op l r
  joined :
    Joins op l r →
      arithmetic op l r p = .ok (.text (l.display ++ r.display))
  typeMismatch :
    ¬Joins op l r →
      ((∃ o k m, arithmetic op l r p = .error (.typeMismatch o k m)) ↔
        ¬BothNumeric l r)
  notFinite :
    BothNumeric l r →
      ((∃ v, arithmetic op l r p = .error (.notFinite v)) ↔ Clashes l r)
  divisionByZero :
    BothNumeric l r →
      ¬Clashes l r →
      ((∃ a b, arithmetic op l r p = .error (.divisionByZero a b)) ↔
        DividesByZero op r)
  decimal :
    BothNumeric l r →
      ¬Clashes l r →
      ¬DividesByZero op r →
      ((∃ d, arithmetic op l r p = .ok (.decimal d)) ↔
        l.NeedsDecimal ∨ r.NeedsDecimal)
  integer :
    BothNumeric l r →
      ¬Clashes l r →
      ¬DividesByZero op r →
      ¬(l.NeedsDecimal ∨ r.NeedsDecimal) →
      ∃ i j f,
        l.Denotes i ∧
          r.Denotes j ∧
          exactInteger? op = some f ∧
          arithmetic op l r p = .ok (.integer (f i j))
  /- The failures name the operation and the operands. -/
  failures :
    ∀ e,
      arithmetic op l r p = .error e →
        e = .typeMismatch op l.kind r.kind ∨
          (∃ v, (v = l ∨ v = r) ∧ ¬v.IsFinite ∧ e = .notFinite v) ∨
          e = .divisionByZero l r
  /- The quotient and the remainder of two integers. -/
  division :
    ∀ i j,
      l.Denotes i →
        r.Denotes j →
        r.isZero = false →
        ∃ q m,
          arithmetic .div l r p = .ok (.integer q) ∧
            arithmetic .mod l r p = .ok (.integer m) ∧
            q = towardZero (i / j) ∧
            i = q * j + m ∧
            |m| < |j| ∧
            0 ≤ m * i

/- Arithmetic fails when it should, and is exact on integers. -/
theorem arithmetic_settled
    (hOp : op ∈ arithmeticOps)
    (l r : Value)
    (p : Nat) :
    Settled op l r p := by
  have hOutcome := outcome_arithmetic hOp l r p
  exact {
    text := hOutcome.text_iff
    joined := hOutcome.eq_joined
    typeMismatch := hOutcome.typeMismatch_iff
    notFinite := hOutcome.notFinite_iff
    divisionByZero := hOutcome.divisionByZero_iff
    decimal := hOutcome.decimal_iff
    integer := fun hNumeric hClashes hZero hWhole =>
      (hOutcome.decimal_or_integer hNumeric hClashes hZero).resolve_left
        fun hNeeds => hWhole hNeeds.1
    failures := fun e hFailure => by
      rw [hFailure] at hOutcome
      exact hOutcome.eq_failure
    division := fun i j => arithmetic_division p }

/-
  An infinity divided by an integer: it stands for an odd
  integer below zero, and so does the remainder.
-/
theorem arithmetic_settled_infinite :
    Op.mod ∈ arithmeticOps ∧
      Settled .mod (.number (.infinite true)) (.integer 2) 20 ∧
      arithmetic .mod (.number (.infinite true)) (.integer 2) 20 =
        .ok (.integer (-1)) := by
  have hOp : Op.mod ∈ arithmeticOps := by decide
  exact ⟨hOp, arithmetic_settled hOp _ _ 20, rfl⟩

end Value
end StackScript
