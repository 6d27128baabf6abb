import StackScript.Proofs.Builtin.Arguments
import StackScript.Proofs.Number.Root

/-
  The built-in function `root` on positive bases.

  A root is positive and at most a unit in its last digit
  below the exact one. That it is no more above it is not
  true of every base: the digits end where those of a
  quotient do, the tolerance is the same for small and for
  large roots, and the steps of the iteration may run out
  when floating point has no starting point to offer.

  Key theorems include:
    * `Builtin.run_root`
    * `Builtin.run_root_near`
-/

namespace StackScript
namespace Builtin

open Significant

variable {scopes : Scopes}
variable {base degree : Value}
variable {flags : List Value}
variable {b : Decimal}
variable {h : Host}
variable {n : Nat}

/- A positive base other than one is left to the iteration. -/
theorem run_root
    (hWhole : WholeArguments degree flags n)
    (hBase : base.toDecimal? = some b)
    (hPos : 0 < b.value)
    (hLeast : 2 ≤ n)
    (hLimit : n < 2 ^ 64)
    (hPrecise : h.precision ≤ maxPrecision) :
    run scopes (base :: degree :: flags) .root h =
      .ok
        (some
          (.decimal (if b.isOne then b else b.root n h.precision))) h := by
  have hCount := checkCount_two_three "root" base degree h hWhole.few
  have hRun :
      run scopes (base :: degree :: flags) .root h =
        runRoot base degree (argument flags 0) h := by
    change EStateM.bind _ _ h = _
    unfold EStateM.bind
    rw [hCount]
    rfl
  have hDegree : 0 < (n : Int) ∧ (n : Int) ≤ maxDegree := by
    unfold maxDegree
    omega
  have hNegative : b.isNegative = false :=
    decide_eq_false (not_lt.2 (Decimal.value_pos_iff.1 hPos).le)
  have hZero : b.isZero = false :=
    Bool.eq_false_iff.2 (mt Decimal.isZero_iff.1 hPos.ne')
  have hOne : (n == 1) = false := beq_eq_false_iff_ne.2 (by omega)
  have hSigned :
      signedRoot b n h.precision =
        (pure (if b.isOne then b else b.root n h.precision) :
          Hosted Decimal) := by
    unfold signedRoot
    rw [hOne, hNegative, hZero, Bool.or_false]
    by_cases hSame : b.isOne = true
    · rw [if_pos hSame, if_pos hSame]
    · rw [if_neg hSame, if_neg hSame, if_neg Bool.false_ne_true,
        if_neg Bool.false_ne_true]
  have hRoot :
      runRoot base degree (argument flags 0) =
        (do
          let result ← signedRoot b n (min (← get).precision maxPrecision)
          return some (.decimal result)) := by
    unfold runRoot Value.toDecimal Value.toInteger
    rw [hBase, hWhole.toInteger?, hWhole.plain]
    simp only [converted, pure_bind, hDegree, and_self, if_true,
      Int.toNat_natCast, Bool.false_eq_true, if_false]
  have hGet :
      runRoot base degree (argument flags 0) h =
        EStateM.bind (signedRoot b n (min h.precision maxPrecision))
          (fun result => pure (some (.decimal result))) h := by
    rw [hRoot]
    rfl
  rw [hRun, hGet, Nat.min_eq_left hPrecise, hSigned]
  rfl

/-
  The root of a positive base is positive, and the exact
  root lies at most a unit in the last digit that counts
  above it. It also lies at most a unit below it if the base
  is one, or if the tolerance reaches the root and the
  iteration comes to rest or has started near by.
-/
theorem run_root_near
    (scopes : Scopes)
    (hWhole : WholeArguments degree flags n)
    (hBase : base.toDecimal? = some b)
    (hPos : 0 < b.value)
    (hLeast : 2 ≤ n)
    (hLimit : n < 2 ^ 64)
    (hSome : 1 ≤ h.precision)
    (hPrecise : h.precision ≤ maxPrecision) :
    ∃ r : Decimal,
      run scopes (base :: degree :: flags) .root h =
          .ok (some (.decimal r)) h ∧
        0 < r.value ∧
        b.value ≤
          (r.value + unit (Decimal.rootDigits h.precision) r.value) ^ n ∧
        (b.value = 1 ∨
            b.Reaches n h.precision ∧
              (b.Settles n h.precision ∨ b.StartsNear n) →
          max 0 (r.value -
              unit (Decimal.rootDigits h.precision) r.value) ^ n ≤
            b.value) := by
  refine ⟨_, run_root hWhole hBase hPos hLeast hLimit hPrecise, ?_⟩
  by_cases hOne : b.isOne = true
  · rw [if_pos hOne, Decimal.isOne_iff.1 hOne]
    have hUnit := unit_pos (Decimal.rootDigits h.precision) 1
    refine ⟨one_pos, one_le_pow₀ (by linarith), fun _ => ?_⟩
    exact pow_le_one₀ (le_max_left _ _) (max_le zero_le_one (by linarith))
  · have hNot : b.value ≠ 1 := mt Decimal.isOne_iff.2 hOne
    rcases Decimal.root_near hLeast hSome hPos with
      ⟨hRoot, hBelow, hAbove⟩
    rw [if_neg hOne]
    refine ⟨hRoot, hBelow, ?_⟩
    rintro (hSame | ⟨hReach, hEither⟩)
    · exact absurd hSame hNot
    · exact hAbove hReach hEither

/- The floating-point number nearest to the square root of two. -/
def sqrtTwo : Binary64 :=
  .finite false 6369051672525773 (-52) (by decide)

/-
  What floating point makes of two to the power of a half,
  which is left to the machine.
-/
def EstimatesRootOfTwo : Prop :=
  (Binary64.ofNat 2).pow (.ofFraction false 1 2) = sqrtTwo

/- With that estimate the iteration starts near the root. -/
theorem startsNear_two (h : EstimatesRootOfTwo) :
    (⟨20, 1⟩ : Decimal).StartsNear 2 := by
  have hBase :
      (⟨20, 1⟩ : Decimal).toBinary64 = Binary64.ofNat 2 := by
    decide +kernel
  have hExponent :
      Binary64.div .one (.ofNat 2) = .ofFraction false 1 2 := by
    decide +kernel
  have hDecimal :
      (if sqrtTwo.isFinite && !sqrtTwo.isNegative && !sqrtTwo.isZero then
        (Decimal.ofBinary64? sqrtTwo).getD .one
      else .one) =
        ⟨14142135623730951454746218587388284504413604736328125, 52⟩ := by
    decide +kernel
  have hGuess :
      (⟨20, 1⟩ : Decimal).rootGuess 2 =
        ⟨14142135623730951454746218587388284504413604736328125, 52⟩ := by
    unfold Decimal.rootGuess
    rw [hBase, hExponent, h]
    exact hDecimal
  unfold Decimal.StartsNear
  rw [hGuess]
  constructor <;> norm_num [Decimal.value]

/-
  The square root of two with twenty digits, and a root of
  one, which needs no iteration.
-/
theorem run_root_near_two :
    WholeArguments (.integer 2) [] 2 ∧
      (⟨20, 1⟩ : Decimal).Reaches 2 20 ∧
      (∃ r : Decimal,
        run .initial [.decimal ⟨20, 1⟩, .integer 2] .root
            ⟨[], "", 20, 0⟩ =
          .ok (some (.decimal r)) ⟨[], "", 20, 0⟩ ∧
        0 < r.value ∧
        2 ≤ (r.value + unit 20 r.value) ^ 2 ∧
        (EstimatesRootOfTwo →
          max 0 (r.value - unit 20 r.value) ^ 2 ≤ 2)) ∧
      ∃ r : Decimal,
        run .initial [.integer 1, .integer 2] .root
            ⟨[], "", 20, 0⟩ =
          .ok (some (.decimal r)) ⟨[], "", 20, 0⟩ ∧
        max 0 (r.value - unit 20 r.value) ^ 2 ≤ 1 := by
  have hWhole : WholeArguments (.integer 2) [] 2 :=
    ⟨trivial, by norm_num [Value.exact], by decide, rfl⟩
  have hTwo : (⟨20, 1⟩ : Decimal).value = 2 := by norm_num [Decimal.value]
  have hOne : (Decimal.ofInt 1).value = 1 := by
    rw [Decimal.value_ofInt, Int.cast_one]
  have hReach : (⟨20, 1⟩ : Decimal).Reaches 2 20 := by
    refine ⟨0, ?_, by decide⟩
    rw [hTwo]
    norm_num
  rcases run_root_near (h := ⟨[], "", 20, 0⟩) .initial hWhole
      (rfl : (Value.decimal ⟨20, 1⟩).toDecimal? = some _)
      (by norm_num [hTwo]) (by decide) (by decide) (by decide)
      (by decide) with
    ⟨r, hRun, hRoot, hBelow, hAbove⟩
  rcases run_root_near (h := ⟨[], "", 20, 0⟩) .initial hWhole
      (rfl : (Value.integer 1).toDecimal? = some _)
      (by norm_num [hOne]) (by decide) (by decide) (by decide)
      (by decide) with
    ⟨s, hSame, -, -, hExact⟩
  rw [hTwo] at hBelow hAbove
  rw [hOne] at hExact
  have hNear (hEstimate : EstimatesRootOfTwo) :
      max 0 (r.value - unit 20 r.value) ^ 2 ≤ 2 :=
    hAbove (.inr ⟨hReach, .inr (startsNear_two hEstimate)⟩)
  exact ⟨hWhole, hReach, ⟨r, hRun, hRoot, hBelow, hNear⟩, s, hSame,
    hExact (.inl rfl)⟩

end Builtin
end StackScript
