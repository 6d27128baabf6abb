import StackScript.Builtin.Library
import StackScript.Proofs.Arithmetic.Promotion
import StackScript.Proofs.Number.Counting

/-
  Natural numbers among the arguments of built-in functions.

  An exponent or a degree may be given as a number of any
  sort; as long as it is an integer the function gets that
  integer.

  Key definitions include:
    * `Builtin.WholeArguments`

  Key theorems include:
    * `Value.toInteger?_of_exact`
    * `Builtin.WholeArguments.toInteger?`
    * `Builtin.checkCount_two_three`
-/

namespace StackScript

------------------------------------------------------------
-- Integral Values
------------------------------------------------------------

namespace Decimal

variable {a : Decimal}
variable {i : Int}

/- A decimal that is an integer, without fractions. -/
theorem digits_of_value (h : a.value = i) :
    a.digits * 10 ^ (-a.scale).toNat = i * 10 ^ a.scale.toNat := by
  unfold value at h
  rcases le_total 0 a.scale with hScale | hScale
  · obtain ⟨n, hn⟩ : ∃ n : Nat, a.scale = n :=
      Int.eq_ofNat_of_zero_le hScale
    rw [hn, zpow_neg, zpow_natCast,
      mul_inv_eq_iff_eq_mul₀ (by positivity)] at h
    rw [hn, show (-(n : Int)).toNat = 0 by omega, pow_zero, mul_one,
      Int.toNat_natCast]
    exact_mod_cast h
  · obtain ⟨n, hn⟩ : ∃ n : Nat, -a.scale = n :=
      Int.eq_ofNat_of_zero_le (by omega)
    rw [hn, zpow_natCast] at h
    rw [hn, show a.scale.toNat = 0 by omega, pow_zero, mul_one,
      Int.toNat_natCast]
    exact_mod_cast h

theorem isIntegral_of_value (h : a.value = i) : a.isIntegral = true := by
  have hDigits := digits_of_value h
  unfold isIntegral
  rw [beq_iff_eq, Digits.tens_eq]
  push_cast
  apply Int.emod_eq_zero_of_dvd
  rcases le_total 0 a.scale with hScale | hScale
  · rw [show (-a.scale).toNat = 0 by omega, pow_zero, mul_one] at hDigits
    exact ⟨i, hDigits.trans (mul_comm _ _)⟩
  · rw [show a.scale.toNat = 0 by omega, pow_zero]
    exact one_dvd _

theorem truncate_of_value (h : a.value = i) : a.truncate = i := by
  have hDigits := digits_of_value h
  have hPower : (10 : Int) ^ a.scale.toNat ≠ 0 := by positivity
  unfold truncate
  rw [Digits.tens_eq, Digits.tens_eq]
  push_cast
  rw [hDigits, Int.mul_tdiv_cancel _ hPower]

end Decimal

/- A finite number that is an integer is converted to it. -/
theorem Value.toInteger?_of_exact
    {v : Value}
    {i : Int}
    (hFinite : v.IsFinite)
    (hExact : v.exact = i) :
    v.toInteger? = some i := by
  cases v with
  | number x =>
      have hWhole : x.isIntegral = true :=
        (Binary64.isIntegral_iff hFinite).2 ⟨i, hExact⟩
      unfold toInteger?
      dsimp only
      rw [if_pos hWhole, Binary64.truncate?_of_value hFinite hExact]
  | integer n =>
      have hSame : n = i := Int.cast_injective hExact
      rw [hSame]
      rfl
  | decimal d =>
      unfold toInteger?
      dsimp only
      rw [if_pos (Decimal.isIntegral_of_value hExact),
        Decimal.truncate_of_value hExact]
  | _ => cases hFinite

namespace Builtin

variable {second : Value}
variable {flags : List Value}
variable {n : Nat}

------------------------------------------------------------
-- Arguments
------------------------------------------------------------

/-
  The arguments after the first one: a natural number of any
  sort, and no wish for a floating-point result.
-/
structure WholeArguments
    (second : Value)
    (flags : List Value)
    (n : Nat) : Prop where
  finite : second.IsFinite
  exact : second.exact = n
  few : flags.length ≤ 1
  plain : (argument flags 0).isTruthy = false

theorem WholeArguments.toInteger? (h : WholeArguments second flags n) :
    second.toInteger? = some (n : Int) := by
  apply Value.toInteger?_of_exact h.finite
  rw [h.exact]
  exact (Int.cast_natCast n).symm

/- Two or three arguments are as many as allowed. -/
theorem checkCount_two_three
    (function : String)
    (first second : Value)
    (h : Host)
    (hFew : flags.length ≤ 1) :
    checkCount function 2 3 (first :: second :: flags) h = .ok () h := by
  have hLength :
      (first :: second :: flags).length = flags.length + 2 := rfl
  unfold checkCount
  rw [if_neg (by omega), if_neg (by omega)]
  rfl

end Builtin
end StackScript
