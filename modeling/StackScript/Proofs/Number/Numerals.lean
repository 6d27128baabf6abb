import Mathlib
import StackScript.Number.Digits

/-
  Digits that are written and read back.

  Key theorems include:
    * `Digits.read_write`
    * `Digits.read_append`
    * `Digits.head_write`
    * `Digits.count_le`
    * `Digits.strip_spec`
-/

namespace StackScript
namespace Digits

------------------------------------------------------------
-- Reading What Is Written
------------------------------------------------------------

/- A decimal digit counts for its distance from zero. -/
theorem value?_of_isDigit
    {c : Char}
    (h : c.isDigit = true) :
    value? 10 c = some (c.toNat - 48) := by
  have hLess : c.toNat - 48 < 10 := by
    simp only [Char.isDigit, Bool.and_eq_true, decide_eq_true_eq] at h
    have hUpper : c.toNat ≤ 57 := h.2
    omega
  unfold value?
  rw [if_pos h]
  simp [Option.filter, hLess]

/- Decimal digits are read as the library reads them. -/
theorem read_eq
    {cs : List Char}
    (h : ∀ c ∈ cs, c.isDigit = true) :
    read 10 cs = Nat.ofDigitChars 10 cs 0 := by
  have hFold (n : Nat) :
      cs.foldl (fun n c => n * 10 + (value? 10 c).getD 0) n =
        Nat.ofDigitChars 10 cs n := by
    induction cs generalizing n with
    | nil => rfl
    | cons c cs ih =>
        rw [List.foldl_cons, value?_of_isDigit (h c List.mem_cons_self),
          Option.getD_some, Nat.mul_comm,
          ih fun d hd => h d (List.mem_cons_of_mem _ hd)]
        rfl
  exact hFold 0

/- What is written has digits alone. -/
theorem isDigit_of_mem_write
    {n : Nat}
    {c : Char}
    (h : c ∈ write n) :
    c.isDigit = true :=
  Nat.isDigit_of_mem_toDigits (by omega) (by omega) h

theorem write_ne_nil (n : Nat) : write n ≠ [] :=
  Nat.toDigits_ne_nil

/- A number that is written is read back. -/
theorem read_write (n : Nat) : read 10 (write n) = n := by
  rw [read_eq fun c hc => isDigit_of_mem_write hc]
  exact Nat.ofDigitChars_ten_toDigits

/- Digits in front of others count as many times more. -/
theorem read_append
    {cs ds : List Char}
    (hFirst : ∀ c ∈ cs, c.isDigit = true)
    (hThen : ∀ c ∈ ds, c.isDigit = true) :
    read 10 (cs ++ ds) = read 10 cs * 10 ^ ds.length + read 10 ds := by
  have hAll : ∀ c ∈ cs ++ ds, c.isDigit = true := by
    intro c hc
    rcases List.mem_append.1 hc with hc | hc
    · exact hFirst c hc
    · exact hThen c hc
  rw [read_eq hAll, read_eq hFirst, read_eq hThen,
    Nat.ofDigitChars_append, Nat.ofDigitChars_eq_ofDigitChars_zero,
    Nat.mul_comm]

theorem isDigit_of_mem_zeros
    {k : Nat}
    {c : Char}
    (h : c ∈ zeros k) :
    c.isDigit = true := by
  rw [List.eq_of_mem_replicate h]
  rfl

theorem read_zeros (k : Nat) : read 10 (zeros k) = 0 := by
  rw [read_eq fun c hc => isDigit_of_mem_zeros hc]
  unfold zeros
  rw [Nat.ofDigitChars_replicate_zero, Nat.mul_zero]

/- Zeros in front say nothing. -/
theorem read_zeros_append
    {cs : List Char}
    (k : Nat)
    (h : ∀ c ∈ cs, c.isDigit = true) :
    read 10 (zeros k ++ cs) = read 10 cs := by
  rw [read_append (fun c hc => isDigit_of_mem_zeros hc) h, read_zeros,
    Nat.zero_mul, Nat.zero_add]

/- Zeros at the end multiply by a power of ten. -/
theorem read_append_zeros
    {cs : List Char}
    (k : Nat)
    (h : ∀ c ∈ cs, c.isDigit = true) :
    read 10 (cs ++ zeros k) = read 10 cs * 10 ^ k := by
  rw [read_append h fun c hc => isDigit_of_mem_zeros hc, read_zeros,
    Nat.add_zero]
  unfold zeros
  rw [List.length_replicate]

/- A run of decimal digits is a number. -/
theorem read?_of_digits
    {cs : List Char}
    (hSome : cs ≠ [])
    (h : ∀ c ∈ cs, c.isDigit = true) :
    read? 10 cs = some (read 10 cs) := by
  unfold read?
  have hAll : cs.all (isDigit 10) = true := by
    rw [List.all_eq_true]
    intro c hc
    unfold isDigit
    rw [value?_of_isDigit (h c hc)]
    rfl
  rw [if_pos]
  rw [hAll, Bool.and_true, Bool.not_eq_true', List.isEmpty_eq_false_iff]
  exact hSome

theorem read?_write (n : Nat) : read? 10 (write n) = some n := by
  rw [read?_of_digits (write_ne_nil n) fun c hc =>
    isDigit_of_mem_write hc, read_write]

/- Digits hold nothing that is no digit. -/
theorem not_mem_of_digits
    {cs : List Char}
    {c : Char}
    (h : ∀ d ∈ cs, d.isDigit = true)
    (hNot : c.isDigit = false) :
    c ∉ cs := by
  intro hMem
  rw [h c hMem] at hNot
  cases hNot

/- The sign of a number that is written. -/
theorem writeInt_eq (i : Int) :
    i < 0 ∧ writeInt i = '-' :: write i.natAbs ∨
      0 ≤ i ∧ writeInt i = write i.natAbs := by
  unfold writeInt
  by_cases hSign : i < 0
  · rw [if_pos hSign]
    exact .inl ⟨hSign, rfl⟩
  · rw [if_neg hSign]
    exact .inr ⟨by omega, rfl⟩

/- What is written of a positive number begins with no zero. -/
theorem head_write
    {n : Nat}
    (h : 0 < n) :
    ∃ c cs, write n = c :: cs ∧ c ≠ '0' := by
  induction n using Nat.strongRecOn with
  | _ n ih =>
      unfold write at ih ⊢
      by_cases hSmall : n < 10
      · refine ⟨n.digitChar, [], Nat.toDigits_of_lt_base hSmall, ?_⟩
        intro hZero
        have hValue := Nat.toNat_digitChar_sub_48_of_lt_ten hSmall
        rw [hZero] at hValue
        have hNone : '0'.toNat - 48 = 0 := rfl
        omega
      · rcases ih (n / 10) (by omega) (by omega) with ⟨c, cs, hc, hNot⟩
        rw [Nat.toDigits_of_base_le (by omega) (by omega), hc]
        exact ⟨c, _, rfl, hNot⟩

/- Fewer than `10 ^ k` take at most `k` digits. -/
theorem length_write_le
    {n k : Nat}
    (hPos : 0 < k)
    (h : n < 10 ^ k) :
    (write n).length ≤ k :=
  (Nat.length_toDigits_le_iff (by omega) hPos).2 h

------------------------------------------------------------
-- Counting
------------------------------------------------------------

/- The search stops at the first power that is large enough. -/
theorem climb_le
    {n start least : Nat}
    (hLe : start ≤ least)
    (h : n < 10 ^ least)
    (steps : Nat) :
    climb n steps start ≤ least := by
  induction steps generalizing start with
  | zero => exact hLe
  | succ steps ih =>
      unfold climb
      by_cases hMore : tens start ≤ n
      · rw [if_pos hMore]
        apply ih
        by_cases hEq : start = least
        · rw [hEq] at hMore
          exact absurd h (Nat.not_lt.2 hMore)
        · omega
      · rw [if_neg hMore]
        exact hLe

/- A number below `10 ^ k` has at most `k` digits. -/
theorem count_le
    {n k : Nat}
    (hPos : 0 < k)
    (hStart : n.log2 * 30102 / 100000 ≤ k)
    (h : n < 10 ^ k) :
    count n ≤ k := by
  unfold count
  have hClimb := climb_le hStart h (n.log2 + 1)
  omega

theorem count_pos (n : Nat) : 0 < count n := by
  unfold count
  omega

/- Stripping zeros keeps the value. -/
theorem strip_spec
    (steps n : Nat) :
    (strip steps n).1 * 10 ^ (strip steps n).2 = n := by
  induction steps generalizing n with
  | zero => exact Nat.mul_one n
  | succ steps ih =>
      unfold strip
      by_cases hZero : n % 10 = 0
      · rw [if_pos hZero]
        have hTen := ih (n / 10)
        dsimp only
        rw [Nat.pow_succ, ← Nat.mul_assoc, hTen]
        omega
      · rw [if_neg hZero]
        exact Nat.mul_one n

end Digits
end StackScript
