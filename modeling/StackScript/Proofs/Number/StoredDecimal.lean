import StackScript.Number.DecimalText
import StackScript.Proofs.Number.Numerals

/-
  Decimals that are stored and read back.

  A decimal comes back with its digits and its scale, except
  that a zero loses its scale and that a few appended zeros
  become digits.

  Key definitions include:
    * `Decimal.restored`
    * `Decimal.value`

  Key theorems include:
    * `Decimal.read?_stored`
    * `Decimal.value_restored`
-/

namespace StackScript
namespace Decimal

/- The decimal that comes back. -/
def restored (a : Decimal) : Decimal :=
  if a.digits = 0 then ⟨0, 0⟩
  else if -15 ≤ a.scale ∧ a.scale ≤ 0 then
    ⟨a.digits * Digits.tens (-a.scale).toNat, 0⟩
  else a

/- A decimal with places after its point comes back as it was. -/
theorem restored_of_pos
    {a : Decimal}
    (hDigits : a.digits ≠ 0)
    (hScale : 0 < a.scale) :
    a.restored = a := by
  unfold restored
  rw [if_neg hDigits, if_neg (by omega)]

/- The rational number that a decimal denotes. -/
def value (a : Decimal) : ℚ :=
  a.digits * (10 : ℚ) ^ (-a.scale)

/- What comes back denotes the same number. -/
theorem value_restored (a : Decimal) :
    a.restored.value = a.value := by
  unfold restored
  by_cases hZero : a.digits = 0
  · rw [if_pos hZero]
    simp [value, hZero]
  rw [if_neg hZero]
  by_cases hWhole : -15 ≤ a.scale ∧ a.scale ≤ 0
  · have hPower : ((-a.scale).toNat : Int) = -a.scale :=
      Int.toNat_of_nonneg (by omega)
    have hTens :
        ((Digits.tens (-a.scale).toNat : Nat) : ℚ) =
          (10 : ℚ) ^ (-a.scale) := by
      rw [← hPower, zpow_natCast, Int.toNat_natCast]
      exact Nat.cast_pow 10 _
    rw [if_pos hWhole]
    unfold value
    dsimp only
    push_cast
    rw [hTens, mul_one]
  · rw [if_neg hWhole]

------------------------------------------------------------
-- Mantissas
------------------------------------------------------------

/- Digits without a sign in front are read as their number. -/
theorem readDigits?_of_digits
    {cs : List Char}
    (hSome : cs ≠ [])
    (h : ∀ c ∈ cs, c.isDigit = true) :
    readDigits? cs = some (Digits.read 10 cs) := by
  unfold readDigits?
  have hHead : cs.head? ≠ some '_' := by
    intro hBar
    exact Digits.not_mem_of_digits h rfl (List.mem_of_head? hBar)
  have hFilter : cs.filter (· ≠ '_') = cs := by
    rw [List.filter_eq_self]
    intro c hc
    have hNot : c ≠ '_' := by
      rintro rfl
      exact Digits.not_mem_of_digits h rfl hc
    exact decide_eq_true hNot
  rw [if_neg hHead, hFilter, Digits.read?_of_digits hSome h]

/- Digits with a sign or none are read as their number. -/
theorem readSigned?_of_digits
    {a : Decimal}
    {cs : List Char}
    (hSome : cs ≠ [])
    (h : ∀ c ∈ cs, c.isDigit = true) :
    readSigned? (a.sign ++ cs) =
      some
        (if a.digits < 0 then -(Digits.read 10 cs : Int)
        else Digits.read 10 cs) := by
  unfold sign
  by_cases hSign : a.digits < 0
  · rw [if_pos hSign, if_pos hSign]
    simp [readSigned?, readDigits?_of_digits hSome h]
  · rw [if_neg hSign, if_neg hSign, List.nil_append]
    unfold readSigned?
    split
    · exact absurd List.mem_cons_self (Digits.not_mem_of_digits h rfl)
    · exact absurd List.mem_cons_self (Digits.not_mem_of_digits h rfl)
    · simp [readDigits?_of_digits hSome h]

/- An exponent that is written is read back. -/
theorem readExponent?_writeInt (i : Int) :
    Binary64.readExponent? (Digits.writeInt i) = some i := by
  rcases Digits.writeInt_eq i with ⟨hSign, h⟩ | ⟨hSign, h⟩
  · rw [h]
    have hValue : -(i.natAbs : Int) = i := by omega
    simp only [Binary64.readExponent?, Digits.read?_write]
    exact congrArg some hValue
  · rw [h]
    have hDigits :
        ∀ c ∈ Digits.write i.natAbs, c.isDigit = true :=
      fun c hc => Digits.isDigit_of_mem_write hc
    unfold Binary64.readExponent?
    split
    · rename_i hWrite
      rw [hWrite] at hDigits
      exact absurd List.mem_cons_self
        (Digits.not_mem_of_digits hDigits rfl)
    · rename_i hWrite
      rw [hWrite] at hDigits
      exact absurd List.mem_cons_self
        (Digits.not_mem_of_digits hDigits rfl)
    · have hValue : (i.natAbs : Int) = i := by omega
      rw [Digits.read?_write]
      exact congrArg some hValue

------------------------------------------------------------
-- Texts
------------------------------------------------------------

/- A sign and digits hold no other character. -/
theorem not_mem_mantissa
    {a : Decimal}
    {cs : List Char}
    {c : Char}
    (h : ∀ d ∈ cs, d.isDigit = true)
    (hSign : c ≠ '-')
    (hNot : c.isDigit = false) :
    c ∉ a.sign ++ cs := by
  intro hMem
  rcases List.mem_append.1 hMem with hMem | hMem
  · unfold sign at hMem
    split at hMem
    · exact hSign (List.mem_singleton.1 hMem)
    · cases hMem
  · exact Digits.not_mem_of_digits h hNot hMem

/- A mantissa without a point has no places. -/
theorem splitPoint_of_not_mem
    {cs : List Char}
    (h : '.' ∉ cs) :
    splitPoint cs = (cs, 0) := by
  have hAll : ∀ c ∈ cs, decide (c ≠ '.') = true := by
    intro c hc
    apply decide_eq_true
    rintro rfl
    exact h hc
  unfold splitPoint
  have hTake : cs.takeWhile (fun c => decide (c ≠ '.')) = cs :=
    List.takeWhile_eq_self_iff.2 hAll
  have hDrop : cs.dropWhile (fun c => decide (c ≠ '.')) = [] :=
    List.dropWhile_eq_nil_iff.2 hAll
  rw [hTake, hDrop]

/- The digits behind a point are its places. -/
theorem splitPoint_point
    {whole fraction : List Char}
    (h : '.' ∉ whole)
    (hFraction : ∀ c ∈ fraction, c.isDigit = true) :
    splitPoint (whole ++ '.' :: fraction) =
      (whole ++ fraction, fraction.length) := by
  have hAll : ∀ c ∈ whole, decide (c ≠ '.') = true := by
    intro c hc
    apply decide_eq_true
    rintro rfl
    exact h hc
  have hTake :
      (whole ++ '.' :: fraction).takeWhile (fun c => decide (c ≠ '.')) =
        whole := by
    rw [List.takeWhile_append_of_pos hAll]
    simp
  have hDrop :
      (whole ++ '.' :: fraction).dropWhile (fun c => decide (c ≠ '.')) =
        '.' :: fraction := by
    rw [List.dropWhile_append_of_pos hAll]
    simp
  have hFilter :
      fraction.filter (fun c => decide (c ≠ '_')) = fraction := by
    rw [List.filter_eq_self]
    intro c hc
    apply decide_eq_true
    rintro rfl
    exact Digits.not_mem_of_digits hFraction rfl hc
  unfold splitPoint
  rw [hTake, hDrop]
  dsimp only
  rw [hFilter]

/- A text without an exponent. -/
theorem read?_of_mantissa
    {cs ds : List Char}
    {n : Int}
    {places : Nat}
    (hMark : ∀ c ∈ cs, isExponentMark c = false)
    (hSplit : splitPoint cs = (ds, places))
    (hRead : readSigned? ds = some n) :
    read? cs = some ⟨n, places⟩ := by
  have hAll : ∀ c ∈ cs, (!isExponentMark c) = true := by
    intro c hc
    rw [hMark c hc]
    rfl
  have hTake : cs.takeWhile (fun c => !isExponentMark c) = cs :=
    List.takeWhile_eq_self_iff.2 hAll
  have hDrop : cs.dropWhile (fun c => !isExponentMark c) = [] :=
    List.dropWhile_eq_nil_iff.2 hAll
  simp [read?, hTake, hDrop, hSplit, hRead]

/- A text with an exponent. -/
theorem read?_of_exponent
    {cs ds es : List Char}
    {c : Char}
    {n e : Int}
    {places : Nat}
    (hMark : ∀ c ∈ cs, isExponentMark c = false)
    (hSplit : splitPoint cs = (ds, places))
    (hRead : readSigned? ds = some n)
    (hE : isExponentMark c = true)
    (hExponent : Binary64.readExponent? es = some e) :
    read? (cs ++ c :: es) = some ⟨n, places - e⟩ := by
  have hAll : ∀ c ∈ cs, (!isExponentMark c) = true := by
    intro c hc
    rw [hMark c hc]
    rfl
  have hTake :
      (cs ++ c :: es).takeWhile (fun c => !isExponentMark c) = cs := by
    rw [List.takeWhile_append_of_pos hAll]
    simp [hE]
  have hDrop :
      (cs ++ c :: es).dropWhile (fun c => !isExponentMark c) =
        c :: es := by
    rw [List.dropWhile_append_of_pos hAll]
    simp [hE]
  simp [read?, hTake, hDrop, hSplit, hRead, hExponent]

------------------------------------------------------------
-- Stored Decimals
------------------------------------------------------------

variable {a : Decimal}

/- A sign and digits hold no mark of an exponent. -/
theorem not_mark_mantissa
    {cs : List Char}
    (h : ∀ c ∈ cs, c.isDigit = true) :
    ∀ c ∈ a.sign ++ cs, isExponentMark c = false := by
  intro c hc
  unfold isExponentMark
  have hLower : c ≠ 'e' := by
    rintro rfl
    exact not_mem_mantissa h (by decide) rfl hc
  have hUpper : c ≠ 'E' := by
    rintro rfl
    exact not_mem_mantissa h (by decide) rfl hc
  simp [hLower, hUpper]

/- The digits of the magnitude, with the sign, are the digits. -/
theorem readSigned?_write :
    readSigned? (a.sign ++ Digits.write a.digits.natAbs) =
      some a.digits := by
  rw [readSigned?_of_digits (Digits.write_ne_nil _) fun c hc =>
    Digits.isDigit_of_mem_write hc, Digits.read_write]
  congr 1
  split <;> omega

/- Digits divided by a point, and how many stand behind it. -/
theorem splitPoint_of_digits
    {whole fraction : List Char}
    (hWhole : ∀ c ∈ whole, c.isDigit = true)
    (hFraction : ∀ c ∈ fraction, c.isDigit = true) :
    splitPoint (a.sign ++ whole ++ '.' :: fraction) =
      (a.sign ++ (whole ++ fraction), fraction.length) := by
  rw [splitPoint_point (not_mem_mantissa hWhole (by decide) rfl)
    hFraction, List.append_assoc]

/- Nor do they with a point between them. -/
theorem not_mark_point
    {whole fraction : List Char}
    (hWhole : ∀ c ∈ whole, c.isDigit = true)
    (hFraction : ∀ c ∈ fraction, c.isDigit = true) :
    ∀ c ∈ a.sign ++ whole ++ '.' :: fraction,
      isExponentMark c = false := by
  intro c hc
  rcases List.mem_append.1 hc with hc | hc
  · exact not_mark_mantissa hWhole c hc
  · rcases List.mem_cons.1 hc with rfl | hc
    · rfl
    · exact not_mark_mantissa (a := ⟨0, 0⟩) hFraction c hc

theorem eq_of_scale
    {scale : Int}
    (h : scale = a.scale) :
    (⟨a.digits, scale⟩ : Decimal) = a := by
  rw [h]

/- A decimal with one digit before the point is read back. -/
theorem read?_scientific :
    read? (a.sign ++ a.scientific) = some a := by
  have hDigits :
      ∀ c ∈ Digits.write a.digits.natAbs, c.isDigit = true :=
    fun c hc => Digits.isDigit_of_mem_write hc
  have hRead := readSigned?_write (a := a)
  have hExponent :=
    readExponent?_writeInt
      ((Digits.write a.digits.natAbs).length - 1 - a.scale)
  unfold scientific
  dsimp only
  generalize hWrite : Digits.write a.digits.natAbs = ds
    at hDigits hRead hExponent
  rcases ds with _ | ⟨c, cs⟩
  · exact absurd hWrite (Digits.write_ne_nil _)
  have hFirst : ∀ d ∈ [c], d.isDigit = true := by
    intro d hd
    exact hDigits d (List.mem_cons.2 (.inl (List.mem_singleton.1 hd)))
  have hRest : ∀ d ∈ cs, d.isDigit = true :=
    fun d hd => hDigits d (List.mem_cons_of_mem _ hd)
  rw [List.length_cons] at hExponent
  by_cases hOne : (c :: cs).length ≤ 1
  · have hNone : cs = [] := by
      rw [List.length_cons] at hOne
      exact List.eq_nil_of_length_eq_zero (by omega)
    rw [if_pos hOne, hNone]
    rw [hNone] at hRead hExponent
    have hText :=
      read?_of_exponent (not_mark_mantissa hFirst)
        (splitPoint_of_not_mem
          (not_mem_mantissa hFirst (by decide) rfl))
        hRead (c := 'E') rfl hExponent
    rw [eq_of_scale (by simp)] at hText
    rw [← hText]
    simp
  · rw [if_neg hOne]
    have hText :=
      read?_of_exponent (not_mark_point hFirst hRest)
        (splitPoint_of_digits hFirst hRest) hRead (c := 'E') rfl
        hExponent
    rw [eq_of_scale (by omega)] at hText
    rw [← hText]
    simp

/- A decimal with appended zeros in its exponent is read back. -/
theorem read?_raised (h : a.scale < 0) :
    read? (a.sign ++ Digits.write a.digits.natAbs ++ ['e', '+']
      ++ Digits.writeInt (-a.scale)) = some a := by
  have hDigits :
      ∀ c ∈ Digits.write a.digits.natAbs, c.isDigit = true :=
    fun c hc => Digits.isDigit_of_mem_write hc
  have hExponent :
      Binary64.readExponent? ('+' :: Digits.writeInt (-a.scale)) =
        some (-a.scale) := by
    rcases Digits.writeInt_eq (-a.scale) with ⟨hSign, _⟩ | ⟨_, hWrite⟩
    · omega
    · rw [hWrite]
      simp only [Binary64.readExponent?, Digits.read?_write]
      simp
      omega
  have hText :=
    read?_of_exponent (not_mark_mantissa hDigits)
      (splitPoint_of_not_mem
        (not_mem_mantissa hDigits (by decide) rfl))
      readSigned?_write (c := 'e') rfl hExponent
  rw [eq_of_scale (by omega)] at hText
  rw [← hText]
  simp

/- A decimal without an exponent is read back. -/
theorem read?_positional (h : 0 < a.scale) :
    read? (a.sign ++ a.positional) = some a := by
  unfold positional
  rw [if_neg (by omega)]
  dsimp only
  generalize hPadded :
    Digits.zeros
        (a.scale.toNat + 1 - (Digits.write a.digits.natAbs).length)
      ++ Digits.write a.digits.natAbs = ds
  have hDigits : ∀ c ∈ ds, c.isDigit = true := by
    rw [← hPadded]
    intro c hc
    rcases List.mem_append.1 hc with hc | hc
    · exact Digits.isDigit_of_mem_zeros hc
    · exact Digits.isDigit_of_mem_write hc
  have hLength : a.scale.toNat < ds.length := by
    rw [← hPadded, List.length_append]
    unfold Digits.zeros
    rw [List.length_replicate]
    omega
  have hValue : Digits.read 10 ds = a.digits.natAbs := by
    rw [← hPadded, Digits.read_zeros_append _ fun c hc =>
      Digits.isDigit_of_mem_write hc, Digits.read_write]
  have hSome : ds ≠ [] := by
    rintro rfl
    exact absurd hLength (Nat.not_lt_zero _)
  have hRead : readSigned? (a.sign ++ ds) = some a.digits := by
    rw [readSigned?_of_digits hSome hDigits, hValue]
    congr 1
    split <;> omega
  have hWhole :
      ∀ c ∈ ds.take (ds.length - a.scale.toNat), c.isDigit = true :=
    fun c hc => hDigits c (List.mem_of_mem_take hc)
  have hFraction :
      ∀ c ∈ ds.drop (ds.length - a.scale.toNat), c.isDigit = true :=
    fun c hc => hDigits c (List.mem_of_mem_drop hc)
  have hSplit := splitPoint_of_digits (a := a) hWhole hFraction
  rw [List.take_append_drop] at hSplit
  have hText :=
    read?_of_mantissa (not_mark_point hWhole hFraction) hSplit hRead
  rw [List.length_drop, eq_of_scale (by omega)] at hText
  rw [← hText]
  simp

/- Appended zeros become digits. -/
theorem read?_appended (h : a.scale ≤ 0) :
    read? (a.sign ++ a.positional) =
      some ⟨a.digits * Digits.tens (-a.scale).toNat, 0⟩ := by
  unfold positional
  rw [if_pos h]
  have hWrite :
      ∀ c ∈ Digits.write a.digits.natAbs, c.isDigit = true :=
    fun c hc => Digits.isDigit_of_mem_write hc
  have hDigits :
      ∀ c ∈ Digits.write a.digits.natAbs
          ++ Digits.zeros (-a.scale).toNat,
        c.isDigit = true := by
    intro c hc
    rcases List.mem_append.1 hc with hc | hc
    · exact hWrite c hc
    · exact Digits.isDigit_of_mem_zeros hc
  have hSome :
      Digits.write a.digits.natAbs ++ Digits.zeros (-a.scale).toNat ≠
        [] := by
    intro hNil
    exact Digits.write_ne_nil _ (List.append_eq_nil_iff.1 hNil).1
  have hRead := readSigned?_of_digits (a := a) hSome hDigits
  rw [Digits.read_append_zeros _ hWrite, Digits.read_write] at hRead
  have hText :=
    read?_of_mantissa (not_mark_mantissa (a := a) hDigits)
      (splitPoint_of_not_mem
        (not_mem_mantissa hDigits (by decide) rfl)) hRead
  rw [hText]
  congr 2
  unfold Digits.tens
  generalize (-a.scale).toNat = k
  by_cases hSign : a.digits < 0
  · have hAbs : (a.digits.natAbs : Int) = -a.digits := by omega
    rw [if_pos hSign, Int.natCast_mul, hAbs, Int.neg_mul, Int.neg_neg]
    rfl
  · have hAbs : (a.digits.natAbs : Int) = a.digits := by omega
    rw [if_neg hSign, Int.natCast_mul, hAbs]
    rfl

/- A decimal that is stored is read back. -/
theorem read?_stored : read? a.stored = some a.restored := by
  unfold stored restored
  by_cases hZero : a.digits = 0
  · rw [if_pos hZero, if_pos hZero]
    rfl
  rw [if_neg hZero, if_neg hZero]
  by_cases hSmall : 5 < a.scale - a.count
  · rw [if_pos hSmall, if_neg (by omega)]
    exact read?_scientific
  rw [if_neg hSmall]
  by_cases hLarge : a.scale < -15
  · rw [if_pos hLarge, if_neg (by omega)]
    exact read?_raised (by omega)
  rw [if_neg hLarge]
  by_cases hWhole : a.scale ≤ 0
  · rw [if_pos ⟨by omega, hWhole⟩]
    exact read?_appended hWhole
  · rw [if_neg (by omega)]
    exact read?_positional (by omega)

end Decimal
end StackScript
