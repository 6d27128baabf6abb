import StackScript.Proofs.Number.NumericText
import StackScript.Proofs.Number.Rounding
import StackScript.Value.Basic

/-
  Numbers that are displayed and read back.

  A decimal is displayed in the one way that its value has:
  no zero too many on either side of the point, no exponent,
  and no sign in front of zero. The text denotes the value,
  so reading it gives the integer or an equal decimal.

  Key definitions include:
    * `Decimal.Tidy`
    * `Decimal.IsDisplayed`

  Key theorems include:
    * `Decimal.isDisplayed_display`
    * `Decimal.normalize_eq_iff`
    * `Decimal.denotes_display`
    * `Value.display_readable`
-/

namespace StackScript

------------------------------------------------------------
-- Written Digits
------------------------------------------------------------

namespace Digits

variable {n : Nat}
variable {cs : List Char}

theorem isRun_of_digits
    (hSome : cs ≠ [])
    (h : ∀ c ∈ cs, c.isDigit = true) :
    IsRun 10 cs := by
  refine ⟨hSome, ?_⟩
  intro c hc
  rw [← isDigit_iff (by omega)]
  unfold isDigit
  rw [value?_of_isDigit (h c hc)]
  rfl

theorem isRun_write (n : Nat) : IsRun 10 (write n) :=
  isRun_of_digits (write_ne_nil n) fun _ hc => isDigit_of_mem_write hc

theorem placed_write (n : Nat) : placed 10 (write n) = n := by
  rw [← read_eq_placed (by omega) (isRun_write n).2, read_write]

/- Zeros in front of what is written, or behind it, are digits. -/
theorem isDigit_of_mem_padded
    {k : Nat}
    {c : Char}
    (h : c ∈ zeros k ++ write n) :
    c.isDigit = true := by
  rcases List.mem_append.1 h with h | h
  · exact isDigit_of_mem_zeros h
  · exact isDigit_of_mem_write h

theorem isDigit_of_mem_raised
    {k : Nat}
    {c : Char}
    (h : c ∈ write n ++ zeros k) :
    c.isDigit = true := by
  rw [List.mem_append, or_comm, ← List.mem_append] at h
  exact isDigit_of_mem_padded h

/- The last digit that is written is the one of the units. -/
theorem exists_write_concat (n : Nat) :
    ∃ cs, write n = cs ++ [(n % 10).digitChar] := by
  unfold write
  by_cases hSmall : n < 10
  · refine ⟨[], ?_⟩
    rw [Nat.toDigits_of_lt_base hSmall, Nat.mod_eq_of_lt hSmall]
    rfl
  · exact ⟨_, Nat.toDigits_of_base_le (by omega) (by omega)⟩

theorem digitChar_ne_zero
    (h : n < 10)
    (hPos : n ≠ 0) :
    n.digitChar ≠ '0' := by
  intro hZero
  have hValue := Nat.toNat_digitChar_sub_48_of_lt_ten h
  rw [hZero] at hValue
  exact hPos hValue.symm

end Digits

namespace Decimal

open Binary64 (IsNumeral)

variable {a b : Decimal}
variable {cs : List Char}
variable {m : Constant.Reading}

------------------------------------------------------------
-- The Form of the Text
------------------------------------------------------------

/-
  Digits without a zero too many in front, and if there is a
  point, digits behind it that do not end in a zero.
-/
inductive Tidy : List Char → Prop
| whole
    {ds : List Char}
    (h : IsNumeral ds) :
    Tidy ds
| fraction
    {ds es : List Char}
    {c : Char}
    (hWhole : IsNumeral ds)
    (hPlaces : ∀ d ∈ es, d.isDigit = true)
    (hLast : es.getLast? = some c)
    (hSome : c ≠ '0') :
    Tidy (ds ++ '.' :: es)

/- A sign stands in front of all but zero. -/
def IsDisplayed (cs : List Char) : Prop :=
  Tidy cs ∨ ∃ ds, cs = '-' :: ds ∧ ds ≠ ['0'] ∧ Tidy ds

/- The digits of a magnitude with places, around the point. -/
theorem exists_positional (h : 0 < a.scale) :
    ∃ ds es k,
      a.positional = ds ++ '.' :: es ∧
      ds ++ es = Digits.zeros k ++ Digits.write a.digits.natAbs ∧
      (es.length : Int) = a.scale ∧
      IsNumeral ds := by
  have hWrite := Binary64.isNumeral_write a.digits.natAbs
  unfold positional
  rw [if_neg (by omega)]
  dsimp only
  generalize Digits.write a.digits.natAbs = ws at *
  generalize hPlaces : a.scale.toNat = p
  generalize hPadded : Digits.zeros (p + 1 - ws.length) ++ ws = ds
  have hLength : ds.length = p + 1 - ws.length + ws.length := by
    rw [← hPadded, List.length_append, Digits.zeros,
      List.length_replicate]
  refine ⟨ds.take (ds.length - p), ds.drop (ds.length - p),
    p + 1 - ws.length, ?_, ?_, ?_, ?_⟩
  · rw [List.append_assoc, List.singleton_append]
  · rw [List.take_append_drop, hPadded]
  · rw [List.length_drop]
    omega
  · by_cases hShort : ws.length ≤ p
    · have hZero :
          Digits.zeros (p + 1 - ws.length) =
            '0' :: Digits.zeros (p - ws.length) := by
        rw [show p + 1 - ws.length = p - ws.length + 1 by omega]
        rfl
      rw [← hPadded, hZero] at hLength ⊢
      have hOne :
          ('0' :: Digits.zeros (p - ws.length) ++ ws).length - p = 1 := by
        omega
      rw [hOne]
      exact Binary64.isNumeral_write 0
    · have hNone : Digits.zeros (p + 1 - ws.length) = [] := by
        rw [show p + 1 - ws.length = 0 by omega]
        rfl
      rw [hNone, List.nil_append] at hPadded
      subst hPadded
      refine ⟨fun c hc => hWrite.1 c (List.mem_of_mem_take hc), ?_⟩
      rcases hWrite.2 with rfl | ⟨c, ds, rfl, hFirst⟩
      · simp only [List.length_singleton] at hShort
        omega
      · right
        rw [show (c :: ds).length - p = (c :: ds).length - p - 1 + 1 by
          omega]
        exact ⟨c, _, rfl, hFirst⟩

/- Only zero is written as a zero. -/
theorem positional_ne_zero
    (h : a.digits ≠ 0) :
    a.positional ≠ ['0'] := by
  by_cases hWhole : a.scale ≤ 0
  · rcases Digits.head_write (Int.natAbs_pos.2 h) with
      ⟨c, cs, hWrite, hFirst⟩
    unfold positional
    rw [if_pos hWhole, hWrite]
    intro hZero
    exact hFirst (List.cons.inj hZero).1
  · rcases exists_positional (not_le.1 hWhole) with
      ⟨ds, es, k, hText, -⟩
    have hPoint : '.' ∈ a.positional := by
      rw [hText]
      simp
    intro hZero
    rw [hZero] at hPoint
    simp at hPoint

/- A magnitude that ends in no zero is tidy. -/
theorem tidy_positional
    (h : a.digits % 10 ≠ 0) :
    Tidy a.positional := by
  by_cases hWhole : a.scale ≤ 0
  · have hPos : 0 < a.digits.natAbs := by omega
    rcases Digits.head_write hPos with ⟨c, cs, hWrite, hFirst⟩
    unfold positional
    rw [if_pos hWhole]
    have hText :
        Digits.write a.digits.natAbs ++ Digits.zeros (-a.scale).toNat =
          c :: (cs ++ Digits.zeros (-a.scale).toNat) := by
      rw [hWrite]
      rfl
    exact .whole ⟨fun _ => Digits.isDigit_of_mem_raised,
      .inr ⟨c, _, hText, hFirst⟩⟩
  · rcases exists_positional (a := a) (by omega) with
      ⟨ds, es, k, hText, hDigits, hLength, hNumeral⟩
    have hAll : ∀ d ∈ es, d.isDigit = true := by
      intro d hd
      have hMem : d ∈ ds ++ es := List.mem_append.2 (.inr hd)
      rw [hDigits] at hMem
      exact Digits.isDigit_of_mem_padded hMem
    have hSome : es ≠ [] := by
      rintro rfl
      simp at hLength
      omega
    rcases Digits.exists_write_concat a.digits.natAbs with ⟨ws, hWrite⟩
    have hLast := congrArg List.getLast? hDigits
    rw [List.getLast?_append_of_ne_nil _ hSome, hWrite,
      ← List.append_assoc, List.getLast?_concat] at hLast
    rw [hText]
    exact .fraction hNumeral hAll hLast
      (Digits.digitChar_ne_zero (by omega) (by omega))

/- The text of a decimal has the one form. -/
theorem isDisplayed_display (a : Decimal) : IsDisplayed a.display := by
  by_cases hZero : a.digits = 0
  · have hText : a.display = ['0'] := by
      unfold display normalize
      rw [if_pos hZero]
      rfl
    rw [hText]
    exact .inl (.whole (Binary64.isNumeral_write 0))
  have hTidy := tidy_positional (normalize_digits_mod_ten hZero)
  have hSome := normalize_digits_mod_ten hZero
  unfold display
  generalize a.normalize = b at *
  dsimp only
  unfold sign
  by_cases hSign : b.digits < 0
  · rw [if_pos hSign]
    exact .inr ⟨_, rfl, positional_ne_zero (by omega), hTidy⟩
  · rw [if_neg hSign]
    exact .inl hTidy

------------------------------------------------------------
-- One Text for One Value
------------------------------------------------------------

/- Of two equal decimals the finer one has zeros appended. -/
theorem digits_eq
    (h : a.value = b.value)
    (hScale : a.scale ≤ b.scale) :
    b.digits = a.digits * 10 ^ (b.scale - a.scale).toNat := by
  have hSame := digitsAt_eq hScale
  rw [h, ← digitsAt_eq le_rfl] at hSame
  have hDigits : a.digitsAt b.scale = b.digitsAt b.scale := by
    exact_mod_cast hSame
  simpa [digitsAt, Digits.tens] using hDigits.symm

/- Decimals without zeros at the end are equal by value. -/
theorem eq_of_value
    (ha : a.digits % 10 ≠ 0)
    (hb : b.digits % 10 ≠ 0)
    (h : a.value = b.value) :
    a = b := by
  wlog hScale : a.scale ≤ b.scale generalizing a b with hOther
  · exact (hOther hb ha h.symm (by omega)).symm
  have hDigits := digits_eq h hScale
  rcases hMore : (b.scale - a.scale).toNat with _ | k
  · rw [hMore, pow_zero, mul_one] at hDigits
    have hPlaces : b.scale = a.scale := by omega
    cases a
    cases b
    rw [mk.injEq]
    exact ⟨hDigits.symm, hPlaces.symm⟩
  · rw [hMore, pow_succ, ← mul_assoc] at hDigits
    omega

/- Without zeros at the end, places are those of a fraction. -/
theorem value_ne_intCast
    (h : a.digits % 10 ≠ 0)
    (hScale : 0 < a.scale)
    (i : Int) :
    a.value ≠ i := by
  intro hValue
  rw [← value_ofInt] at hValue
  have hDigits := digits_eq hValue.symm hScale.le
  rcases hMore : (a.scale - (ofInt i).scale).toNat with _ | k
  · change (a.scale - 0).toNat = 0 at hMore
    omega
  · rw [hMore, pow_succ, ← mul_assoc] at hDigits
    omega

theorem normalize_eq_iff :
    a.normalize = b.normalize ↔ a.value = b.value := by
  constructor
  · intro h
    rw [← value_normalize a, h, value_normalize]
  · intro h
    by_cases hZero : a.digits = 0
    · have hOther : b.digits = 0 := by
        rw [← value_eq_zero_iff, ← h, value_eq_zero_iff]
        exact hZero
      unfold normalize
      rw [if_pos hZero, if_pos hOther]
    · have hOther : b.digits ≠ 0 := by
        rw [Ne, ← value_eq_zero_iff, ← h, value_eq_zero_iff]
        exact hZero
      apply eq_of_value (normalize_digits_mod_ten hZero)
        (normalize_digits_mod_ten hOther)
      rw [value_normalize, value_normalize, h]

------------------------------------------------------------
-- Reading the Text
------------------------------------------------------------

/- A magnitude without places denotes an integer. -/
theorem unsigned_appended (h : a.scale ≤ 0) :
    Constant.Unsigned a.positional
      (.whole (a.digits.natAbs * 10 ^ (-a.scale).toNat : ℕ)) := by
  have hRun :
      Digits.IsRun 10
        (Digits.write a.digits.natAbs
          ++ Digits.zeros (-a.scale).toNat) :=
    Digits.isRun_of_digits
      (List.append_ne_nil_of_left_ne_nil (Digits.write_ne_nil _) _)
      fun _ => Digits.isDigit_of_mem_raised
  have hValue :
      Digits.placed 10
          (Digits.write a.digits.natAbs
            ++ Digits.zeros (-a.scale).toNat) =
        a.digits.natAbs * 10 ^ (-a.scale).toNat := by
    rw [← Digits.read_eq_placed (by omega) hRun.2,
      Digits.read_append_zeros _ fun _ => Digits.isDigit_of_mem_write,
      Digits.read_write]
  unfold positional
  rw [if_pos h, ← hValue]
  exact .decimal hRun

/- A magnitude with places denotes a fraction. -/
theorem unsigned_pointed (h : 0 < a.scale) :
    Constant.Unsigned a.positional (.fraction |a.value|) := by
  rcases exists_positional h with
    ⟨ds, es, k, hText, hDigits, hLength, hNumeral⟩
  have hAll : ∀ c ∈ ds ++ es, c.isDigit = true := by
    rw [hDigits]
    exact fun _ => Digits.isDigit_of_mem_padded
  have hWhole : Digits.IsRun 10 ds := by
    refine Digits.isRun_of_digits ?_ hNumeral.1
    rcases hNumeral.2 with rfl | ⟨c, cs, rfl, -⟩ <;> simp
  have hPlaces : Digits.IsRun 10 es := by
    refine Digits.isRun_of_digits ?_ fun c hc =>
      hAll c (List.mem_append.2 (.inr hc))
    rintro rfl
    simp at hLength
    omega
  have hRead : Digits.placed 10 (ds ++ es) = a.digits.natAbs := by
    rw [← Digits.read_eq_placed (by omega)
      (Digits.isRun_of_digits (by simp [hWhole.1]) hAll).2, hDigits,
      Digits.read_zeros_append _ fun _ => Digits.isDigit_of_mem_write,
      Digits.read_write]
  rw [hText, abs_value, ← hLength, ← hRead, ← Digits.placed_point]
  exact .fraction hWhole hPlaces

/- The sign of a decimal is the sign of what is read. -/
theorem signed_sign (h : Constant.Unsigned cs m) :
    Constant.Signed (a.sign ++ cs)
      (if a.digits < 0 then m.neg else m) := by
  unfold sign
  by_cases hSign : a.digits < 0
  · rw [if_pos hSign, if_pos hSign]
    exact .minus h
  · rw [if_neg hSign, if_neg hSign]
    exact .plain h

end Decimal

/- A text without blanks denotes what its characters do. -/
theorem Constant.Signed.denotes
    {cs : List Char}
    {m : Reading}
    (h : Signed cs m) :
    Denotes (String.ofList cs) m :=
  ⟨[], cs, [], by simp, nofun, nofun, h⟩

namespace Decimal

variable {a b : Decimal}

/- An integer that is displayed denotes itself. -/
theorem denotes_writeInt (i : Int) :
    Constant.Denotes (String.ofList (Digits.writeInt i))
      (.whole i) := by
  have hRun :
      Constant.Unsigned (Digits.write i.natAbs)
        (.whole i.natAbs) := by
    have hUnsigned :=
      Constant.Unsigned.decimal (Digits.isRun_write i.natAbs)
    rwa [Digits.placed_write] at hUnsigned
  apply Constant.Signed.denotes
  rcases Digits.writeInt_eq i with ⟨hSign, hText⟩ | ⟨hSign, hText⟩
  · rw [hText, show i = -(i.natAbs : ℤ) by omega]
    rw [Int.natAbs_neg, Int.natAbs_natCast]
    exact .minus hRun
  · rw [hText]
    have hValue : (i.natAbs : ℤ) = i := by omega
    rw [hValue] at hRun
    exact .plain hRun

/- The text of a decimal denotes its value, of the sort it has. -/
theorem denotes_display (a : Decimal) :
    (∃ i : Int, a.value = i ∧
        Constant.Denotes (String.ofList a.display) (.whole i)) ∨
      ((∀ i : Int, a.value ≠ i) ∧
        Constant.Denotes (String.ofList a.display)
          (.fraction a.value)) := by
  have hLast : 0 < a.normalize.scale → a.normalize.digits % 10 ≠ 0 := by
    intro hScale
    apply normalize_digits_mod_ten
    intro hZero
    unfold normalize at hScale
    rw [if_pos hZero] at hScale
    exact absurd hScale (by decide)
  rw [← value_normalize]
  unfold display
  generalize a.normalize = b at *
  dsimp only
  by_cases hScale : b.scale ≤ 0
  · left
    have hSigned :=
      (signed_sign (a := b) (unsigned_appended hScale)).denotes
    have hPower :
        ((10 ^ (-b.scale).toNat : ℤ) : ℚ) = (10 : ℚ) ^ (-b.scale) := by
      push_cast
      rw [← zpow_natCast, Int.toNat_of_nonneg (by omega)]
    refine ⟨b.digits * 10 ^ (-b.scale).toNat, ?_, ?_⟩
    · rw [Int.cast_mul, hPower]
      rfl
    · convert hSigned using 1
      push_cast
      by_cases hSign : b.digits < 0
      · rw [if_pos hSign, abs_of_neg hSign]
        exact congrArg Constant.Reading.whole (by ring)
      · rw [if_neg hSign, abs_of_nonneg (not_lt.1 hSign)]
  · right
    have hPos : 0 < b.scale := not_le.1 hScale
    have hSigned :=
      (signed_sign (a := b) (unsigned_pointed hPos)).denotes
    refine ⟨value_ne_intCast (hLast hPos) hPos, ?_⟩
    convert hSigned using 1
    by_cases hSign : b.digits < 0
    · rw [if_pos hSign, abs_of_neg (value_neg_iff.2 hSign)]
      exact congrArg Constant.Reading.fraction (neg_neg _).symm
    · rw [if_neg hSign,
        abs_of_nonneg (not_lt.1 (mt value_neg_iff.1 hSign))]

end Decimal

/- Equal texts are those of equal numbers. -/
theorem Decimal.display_eq_iff
    {a b : Decimal} :
    a.display = b.display ↔ a.value = b.value := by
  constructor
  · intro h
    rcases denotes_display a with ⟨i, ha, hText⟩ | ⟨_, hText⟩
    · rw [h] at hText
      rcases denotes_display b with ⟨j, hb, hOther⟩ | ⟨_, hOther⟩
      · cases hText.unique hOther
        rw [ha, hb]
      · cases hText.unique hOther
    · rw [h] at hText
      rcases denotes_display b with ⟨j, hb, hOther⟩ | ⟨_, hOther⟩
      · cases hText.unique hOther
      · exact Constant.Reading.fraction.inj (hText.unique hOther)
  · intro h
    unfold display
    rw [normalize_eq_iff.2 h]

/-
  Numbers are displayed in one form, decimals alike exactly
  if they are equal; and reading the text gives the integer,
  or an equal decimal for a number that is none.
-/
theorem Value.display_readable :
    (∀ a : Decimal,
      Decimal.IsDisplayed (Value.decimal a).display.toList) ∧
    (∀ a b : Decimal,
      (Value.decimal a).display = (Value.decimal b).display ↔
        a.value = b.value) ∧
    (∀ a : Decimal,
      (∀ i : Int, a.value = i →
        Constant.ofText? (Value.decimal a).display =
          some (Constant.ofInt i)) ∧
      ((∀ i : Int, a.value ≠ i) →
        ∃ b : Decimal,
          Constant.ofText? (Value.decimal a).display =
            some (.decimal b) ∧
          b.value = a.value)) ∧
    ∀ i : Int,
      Constant.ofText? (Value.integer i).display =
        some (Constant.ofInt i) := by
  refine ⟨?_, ?_, ?_, ?_⟩
  · intro a
    rw [Value.display, String.toList_ofList]
    exact a.isDisplayed_display
  · intro a b
    rw [Value.display, Value.display, String.ofList_inj]
    exact Decimal.display_eq_iff
  · intro a
    rcases a.denotes_display with ⟨j, ha, hText⟩ | ⟨ha, hText⟩
    · rcases hText.agrees with ⟨c, hRead, hc⟩
      constructor
      · intro i hValue
        have hSame : i = j := by
          exact_mod_cast hValue.symm.trans ha
        rw [hSame, Value.display, hRead, hc]
      · intro hNone
        exact absurd ha (hNone j)
    · rcases hText.agrees with ⟨c, hRead, b, hc, hb⟩
      refine ⟨fun i hValue => absurd hValue (ha i),
        fun _ => ⟨b, ?_, hb⟩⟩
      rw [Value.display, hRead, hc]
  · intro i
    rcases (Decimal.denotes_writeInt i).agrees with ⟨c, hRead, hc⟩
    rw [Value.display, hRead, hc]

/- A decimal with zeros at the end, and one below a tenth. -/
theorem Value.display_readable_places :
    Constant.ofText? (Value.decimal ⟨-1200, 2⟩).display =
        some (Constant.ofInt (-12)) ∧
      ∃ b : Decimal,
        Constant.ofText? (Value.decimal ⟨-50, 4⟩).display =
            some (.decimal b) ∧
          b.value = -1 / 200 := by
  have hWhole : (⟨-1200, 2⟩ : Decimal).value = (-12 : ℤ) := by
    norm_num [Decimal.value]
  have hPart : (⟨-50, 4⟩ : Decimal).value = -1 / 200 := by
    norm_num [Decimal.value]
  have hNone : ∀ i : Int, (⟨-50, 4⟩ : Decimal).value ≠ i := by
    intro i hValue
    rw [hPart] at hValue
    have hTimes : ((-1 : ℤ) : ℚ) = ((i * 200 : ℤ) : ℚ) := by
      push_cast
      linarith
    have hCast : -1 = i * 200 := by exact_mod_cast hTimes
    omega
  rcases (Value.display_readable.2.2.1 ⟨-50, 4⟩).2 hNone with
    ⟨b, hRead, hb⟩
  exact ⟨(Value.display_readable.2.2.1 ⟨-1200, 2⟩).1 (-12) hWhole,
    b, hRead, hb.trans hPart⟩

end StackScript
