import StackScript.Proofs.Number.NearestBinary
import StackScript.Proofs.Number.StoredBinary
import StackScript.Proofs.Number.StoredDecimal
import StackScript.Proofs.Token.Lexemes

/-
  Numeric text as a grammar.

  A numeric text is a number with an optional sign and any
  blanks around it. What it denotes is said by the places of
  its digits: an integer, or a fraction when it has a point.
  The reader accepts these texts and no others, and makes
  the constant that has this very value.

  Key definitions include:
    * `Digits.worth`
    * `Digits.placed`
    * `Constant.Reading`
    * `Constant.Unsigned`
    * `Constant.Denotes`
    * `Constant.Agrees`

  Key theorems include:
    * `Digits.read_eq_placed`
    * `Binary64.value_ofInt`
    * `Constant.Denotes.agrees`
    * `Constant.Denotes.unique`
    * `Constant.exists_denotes`
    * `Constant.ofText?_exact`
-/

namespace StackScript

------------------------------------------------------------
-- Digits by Their Places
------------------------------------------------------------

namespace Digits

/- The digits of all bases up to sixteen, in order. -/
def row : List Char :=
  ['0', '1', '2', '3', '4', '5', '6', '7', '8', '9',
   'a', 'b', 'c', 'd', 'e', 'f']

/- What a digit of either case counts; sixteen for no digit. -/
def worth (c : Char) : Nat :=
  row.idxOf c.toLower

/- Digits below a base, at least one. -/
def IsRun
    (base : Nat)
    (cs : List Char) : Prop :=
  cs ≠ [] ∧ ∀ c ∈ cs, worth c < base

instance
    (base : Nat)
    (cs : List Char) :
    Decidable (IsRun base cs) :=
  decidable_of_iff
    (cs ≠ [] ∧ cs.all (fun c => decide (worth c < base)) = true)
    (by simp [IsRun])

/- The sum of what the digits count at their places. -/
def placed (base : Nat) : List Char → Nat
| [] => 0
| c :: cs => worth c * base ^ cs.length + placed base cs

variable {base : Nat}
variable {c : Char}
variable {cs ds : List Char}

theorem value?_ascii :
    ∀ n : Fin 128,
      value? 16 (Char.ofNat n) =
        if worth (Char.ofNat n) < 16 then some (worth (Char.ofNat n))
        else none := by
  decide +kernel

/- Digits are characters of one byte. -/
theorem toNat_lt_of_worth (h : worth c < 16) : c.toNat < 128 := by
  have hMem : c.toLower ∈ row :=
    List.idxOf_lt_length_iff.1 h
  have hLower : ∀ d ∈ row, d.toNat < 128 := by
    simp [row]
  have hLess := hLower _ hMem
  unfold Char.toLower at hLess
  split at hLess
  · rename_i hUpper
    have hMost : c.toNat ≤ 90 := hUpper.2
    omega
  · exact hLess

/- A digit up to base sixteen is valued by its place in the row. -/
theorem value?_eq
    (hBase : base ≤ 16)
    (c : Char) :
    value? base c =
      if worth c < base then some (worth c) else none := by
  have hFilter :
      value? base c = (value? 16 c).filter (· < base) := by
    unfold value?
    dsimp only
    rw [Option.filter_filter]
    congr 1
    funext n
    rw [← Bool.decide_and]
    exact decide_eq_decide.2 ⟨fun h => ⟨by omega, h⟩, fun h => h.2⟩
  have hSixteen :
      value? 16 c = if worth c < 16 then some (worth c) else none := by
    by_cases hByte : c.toNat < 128
    · have hAscii := value?_ascii ⟨c.toNat, hByte⟩
      rwa [Char.ofNat_toNat] at hAscii
    · have hNone : value? 16 c = none := by
        by_contra hSome
        have hDigit : isDigit 16 c = true :=
          Option.isSome_iff_ne_none.2 hSome
        have hRange := Token.toNat_of_isDigit hDigit
        omega
      rw [hNone, if_neg (mt toNat_lt_of_worth hByte)]
  rw [hFilter, hSixteen]
  by_cases hLess : worth c < base
  · simp [hLess, hLess.trans_le hBase]
  · rw [if_neg hLess]
    by_cases hDigit : worth c < 16 <;> simp [hDigit, not_lt.1 hLess]

theorem isDigit_iff
    (hBase : base ≤ 16) :
    isDigit base c = true ↔ worth c < base := by
  unfold isDigit
  rw [value?_eq hBase]
  by_cases hLess : worth c < base <;> simp [hLess]

theorem isRun_iff (hBase : base ≤ 16) :
    IsRun base cs ↔ Token.IsDigits base cs := by
  unfold IsRun Token.IsDigits
  simp only [isDigit_iff hBase]

/- Reading digits one by one adds up what they count. -/
theorem read_eq_placed
    (hBase : base ≤ 16)
    (h : ∀ c ∈ cs, worth c < base) :
    read base cs = placed base cs := by
  have hFold (n : Nat) :
      cs.foldl (fun n c => n * base + (value? base c).getD 0) n =
        n * base ^ cs.length + placed base cs := by
    induction cs generalizing n with
    | nil => simp [placed]
    | cons c cs ih =>
        have hLess := h c List.mem_cons_self
        rw [List.foldl_cons, value?_eq hBase, if_pos hLess,
          Option.getD_some, ih fun d hd => h d (List.mem_cons_of_mem _ hd)]
        simp only [placed, List.length_cons]
        ring
  unfold read
  rw [hFold, Nat.zero_mul, Nat.zero_add]

theorem IsRun.read?
    (hBase : base ≤ 16)
    (h : IsRun base cs) :
    read? base cs = some (placed base cs) := by
  rw [((isRun_iff hBase).1 h).read?, read_eq_placed hBase h.2]

/- Digits in front of others stand as many places higher. -/
theorem placed_append
    (base : Nat)
    (cs ds : List Char) :
    placed base (cs ++ ds) =
      placed base cs * base ^ ds.length + placed base ds := by
  induction cs with
  | nil => simp [placed]
  | cons c cs ih =>
      simp only [List.cons_append, placed, List.length_append, ih]
      ring

/- What stands around a point are the digits, as many places lower. -/
theorem placed_point (ds es : List Char) :
    (placed 10 ds : ℚ) + placed 10 es / 10 ^ es.length =
      placed 10 (ds ++ es) * (10 : ℚ) ^ (-(es.length : ℤ)) := by
  have hPower : (10 : ℚ) ^ es.length ≠ 0 := by positivity
  rw [placed_append, zpow_neg, zpow_natCast]
  push_cast
  field_simp

end Digits

------------------------------------------------------------
-- Integers as Floating-Point Numbers
------------------------------------------------------------

/- Integers up to `2 ^ 53` have a number of their own. -/
theorem Binary64.value_ofInt
    {i : Int}
    (h : i.natAbs < 2 ^ 53) :
    (ofInt i).isFinite = true ∧ (ofInt i).value = i := by
  refine ⟨(isWhole_ofInt h).isFinite, ?_⟩
  by_cases hZero : i = 0
  · rw [hZero]
    norm_num [ofInt, ofFraction, zero, value]
  have hPos : 0 < i.natAbs := Int.natAbs_pos.2 hZero
  have hLog := log2_lt_of_lt h
  have hMagnitude :
      ((i.natAbs * 2 ^ (52 - i.natAbs.log2) : ℕ) : ℚ) *
          (2 : ℚ) ^ ((i.natAbs.log2 : ℤ) - 52) = i.natAbs := by
    push_cast
    rw [mul_assoc, ← zpow_natCast, ← zpow_add₀ (by norm_num),
      show ((52 - i.natAbs.log2 : ℕ) : ℤ) + (i.natAbs.log2 - 52) = 0 by
        omega,
      zpow_zero, mul_one]
  unfold ofInt
  rw [(ofFraction_eq_whole_iff hPos h hPos).2 rfl, whole_eq hPos h]
  unfold value
  dsimp only
  rw [hMagnitude]
  by_cases hSign : i < 0
  · simp only [hSign, decide_true, if_true]
    rw [Nat.cast_natAbs, Int.cast_abs,
      abs_of_neg (by exact_mod_cast hSign),
      neg_neg]
  · simp only [hSign, decide_false]
    rw [Nat.cast_natAbs, Int.cast_abs,
      abs_of_nonneg (by exact_mod_cast not_lt.1 hSign)]
    rfl

namespace Constant

------------------------------------------------------------
-- The Grammar
------------------------------------------------------------

/- The number that a text denotes: whole, or with a point. -/
inductive Reading where
| whole (i : Int)
| fraction (x : ℚ)

/- The negative number, of the same sort. -/
def Reading.neg : Reading → Reading
| .whole i => .whole (-i)
| .fraction x => .fraction (-x)

/- A number without a sign. -/
inductive Unsigned : List Char → Reading → Prop
| binary
    {ds : List Char}
    (h : Digits.IsRun 2 ds) :
    Unsigned ('0' :: 'b' :: ds) (.whole (Digits.placed 2 ds))
| hexadecimal
    {ds : List Char}
    (h : Digits.IsRun 16 ds) :
    Unsigned ('0' :: 'x' :: ds) (.whole (Digits.placed 16 ds))
| decimal
    {ds : List Char}
    (h : Digits.IsRun 10 ds) :
    Unsigned ds (.whole (Digits.placed 10 ds))
| fraction
    {ds es : List Char}
    (hWhole : Digits.IsRun 10 ds)
    (hPlaces : Digits.IsRun 10 es) :
    Unsigned (ds ++ '.' :: es)
      (.fraction
        (Digits.placed 10 ds + Digits.placed 10 es / 10 ^ es.length))

/- A number with one sign in front, or none. -/
inductive Signed : List Char → Reading → Prop
| plain
    {cs : List Char}
    {m : Reading}
    (h : Unsigned cs m) :
    Signed cs m
| plus
    {cs : List Char}
    {m : Reading}
    (h : Unsigned cs m) :
    Signed ('+' :: cs) m
| minus
    {cs : List Char}
    {m : Reading}
    (h : Unsigned cs m) :
    Signed ('-' :: cs) m.neg

/- A text that is a number with blanks around it. -/
def Denotes
    (text : String)
    (m : Reading) : Prop :=
  ∃ before cs after : List Char,
    text.toList = before ++ cs ++ after ∧
    (∀ c ∈ before, Text.isBlank c = true) ∧
    (∀ c ∈ after, Text.isBlank c = true) ∧
    Signed cs m

/- The constant for a number: an integer, or an equal decimal. -/
def Agrees : Reading → Constant → Prop
| .whole i, c => c = ofInt i
| .fraction x, c => ∃ d : Decimal, c = .decimal d ∧ d.value = x

variable {cs ds es : List Char}
variable {m : Reading}
variable {c : Constant}
variable {negative : Bool}

theorem Unsigned.isNumber (h : Unsigned cs m) : Token.IsNumber cs := by
  have hDigits {base : Nat} {ds : List Char} (hBase : base ≤ 16) :
      Digits.IsRun base ds → Token.IsDigits base ds :=
    (Digits.isRun_iff hBase).1
  cases h with
  | binary h => exact .binary (hDigits (by omega) h)
  | hexadecimal h => exact .hexadecimal (hDigits (by omega) h)
  | decimal h => exact .whole (hDigits (by omega) h)
  | fraction hWhole hPlaces =>
      exact .fraction (hDigits (by omega) hWhole)
        (hDigits (by omega) hPlaces)

------------------------------------------------------------
-- Reading What the Grammar Gives
------------------------------------------------------------

/- The text is decimal unless its second character says else. -/
theorem unsigned?_of_decimal
    (h : ∀ rest, cs ≠ '0' :: 'b' :: rest ∧ cs ≠ '0' :: 'x' :: rest) :
    unsigned? negative cs =
      match Digits.read? 10 cs with
      | some n => some (ofInt (signed negative n))
      | none => (fraction? negative cs).map .decimal := by
  unfold unsigned?
  split
  · exact absurd rfl (h _).1
  · exact absurd rfl (h _).2
  · rfl

/- Digits, whatever other than a mark of a base is behind them. -/
theorem ne_marked
    (es : List Char)
    (h : Digits.IsRun 10 ds)
    (hNext : ∀ c ∈ es.head?, c ≠ 'b' ∧ c ≠ 'x')
    (rest : List Char) :
    ds ++ es ≠ '0' :: 'b' :: rest ∧ ds ++ es ≠ '0' :: 'x' :: rest := by
  have hDigits := (Digits.isRun_iff (by omega)).1 h
  constructor
  · intro hEq
    exact (hDigits.second_ne hNext hEq).1 rfl
  · intro hEq
    exact (hDigits.second_ne hNext hEq).2 rfl

/- Digits on both sides of a point, and no others, have a fraction. -/
theorem fraction?_eq
    (hWhole : Digits.IsRun 10 ds)
    (hPlaces : Digits.IsRun 10 es) :
    fraction? negative (ds ++ '.' :: es) =
      some
        ⟨signed negative (Digits.placed 10 (ds ++ es)), es.length⟩ := by
  have hBefore : ∀ c ∈ ds, (decide (c ≠ '.')) = true := by
    intro c hc
    have hDigits := (Digits.isRun_iff (by omega)).1 hWhole
    exact decide_eq_true (hDigits.ne hc (by decide))
  have hAll : ∀ c ∈ ds ++ es, Digits.worth c < 10 := by
    intro c hc
    rcases List.mem_append.1 hc with hc | hc
    · exact hWhole.2 c hc
    · exact hPlaces.2 c hc
  unfold fraction?
  rw [List.takeWhile_append_of_pos hBefore,
    List.dropWhile_append_of_pos hBefore]
  simp [hWhole.read? (by omega), hPlaces.read? (by omega),
    Digits.read_eq_placed (by omega) hAll]

/- A number without a sign is read as the number that it is. -/
theorem Unsigned.agrees
    (h : Unsigned cs m)
    (negative : Bool) :
    ∃ c, unsigned? negative cs = some c ∧
      Agrees (if negative then m.neg else m) c := by
  have hInteger (n : Nat) :
      Agrees
        (if negative then (Reading.whole n).neg else .whole n)
        (ofInt (signed negative n)) := by
    cases negative <;> rfl
  cases h with
  | binary h | hexadecimal h =>
      refine ⟨_, ?_, hInteger _⟩
      simp [unsigned?, h.read? (by omega)]
  | decimal h =>
      have hPlain := ne_marked [] h (by simp)
      rw [List.append_nil] at hPlain
      refine ⟨_, ?_, hInteger _⟩
      rw [unsigned?_of_decimal hPlain, h.read? (by omega)]
  | @fraction ds es hWhole hPlaces =>
      have hPlain :=
        ne_marked ('.' :: es) hWhole (by simp)
      have hPoint : Digits.read? 10 (ds ++ '.' :: es) = none := by
        unfold Digits.read?
        rw [if_neg]
        simp [show Digits.isDigit 10 '.' = false by decide]
      rw [unsigned?_of_decimal hPlain, hPoint,
        fraction?_eq hWhole hPlaces, Digits.placed_point]
      refine ⟨_, rfl, ?_⟩
      cases negative with
      | false => exact ⟨_, rfl, by simp [Decimal.value, signed]⟩
      | true => exact ⟨_, rfl, by simp [Decimal.value, signed]⟩

/- Blanks on both sides are trimmed. -/
theorem trim_padded
    {before after : List Char}
    (hBefore : ∀ c ∈ before, Text.isBlank c = true)
    (hAfter : ∀ c ∈ after, Text.isBlank c = true)
    (hSome : cs ≠ [])
    (h : ∀ c ∈ cs, Text.isBlank c = false) :
    Text.trim (before ++ cs ++ after) = cs := by
  have hKept :
      ∀ ds es : List Char, ds ≠ [] →
        (∀ c ∈ ds, Text.isBlank c = false) →
        (ds ++ es).dropWhile Text.isBlank = ds ++ es := by
    intro ds es hSome hNone
    rcases ds with _ | ⟨d, ds⟩
    · exact absurd rfl hSome
    · rw [List.cons_append, List.dropWhile_cons_of_neg]
      simp [hNone d List.mem_cons_self]
  have hLast : ∀ c ∈ after.reverse, Text.isBlank c = true := by
    intro c hc
    exact hAfter c (List.mem_reverse.1 hc)
  have hReverse : ∀ c ∈ cs.reverse, Text.isBlank c = false := by
    intro c hc
    exact h c (List.mem_reverse.1 hc)
  have hEnd := hKept cs.reverse [] (by simpa using hSome) hReverse
  unfold Text.trim Text.trimRight
  rw [List.append_assoc, List.dropWhile_append_of_pos hBefore,
    hKept cs after hSome h, List.reverse_append,
    List.dropWhile_append_of_pos hLast]
  rw [List.append_nil] at hEnd
  rw [hEnd, List.reverse_reverse]

theorem Unsigned.ne_nil (h : Unsigned cs m) : cs ≠ [] := by
  cases h with
  | binary | hexadecimal => exact List.cons_ne_nil _ _
  | decimal h => exact h.1
  | fraction => simp

/- What a text denotes is what it is read as. -/
theorem Denotes.agrees
    {text : String}
    (h : Denotes text m) :
    ∃ c, ofText? text = some c ∧ Agrees m c := by
  rcases h with ⟨before, cs, after, hText, hBefore, hAfter, hSigned⟩
  have hTrim (hSome : cs ≠ [])
      (hNone : ∀ c ∈ cs, Text.isBlank c = false) :
      Text.trim text.toList = cs := by
    rw [hText, trim_padded hBefore hAfter hSome hNone]
  unfold ofText?
  cases hSigned with
  | plain h =>
      rw [hTrim h.ne_nil h.isNumber.not_isBlank,
        h.isNumber.splitSign_eq]
      exact h.agrees false
  | plus h =>
      have hNone := h.isNumber.not_isBlank
      rw [hTrim (List.cons_ne_nil _ _)
        (List.forall_mem_cons.2 ⟨by decide, hNone⟩)]
      exact h.agrees false
  | minus h =>
      have hNone := h.isNumber.not_isBlank
      rw [hTrim (List.cons_ne_nil _ _)
        (List.forall_mem_cons.2 ⟨by decide, hNone⟩)]
      exact h.agrees true

------------------------------------------------------------
-- The Grammar Behind What Is Read
------------------------------------------------------------

/- Characters that are read as a number are digits. -/
theorem isRun_of_read?
    {base n : Nat}
    (hBase : base ≤ 16)
    (h : Digits.read? base cs = some n) :
    Digits.IsRun base cs := by
  rw [Digits.isRun_iff hBase]
  unfold Digits.read? at h
  split at h
  · rename_i hDigits
    simp only [Bool.and_eq_true, Bool.not_eq_true',
      List.isEmpty_eq_false_iff, List.all_eq_true] at hDigits
    exact hDigits
  · cases h

/- A fraction that is read has a point between digits. -/
theorem unsigned_of_fraction?
    {d : Decimal}
    (h : fraction? negative cs = some d) :
    ∃ m, Unsigned cs m := by
  have hSplit :
      cs.takeWhile (· ≠ '.') ++ cs.dropWhile (· ≠ '.') = cs :=
    List.takeWhile_append_dropWhile
  unfold fraction? at h
  dsimp only at h
  split at h
  · cases h
  · rename_i point places hRest
    have hPoint : point = '.' := by
      have hHead := List.head?_dropWhile_not (· ≠ '.') cs
      rw [hRest] at hHead
      simpa using hHead
    split at h
    · rename_i hWhole
      split at h
      · rename_i hPlaces
        rcases Option.isSome_iff_exists.1 hWhole with ⟨_, hWhole⟩
        rcases Option.isSome_iff_exists.1 hPlaces with ⟨_, hPlaces⟩
        rw [← hSplit, hRest, hPoint]
        exact ⟨_, .fraction (isRun_of_read? (by omega) hWhole)
          (isRun_of_read? (by omega) hPlaces)⟩
      · cases h
    · cases h

/- What is read without a sign is of the grammar. -/
theorem unsigned_of_unsigned?
    (h : unsigned? negative cs = some c) :
    ∃ m, Unsigned cs m := by
  unfold unsigned? at h
  split at h
  · rcases Option.map_eq_some_iff.1 h with ⟨n, hRead, -⟩
    exact ⟨_, .binary (isRun_of_read? (by omega) hRead)⟩
  · rcases Option.map_eq_some_iff.1 h with ⟨n, hRead, -⟩
    exact ⟨_, .hexadecimal (isRun_of_read? (by omega) hRead)⟩
  · split at h
    · rename_i hRead
      exact ⟨_, .decimal (isRun_of_read? (by omega) hRead)⟩
    · rcases Option.map_eq_some_iff.1 h with ⟨d, hFraction, -⟩
      exact unsigned_of_fraction? hFraction

/- Only blanks are trimmed. -/
theorem exists_padding (cs : List Char) :
    ∃ before after : List Char,
      cs = before ++ Text.trim cs ++ after ∧
      (∀ c ∈ before, Text.isBlank c = true) ∧
      ∀ c ∈ after, Text.isBlank c = true := by
  have hFirst :=
    List.takeWhile_append_dropWhile (p := Text.isBlank) (l := cs)
  have hLast :=
    List.takeWhile_append_dropWhile (p := Text.isBlank)
      (l := (cs.dropWhile Text.isBlank).reverse)
  refine ⟨cs.takeWhile Text.isBlank,
    ((cs.dropWhile Text.isBlank).reverse.takeWhile
      Text.isBlank).reverse, ?_, ?_, ?_⟩
  · unfold Text.trim Text.trimRight
    rw [List.append_assoc, ← List.reverse_append, hLast,
      List.reverse_reverse, hFirst]
  · exact List.all_eq_true.1 List.all_takeWhile
  · intro c hc
    exact List.all_eq_true.1 List.all_takeWhile c
      (List.mem_reverse.1 hc)

/- A text that is read as a constant denotes a number. -/
theorem exists_denotes
    {text : String}
    (h : ofText? text = some c) :
    ∃ m, Denotes text m := by
  rcases exists_padding text.toList with
    ⟨before, after, hText, hBefore, hAfter⟩
  have hPadded
      {m : Reading}
      (hSigned : Signed (Text.trim text.toList) m) :
      ∃ m, Denotes text m :=
    ⟨m, before, _, after, hText, hBefore, hAfter, hSigned⟩
  unfold ofText? at h
  unfold splitSign at h
  split at h
  rename_i negative cs hSplit
  rcases unsigned_of_unsigned? h with ⟨m, hUnsigned⟩
  split at hSplit
  · rename_i hMinus
    cases hSplit
    rw [hMinus] at hPadded
    exact hPadded (.minus hUnsigned)
  · rename_i hPlus
    cases hSplit
    rw [hPlus] at hPadded
    exact hPadded (.plus hUnsigned)
  · cases hSplit
    exact hPadded (.plain hUnsigned)

------------------------------------------------------------
-- The Constants
------------------------------------------------------------

/- An integer is a number up to `2 ^ 53 - 1`, and itself beyond. -/
theorem ofInt_cases (i : Int) :
    (|i| ≤ 2 ^ 53 - 1 ∧
        ∃ x : Binary64, ofInt i = .number x ∧
          x.isFinite = true ∧ x.value = i) ∨
      (2 ^ 53 - 1 < |i| ∧ ofInt i = .integer i) := by
  unfold ofInt maxSafe
  by_cases hSafe : -9007199254740991 ≤ i ∧ i ≤ 9007199254740991
  · left
    rw [if_pos hSafe, abs_le]
    refine ⟨by omega, _, rfl, Binary64.value_ofInt (by omega)⟩
  · right
    rw [if_neg hSafe, lt_abs]
    exact ⟨by omega, rfl⟩

theorem ofInt_inj
    {i j : Int}
    (h : ofInt i = ofInt j) :
    i = j := by
  rcases ofInt_cases i with ⟨_, x, hNumber, -, hValue⟩ | ⟨_, hInteger⟩
  · rcases ofInt_cases j with ⟨_, y, hOther, -, hSame⟩ | ⟨_, hOther⟩
    · rw [hNumber, hOther] at h
      cases h
      exact_mod_cast hValue.symm.trans hSame
    · rw [hNumber, hOther] at h
      cases h
  · rcases ofInt_cases j with ⟨_, y, hOther, -, hSame⟩ | ⟨_, hOther⟩
    · rw [hInteger, hOther] at h
      cases h
    · rw [hInteger, hOther] at h
      cases h
      rfl

/- A constant is the one for a single number. -/
theorem Agrees.unique
    {m' : Reading}
    (h : Agrees m c)
    (h' : Agrees m' c) :
    m = m' := by
  have hNot {i : Int} {d : Decimal} : ofInt i ≠ .decimal d := by
    unfold ofInt
    split <;> exact nofun
  cases m with
  | whole i =>
      cases m' with
      | whole j => rw [ofInt_inj (h.symm.trans h')]
      | fraction y =>
          rcases h' with ⟨d, hDecimal, -⟩
          exact absurd (h.symm.trans hDecimal) hNot
  | fraction x =>
      rcases h with ⟨d, hDecimal, hx⟩
      cases m' with
      | whole j => exact absurd (h'.symm.trans hDecimal) hNot
      | fraction y =>
          rcases h' with ⟨e, hOther, hy⟩
          cases hDecimal.symm.trans hOther
          rw [← hx, ← hy]

/- A text denotes one number at most. -/
theorem Denotes.unique
    {text : String}
    {m' : Reading}
    (h : Denotes text m)
    (h' : Denotes text m') :
    m = m' := by
  rcases h.agrees with ⟨c, hRead, hAgrees⟩
  rcases h'.agrees with ⟨c', hRead', hAgrees'⟩
  cases hRead.symm.trans hRead'
  exact hAgrees.unique hAgrees'

/-
  The texts of the grammar, and no others, are read. The
  constant is an equal decimal for a fraction; for an integer
  it is the number of that value up to `2 ^ 53 - 1`, and
  beyond it the integer itself.
-/
theorem ofText?_exact :
    (∀ text, (ofText? text).isSome = true ↔ ∃ m, Denotes text m) ∧
      (∀ text m, Denotes text m →
        ∃ c, ofText? text = some c ∧ Agrees m c) ∧
      ∀ i : Int,
        ((∃ x, ofInt i = .number x ∧ x.isFinite = true ∧ x.value = i) ↔
          |i| ≤ 2 ^ 53 - 1) ∧
        (ofInt i = .integer i ↔ 2 ^ 53 - 1 < |i|) := by
  refine ⟨?_, fun text m h => h.agrees, ?_⟩
  · intro text
    constructor
    · intro hSome
      rcases Option.isSome_iff_exists.1 hSome with ⟨c, hRead⟩
      exact exists_denotes hRead
    · rintro ⟨m, h⟩
      rcases h.agrees with ⟨c, hRead, -⟩
      exact Option.isSome_iff_exists.2 ⟨c, hRead⟩
  · intro i
    rcases ofInt_cases i with
      ⟨hSafe, x, hNumber, hx⟩ | ⟨hLarge, hInteger⟩
    · rw [hNumber]
      exact ⟨⟨fun _ => hSafe, fun _ => ⟨x, rfl, hx⟩⟩,
        ⟨nofun, fun hLess => absurd hSafe (not_le.2 hLess)⟩⟩
    · rw [hInteger]
      refine ⟨⟨?_, fun hLess => absurd hLess (not_le.2 hLarge)⟩,
        ⟨fun _ => hLarge, fun _ => rfl⟩⟩
      rintro ⟨x, hNumber, -⟩
      cases hNumber

/- Texts that have a part of a number too few or too many. -/
example :
    ["0b", "0x1.5", "+-1", "1.", ".5", "1 2"].all
      (fun text => (ofText? text).isNone) = true := by
  decide +kernel

/- A sign, blanks and digits of base sixteen, beyond `2 ^ 53`. -/
theorem ofText?_exact_hexadecimal :
    Denotes " -0x20000000000000\n" (.whole (-(2 ^ 53))) ∧
      ofText? " -0x20000000000000\n" = some (.integer (-(2 ^ 53))) := by
  have hDenotes :
      Denotes " -0x20000000000000\n" (.whole (-(2 ^ 53))) := by
    have hText :
        " -0x20000000000000\n".toList =
          [' '] ++ "-0x20000000000000".toList ++ ['\n'] := by
      decide +kernel
    have hRun : Digits.IsRun 16 "20000000000000".toList := by
      decide +kernel
    exact ⟨_, _, _, hText, List.forall_mem_singleton.2 (by decide),
      List.forall_mem_singleton.2 (by decide),
      .minus (.hexadecimal hRun)⟩
  rcases ofText?_exact.2.1 _ _ hDenotes with ⟨c, hRead, rfl⟩
  refine ⟨hDenotes, ?_⟩
  rw [hRead, (ofText?_exact.2.2 (-(2 ^ 53))).2.2 (by norm_num)]

end Constant
end StackScript
