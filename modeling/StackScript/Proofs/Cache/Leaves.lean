import StackScript.Cache.Decode
import StackScript.Proofs.Json.Escaping
import StackScript.Proofs.Json.Reading
import StackScript.Proofs.Number.StoredBinary
import StackScript.Proofs.Number.StoredDecimal

/-
  Leaves of stored code.

  The texts, numbers and integers that code is stored with
  are legible, and each is taken for what it was made from.

  Key definitions include:
    * `Json.IsTag`

  Key theorems include:
    * `Json.isNumber_of_numeral`
    * `Json.nat?_ofNat`
    * `Json.number?_ofBinary64`
    * `Json.bigInt?_ofBigInt`
-/

namespace StackScript
namespace Json

------------------------------------------------------------
-- Legible Numbers
------------------------------------------------------------

variable {ds rest : List Char}

/- A digit is neither a sign, a point nor an exponent's mark. -/
theorem ne_of_isDigit
    {c d : Char}
    (hc : c.isDigit = true)
    (hd : d.isDigit = false) :
    c ≠ d := by
  rintro rfl
  rw [hc] at hd
  cases hd

/- Digits stop where none follows. -/
theorem digits?_append
    (hSome : ds ≠ [])
    (hDigits : ∀ c ∈ ds, c.isDigit = true)
    (hStop : ∀ c ∈ rest.head?, c.isDigit = false) :
    digits? (ds ++ rest) = some (ds, rest) := by
  have hEnd :
      rest.takeWhile Char.isDigit = [] ∧
        rest.dropWhile Char.isDigit = rest := by
    cases rest with
    | nil => exact ⟨rfl, rfl⟩
    | cons c cs =>
        have hNot : c.isDigit = false := hStop c rfl
        simp [hNot]
  unfold digits? digits
  rw [List.takeWhile_append_of_pos hDigits,
    List.dropWhile_append_of_pos hDigits, hEnd.1, hEnd.2,
    List.append_nil]
  dsimp only
  rw [if_neg (by rwa [List.isEmpty_iff])]

/- A numeral is an integer without a sign. -/
theorem whole?_append
    (h : Binary64.IsNumeral ds)
    (hStop : ∀ c ∈ rest.head?, c.isDigit = false) :
    whole? (ds ++ rest) = some (ds, rest) := by
  rcases h with ⟨hDigits, rfl | ⟨c, cs, rfl, hNot⟩⟩
  · rfl
  · have hRead := digits?_append (by simp) hDigits hStop
    unfold whole?
    split
    · rename_i hText
      injection hText with hFirst
      exact absurd hFirst hNot
    · exact hRead

/- No digit stands where a value ends. -/
theorem Ends.stops
    (h : Ends rest) :
    ∀ c ∈ rest.head?, c.isDigit = false := by
  rcases h with rfl | ⟨c, cs, rfl, rfl | rfl⟩
  · simp
  · simp
  · simp

/- No fraction stands where a value ends. -/
theorem Ends.places?_eq
    (h : Ends rest) :
    places? rest = some ([], rest) := by
  rcases h with rfl | ⟨c, cs, rfl, rfl | rfl⟩
  · rfl
  · rfl
  · rfl

/- No exponent stands where a value ends. -/
theorem Ends.exponent?_eq
    (h : Ends rest) :
    exponent? rest = some ([], rest) := by
  rcases h with rfl | ⟨c, cs, rfl, rfl | rfl⟩
  · rfl
  · rfl
  · rfl

/- The number behind a sign that may be missing. -/
theorem scanNumber?_signed
    {d : Char}
    {cs w p more : List Char}
    (s : Bool)
    (hNot : d ≠ '-')
    (hWhole : whole? (d :: cs) = some (w, more))
    (hPlaces : places? more = some (p, rest))
    (hEnds : Ends rest) :
    scanNumber? ((if s then ['-'] else []) ++ d :: cs) =
      some ((if s then ['-'] else []) ++ (w ++ p), rest) := by
  have hExponent := hEnds.exponent?_eq
  cases s with
  | true => simp [scanNumber?, hWhole, hPlaces, hExponent]
  | false => simp [scanNumber?, hNot, hWhole, hPlaces, hExponent]

/- A numeral begins with a digit. -/
theorem head_of_numeral
    (h : Binary64.IsNumeral ds) :
    ∃ c cs, ds = c :: cs ∧ c.isDigit = true := by
  rcases h with ⟨hDigits, rfl | ⟨c, cs, rfl, _⟩⟩
  · exact ⟨'0', [], rfl, rfl⟩
  · exact ⟨c, cs, rfl, hDigits c List.mem_cons_self⟩

/- A numeral with a sign or without, and perhaps a zero behind a point. -/
theorem isNumber_of_numeral
    {tail : List Char}
    (s : Bool)
    (h : Binary64.IsNumeral ds)
    (hTail : tail = [] ∨ tail = ['.', '0']) :
    IsNumber ((if s then ['-'] else []) ++ (ds ++ tail)) := by
  rcases head_of_numeral h with ⟨d, cs, hFirst, hDigit⟩
  constructor
  · cases s with
    | true => exact ⟨'-', _, rfl, .inr rfl⟩
    | false =>
        rw [hFirst]
        exact ⟨d, cs ++ tail, rfl, .inl hDigit⟩
  · intro rest hEnds
    rw [List.append_assoc, List.append_assoc]
    have hNot : d ≠ '-' := ne_of_isDigit hDigit rfl
    rcases hTail with rfl | rfl
    · have hWhole := whole?_append h hEnds.stops
      rw [hFirst] at hWhole ⊢
      rw [List.nil_append]
      exact scanNumber?_signed s hNot hWhole hEnds.places?_eq hEnds
    · have hPoint :
          ∀ c ∈ ('.' :: '0' :: rest).head?, c.isDigit = false := by
        simp
      have hWhole := whole?_append h hPoint
      have hZero : digits? ('0' :: rest) = some (['0'], rest) :=
        digits?_append (List.cons_ne_nil '0' []) (by simp)
          hEnds.stops
      have hPlaces : places? ('.' :: '0' :: rest) =
          some (['.', '0'], rest) := by
        simp [places?, hZero]
      rw [hFirst] at hWhole ⊢
      exact scanNumber?_signed s hNot hWhole hPlaces hEnds

------------------------------------------------------------
-- Legible Leaves
------------------------------------------------------------

/- A name that stands for itself between quotes. -/
def IsTag (tag : String) : Prop :=
  escape tag.toList = tag.toList

theorem isString_escape (text : List Char) :
    IsString (escape text) :=
  fun rest => scanString?_escape text rest

theorem IsTag.isString
    {tag : String}
    (h : IsTag tag) :
    IsString tag.toList := by
  rw [← h]
  exact isString_escape tag.toList

/- A tag is what it is written as. -/
theorem IsTag.unescape?_eq
    {tag : String}
    (h : IsTag tag) :
    unescape? tag.toList = some tag.toList := by
  have hBack := unescape?_escape tag.toList
  rwa [h] at hBack

theorem legible_ofText (text : String) :
    (ofText text).Legible := by
  unfold ofText
  rw [Legible]
  exact isString_escape text.toList

theorem legible_ofNat (n : Nat) :
    (ofNat n).Legible := by
  have h :=
    isNumber_of_numeral false (Binary64.isNumeral_write n) (.inl rfl)
  rw [List.append_nil] at h
  unfold ofNat
  rw [Legible]
  exact h

theorem legible_ofInt (i : Int) :
    (ofInt i).Legible := by
  have h :=
    isNumber_of_numeral (decide (i < 0))
      (Binary64.isNumeral_write i.natAbs) (.inl rfl)
  rw [List.append_nil] at h
  unfold ofInt
  rw [Legible]
  unfold Digits.writeInt
  by_cases hSign : i < 0
  · simpa [hSign] using h
  · simpa [hSign] using h

theorem legible_ofBinary64
    {x : Binary64}
    (h : x.IsWhole) :
    (ofBinary64 x).Legible := by
  unfold ofBinary64
  rw [if_pos h.isFinite, Legible]
  rcases h with ⟨s, q, hLess, rfl⟩
  rcases Binary64.render_stored s hLess with ⟨ds, hNumeral, _, hText⟩
  rw [hText]
  exact isNumber_of_numeral s hNumeral (.inr rfl)

theorem legible_tagged
    {tag : String}
    {value : Json}
    (hTag : IsTag tag)
    (hValue : value.Legible) :
    (tagged tag value).Legible := by
  unfold tagged
  rw [Legible, LegibleMembers, LegibleMembers]
  exact ⟨hTag.isString, hValue, trivial⟩

/- Items that are made alike are legible if each is. -/
theorem legibleItems_map
    {α : Type}
    {make : α → Json}
    (h : ∀ a, (make a).Legible)
    (as : List α) :
    LegibleItems (as.map make) := by
  induction as with
  | nil => rw [List.map_nil, LegibleItems]; trivial
  | cons a as ih =>
      rw [List.map_cons, LegibleItems]
      exact ⟨h a, ih⟩

theorem legible_ofBigInt (i : Int) :
    (ofBigInt i).Legible := by
  unfold ofBigInt
  rw [Legible, LegibleItems, LegibleItems, LegibleItems, Legible]
  exact ⟨legible_ofInt i.sign, legibleItems_map legible_ofNat _,
    trivial⟩

------------------------------------------------------------
-- Reading Leaves
------------------------------------------------------------

theorem text?_ofText (text : String) :
    (ofText text).text? = some text := by
  unfold ofText text?
  dsimp only
  rw [unescape?_escape, Option.map_some, String.ofList_toList]

/- A tag is told from its object. -/
theorem tag?_tagged
    {tag : String}
    {value : Json}
    (h : IsTag tag) :
    (tagged tag value).tag? = some (tag, value) := by
  unfold tagged tag?
  dsimp only [Option.bind_eq_bind]
  rw [h.unescape?_eq, Option.bind_some, String.ofList_toList]
  rfl

/- The digits of a natural number are taken as an integer. -/
theorem numeral?_ofNat (n : Nat) :
    (ofNat n).numeral? =
      if n < Nat.pow 2 64 then some (.integer n)
      else (binary? (Digits.write n)).map .binary := by
  have hDigits : ∀ c ∈ Digits.write n, c.isDigit = true :=
    fun c hc => Digits.isDigit_of_mem_write hc
  have hPlain : isPlain (Digits.write n) = true := by
    unfold isPlain
    rw [List.all_eq_true]
    intro c hc
    rw [hDigits c hc, Bool.true_or]
  have hHead : (Digits.write n).head? ≠ some '-' := by
    intro hMinus
    have hMem := List.mem_of_head? hMinus
    exact ne_of_isDigit (hDigits _ hMem) rfl rfl
  have hFilter :
      (Digits.write n).filter Char.isDigit = Digits.write n :=
    List.filter_eq_self.2 hDigits
  unfold ofNat numeral?
  dsimp only
  rw [if_pos hPlain, if_neg hHead, hFilter, Digits.read_write]

/- A natural number is read back up to a bound. -/
theorem nat?_ofNat
    {most : Nat}
    (hMost : most < Nat.pow 2 64)
    (n : Nat) :
    (ofNat n).nat? most = if n ≤ most then some n else none := by
  unfold nat?
  rw [numeral?_ofNat]
  by_cases hLess : n < Nat.pow 2 64
  · rw [if_pos hLess]
    dsimp only
    by_cases hn : n ≤ most
    · rw [if_pos hn, if_pos (by omega)]
      rfl
    · rw [if_neg hn, if_neg (by omega)]
  · rw [if_neg hLess, if_neg (by omega)]
    cases binary? (Digits.write n) with
    | none => rfl
    | some x => rfl

/- A whole floating-point number is read back. -/
theorem number?_ofBinary64
    {x : Binary64}
    (h : x.IsWhole) :
    (ofBinary64 x).number? = some x := by
  have hBinary : binary? (x.render .stored) = some x := by
    unfold binary?
    rw [Binary64.read?_render_stored h]
    exact (Option.filter_eq_some_iff).2 ⟨rfl, h.isFinite⟩
  have hPlain : isPlain (x.render .stored) = false := by
    rcases h with ⟨s, q, hLess, rfl⟩
    rcases Binary64.render_stored s hLess with ⟨ds, _, _, hText⟩
    unfold isPlain
    rw [hText, List.all_eq_false]
    exact ⟨'.', by simp, by decide⟩
  unfold ofBinary64 number? numeral?
  rw [if_pos h.isFinite]
  dsimp only
  rw [hPlain]
  simp only [Bool.false_eq_true, if_false, hBinary,
    Option.map_some]

/- A decimal is read back from its text. -/
theorem decimal?_ofText (d : Decimal) :
    (ofText (String.ofList d.stored)).decimal? = some d.restored := by
  unfold ofText decimal?
  dsimp only
  rw [unescape?_escape, Option.bind_some, String.toList_ofList,
    Decimal.read?_stored]

------------------------------------------------------------
-- Integers
------------------------------------------------------------

/- The digits of a number in a base are below it. -/
theorem mem_limbs
    {base d : Nat}
    (hBase : 0 < base)
    (steps n : Nat)
    (h : d ∈ limbs base steps n) :
    d < base := by
  fun_induction limbs base steps n with
  | case1 => cases h
  | case2 => cases h
  | case3 steps n ih =>
      rcases List.mem_cons.1 h with rfl | h
      · exact Nat.mod_lt _ hBase
      · exact ih h

/- The digits of a number make it up again. -/
theorem foldr_limbs
    {base : Nat}
    (hBase : 2 ≤ base)
    (steps n : Nat)
    (h : n < 2 ^ steps) :
    (limbs base steps n).foldr (fun d n => d + base * n) 0 = n := by
  fun_induction limbs base steps n with
  | case1 n =>
      rw [Nat.pow_zero] at h
      exact (Nat.lt_one_iff.1 h).symm
  | case2 => rfl
  | case3 steps n ih =>
      have hHalf : (n + 1) / base < 2 ^ steps := by
        apply Nat.div_lt_of_lt_mul
        rw [Nat.pow_succ, Nat.mul_comm] at h
        exact Nat.lt_of_lt_of_le h (Nat.mul_le_mul_right _ hBase)
      rw [List.foldr_cons, ih hHalf]
      exact Nat.mod_add_div _ _

/- The digits of a magnitude make it up again. -/
theorem foldr_limbsOf (n : Nat) :
    (limbsOf 32 n).foldr (fun d n => d + Nat.pow 2 32 * n) 0 = n := by
  unfold limbsOf
  exact foldr_limbs (by decide) _ _ Nat.lt_log2_self

/- The sign of an integer is read back. -/
theorem sign?_ofInt (i : Int) :
    (ofInt i.sign).sign? = some i.sign := by
  rcases Int.lt_trichotomy i 0 with h | h | h
  · rw [Int.sign_eq_neg_one_of_neg h]
    rfl
  · rw [h]
    rfl
  · rw [Int.sign_eq_one_of_pos h]
    rfl

/- The digits of a magnitude are read back. -/
theorem mapM_nat?_limbsOf (n : Nat) :
    ((limbsOf 32 n).map ofNat).mapM (nat? (Nat.pow 2 32 - 1)) =
      some (limbsOf 32 n) := by
  have hBelow : ∀ d ∈ limbsOf 32 n, d < Nat.pow 2 32 :=
    fun d hd => mem_limbs (by decide) _ _ hd
  generalize limbsOf 32 n = ds at hBelow
  induction ds with
  | nil => rfl
  | cons d ds ih =>
      have hFirst := hBelow d List.mem_cons_self
      rw [List.map_cons, List.mapM_cons, nat?_ofNat (by decide),
        if_pos (by omega),
        ih fun e he => hBelow e (List.mem_cons_of_mem _ he)]
      rfl

/- An integer is read back, two levels deep. -/
theorem bigInt?_ofBigInt
    (depth : Nat)
    (i : Int) :
    (ofBigInt i).bigInt? depth =
      if 2 ≤ depth then some i else none := by
  unfold ofBigInt bigInt?
  dsimp only [Option.bind_eq_bind]
  by_cases hDepth : 2 ≤ depth
  · rw [if_pos hDepth, if_neg (by omega), sign?_ofInt,
      mapM_nat?_limbsOf]
    dsimp only [Option.pure_def, Option.bind_some]
    unfold assemble
    rw [foldr_limbsOf, Int.sign_mul_natAbs]
  · rw [if_neg hDepth, if_pos (by omega)]
    rfl

end Json
end StackScript
