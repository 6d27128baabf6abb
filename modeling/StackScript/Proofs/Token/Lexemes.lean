import StackScript.Code.Literal
import StackScript.Proofs.Number.Numerals
import StackScript.Token.Scan

/-
  What the words of a source text look like.

  The classes of words are given by their grammar, without
  the functions that measure the front of a text. A token of
  a text is a word of its kind, and a word of a numeric kind
  denotes a constant.

  Key definitions include:
    * `Token.IsNumber`
    * `Token.IsName`
    * `Token.IsQuoted`
    * `Token.Spells`

  Key theorems include:
    * `Token.IsNumber.isSome_ofText?`
    * `Token.spells_lexeme`
    * `Token.spells_of_mem_scan`
-/

namespace StackScript
namespace Token

------------------------------------------------------------
-- Classes of Words
------------------------------------------------------------

/- Digits below a base, at least one. -/
def IsDigits
    (base : Nat)
    (cs : List Char) : Prop :=
  cs ≠ [] ∧ ∀ c ∈ cs, Digits.isDigit base c = true

/- A number: with a base, or decimal with or without a point. -/
inductive IsNumber : List Char → Prop
| binary
    {ds : List Char}
    (h : IsDigits 2 ds) :
    IsNumber ('0' :: 'b' :: ds)
| hexadecimal
    {ds : List Char}
    (h : IsDigits 16 ds) :
    IsNumber ('0' :: 'x' :: ds)
| whole
    {ds : List Char}
    (h : IsDigits 10 ds) :
    IsNumber ds
| fraction
    {ds es : List Char}
    (hWhole : IsDigits 10 ds)
    (hPlaces : IsDigits 10 es) :
    IsNumber (ds ++ '.' :: es)

/- What continues a name; a point stands in front of a letter. -/
inductive IsNameTail : List Char → Prop
| nil :
    IsNameTail []
| word
    {c : Char}
    {cs : List Char}
    (hWord : isWord c = true)
    (h : IsNameTail cs) :
    IsNameTail (c :: cs)
| point
    {c : Char}
    {cs : List Char}
    (hLetter : isLetter c = true)
    (h : IsNameTail (c :: cs)) :
    IsNameTail ('.' :: c :: cs)

/- A name, which may also be a keyword. -/
def IsName : List Char → Prop
| [] => False
| c :: cs => isLetter c = true ∧ IsNameTail cs

/-
  What follows an opening quote: characters up to the same
  quote, a backslash taking the next one along.
-/
inductive IsQuotedTail (quote : Char) : List Char → Prop
| close :
    IsQuotedTail quote [quote]
| escape
    {c : Char}
    {cs : List Char}
    (h : IsQuotedTail quote cs) :
    IsQuotedTail quote ('\\' :: c :: cs)
| plain
    {c : Char}
    {cs : List Char}
    (hSlash : c ≠ '\\')
    (hQuote : c ≠ quote)
    (h : IsQuotedTail quote cs) :
    IsQuotedTail quote (c :: cs)

/- A string literal with its quotes. -/
def IsQuoted : List Char → Prop
| [] => False
| c :: cs => c ∈ ['"', '\'', '\x60'] ∧ IsQuotedTail c cs

/- The scanner opens literals with these quotes and no others. -/
theorem mem_quotes {c : Char} :
    c ∈ quotes ↔ c ∈ ['"', '\'', '\x60'] :=
  Iff.rfl

/- A text is a word of some kind. -/
def Spells : Kind → List Char → Prop
| .keyword, cs => IsName cs ∧ String.ofList cs ∈ keywords
| .identifier, cs => IsName cs ∧ String.ofList cs ∉ keywords
| .literal, cs => IsNumber cs
| .stringLiteral, cs => IsQuoted cs
| .operator, cs =>
    (∃ c ∈ shortOperators, cs = [c]) ∨
      ∃ p ∈ longOperators, cs = [p.1, p.2]
| .separator, cs => cs = [','] ∨ cs = [';']
| .unknown, _ => False

------------------------------------------------------------
-- Numbers
------------------------------------------------------------

theorem IsDigits.read?
    {base : Nat}
    {cs : List Char}
    (h : IsDigits base cs) :
    Digits.read? base cs = some (Digits.read base cs) := by
  unfold Digits.read?
  have hAll : cs.all (Digits.isDigit base) = true :=
    List.all_eq_true.2 h.2
  rw [if_pos]
  rw [hAll, Bool.and_true, Bool.not_eq_true', List.isEmpty_eq_false_iff]
  exact h.1

/- A text without blanks has nothing to trim. -/
theorem trim_of_not_isBlank
    {cs : List Char}
    (h : ∀ c ∈ cs, Text.isBlank c = false) :
    Text.trim cs = cs := by
  have hKept :
      ∀ ds : List Char, (∀ c ∈ ds, Text.isBlank c = false) →
        ds.dropWhile Text.isBlank = ds := by
    intro ds hNone
    cases ds with
    | nil => rfl
    | cons d ds =>
        rw [List.dropWhile_cons_of_neg]
        simp [hNone d List.mem_cons_self]
  unfold Text.trim Text.trimRight
  rw [hKept cs h, hKept cs.reverse, List.reverse_reverse]
  intro c hc
  exact h c (List.mem_reverse.1 hc)

/- A digit of any base is a digit or a letter. -/
theorem toNat_of_isDigit
    {base : Nat}
    {c : Char}
    (h : Digits.isDigit base c = true) :
    48 ≤ c.toNat ∧ c.toNat ≤ 57 ∨ 65 ≤ c.toNat ∧ c.toNat ≤ 90 ∨
      97 ≤ c.toNat ∧ c.toNat ≤ 122 := by
  unfold Digits.isDigit Digits.value? at h
  by_cases hDigit : c.isDigit = true
  · simp only [Char.isDigit, Bool.and_eq_true,
      decide_eq_true_eq] at hDigit
    exact .inl hDigit
  · rw [if_neg hDigit] at h
    by_cases hLower : 97 ≤ c.toNat ∧ c.toNat ≤ 122
    · exact .inr (.inr hLower)
    · rw [if_neg hLower] at h
      by_cases hUpper : 65 ≤ c.toNat ∧ c.toNat ≤ 90
      · exact .inr (.inl hUpper)
      · rw [if_neg hUpper] at h
        cases h

theorem not_isBlank_of_isDigit
    {base : Nat}
    {c : Char}
    (h : Digits.isDigit base c = true) :
    Text.isBlank c = false := by
  have hRange := toNat_of_isDigit h
  simp only [Text.isBlank, Text.inRanges, Text.blankRanges,
    List.any_cons, List.any_nil, Bool.or_eq_false_iff,
    Bool.and_eq_false_iff, decide_eq_false_iff_not, and_true]
  omega

/- A character that is no digit does not occur among digits. -/
theorem IsDigits.ne
    {base : Nat}
    {cs : List Char}
    {c d : Char}
    (h : IsDigits base cs)
    (hMem : c ∈ cs)
    (hNot : Digits.isDigit base d = false) :
    c ≠ d := by
  rintro rfl
  rw [h.2 c hMem] at hNot
  cases hNot

/- The second character of a decimal text marks no other base. -/
theorem IsDigits.second_ne
    {c d : Char}
    {ds es rest : List Char}
    (h : IsDigits 10 ds)
    (hNext : ∀ c ∈ es.head?, c ≠ 'b' ∧ c ≠ 'x')
    (hEq : ds ++ es = c :: d :: rest) :
    d ≠ 'b' ∧ d ≠ 'x' := by
  rcases ds with _ | ⟨first, _ | ⟨second, ds⟩⟩
  · exact absurd rfl h.1
  · cases hEq
    exact hNext d rfl
  · cases hEq
    have hMem : d ∈ c :: d :: ds := by simp
    exact ⟨h.ne hMem (by decide), h.ne hMem (by decide)⟩

namespace IsNumber

theorem not_isBlank
    {cs : List Char}
    (h : IsNumber cs) :
    ∀ c ∈ cs, Text.isBlank c = false := by
  have hDigits :
      ∀ {base ds}, IsDigits base ds →
        ∀ c ∈ ds, Text.isBlank c = false :=
    fun h c hc => not_isBlank_of_isDigit (h.2 c hc)
  intro c hc
  cases h with
  | binary h =>
      rcases List.mem_cons.1 hc with rfl | hc
      · decide
      rcases List.mem_cons.1 hc with rfl | hc
      · decide
      exact hDigits h c hc
  | hexadecimal h =>
      rcases List.mem_cons.1 hc with rfl | hc
      · decide
      rcases List.mem_cons.1 hc with rfl | hc
      · decide
      exact hDigits h c hc
  | whole h => exact hDigits h c hc
  | fraction hWhole hPlaces =>
      rcases List.mem_append.1 hc with hc | hc
      · exact hDigits hWhole c hc
      rcases List.mem_cons.1 hc with rfl | hc
      · decide
      exact hDigits hPlaces c hc

/- A number has no sign in front. -/
theorem splitSign_eq
    {cs : List Char}
    (h : IsNumber cs) :
    Constant.splitSign cs = (false, cs) := by
  have hDigit :
      ∀ c ds, Digits.isDigit 10 c = true →
        Constant.splitSign (c :: ds) = (false, c :: ds) := by
    intro c ds hDigit
    unfold Constant.splitSign
    split
    · rename_i hEq
      cases hEq
      cases hDigit
    · rename_i hEq
      cases hEq
      cases hDigit
    · rfl
  cases h with
  | binary | hexadecimal => rfl
  | whole h =>
      cases cs with
      | nil => exact absurd rfl h.1
      | cons c cs => exact hDigit c cs (h.2 c List.mem_cons_self)
  | @fraction ds es hWhole _ =>
      cases ds with
      | nil => exact absurd rfl hWhole.1
      | cons c ds => exact hDigit c _ (hWhole.2 c List.mem_cons_self)

/- Digits with or without a point are read as decimal. -/
theorem unsigned?_of_digits
    {ds es : List Char}
    (h : IsDigits 10 ds)
    (hNext : ∀ c ∈ es.head?, c ≠ 'b' ∧ c ≠ 'x')
    (hRead :
      (Digits.read? 10 (ds ++ es)).isSome = true ∨
        (Constant.fraction? false (ds ++ es)).isSome = true) :
    (Constant.unsigned? false (ds ++ es)).isSome = true := by
  unfold Constant.unsigned?
  split
  · rename_i hEq
    exact absurd rfl (h.second_ne hNext hEq).1
  · rename_i hEq
    exact absurd rfl (h.second_ne hNext hEq).2
  · split
    · rfl
    · rename_i hNone
      rw [Option.isSome_map]
      rcases hRead with hWhole | hPlaces
      · rw [hNone] at hWhole
        cases hWhole
      · exact hPlaces

/- Digits on both sides of a point are a decimal. -/
theorem fraction?_of_digits
    {ds es : List Char}
    (hWhole : IsDigits 10 ds)
    (hPlaces : IsDigits 10 es) :
    (Constant.fraction? false (ds ++ '.' :: es)).isSome = true := by
  have hBefore : ∀ c ∈ ds, (decide (c ≠ '.')) = true := by
    intro c hc
    exact decide_eq_true (hWhole.ne hc (by decide))
  unfold Constant.fraction?
  rw [List.takeWhile_append_of_pos hBefore,
    List.dropWhile_append_of_pos hBefore]
  simp [hWhole.read?, hPlaces.read?]

/- A number denotes a constant. -/
theorem isSome_ofText?
    {text : String}
    (h : IsNumber text.toList) :
    (Constant.ofText? text).isSome = true := by
  unfold Constant.ofText?
  rw [trim_of_not_isBlank h.not_isBlank, h.splitSign_eq]
  dsimp only
  generalize text.toList = cs at h
  cases h with
  | binary h | hexadecimal h =>
      simp [Constant.unsigned?, h.read?]
  | whole h =>
      have hAll :
          (Constant.unsigned? false (cs ++ [])).isSome = true :=
        unsigned?_of_digits h nofun (.inl (by simp [h.read?]))
      rwa [List.append_nil] at hAll
  | fraction hWhole hPlaces =>
      refine unsigned?_of_digits hWhole ?_
        (.inr (fraction?_of_digits hWhole hPlaces))
      rintro c ⟨⟩
      decide

end IsNumber

------------------------------------------------------------
-- Words at the Front of a Text
------------------------------------------------------------

theorem isQuotedTail_take
    {quote : Char}
    {cs : List Char}
    {n : Nat}
    (h : quotedSize? quote cs = some n) :
    IsQuotedTail quote (cs.take n) := by
  fun_induction quotedSize? quote cs generalizing n with
  | case1 | case2 => cases h
  | case3 c cs ih =>
      rcases Option.map_eq_some_iff.1 h with ⟨m, hMore, rfl⟩
      exact .escape (ih hMore)
  | case4 =>
      cases h
      exact .close
  | case5 c cs hSlash hPair hQuote ih =>
      rcases Option.map_eq_some_iff.1 h with ⟨m, hMore, rfl⟩
      refine .plain ?_ hQuote (ih hMore)
      rintro rfl
      cases cs with
      | nil => exact hSlash rfl rfl
      | cons d ds => exact hPair d ds rfl rfl

theorem isWord_of_isLetter
    {c : Char}
    (h : isLetter c = true) :
    isWord c = true := by
  unfold isLetter at h
  unfold isWord Char.isAlphanum
  simp only [Bool.or_eq_true] at h ⊢
  rcases h with hAlpha | hLine
  · exact .inl (.inl hAlpha)
  · exact .inr hLine

theorem identifierSize_cons
    {c : Char}
    {cs : List Char}
    (h : isWord c = true) :
    identifierSize (c :: cs) = identifierSize cs + 1 := by
  have hPoint : c ≠ '.' := by
    rintro rfl
    cases h
  rw [identifierSize]
  · rw [if_pos h]
  · intro d ds hEq
    exact absurd hEq hPoint

theorem isNameTail_take (cs : List Char) :
    IsNameTail (cs.take (identifierSize cs)) := by
  fun_induction identifierSize cs with
  | case1 => exact .nil
  | case2 c cs hLetter ih =>
      rw [identifierSize_cons (isWord_of_isLetter hLetter)] at ih ⊢
      exact .point hLetter ih
  | case3 c cs hLetter => exact .nil
  | case4 c cs _ hWord ih => exact .word hWord ih
  | case5 => exact .nil

/- A run of digits at the front, if there is one. -/
theorem isDigits_take
    {base : Nat}
    {cs : List Char}
    (h : digitRun base cs ≠ 0) :
    IsDigits base (cs.take (digitRun base cs)) := by
  have hTake :
      cs.take (digitRun base cs) =
        cs.takeWhile (Digits.isDigit base) :=
    (List.prefix_iff_eq_take.1 (List.takeWhile_prefix _)).symm
  rw [hTake]
  refine ⟨?_, List.all_eq_true.1 List.all_takeWhile⟩
  intro hNil
  apply h
  unfold digitRun
  rw [hNil]
  rfl

/- A decimal number at the front. -/
theorem isNumber_take_decimalSize
    {cs : List Char}
    (h : digitRun 10 cs ≠ 0) :
    IsNumber (cs.take (decimalSize cs)) := by
  have hWhole := isDigits_take h
  unfold decimalSize
  dsimp only
  split
  · rename_i rest hPoint
    split
    · exact .whole hWhole
    · rename_i hPlaces
      have hSplit :
          cs.take (digitRun 10 cs + 1 + digitRun 10 rest) =
            cs.take (digitRun 10 cs) ++
              '.' :: rest.take (digitRun 10 rest) := by
        rw [Nat.add_assoc, List.take_add, hPoint, Nat.add_comm 1]
        rfl
      rw [hSplit]
      exact .fraction hWhole (isDigits_take hPlaces)
  · exact .whole hWhole

theorem digitRun_ne_zero
    {c : Char}
    {cs : List Char}
    (h : c.isDigit = true) :
    digitRun 10 (c :: cs) ≠ 0 := by
  have hDigit : Digits.isDigit 10 c = true := by
    unfold Digits.isDigit
    rw [Digits.value?_of_isDigit h]
    rfl
  unfold digitRun
  rw [List.takeWhile_cons_of_pos hDigit]
  exact Nat.succ_ne_zero _

/- A number at the front. -/
theorem isNumber_take
    {c : Char}
    {cs : List Char}
    (h : c.isDigit = true) :
    IsNumber ((c :: cs).take (numberSize (c :: cs))) := by
  have hDecimal :
      IsNumber ((c :: cs).take (decimalSize (c :: cs))) :=
    isNumber_take_decimalSize (digitRun_ne_zero h)
  unfold numberSize
  split
  · rename_i rest hEq
    dsimp only
    split
    · exact hDecimal
    · rename_i hRun
      rw [hEq]
      exact .binary (isDigits_take hRun)
  · rename_i rest hEq
    dsimp only
    split
    · exact hDecimal
    · rename_i hRun
      rw [hEq]
      exact .hexadecimal (isDigits_take hRun)
  · exact hDecimal

/- An operator of two characters or one, or no known one. -/
theorem symbol_cases
    (c : Char)
    (cs : List Char) :
    (∃ d ds, cs = d :: ds ∧ (c, d) ∈ longOperators ∧
        symbol c cs = ⟨some .operator, 2⟩) ∨
      (c ∈ shortOperators ∧ symbol c cs = ⟨some .operator, 1⟩) ∨
      symbol c cs = ⟨some .unknown, 1⟩ := by
  have hShort :
      c ∈ shortOperators ∧
          (if c ∈ shortOperators then (⟨some .operator, 1⟩ : Lexeme)
            else ⟨some .unknown, 1⟩) = ⟨some .operator, 1⟩ ∨
        (if c ∈ shortOperators then (⟨some .operator, 1⟩ : Lexeme)
            else ⟨some .unknown, 1⟩) = ⟨some .unknown, 1⟩ := by
    by_cases h : c ∈ shortOperators
    · exact .inl ⟨h, if_pos h⟩
    · exact .inr (if_neg h)
  cases cs with
  | nil => exact .inr hShort
  | cons d ds =>
      by_cases hLong : (c, d) ∈ longOperators
      · exact .inl ⟨d, ds, rfl, hLong, if_pos hLong⟩
      · right
        unfold symbol
        dsimp only
        rw [if_neg hLong]
        exact hShort

theorem spells_symbol
    {c : Char}
    {cs : List Char}
    {kind : Kind}
    (h : (symbol c cs).kind? = some kind)
    (hKnown : kind ≠ .unknown) :
    Spells kind ((c :: cs).take (symbol c cs).size) := by
  rcases symbol_cases c cs with
    ⟨d, ds, rfl, hLong, hEq⟩ | ⟨hShort, hEq⟩ | hEq
  · rw [hEq] at h ⊢
    cases h
    exact .inr ⟨(c, d), hLong, rfl⟩
  · rw [hEq] at h ⊢
    cases h
    exact .inl ⟨c, hShort, rfl⟩
  · rw [hEq] at h
    cases h
    exact absurd rfl hKnown

/- A word at the front is a word of its kind. -/
theorem spells_lexeme
    {c : Char}
    {cs : List Char}
    {kind : Kind}
    (h : (lexeme c cs).kind? = some kind)
    (hKnown : kind ≠ .unknown) :
    Spells kind ((c :: cs).take (lexeme c cs).size) := by
  unfold lexeme at h ⊢
  by_cases hSpace : c ∈ spaces
  · rw [if_pos hSpace] at h
    cases h
  rw [if_neg hSpace] at h ⊢
  by_cases hComment : c = '#'
  · rw [if_pos hComment] at h
    cases h
  rw [if_neg hComment] at h ⊢
  by_cases hSeparator : c = ',' ∨ c = ';'
  · rw [if_pos hSeparator] at h ⊢
    cases h
    rcases hSeparator with rfl | rfl
    · exact .inl rfl
    · exact .inr rfl
  rw [if_neg hSeparator] at h ⊢
  by_cases hQuote : c ∈ quotes
  · rw [if_pos hQuote] at h ⊢
    cases hSize : quotedSize? c cs with
    | none =>
        rw [hSize] at h
        cases h
        exact absurd rfl hKnown
    | some n =>
        rw [hSize] at h
        cases h
        exact ⟨mem_quotes.1 hQuote, isQuotedTail_take hSize⟩
  rw [if_neg hQuote] at h ⊢
  by_cases hDigit : c.isDigit = true
  · rw [if_pos hDigit] at h ⊢
    cases h
    exact isNumber_take hDigit
  rw [if_neg hDigit] at h ⊢
  by_cases hLetter : isLetter c = true
  · rw [if_pos hLetter] at h ⊢
    dsimp only at h ⊢
    have hName : IsName ((c :: cs).take (identifierSize cs + 1)) :=
      ⟨hLetter, isNameTail_take cs⟩
    by_cases hWord :
        String.ofList ((c :: cs).take (identifierSize cs + 1)) ∈
          keywords
    · rw [if_pos hWord] at h
      cases h
      exact ⟨hName, hWord⟩
    · rw [if_neg hWord] at h
      cases h
      exact ⟨hName, hWord⟩
  rw [if_neg hLetter] at h ⊢
  exact spells_symbol h hKnown

/- The tokens of a text are words of their kinds. -/
theorem spells_of_mem_scanFrom
    {steps : Nat}
    {place : Location}
    {cs : List Char}
    {t : Token}
    (h : t ∈ scanFrom steps place cs)
    (hKnown : t.kind ≠ .unknown) :
    Spells t.kind t.text.toList := by
  induction steps generalizing place cs with
  | zero => cases h
  | succ steps ih =>
      cases cs with
      | nil => cases h
      | cons c cs =>
          rw [scanFrom] at h
          cases hKind : (lexeme c cs).kind? with
          | none =>
              rw [hKind] at h
              exact ih h
          | some kind =>
              rw [hKind] at h
              rcases List.mem_cons.1 h with rfl | hMore
              · rw [String.toList_ofList]
                exact spells_lexeme hKind hKnown
              · exact ih hMore

theorem spells_of_mem_scan
    {source : String}
    {t : Token}
    (h : t ∈ scan source)
    (hKnown : t.kind ≠ .unknown) :
    Spells t.kind t.text.toList :=
  spells_of_mem_scanFrom h hKnown

end Token
end StackScript
