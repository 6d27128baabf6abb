import StackScript.Proofs.Token.Lexemes

/-
  Words with blanks between them are read one by one.

  A blank ends every word: no number, name or operator can
  go on behind one, and a string literal is closed before.

  Key definitions include:
    * `Token.Spelling`
    * `Token.spaced`

  Key theorems include:
    * `Token.lexeme_of_spells`
    * `Token.spellings_scan`
-/

namespace StackScript
namespace Token

------------------------------------------------------------
-- Spellings
------------------------------------------------------------

/- A word without its place. -/
structure Spelling where
  kind : Kind
  text : String
deriving DecidableEq, Repr

/- A token without its place. -/
def spelling (t : Token) : Spelling :=
  ⟨t.kind, t.text⟩

/- Words with a blank behind each. -/
def spaced : List Spelling → List Char
| [] => []
| w :: ws => w.text.toList ++ ' ' :: spaced ws

------------------------------------------------------------
-- Words in Front of a Blank
------------------------------------------------------------

variable {cs rest : List Char}

theorem quotedSize?_append
    {quote : Char}
    (hQuote : quote ≠ '\\')
    (h : IsQuotedTail quote cs) :
    quotedSize? quote (cs ++ rest) = some cs.length := by
  induction h with
  | close =>
      rw [List.cons_append, quotedSize?]
      · rw [if_pos rfl]
        rfl
      · intro hEq _
        exact hQuote hEq
      · intro _ _ hEq _
        exact hQuote hEq
  | escape h ih =>
      rw [List.cons_append, List.cons_append, quotedSize?, ih]
      rfl
  | plain hSlash hOther h ih =>
      rw [List.cons_append, quotedSize?, if_neg hOther, ih]
      · rfl
      · intro hEq _
        exact hSlash hEq
      · intro _ _ hEq _
        exact hSlash hEq

theorem identifierSize_append
    (h : IsNameTail cs) :
    identifierSize (cs ++ ' ' :: rest) = cs.length := by
  induction h with
  | nil =>
      rw [List.nil_append, identifierSize]
      · rfl
      · intro _ _ hEq
        cases hEq
  | word hWord h ih =>
      rw [List.cons_append, identifierSize_cons hWord, ih]
      rfl
  | point hLetter h ih =>
      rw [List.cons_append, List.cons_append, identifierSize,
        if_pos hLetter]
      rw [List.cons_append] at ih
      rw [ih]
      rfl

/- A run of digits ends where something else follows. -/
theorem digitRun_append
    {base : Nat}
    (h : IsDigits base cs)
    (hNext : ∀ c ∈ rest.head?, Digits.isDigit base c = false) :
    digitRun base (cs ++ rest) = cs.length := by
  unfold digitRun
  rw [List.takeWhile_append_of_pos h.2]
  cases rest with
  | nil => simp
  | cons c rest =>
      rw [List.takeWhile_cons_of_neg (by simp [hNext c rfl]),
        List.append_nil]

theorem digitRun_blank
    {base : Nat}
    (h : IsDigits base cs) :
    digitRun base (cs ++ ' ' :: rest) = cs.length := by
  apply digitRun_append h
  rintro c ⟨⟩
  rfl

/- Digits that no point follows are the whole number. -/
theorem decimalSize_whole
    (h : IsDigits 10 cs) :
    decimalSize (cs ++ ' ' :: rest) = cs.length := by
  unfold decimalSize
  dsimp only
  rw [digitRun_blank h, List.drop_left]
  rfl

/- Digits on both sides of a point are one number. -/
theorem decimalSize_fraction
    {ds es : List Char}
    (hWhole : IsDigits 10 ds)
    (hPlaces : IsDigits 10 es) :
    decimalSize (ds ++ '.' :: es ++ ' ' :: rest) =
      (ds ++ '.' :: es).length := by
  have hRun :
      digitRun 10 (ds ++ '.' :: (es ++ ' ' :: rest)) = ds.length := by
    apply digitRun_append hWhole
    rintro c ⟨⟩
    decide
  have hSome : es.length ≠ 0 := by
    simpa using hPlaces.1
  unfold decimalSize
  dsimp only
  rw [List.append_assoc, List.cons_append, hRun, List.drop_left]
  change
    (if digitRun 10 (es ++ ' ' :: rest) = 0 then ds.length
      else ds.length + 1 + digitRun 10 (es ++ ' ' :: rest)) = _
  rw [digitRun_blank hPlaces, if_neg hSome, List.length_append, List.length_cons]
  omega

/- A number that begins like no other base is decimal. -/
theorem numberSize_of_digits
    {ds es : List Char}
    (h : IsDigits 10 ds)
    (hNext : ∀ c ∈ es.head?, c ≠ 'b' ∧ c ≠ 'x') :
    numberSize (ds ++ es) = decimalSize (ds ++ es) := by
  unfold numberSize
  split
  · rename_i hEq
    exact absurd rfl (h.second_ne hNext hEq).1
  · rename_i hEq
    exact absurd rfl (h.second_ne hNext hEq).2
  · rfl

theorem numberSize_append
    (h : IsNumber cs) :
    numberSize (cs ++ ' ' :: rest) = cs.length := by
  cases h with
  | @binary ds h =>
      have hSome : ds.length ≠ 0 := by
        simpa using h.1
      change
        (if digitRun 2 (ds ++ ' ' :: rest) = 0 then decimalSize _
          else digitRun 2 (ds ++ ' ' :: rest) + 2) = ds.length + 2
      rw [digitRun_blank h, if_neg hSome]
  | @hexadecimal ds h =>
      have hSome : ds.length ≠ 0 := by
        simpa using h.1
      change
        (if digitRun 16 (ds ++ ' ' :: rest) = 0 then decimalSize _
          else digitRun 16 (ds ++ ' ' :: rest) + 2) = ds.length + 2
      rw [digitRun_blank h, if_neg hSome]
  | whole h =>
      rw [numberSize_of_digits h, decimalSize_whole h]
      rintro c ⟨⟩
      decide
  | @fraction ds es hWhole hPlaces =>
      rw [← @decimalSize_fraction rest ds es hWhole hPlaces,
        List.append_assoc]
      apply numberSize_of_digits hWhole
      rintro c ⟨⟩
      decide

------------------------------------------------------------
-- Lexemes
------------------------------------------------------------

variable {c : Char}

/- The characters that end words, begin comments or open quotes. -/
def marks : List Char :=
  '#' :: ',' :: ';' :: (spaces ++ quotes)

/- Other characters begin numbers, names or operators. -/
theorem lexeme_of_not_mem
    (h : c ∉ marks) :
    lexeme c rest =
      if c.isDigit then ⟨some .literal, numberSize (c :: rest)⟩
      else if isLetter c then
        let size := identifierSize rest + 1
        let word := String.ofList ((c :: rest).take size)
        ⟨some (if word ∈ keywords then .keyword else .identifier),
          size⟩
      else symbol c rest := by
  unfold marks at h
  simp only [List.mem_cons, List.mem_append, not_or] at h
  unfold lexeme
  rw [if_neg h.2.2.2.1, if_neg h.1, if_neg (not_or.2 ⟨h.2.1, h.2.2.1⟩),
    if_neg h.2.2.2.2]

theorem isDigit_of_base_ten
    (h : Digits.isDigit 10 c = true) :
    c.isDigit = true := by
  by_contra hNot
  unfold Digits.isDigit Digits.value? at h
  rw [if_neg hNot] at h
  by_cases hLower : 97 ≤ c.toNat ∧ c.toNat ≤ 122
  · rw [if_pos hLower] at h
    simp [Option.filter] at h
    omega
  · rw [if_neg hLower] at h
    by_cases hUpper : 65 ≤ c.toNat ∧ c.toNat ≤ 90
    · rw [if_pos hUpper] at h
      simp [Option.filter] at h
      omega
    · rw [if_neg hUpper] at h
      cases h

/- A number begins with a decimal digit. -/
theorem isDigit_of_isNumber
    (h : IsNumber (c :: cs)) :
    c.isDigit = true := by
  generalize hText : c :: cs = text at h
  cases h with
  | binary | hexadecimal =>
      cases hText
      decide
  | whole h =>
      subst hText
      exact isDigit_of_base_ten (h.2 c List.mem_cons_self)
  | @fraction ds es hWhole _ =>
      cases ds with
      | nil => exact absurd rfl hWhole.1
      | cons d ds =>
          cases hText
          exact isDigit_of_base_ten (hWhole.2 c List.mem_cons_self)

theorem not_isDigit_of_isLetter
    (h : isLetter c = true) :
    ¬ c.isDigit = true := by
  intro hDigit
  simp only [isLetter, Char.isAlpha, Char.isUpper, Char.isLower,
    Char.isDigit, Bool.or_eq_true, Bool.and_eq_true,
    decide_eq_true_eq, beq_iff_eq] at h hDigit
  have hLess : c.toNat ≤ 57 := hDigit.2
  rcases h with (⟨hLow, _⟩ | ⟨hLow, _⟩) | rfl
  · have hMore : 65 ≤ c.toNat := hLow
    omega
  · have hMore : 97 ≤ c.toNat := hLow
    omega
  · exact absurd hLess (by decide)

/- A number in front of a blank. -/
theorem lexeme_number
    (h : IsNumber (c :: cs)) :
    lexeme c (cs ++ ' ' :: rest) =
      ⟨some .literal, cs.length + 1⟩ := by
  have hDigit := isDigit_of_isNumber h
  have hMarks : c ∉ marks := by
    have hAll : ∀ d ∈ marks, d.isDigit = false := by
      simp [marks, spaces, quotes]
    intro hMem
    rw [hAll c hMem] at hDigit
    cases hDigit
  have hSize :
      numberSize (c :: (cs ++ ' ' :: rest)) = cs.length + 1 :=
    numberSize_append h
  rw [lexeme_of_not_mem hMarks, if_pos hDigit, hSize]

/- A name in front of a blank. -/
theorem lexeme_name
    (h : IsName (c :: cs)) :
    lexeme c (cs ++ ' ' :: rest) =
      ⟨some
        (if String.ofList (c :: cs) ∈ keywords then .keyword
          else .identifier),
        cs.length + 1⟩ := by
  rcases h with ⟨hLetter, hTail⟩
  have hMarks : c ∉ marks := by
    have hAll : ∀ d ∈ marks, isLetter d = false := by
      simp [marks, spaces, quotes, isLetter]
    intro hMem
    rw [hAll c hMem] at hLetter
    cases hLetter
  have hDigit := not_isDigit_of_isLetter hLetter
  have hTake :
      (c :: (cs ++ ' ' :: rest)).take (cs.length + 1) = c :: cs := by
    simp
  rw [lexeme_of_not_mem hMarks, if_neg hDigit, if_pos hLetter]
  dsimp only
  rw [identifierSize_append hTail, hTake]

/- A string literal in front of anything. -/
theorem lexeme_quoted
    (h : IsQuoted (c :: cs)) :
    lexeme c (cs ++ rest) = ⟨some .stringLiteral, cs.length + 1⟩ := by
  rcases h with ⟨hQuote, hTail⟩
  rw [← mem_quotes] at hQuote
  have hAll :
      ∀ d ∈ quotes, d ∉ spaces ∧ d ≠ '#' ∧ ¬ (d = ',' ∨ d = ';') ∧
        d ≠ '\\' := by
    simp [quotes, spaces]
  rcases hAll c hQuote with ⟨hSpace, hComment, hSeparator, hSlash⟩
  unfold lexeme
  rw [if_neg hSpace, if_neg hComment, if_neg hSeparator, if_pos hQuote,
    quotedSize?_append hSlash hTail]

/- An operator in front of a blank. -/
theorem lexeme_operator
    (h : Spells .operator (c :: cs)) :
    lexeme c (cs ++ ' ' :: rest) =
      ⟨some .operator, cs.length + 1⟩ := by
  have hShort :
      ∀ d ∈ shortOperators, d ∉ marks ∧ ¬ d.isDigit = true ∧
        ¬ isLetter d = true ∧ (d, ' ') ∉ longOperators := by
    simp [shortOperators, marks, spaces, quotes, isLetter,
      longOperators]
  have hLong :
      ∀ p ∈ longOperators, p.1 ∉ marks ∧ ¬ p.1.isDigit = true ∧
        ¬ isLetter p.1 = true := by
    simp [longOperators, marks, spaces, quotes, isLetter]
  rcases h with ⟨d, hMem, hText⟩ | ⟨p, hMem, hText⟩
  · cases hText
    rcases hShort c hMem with ⟨hMarks, hDigit, hLetter, hPair⟩
    rw [lexeme_of_not_mem hMarks, if_neg hDigit, if_neg hLetter]
    change (if (c, ' ') ∈ longOperators then _ else _) = _
    rw [if_neg hPair, if_pos hMem]
    rfl
  · cases hText
    rcases hLong p hMem with ⟨hMarks, hDigit, hLetter⟩
    rw [lexeme_of_not_mem hMarks, if_neg hDigit, if_neg hLetter]
    exact if_pos hMem

/- A word in front of a blank is read as itself. -/
theorem lexeme_of_spells
    {kind : Kind}
    (h : Spells kind (c :: cs)) :
    lexeme c (cs ++ ' ' :: rest) = ⟨some kind, cs.length + 1⟩ := by
  cases kind with
  | keyword =>
      rw [lexeme_name h.1, if_pos h.2]
  | identifier =>
      rw [lexeme_name h.1, if_neg h.2]
  | literal => exact lexeme_number h
  | stringLiteral => exact lexeme_quoted h
  | operator => exact lexeme_operator h
  | separator =>
      rcases h with h | h
      · cases h
        rfl
      · cases h
        rfl
  | unknown => cases h

------------------------------------------------------------
-- Texts
------------------------------------------------------------

theorem IsNumber.ne_nil
    (h : IsNumber cs) :
    cs ≠ [] := by
  cases h with
  | binary | hexadecimal => nofun
  | whole h => exact h.1
  | fraction => simp

/- A word is not empty. -/
theorem ne_nil_of_spells
    {kind : Kind}
    (h : Spells kind cs) :
    cs ≠ [] := by
  rintro rfl
  cases kind with
  | keyword | identifier => exact h.1
  | literal => exact h.ne_nil rfl
  | stringLiteral | unknown => exact h
  | operator =>
      rcases h with ⟨_, _, hText⟩ | ⟨_, _, hText⟩
      · cases hText
      · cases hText
  | separator =>
      rcases h with hText | hText
      · cases hText
      · cases hText

/- Words with blanks between them are read one by one. -/
theorem spellings_scanFrom
    {ws : List Spelling}
    {steps : Nat}
    (place : Location)
    (h : ∀ w ∈ ws, Spells w.kind w.text.toList)
    (hSteps : (spaced ws).length ≤ steps) :
    (scanFrom steps place (spaced ws)).map spelling = ws := by
  induction ws generalizing steps place with
  | nil =>
      cases steps <;> rfl
  | cons w ws ih =>
      have hWord := h w List.mem_cons_self
      rcases List.exists_cons_of_ne_nil (ne_nil_of_spells hWord) with
        ⟨c, cs, hText⟩
      rw [spaced, hText] at hSteps ⊢
      rw [hText] at hWord
      -- The word takes one step and the blank behind it another.
      rcases steps with _ | _ | steps
      · simp at hSteps
      · simp at hSteps
      · have hLexeme :
            lexeme c (cs ++ ' ' :: spaced ws) =
              ⟨some w.kind, cs.length + 1⟩ :=
          lexeme_of_spells hWord
        have hTake :
            (c :: (cs ++ ' ' :: spaced ws)).take (cs.length + 1) =
              c :: cs := by
          simp
        have hDrop :
            (c :: (cs ++ ' ' :: spaced ws)).drop (cs.length + 1) =
              ' ' :: spaced ws := by
          simp
        have hBlank :
            ∀ next,
              scanFrom (steps + 1) next (' ' :: spaced ws) =
                scanFrom steps (next.after [' ']) (spaced ws) :=
          fun _ => rfl
        have hFewer : (spaced ws).length ≤ steps := by
          simp only [List.length_append, List.length_cons] at hSteps
          omega
        have hOthers :=
          ih ((place.after (c :: cs)).after [' '])
            (fun v hv => h v (List.mem_cons_of_mem _ hv)) hFewer
        rw [List.cons_append, scanFrom, hLexeme]
        dsimp only
        rw [hTake, hDrop, hBlank, List.map_cons, hOthers, ← hText]
        simp [spelling]

/- A text made of words is read as these words. -/
theorem spellings_scan
    {ws : List Spelling}
    (h : ∀ w ∈ ws, Spells w.kind w.text.toList) :
    (scan (String.ofList (spaced ws))).map spelling = ws := by
  unfold scan
  rw [String.toList_ofList]
  exact spellings_scanFrom .start h (Nat.le_refl _)

end Token
end StackScript
