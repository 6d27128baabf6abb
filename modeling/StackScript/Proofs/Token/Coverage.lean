import StackScript.Proofs.Token.Layout

/-
  Tokens cover their text and know where they stand.

  A text is a gap, a token, a gap and so on, up to a last
  gap, and nothing else. Every token stands at the row and
  the column that the text before it counts up to, and the
  tokens behind it are those of the text behind it alone. A
  character that begins no word is a token by itself.

  Key definitions include:
    * `Location.behind`
    * `Token.IsLastGap`
    * `Token.Fits`
    * `Token.Covers`

  Key theorems include:
    * `Location.after_behind`
    * `Token.exists_gap`
    * `Token.fits_front`
    * `Token.covers_scan`
-/

namespace StackScript

------------------------------------------------------------
-- Rows and Columns
------------------------------------------------------------

namespace Location

/-
  The place behind some text from the start on: the row
  counts its line feeds, the column the characters behind
  the last of them.
-/
def behind (cs : List Char) : Location :=
  ⟨1 + cs.count '\n', 1 + (cs.reverse.takeWhile (· ≠ '\n')).length⟩

theorem next_behind
    (cs : List Char)
    (c : Char) :
    (behind cs).next c = behind (cs ++ [c]) := by
  unfold behind next
  rw [List.reverse_append, List.reverse_singleton, List.singleton_append,
    List.count_append, List.count_singleton]
  by_cases hFeed : c = '\n'
  · subst hFeed
    simp [Nat.add_assoc]
  · rw [if_neg hFeed, List.takeWhile_cons_of_pos (by simpa using hFeed)]
    simp [hFeed, Nat.add_assoc]

/- Moving over text counts its line feeds and characters. -/
theorem after_behind (cs ds : List Char) :
    (behind cs).after ds = behind (cs ++ ds) := by
  induction ds generalizing cs with
  | nil => rw [List.append_nil, after, List.foldl_nil]
  | cons d ds ih =>
      change ((behind cs).next d).after ds = _
      rw [next_behind, ih, List.append_assoc, List.singleton_append]

end Location

namespace Token

variable {c : Char}
variable {cs rest : List Char}
variable {n : Nat}

------------------------------------------------------------
-- Gaps
------------------------------------------------------------

/- Text behind the last word; a comment at its end stays open. -/
inductive IsLastGap : List Char → Prop
| gap
    {cs : List Char}
    (hGap : IsGap cs) :
    IsLastGap cs
| comment
    {gap body : List Char}
    (hGap : IsGap gap)
    (hLine : '\n' ∉ body) :
    IsLastGap (gap ++ '#' :: body)

theorem IsLastGap.space
    (hSpace : c = ' ' ∨ c = '\t' ∨ c = '\r' ∨ c = '\n')
    (h : IsLastGap cs) :
    IsLastGap (c :: cs) := by
  cases h with
  | gap hGap => exact .gap (.space hSpace hGap)
  | comment hGap hLine => exact .comment (.space hSpace hGap) hLine

theorem IsLastGap.line
    {body : List Char}
    (hLine : '\n' ∉ body)
    (h : IsLastGap cs) :
    IsLastGap ('#' :: (body ++ '\n' :: cs)) := by
  cases h with
  | gap hGap => exact .gap (.comment hLine hGap)
  | @comment gap last hGap hLast =>
      have hWhole : IsLastGap ('#' :: (body ++ '\n' :: gap) ++ '#' :: last) :=
        .comment (.comment hLine hGap) hLast
      simpa using hWhole

/- The line of a comment, and what comes behind it. -/
theorem exists_line (cs : List Char) :
    ∃ body, '\n' ∉ body ∧
      (cs = body ∨ ∃ rest, cs = body ++ '\n' :: rest) := by
  induction cs with
  | nil => exact ⟨[], List.not_mem_nil, .inl rfl⟩
  | cons c cs ih =>
      by_cases hFeed : c = '\n'
      · subst hFeed
        exact ⟨[], List.not_mem_nil, .inr ⟨cs, rfl⟩⟩
      · rcases ih with ⟨body, hLine, hRest⟩
        refine ⟨c :: body, ?_, ?_⟩
        · rw [List.mem_cons, not_or]
          exact ⟨fun hEq => hFeed hEq.symm, hLine⟩
        · rcases hRest with rfl | ⟨rest, rfl⟩
          · exact .inl rfl
          · exact .inr ⟨rest, rfl⟩

/- A text is a last gap, or it has a word behind a gap. -/
theorem exists_gap (cs : List Char) :
    IsLastGap cs ∨
      ∃ gap c rest, cs = gap ++ c :: rest ∧ IsGap gap ∧
        c ∉ spaces ∧ c ≠ '#' := by
  induction hLength : cs.length using Nat.strong_induction_on
    generalizing cs with
  | _ n ih =>
      subst hLength
      rcases cs with _ | ⟨c, cs⟩
      · exact .inl (.gap .nil)
      by_cases hSpace : c ∈ spaces
      · rcases ih cs.length (Nat.lt_succ_self _) cs rfl with
          hLast | ⟨gap, d, rest, rfl, hGap, hWord⟩
        · exact .inl (hLast.space (mem_spaces.1 hSpace))
        · exact .inr ⟨c :: gap, d, rest, rfl,
            .space (mem_spaces.1 hSpace) hGap, hWord⟩
      by_cases hComment : c = '#'
      · subst hComment
        rcases exists_line cs with ⟨body, hLine, rfl | ⟨rest, rfl⟩⟩
        · exact .inl (.comment .nil hLine)
        · have hLess :
              rest.length < ('#' :: (body ++ '\n' :: rest)).length := by
            simp only [List.length_cons, List.length_append]
            omega
          rcases ih rest.length hLess rest rfl with
            hLast | ⟨gap, d, more, rfl, hGap, hWord⟩
          · exact .inl (hLast.line hLine)
          · refine .inr ⟨'#' :: (body ++ '\n' :: gap), d, more, ?_,
              .comment hLine hGap, hWord⟩
            simp
      · exact .inr ⟨[], c, cs, rfl, .nil, hSpace, hComment⟩

/- There is no token in a last gap. -/
theorem scanFrom_lastGap
    {place : Location}
    (h : IsLastGap cs)
    (hSteps : cs.length ≤ n) :
    scanFrom n place cs = [] := by
  cases h with
  | gap hGap =>
      rw [← List.append_nil cs] at hSteps ⊢
      rcases scanFrom_gap hGap hSteps with ⟨k, _, hEq⟩
      rw [hEq]
      cases k <;> rfl
  | @comment gap body hGap hLine =>
      rcases scanFrom_gap hGap hSteps with ⟨k, _, hEq⟩
      have hBody : body.takeWhile (· ≠ '\n') = body := by
        rw [List.takeWhile_eq_self_iff]
        intro d hMem
        apply decide_eq_true
        rintro rfl
        exact hLine hMem
      have hFront : lexeme '#' body = ⟨none, body.length + 1⟩ := by
        change
          (⟨none, (body.takeWhile (· ≠ '\n')).length + 1⟩ : Lexeme) = _
        rw [hBody]
      rw [hEq]
      rcases k with _ | k
      · rfl
      · rw [scanFrom, hFront]
        dsimp only
        rw [← List.length_cons, List.drop_length]
        cases k <;> rfl

------------------------------------------------------------
-- The Front of a Text
------------------------------------------------------------

/- What is no gap has a kind. -/
theorem exists_kind
    (hSpace : c ∉ spaces)
    (hComment : c ≠ '#') :
    ∃ kind, (lexeme c cs).kind? = some kind := by
  unfold lexeme
  rw [if_neg hSpace, if_neg hComment]
  split
  · exact ⟨_, rfl⟩
  split
  · split <;> exact ⟨_, rfl⟩
  split
  · exact ⟨_, rfl⟩
  split
  · exact ⟨_, rfl⟩
  · rcases symbol_cases c cs with ⟨_, _, _, _, hEq⟩ | ⟨_, hEq⟩ | hEq <;>
      exact ⟨_, congrArg Lexeme.kind? hEq⟩

/- No operator begins at a symbol that is unknown. -/
theorem not_mem_of_symbol
    (h : (symbol c cs).kind? = some .unknown) :
    c ∉ shortOperators ∧ ∀ d ∈ cs.head?, (c, d) ∉ longOperators := by
  have hShort :
      (if c ∈ shortOperators then (⟨some .operator, 1⟩ : Lexeme)
        else ⟨some .unknown, 1⟩).kind? = some .unknown →
      c ∉ shortOperators := by
    intro hKind hMem
    rw [if_pos hMem] at hKind
    cases hKind
  unfold symbol at h
  cases cs with
  | nil => exact ⟨hShort h, fun d hMem => absurd hMem (by simp)⟩
  | cons d ds =>
      dsimp only at h
      by_cases hLong : (c, d) ∈ longOperators
      · rw [if_pos hLong] at h
        cases h
      · rw [if_neg hLong] at h
        refine ⟨hShort h, ?_⟩
        rintro _ ⟨⟩
        exact hLong

/-
  An unknown front is one character: a quote that is never
  closed, or what begins no other word.
-/
theorem unknown_cases
    (h : (lexeme c cs).kind? = some .unknown) :
    lexeme c cs = ⟨some .unknown, 1⟩ ∧ ¬ (c = ',' ∨ c = ';') ∧
      ((c ∈ quotes ∧ quotedSize? c cs = none) ∨
        (c ∉ quotes ∧ ¬ c.isDigit = true ∧ ¬ isLetter c = true ∧
          (symbol c cs).kind? = some .unknown)) := by
  unfold lexeme at h ⊢
  by_cases hSpace : c ∈ spaces
  · rw [if_pos hSpace] at h
    cases h
  rw [if_neg hSpace] at h ⊢
  by_cases hComment : c = '#'
  · rw [if_pos hComment] at h
    cases h
  rw [if_neg hComment] at h ⊢
  by_cases hSeparator : c = ',' ∨ c = ';'
  · rw [if_pos hSeparator] at h
    cases h
  rw [if_neg hSeparator] at h ⊢
  by_cases hQuote : c ∈ quotes
  · rw [if_pos hQuote] at h ⊢
    cases hSize : quotedSize? c cs with
    | none => exact ⟨rfl, hSeparator, .inl ⟨hQuote, rfl⟩⟩
    | some n =>
        rw [hSize] at h
        cases h
  rw [if_neg hQuote] at h ⊢
  by_cases hDigit : c.isDigit = true
  · rw [if_pos hDigit] at h
    cases h
  rw [if_neg hDigit] at h ⊢
  by_cases hLetter : isLetter c = true
  · rw [if_pos hLetter] at h
    dsimp only at h
    split at h <;> cases h
  rw [if_neg hLetter] at h ⊢
  refine ⟨?_, hSeparator, .inr ⟨hQuote, hDigit, hLetter, h⟩⟩
  rcases symbol_cases c cs with ⟨_, _, _, _, hEq⟩ | ⟨_, hEq⟩ | hEq
  · rw [hEq] at h
    cases h
  · rw [hEq] at h
    cases h
  · exact hEq

/- No word of any kind begins where the front is unknown. -/
theorem not_spells_of_unknown
    (h : (lexeme c cs).kind? = some .unknown)
    (kind : Kind)
    (n : Nat) :
    ¬ Spells kind (c :: cs.take n) := by
  have hQuotes :
      ∀ d ∈ quotes, ¬ d.isDigit = true ∧ ¬ isLetter d = true ∧
        d ≠ '\\' ∧ d ∉ shortOperators ∧
          ∀ p ∈ longOperators, p.1 ≠ d := by
    simp [quotes, shortOperators, longOperators, isLetter]
  rcases unknown_cases h with ⟨_, hSeparator, hCases⟩
  have hPlain : ¬ c.isDigit = true ∧ ¬ isLetter c = true := by
    rcases hCases with ⟨hQuote, _⟩ | ⟨_, hDigit, hLetter, _⟩
    · exact ⟨(hQuotes c hQuote).1, (hQuotes c hQuote).2.1⟩
    · exact ⟨hDigit, hLetter⟩
  intro hSpells
  cases kind with
  | keyword | identifier => exact hPlain.2 hSpells.1.1
  | literal => exact hPlain.1 (isDigit_of_isNumber hSpells)
  | stringLiteral =>
      rcases hCases with ⟨hQuote, hSize⟩ | ⟨hQuote, _⟩
      · have hSlash := (hQuotes c hQuote).2.2.1
        have hClosed :
            quotedSize? c (cs.take n ++ cs.drop n) =
              some (cs.take n).length :=
          quotedSize?_append hSlash hSpells.2
        rw [List.take_append_drop, hSize] at hClosed
        cases hClosed
      · exact hQuote (mem_quotes.2 hSpells.1)
  | operator =>
      have hNone :
          c ∉ shortOperators ∧
            ∀ d ∈ cs.head?, (c, d) ∉ longOperators := by
        rcases hCases with ⟨hQuote, _⟩ | ⟨_, _, _, hSymbol⟩
        · rcases hQuotes c hQuote with ⟨_, _, _, hShort, hLong⟩
          exact ⟨hShort, fun d _ hMem => hLong _ hMem rfl⟩
        · exact not_mem_of_symbol hSymbol
      rcases hSpells with ⟨d, hMem, hText⟩ | ⟨p, hMem, hText⟩
      · injection hText with hFirst _
        subst hFirst
        exact hNone.1 hMem
      · injection hText with hFirst hSecond
        subst hFirst
        have hHead : p.2 ∈ cs.head? := by
          rcases cs with _ | ⟨d, ds⟩
          · simp at hSecond
          · rcases n with _ | n
            · simp at hSecond
            · injection hSecond with hEq _
              rw [hEq]
              rfl
        exact hNone.2 p.2 hHead hMem
  | separator =>
      rcases hSpells with hText | hText
      · injection hText with hFirst _
        exact hSeparator (.inl hFirst)
      · injection hText with hFirst _
        exact hSeparator (.inr hFirst)
  | unknown => exact hSpells

------------------------------------------------------------
-- Whole Texts
------------------------------------------------------------

/-
  A token stands between two texts: behind the one it has
  its place, and it is a word of its kind, or a character at
  which no word begins.
-/
structure Fits
    (t : Token)
    (before behind : List Char) : Prop where
  nonempty : t.text.toList ≠ []
  location : t.location = .behind before
  known : t.kind ≠ .unknown → Spells t.kind t.text.toList
  unknown :
    t.kind = .unknown →
      ∃ c, t.text.toList = [c] ∧
        ∀ kind n, ¬ Spells kind (c :: behind.take n)

/-
  Tokens cover a text that stands behind another: there are
  gaps around them, and nothing else. The words behind each
  token are those of the text behind it alone.
-/
inductive Covers : List Char → List Token → List Char → Prop
| nil
    {before gap : List Char}
    (hGap : IsLastGap gap) :
    Covers before [] gap
| cons
    {before gap behind : List Char}
    {t : Token}
    {ts : List Token}
    (hGap : IsGap gap)
    (hFits : t.Fits (before ++ gap) behind)
    (hResumes :
      ts.map spelling =
        (scan (String.ofList behind)).map spelling)
    (h : Covers (before ++ gap ++ t.text.toList) ts behind) :
    Covers before (t :: ts) (gap ++ (t.text.toList ++ behind))

/- The token at the front of a text fits there. -/
theorem fits_front
    {before : List Char}
    {kind : Kind}
    (h : (lexeme c cs).kind? = some kind) :
    Fits
      ⟨kind, String.ofList ((c :: cs).take (lexeme c cs).size),
        .behind before⟩
      before ((c :: cs).drop (lexeme c cs).size) where
  nonempty := by
    have hSome := (size_lexeme c cs).1
    rw [String.toList_ofList]
    intro hNone
    rcases List.take_eq_nil_iff.1 hNone with hZero | hNil
    · omega
    · cases hNil
  location := rfl
  known hKnown := by
    rw [String.toList_ofList]
    exact spells_lexeme h hKnown
  unknown hUnknown := by
    cases hUnknown
    rw [String.toList_ofList, (unknown_cases h).1]
    exact ⟨c, rfl, not_spells_of_unknown h⟩

/- A word behind a gap covers the text up to where scanning goes on. -/
theorem Covers.front
    {before gap : List Char}
    {kind : Kind}
    (hGap : IsGap gap)
    (hKind : (lexeme c cs).kind? = some kind)
    (hSteps : cs.length ≤ n)
    (hMore :
      ∀ text behind, behind.length ≤ cs.length →
        Covers (before ++ gap ++ text)
          (scanFrom n (.behind (before ++ gap ++ text)) behind) behind) :
    Covers before (scanFrom (n + 1) (.behind (before ++ gap)) (c :: cs))
      (gap ++ c :: cs) := by
  have hFront :
      Token.front (.behind (before ++ gap)) c cs =
        [⟨kind, String.ofList ((c :: cs).take (lexeme c cs).size),
          .behind (before ++ gap)⟩] := by
    unfold Token.front
    rw [hKind]
  have hFits :
      Fits
        ⟨kind, String.ofList ((c :: cs).take (lexeme c cs).size),
          .behind (before ++ gap)⟩
        (before ++ gap) ((c :: cs).drop (lexeme c cs).size) :=
    fits_front hKind
  have hLess := @length_behind c cs
  have hWhole := List.take_append_drop (lexeme c cs).size (c :: cs)
  rw [scanFrom_cons, hFront, Location.after_behind]
  generalize (c :: cs).take (lexeme c cs).size = text at *
  generalize (c :: cs).drop (lexeme c cs).size = behind at *
  have hResumes :
      (scanFrom n (.behind (before ++ gap ++ text)) behind).map spelling =
        (scan (String.ofList behind)).map spelling := by
    unfold scan
    rw [String.toList_ofList]
    exact spellings_eq _ _ (Nat.le_trans hLess hSteps) (Nat.le_refl _)
  have hCovers := Covers.cons hGap hFits hResumes
  rw [String.toList_ofList, hWhole] at hCovers
  exact hCovers (hMore text behind hLess)

/- Scanning covers a text, whatever stands in front of it. -/
theorem covers_scanFrom
    {before : List Char}
    (hSteps : cs.length ≤ n) :
    Covers before (scanFrom n (.behind before) cs) cs := by
  induction hLength : cs.length using Nat.strong_induction_on
    generalizing n before cs with
  | _ length ih =>
      subst hLength
      rcases exists_gap cs with
        hLast | ⟨gap, c, cs, rfl, hGap, hSpace, hComment⟩
      · rw [scanFrom_lastGap hLast hSteps]
        exact .nil hLast
      · have hToken : ∃ kind, (lexeme c cs).kind? = some kind :=
          exists_kind hSpace hComment
        have hBehind :
            ∃ k, (c :: cs).length ≤ k ∧
              scanFrom n (.behind before) (gap ++ c :: cs) =
                scanFrom k ((Location.behind before).after gap)
                  (c :: cs) :=
          scanFrom_gap hGap hSteps
        rcases hToken with ⟨kind, hKind⟩
        rcases hBehind with ⟨k, hEnough, hEq⟩
        rw [hEq, Location.after_behind]
        rcases k with _ | k
        · simp at hEnough
        have hFewer : cs.length ≤ k := by
          simpa using hEnough
        apply Covers.front hGap hKind hFewer
        intro text behind hLess
        have hShorter :
            behind.length < (gap ++ (c :: cs)).length := by
          simp only [List.length_append, List.length_cons]
          omega
        exact ih behind.length hShorter (Nat.le_trans hLess hFewer) rfl

/- The tokens of a text cover it from its start to its end. -/
theorem covers_scan (source : String) :
    Covers [] (scan source) source.toList :=
  covers_scanFrom (Nat.le_refl _)

/- A quote that is never closed is a token, and so is what follows. -/
example :
    scan "'é#\n\"b" =
      [⟨.unknown, "'", ⟨1, 1⟩⟩, ⟨.unknown, "é", ⟨1, 2⟩⟩,
       ⟨.unknown, "\"", ⟨2, 1⟩⟩, ⟨.identifier, "b", ⟨2, 2⟩⟩] := by
  cbv

end Token
end StackScript
