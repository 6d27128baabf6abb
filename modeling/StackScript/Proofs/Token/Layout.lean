import StackScript.Proofs.Token.Breaks

/-
  What stands between words does not matter.

  Words that stand in gaps of any kind are read one by one,
  and the tokens of a text are the first ones of any text
  that goes on with a new line.

  Key definitions include:
    * `Token.IsGap`
    * `Token.LaysOut`

  Key theorems include:
    * `Token.spellings_eq`
    * `Token.scanFrom_append`
    * `Token.spellings_of_laysOut`
-/

namespace StackScript
namespace Token

variable {c : Char}
variable {cs rest : List Char}

------------------------------------------------------------
-- Scanning
------------------------------------------------------------

variable {m n : Nat}
variable {place : Location}

/- The token at the front of a text, if there is one. -/
def front
    (place : Location)
    (c : Char)
    (cs : List Char) : List Token :=
  match (lexeme c cs).kind? with
  | none => []
  | some kind =>
      [⟨kind, String.ofList ((c :: cs).take (lexeme c cs).size), place⟩]

/- Scanning goes on behind the front of a text. -/
theorem scanFrom_cons :
    scanFrom (n + 1) place (c :: cs) =
      front place c cs
        ++ scanFrom n
          (place.after ((c :: cs).take (lexeme c cs).size))
          ((c :: cs).drop (lexeme c cs).size) := by
  rw [scanFrom]
  unfold front
  cases (lexeme c cs).kind? <;> rfl

/- Places do not matter to a front. -/
theorem map_front (place place' : Location) :
    (front place c cs).map spelling =
      (front place' c cs).map spelling := by
  unfold front
  cases (lexeme c cs).kind? <;> rfl

/- What is behind the front is shorter than the text. -/
theorem length_behind :
    ((c :: cs).drop (lexeme c cs).size).length ≤ cs.length := by
  have hSome := (size_lexeme c cs).1
  simp only [List.length_drop, List.length_cons]
  omega

/- More steps than characters, and another place, change no word. -/
theorem spellings_eq
    (place place' : Location)
    (hLeft : cs.length ≤ m)
    (hRight : cs.length ≤ n) :
    (scanFrom m place cs).map spelling =
      (scanFrom n place' cs).map spelling := by
  induction m generalizing n cs place place' with
  | zero =>
      cases List.length_eq_zero_iff.1 (Nat.le_zero.1 hLeft)
      cases n <;> rfl
  | succ m ih =>
      cases cs with
      | nil => cases n <;> rfl
      | cons c cs =>
          cases n with
          | zero => simp at hRight
          | succ n =>
              have hRest := @length_behind c cs
              simp only [List.length_cons] at hLeft hRight
              rw [scanFrom_cons, scanFrom_cons, List.map_append,
                List.map_append, map_front place place']
              congr 1
              exact ih _ _ (by omega) (by omega)

/- A quote at the front opens a literal, or is unknown. -/
theorem lexeme_quote
    (hQuote : c ∈ quotes) :
    lexeme c cs =
      match quotedSize? c cs with
      | some n => ⟨some .stringLiteral, n + 1⟩
      | none => ⟨some .unknown, 1⟩ := by
  have hAll :
      ∀ d ∈ quotes, d ∉ spaces ∧ d ≠ '#' ∧ ¬ (d = ',' ∨ d = ';') := by
    simp [quotes, spaces]
  rcases hAll c hQuote with ⟨hSpace, hComment, hSeparator⟩
  unfold lexeme
  exact (if_neg hSpace).trans ((if_neg hComment).trans
    ((if_neg hSeparator).trans (if_pos hQuote)))

/-
  A text whose words are all known is read in the same way
  in front of a new line and more text.
-/
theorem scanFrom_append
    (hLeft : cs.length ≤ m)
    (hRight : (cs ++ '\n' :: rest).length ≤ n)
    (hKnown : ∀ t ∈ scanFrom m place cs, t.kind ≠ .unknown) :
    ∃ k after, rest.length ≤ k ∧
      scanFrom n place (cs ++ '\n' :: rest) =
        scanFrom m place cs ++ scanFrom k after rest := by
  have hNil :
      ∀ m n place, (([] : List Char) ++ '\n' :: rest).length ≤ n →
        ∃ k after, rest.length ≤ k ∧
          scanFrom n place ([] ++ '\n' :: rest) =
            scanFrom m place [] ++ scanFrom k after rest := by
    intro m n place hRight
    cases n with
    | zero => simp at hRight
    | succ n =>
        refine ⟨n, place.after ['\n'], by simpa using hRight, ?_⟩
        cases m <;> rfl
  induction m generalizing n cs place with
  | zero =>
      cases List.length_eq_zero_iff.1 (Nat.le_zero.1 hLeft)
      exact hNil 0 n place hRight
  | succ m ih =>
      cases cs with
      | nil => exact hNil (m + 1) n place hRight
      | cons c cs =>
          cases n with
          | zero => simp at hRight
          | succ n =>
              have hMost := (size_lexeme c cs).2
              have hQuote :
                  c ∈ quotes → (quotedSize? c cs).isSome = true := by
                intro hMem
                cases hSize : quotedSize? c cs with
                | some k => rfl
                | none =>
                    have hFront := @lexeme_quote c cs hMem
                    rw [hSize] at hFront
                    rw [scanFrom, hFront] at hKnown
                    exact absurd rfl (hKnown _ List.mem_cons_self)
              have hFront :
                  lexeme c (cs ++ '\n' :: rest) = lexeme c cs :=
                lexeme_append (by decide) hQuote fun _ => rfl
              have hTake :
                  (c :: (cs ++ '\n' :: rest)).take (lexeme c cs).size =
                    (c :: cs).take (lexeme c cs).size := by
                rw [← List.cons_append]
                exact List.take_append_of_le_length hMost
              have hDrop :
                  (c :: (cs ++ '\n' :: rest)).drop (lexeme c cs).size =
                    (c :: cs).drop (lexeme c cs).size
                      ++ '\n' :: rest := by
                rw [← List.cons_append]
                exact List.drop_append_of_le_length hMost
              have hSame :
                  front place c (cs ++ '\n' :: rest) =
                    front place c cs := by
                unfold front
                rw [hFront, hTake]
              have hRest := @length_behind c cs
              rw [scanFrom_cons] at hKnown ⊢
              rw [List.cons_append, scanFrom_cons, hSame, hFront, hTake,
                hDrop]
              simp only [List.length_cons, List.length_append]
                at hLeft hRight
              rcases @ih _ n _ (by omega)
                  (by
                    simp only [List.length_append, List.length_cons]
                    omega)
                  (fun t ht => hKnown t (List.mem_append_right _ ht))
                with ⟨k, after, hMore, hEq⟩
              refine ⟨k, after, hMore, ?_⟩
              rw [hEq, List.append_assoc]

------------------------------------------------------------
-- Layouts
------------------------------------------------------------

/- Text between words: blanks, and comments with their lines' ends. -/
inductive IsGap : List Char → Prop
| nil :
    IsGap []
| space
    {c : Char}
    {cs : List Char}
    (hSpace : c = ' ' ∨ c = '\t' ∨ c = '\r' ∨ c = '\n')
    (h : IsGap cs) :
    IsGap (c :: cs)
| comment
    {body cs : List Char}
    (hLine : '\n' ∉ body)
    (h : IsGap cs) :
    IsGap ('#' :: (body ++ '\n' :: cs))

/- The scanner drops the blanks of gaps and no more. -/
theorem mem_spaces :
    c ∈ spaces ↔ c = ' ' ∨ c = '\t' ∨ c = '\r' ∨ c = '\n' := by
  simp [spaces]

/- Words behind gaps that are not empty, and a gap at the end. -/
inductive Trails : List Spelling → List Char → Prop
| nil
    {cs : List Char}
    (hGap : IsGap cs) :
    Trails [] cs
| cons
    {gap cs : List Char}
    {w : Spelling}
    {ws : List Spelling}
    (hGap : IsGap gap)
    (hSome : gap ≠ [])
    (h : Trails ws cs) :
    Trails (w :: ws) (gap ++ (w.text.toList ++ cs))

/-
  A text is some words with gaps around them, of which only
  the first and the last may be empty.
-/
inductive LaysOut : List Spelling → List Char → Prop
| nil
    {cs : List Char}
    (hGap : IsGap cs) :
    LaysOut [] cs
| cons
    {gap cs : List Char}
    {w : Spelling}
    {ws : List Spelling}
    (hGap : IsGap gap)
    (h : Trails ws cs) :
    LaysOut (w :: ws) (gap ++ (w.text.toList ++ cs))

theorem IsGap.head
    (h : IsGap cs) :
    ∀ g ∈ cs.head?, g ∈ breaks := by
  cases h with
  | nil => nofun
  | space hSpace _ =>
      rintro g ⟨⟩
      exact List.mem_cons_of_mem _ (mem_spaces.2 hSpace)
  | comment =>
      rintro g ⟨⟩
      exact List.mem_cons_self

/- Behind a word, a break or the end of the text follows. -/
theorem Trails.head
    {ws : List Spelling}
    (h : Trails ws cs) :
    ∀ g ∈ cs.head?, g ∈ breaks := by
  cases h with
  | nil hGap => exact hGap.head
  | @cons gap cs w ws hGap hSome _ =>
      rcases List.exists_cons_of_ne_nil hSome with ⟨g, gap, rfl⟩
      exact hGap.head

/- A word in front of a break or of nothing is read as itself. -/
theorem lexeme_of_spells_break
    {kind : Kind}
    (h : Spells kind (c :: cs))
    (hNext : ∀ g ∈ rest.head?, g ∈ breaks) :
    lexeme c (cs ++ rest) = ⟨some kind, cs.length + 1⟩ := by
  have hBlank : lexeme c (cs ++ [' ']) = ⟨some kind, cs.length + 1⟩ :=
    lexeme_of_spells h
  by_cases hQuote : c ∈ quotes
  · have hKind : kind = .stringLiteral := by
      rw [lexeme_quote hQuote] at hBlank
      cases hSize : quotedSize? c (cs ++ [' ']) with
      | none =>
          rw [hSize] at hBlank
          have hUnknown : some Kind.unknown = some kind :=
            congrArg Lexeme.kind? hBlank
          cases hUnknown
          exact h.elim
      | some n =>
          rw [hSize] at hBlank
          have hLiteral : some Kind.stringLiteral = some kind :=
            congrArg Lexeme.kind? hBlank
          cases hLiteral
          rfl
    subst hKind
    exact lexeme_quoted h
  · have hComment : c ≠ '#' := by
      rintro rfl
      have hKind : none = some kind := congrArg Lexeme.kind? hBlank
      cases hKind
    have hAny :
        ∀ g more, g ∈ breaks →
          lexeme c (cs ++ g :: more) = lexeme c cs :=
      fun _ _ hBreak =>
        lexeme_append hBreak (absurd · hQuote) (absurd · hComment)
    rw [hAny ' ' [] (by decide)] at hBlank
    cases rest with
    | nil => rw [List.append_nil, hBlank]
    | cons g more => rw [hAny g more (hNext g rfl), hBlank]

/- A gap is dropped. -/
theorem scanFrom_gap
    {gap : List Char}
    (hGap : IsGap gap)
    (hSteps : (gap ++ rest).length ≤ n) :
    ∃ k, rest.length ≤ k ∧
      scanFrom n place (gap ++ rest) =
        scanFrom k (place.after gap) rest := by
  induction hGap generalizing n place with
  | nil => exact ⟨n, hSteps, rfl⟩
  | @space c cs hSpace h ih =>
      cases n with
      | zero => simp at hSteps
      | succ n =>
          have hFront : lexeme c (cs ++ rest) = ⟨none, 1⟩ := by
            unfold lexeme
            rw [if_pos (mem_spaces.2 hSpace)]
          have hFewer : (cs ++ rest).length ≤ n := by
            simpa using hSteps
          rcases @ih n (place.after [c]) hFewer with
            ⟨k, hMore, hEq⟩
          refine ⟨k, hMore, ?_⟩
          change _ = scanFrom k ((place.after [c]).after cs) rest
          rw [← hEq, List.cons_append, scanFrom, hFront]
          rfl
  | @comment body cs hLine h ih =>
      -- The comment takes one step and the end of its line another.
      rcases n with _ | _ | n
      · simp at hSteps
      · simp at hSteps
      · have hBody :
            ∀ d ∈ body, (decide (d ≠ '\n')) = true := by
          intro d hMem
          apply decide_eq_true
          rintro rfl
          exact hLine hMem
        have hFront :
            lexeme '#' (body ++ '\n' :: (cs ++ rest)) =
              ⟨none, body.length + 1⟩ := by
          change
            (⟨none,
              ((body ++ '\n' :: (cs ++ rest)).takeWhile
                (· ≠ '\n')).length + 1⟩ : Lexeme) = _
          rw [List.takeWhile_append_of_pos hBody]
          simp
        have hTake :
            ('#' :: (body ++ '\n' :: (cs ++ rest))).take
                (body.length + 1) =
              '#' :: body := by
          simp
        have hDrop :
            ('#' :: (body ++ '\n' :: (cs ++ rest))).drop
                (body.length + 1) =
              '\n' :: (cs ++ rest) := by
          simp
        have hBlank :
            ∀ next,
              scanFrom (n + 1) next ('\n' :: (cs ++ rest)) =
                scanFrom n (next.after ['\n']) (cs ++ rest) :=
          fun _ => rfl
        have hFewer : (cs ++ rest).length ≤ n := by
          simp only [List.length_append, List.length_cons] at hSteps ⊢
          omega
        have hAfter :
            place.after ('#' :: (body ++ '\n' :: cs)) =
              ((place.after ('#' :: body)).after ['\n']).after cs := by
          rw [← Location.after_append, ← Location.after_append]
          simp
        rcases ih hFewer with ⟨k, hMore, hEq⟩
        refine ⟨k, hMore, ?_⟩
        rw [List.cons_append, List.append_assoc, List.cons_append,
          scanFrom, hFront, hAfter]
        dsimp only
        rw [hTake, hDrop, hBlank]
        exact hEq

/- A word in front of a break or of nothing is a token. -/
theorem scanFrom_word
    {w : Spelling}
    (hWord : Spells w.kind w.text.toList)
    (hNext : ∀ g ∈ rest.head?, g ∈ breaks)
    (hSteps : (w.text.toList ++ rest).length ≤ n) :
    ∃ k, rest.length ≤ k ∧
      scanFrom n place (w.text.toList ++ rest) =
        ⟨w.kind, w.text, place⟩ ::
          scanFrom k (place.after w.text.toList) rest := by
  rcases List.exists_cons_of_ne_nil (ne_nil_of_spells hWord) with
    ⟨c, cs, hText⟩
  rw [hText] at hWord hSteps ⊢
  cases n with
  | zero => simp at hSteps
  | succ n =>
      have hFront : lexeme c (cs ++ rest) = ⟨some w.kind, cs.length + 1⟩ :=
        lexeme_of_spells_break hWord hNext
      have hTake : (c :: (cs ++ rest)).take (cs.length + 1) = c :: cs := by
        simp
      have hDrop : (c :: (cs ++ rest)).drop (cs.length + 1) = rest := by
        simp
      refine ⟨n, ?_, ?_⟩
      · simp only [List.length_append, List.length_cons] at hSteps
        omega
      · rw [List.cons_append, scanFrom, hFront]
        dsimp only
        rw [hTake, hDrop, ← hText, String.ofList_toList]

/- Words behind gaps are read one by one. -/
theorem spellings_of_trails
    {ws : List Spelling}
    (place : Location)
    (hKnown : ∀ w ∈ ws, Spells w.kind w.text.toList)
    (h : Trails ws cs)
    (hSteps : cs.length ≤ n) :
    (scanFrom n place cs).map spelling = ws := by
  induction h generalizing n place with
  | @nil cs hGap =>
      rw [← List.append_nil cs] at hSteps ⊢
      rcases scanFrom_gap hGap hSteps with ⟨k, _, hEq⟩
      rw [hEq]
      cases k <;> rfl
  | @cons gap cs w ws hGap hSome h ih =>
      rcases scanFrom_gap hGap hSteps with ⟨k, hFewer, hEq⟩
      rw [hEq]
      rcases scanFrom_word (hKnown w List.mem_cons_self) h.head hFewer
        with ⟨k, hFewer, hEq⟩
      rw [hEq, List.map_cons,
        ih _ (fun v hv => hKnown v (List.mem_cons_of_mem _ hv)) hFewer]
      rfl

/- Behind one more blank, the first gap is not empty either. -/
theorem LaysOut.trails
    {ws : List Spelling}
    (h : LaysOut ws cs) :
    Trails ws (' ' :: cs) := by
  cases h with
  | nil hGap => exact .nil (.space (by decide) hGap)
  | cons hGap h => exact .cons (.space (by decide) hGap) nofun h

/- A text that lays words out is read as these words. -/
theorem spellings_of_laysOut
    {ws : List Spelling}
    {text : String}
    (hKnown : ∀ w ∈ ws, Spells w.kind w.text.toList)
    (h : LaysOut ws text.toList) :
    (scan text).map spelling = ws := by
  have hSteps :
      (' ' :: text.toList).length ≤ text.toList.length + 1 :=
    Nat.le_refl _
  have hBlank :
      scanFrom (text.toList.length + 1) .start (' ' :: text.toList) =
        scanFrom text.toList.length (Location.start.after [' '])
          text.toList :=
    rfl
  rw [← spellings_of_trails .start hKnown h.trails hSteps, hBlank]
  exact spellings_eq _ _ (Nat.le_refl _) (Nat.le_refl _)

end Token
end StackScript
