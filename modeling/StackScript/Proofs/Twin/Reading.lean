import StackScript.Parse.Statement
import StackScript.Proofs.Printed.Words
import StackScript.Proofs.Twin.Paired

/-
  Two readings side by side.

  The words of the second reading are those of the first
  and perhaps more, and the places of the words may differ.
  A parser that succeeds in the first reading succeeds in
  the second with the same result up to places. Where both
  readings have the same words and bounds, errors are the
  same up to places as well.

  Key definitions include:
    * `ParseError.unplaced`
    * `Parser.Slack`
    * `Parser.Slack.Beside`
    * `Parser.Tracks`

  Key theorems include:
    * `Parser.Slack.Beside.fronts`
    * `Parser.Tracks.bind`
    * `Parser.tracks_ifPeek`
-/

namespace StackScript

/- An error with its place forgotten. -/
def ParseError.unplaced : ParseError → ParseError
| .unexpectedToken text _ => .unexpectedToken text .start
| .unexpectedEnd _ => .unexpectedEnd .start
| .missingToken expected _ => .missingToken expected .start
| .missingRightSide after _ => .missingRightSide after .start
| .assignment operator _ => .assignment operator .start
| .functionCall name _ => .functionCall name .start
| .chainedFunctionCall name _ => .chainedFunctionCall name .start
| .chainedStep _ => .chainedStep .start
| .invalidPost operator kind _ => .invalidPost operator kind .start
| .invalidPre operator kind _ => .invalidPre operator kind .start
| .expectedIdentifier after _ => .expectedIdentifier after .start
| .invalidForInitializer _ => .invalidForInitializer .start
| .expectedParameter function text _ =>
    .expectedParameter function text .start
| .duplicateParameter name function _ =>
    .duplicateParameter name function .start
| .trailingComma function _ => .trailingComma function .start

/- Two errors differ in their places alone. -/
def ParseError.Same (e f : ParseError) : Prop :=
  f.unplaced = e.unplaced

namespace Parser

open Token (spelling)

------------------------------------------------------------
-- Cursors
------------------------------------------------------------

/-
  How much the second of two readings may differ: the words
  that it has behind those of the first, and whether it may
  succeed where the first fails. More words start with a
  semicolon, and with them it may succeed.
-/
structure Slack where
  words : List Token.Spelling
  loose : Prop
  semicolon : ∀ w ∈ words.head?, w = Token.Spelling.semicolon
  loose_of_words : words ≠ [] → loose

namespace Slack

/- Both readings have the same words and fail alike. -/
def none : Slack :=
  ⟨[], False, nofun, fun h => absurd rfl h⟩

/-
  Two cursors have the same words in front of them, up to
  those that only the second has, and signs may follow in
  both or in none.
-/
structure Beside
    (m : Slack)
    (c d : Cursor) : Prop where
  rest : d.rest.map spelling = c.rest.map spelling ++ m.words
  before : signMayFollow d.before = signMayFollow c.before

/- The bound of the second reading is the same, or not smaller. -/
def Bounds
    (m : Slack)
    (bound bound' : Nat) : Prop :=
  bound ≤ bound' ∧ (bound = bound' ∨ m.loose)

/- The next tokens of two cursors. -/
inductive Fronts (m : Slack) : Cursor → Cursor → Prop
| ended
    {before before' : Option Token} :
    Fronts m ⟨before, []⟩ ⟨before', []⟩
| next
    {before before' : Option Token}
    {t t' : Token}
    {rest rest' : List Token}
    (hSame : spelling t' = spelling t)
    (hRest : m.Beside ⟨some t, rest⟩ ⟨some t', rest'⟩) :
    Fronts m ⟨before, t :: rest⟩ ⟨before', t' :: rest'⟩
| more
    {before before' : Option Token}
    {t' : Token}
    {rest' : List Token}
    (hLoose : m.loose)
    (hSemicolon : spelling t' = Token.Spelling.semicolon) :
    Fronts m ⟨before, []⟩ ⟨before', t' :: rest'⟩

variable {m : Slack}
variable {c d : Cursor}

/- Tokens with the same spelling allow signs behind alike. -/
theorem signMayFollow_of_spelling
    {t t' : Token}
    (h : spelling t' = spelling t) :
    signMayFollow (some t') = signMayFollow (some t) := by
  cases t
  cases t'
  cases h
  rfl

/- Two cursors side by side end, go on alike, or the first ends. -/
theorem Beside.fronts
    (h : m.Beside c d) :
    m.Fronts c d := by
  rcases c with ⟨before, rest⟩
  rcases d with ⟨before', rest'⟩
  have hRest := h.rest
  dsimp only at hRest
  cases rest with
  | nil =>
      cases rest' with
      | nil => exact .ended
      | cons t' rest' =>
          rw [List.map_cons, List.map_nil, List.nil_append] at hRest
          have hWords : m.words ≠ [] := by
            rw [← hRest]
            nofun
          refine .more (m.loose_of_words hWords) (m.semicolon _ ?_)
          rw [← hRest]
          rfl
  | cons t rest =>
      cases rest' with
      | nil => cases hRest
      | cons t' rest' =>
          rw [List.map_cons, List.map_cons, List.cons_append] at hRest
          rcases List.cons.inj hRest with ⟨hFirst, hOthers⟩
          exact .next hFirst
            ⟨hOthers, signMayFollow_of_spelling hFirst⟩

/- Bounds side by side have predecessors side by side. -/
theorem Bounds.of_succ
    {bound bound' : Nat}
    (h : m.Bounds (bound + 1) bound') :
    ∃ less, bound' = less + 1 ∧ m.Bounds bound less := by
  rcases h with ⟨hLess, hSame⟩
  cases bound' with
  | zero => omega
  | succ less =>
      refine ⟨less, rfl, by omega, ?_⟩
      rcases hSame with hSame | hLoose
      · exact .inl (by omega)
      · exact .inr hLoose

end Slack

------------------------------------------------------------
-- Results
------------------------------------------------------------

/- What two readings of the same words give. -/
inductive Answers
    {α β : Type}
    (m : Slack)
    (Q : α → β → Prop) :
    Except ParseError (α × Cursor) →
      Except ParseError (β × Cursor) → Prop
| ok
    {a b c d}
    (hPlace : m.Beside c d)
    (hResult : Q a b) :
    Answers m Q (.ok (a, c)) (.ok (b, d))
| error
    {e e'}
    (hSame : e.Same e') :
    Answers m Q (.error e) (.error e')
| loose
    {e r}
    (hLoose : m.loose) :
    Answers m Q (.error e) r

/- From two cursors, two parsers give the same up to places. -/
def Tracks
    {α β : Type}
    (m : Slack)
    (c d : Cursor)
    (x : Parser α)
    (y : Parser β)
    (Q : α → β → Prop) : Prop :=
  Answers m Q (x.run c) (y.run d)

variable {α β γ δ : Type}
variable {m : Slack}
variable {c d : Cursor}
variable {x : Parser α}
variable {y : Parser β}
variable {f : α → Parser γ}
variable {g : β → Parser δ}
variable {Q : α → β → Prop}
variable {Q' : γ → δ → Prop}

theorem tracks_pure
    {a : α}
    {b : β}
    (hPlace : m.Beside c d)
    (hResult : Q a b) :
    Tracks m c d (pure a) (pure b) Q :=
  .ok hPlace hResult

theorem tracks_throw
    {e e' : ParseError}
    (hSame : e.Same e') :
    Tracks m c d (throw e : Parser α) (throw e' : Parser β) Q :=
  .error hSame

/- What fails at the next token fails alike at another place. -/
theorem tracks_failHere
    {error error' : Location → ParseError}
    (hSame : ∀ l l', (error l).Same (error' l')) :
    Tracks m c d (failHere error : Parser α)
      (failHere error' : Parser β) Q :=
  .error (hSame c.here d.here)

/- Where the first reading fails, the second may go on. -/
theorem tracks_failed
    {e : ParseError}
    (hLoose : m.loose)
    (hRun : x.run c = .error e) :
    Tracks m c d x y Q := by
  unfold Tracks
  rw [hRun]
  exact .loose hLoose

theorem Tracks.bind
    (hFirst : Tracks m c d x y Q)
    (hThen :
      ∀ a b c' d', m.Beside c' d' → Q a b →
        Tracks m c' d' (f a) (g b) Q') :
    Tracks m c d (x >>= f) (y >>= g) Q' := by
  have hLeft :
      (x >>= f).run c = (x.run c).bind fun r => (f r.1).run r.2 :=
    rfl
  have hRight :
      (y >>= g).run d = (y.run d).bind fun r => (g r.1).run r.2 :=
    rfl
  unfold Tracks at hFirst ⊢
  rw [hLeft, hRight]
  generalize x.run c = left at hFirst
  generalize y.run d = right at hFirst
  cases hFirst with
  | ok hPlace hResult => exact hThen _ _ _ _ hPlace hResult
  | error hSame => exact .error hSame
  | loose hLoose => exact .loose hLoose

/- What is computed without the cursor leaves it in its place. -/
theorem tracks_lift
    {left : Except ParseError α}
    {right : Except ParseError β}
    (hBoth : Agree ParseError.Same Q left right)
    (hThen : ∀ a b, Q a b → Tracks m c d (f a) (g b) Q') :
    Tracks m c d (liftM left >>= f) (liftM right >>= g) Q' := by
  cases left with
  | ok a =>
      cases right with
      | ok b => exact hThen a b hBoth
      | error e => exact hBoth.elim
  | error e =>
      cases right with
      | ok b => exact hBoth.elim
      | error e' => exact .error hBoth

------------------------------------------------------------
-- Looking and Moving
------------------------------------------------------------

variable {before before' : Option Token}
variable {t t' : Token}
variable {rest rest' : List Token}

theorem tracks_get
    {f : Cursor → Parser γ}
    {g : Cursor → Parser δ}
    (h : Tracks m c d (f c) (g d) Q') :
    Tracks m c d (get >>= f) (get >>= g) Q' :=
  h

theorem tracks_here
    {f : Location → Parser γ}
    {g : Location → Parser δ}
    (h : Tracks m c d (f c.here) (g d.here) Q') :
    Tracks m c d (here >>= f) (here >>= g) Q' :=
  h

theorem tracks_peek
    {f : Option Token → Parser γ}
    {g : Option Token → Parser δ}
    (h : Tracks m c d (f c.rest.head?) (g d.rest.head?) Q') :
    Tracks m c d (peek >>= f) (peek >>= g) Q' :=
  h

theorem tracks_advance
    {f : Unit → Parser γ}
    {g : Unit → Parser δ}
    (h :
      Tracks m ⟨some t, rest⟩ ⟨some t', rest'⟩ (f ()) (g ()) Q') :
    Tracks m ⟨before, t :: rest⟩ ⟨before', t' :: rest'⟩
      (advance >>= f) (advance >>= g) Q' :=
  h

/-
  A property of tokens that depends on their spelling alone,
  and that no semicolon has.
-/
structure Marks (p : Token → Bool) : Prop where
  eq : ∀ {t t'}, spelling t' = spelling t → p t' = p t
  semicolon :
    ∀ {t}, spelling t = Token.Spelling.semicolon → p t = false

/- Being the word `text` depends on the spelling. -/
theorem is_eq
    (kind : Token.Kind)
    (text : String)
    (hSame : spelling t' = spelling t) :
    t'.is kind text = t.is kind text := by
  cases t
  cases t'
  cases hSame
  rfl

/- Being another word than a semicolon is such a property. -/
theorem marks_is
    {kind : Token.Kind}
    {text : String}
    (hOther : (kind, text) ≠ (.separator, ";")) :
    Marks (·.is kind text) where
  eq hSame := is_eq kind text hSame
  semicolon {t} hSemicolon := by
    cases t
    cases hSemicolon
    unfold Token.is
    dsimp only
    by_contra hBoth
    simp only [Bool.not_eq_false, Bool.and_eq_true, beq_iff_eq]
      at hBoth
    exact hOther (by rw [← hBoth.1, ← hBoth.2])

theorem marks_operator (text : String) :
    Marks (·.isOperator text) :=
  marks_is nofun

theorem marks_keyword (text : String) :
    Marks (·.isKeyword text) :=
  marks_is nofun

theorem marks_comma : Marks (·.isSeparator ",") :=
  marks_is (by decide)

/- A test for the next token comes out alike. -/
theorem tracks_ifNext
    {p : Token → Bool}
    {found other : Parser γ}
    {found' other' : Parser δ}
    (hMarks : Marks p)
    (hPlace : m.Beside c d)
    (hFound :
      ∀ before before' t t' rest rest',
        c = ⟨before, t :: rest⟩ → d = ⟨before', t' :: rest'⟩ →
        p t = true → spelling t' = spelling t →
        m.Beside ⟨some t, rest⟩ ⟨some t', rest'⟩ →
        Tracks m c d found found' Q')
    (hOther : Tracks m c d other other' Q') :
    Tracks m c d
      (peekIs p >>= fun b => if b = true then found else other)
      (peekIs p >>= fun b => if b = true then found' else other')
      Q' := by
  change
    Tracks m c d
      (if c.rest.head?.any p = true then found else other)
      (if d.rest.head?.any p = true then found' else other') Q'
  cases hPlace.fronts with
  | ended => exact hOther
  | next hSame hRest =>
      change
        Tracks m _ _ (if p _ = true then _ else _)
          (if p _ = true then _ else _) Q'
      rw [hMarks.eq hSame]
      split
      · rename_i hToken
        exact hFound _ _ _ _ _ _ rfl rfl hToken hSame hRest
      · exact hOther
  | more hLoose hSemicolon =>
      change Tracks m _ _ other (if p _ = true then _ else _) Q'
      rw [hMarks.semicolon hSemicolon]
      exact hOther

/- A test that takes the token comes out alike. -/
theorem tracks_ifPeek
    {p : Token → Bool}
    {found other : Parser γ}
    {found' other' : Parser δ}
    (hMarks : Marks p)
    (hPlace : m.Beside c d)
    (hFound :
      ∀ c' d', m.Beside c' d' → Tracks m c' d' found found' Q')
    (hOther : Tracks m c d other other' Q') :
    Tracks m c d
      (peekIs p >>= fun b =>
        if b = true then advance >>= fun _ => found else other)
      (peekIs p >>= fun b =>
        if b = true then advance >>= fun _ => found' else other')
      Q' := by
  refine tracks_ifNext hMarks hPlace ?_ hOther
  rintro before before' t t' rest rest' rfl rfl _ _ hRest
  exact tracks_advance (hFound _ _ hRest)

/- An operator that has to come next is taken in both, or missing. -/
theorem tracks_expectOperator
    {text : String}
    (hPlace : m.Beside c d) :
    Tracks m c d (expectOperator text) (expectOperator text)
      fun _ _ => True := by
  refine tracks_ifNext (marks_operator text) hPlace ?_ ?_
  · rintro before before' t t' rest rest' rfl rfl _ _ hRest
    exact .ok hRest trivial
  · exact tracks_failHere fun _ _ => rfl

/-
  A test for a semicolon comes out alike, or the first
  reading ends in front of one; it has to fail there.
-/
theorem tracks_ifSemicolon
    {found other : Parser γ}
    {found' other' : Parser δ}
    (hPlace : m.Beside c d)
    (hFound :
      ∀ before before' t t' rest rest',
        c = ⟨before, t :: rest⟩ → d = ⟨before', t' :: rest'⟩ →
        m.Beside ⟨some t, rest⟩ ⟨some t', rest'⟩ →
        Tracks m c d found found' Q')
    (hOther : Tracks m c d other other' Q')
    (hEnd : ∀ before, ∃ e, other.run ⟨before, []⟩ = .error e) :
    Tracks m c d
      (peekIs (·.isSeparator ";") >>= fun b =>
        if b = true then found else other)
      (peekIs (·.isSeparator ";") >>= fun b =>
        if b = true then found' else other')
      Q' := by
  cases hPlace.fronts with
  | ended => exact hOther
  | @next before before' t t' rest rest' hSame hRest =>
      change
        Tracks m _ _ (if t.is .separator ";" = true then _ else _)
          (if t'.is .separator ";" = true then _ else _) Q'
      rw [is_eq .separator ";" hSame]
      split
      · exact hFound _ _ _ _ _ _ rfl rfl hRest
      · exact hOther
  | @more before _ _ _ hLoose _ =>
      rcases hEnd before with ⟨e, hRun⟩
      exact tracks_failed hLoose hRun

/- A semicolon that has to come next is taken in both, or missing. -/
theorem tracks_expectSemicolon
    (hPlace : m.Beside c d) :
    Tracks m c d expectSemicolon expectSemicolon
      fun _ _ => True := by
  refine tracks_ifSemicolon hPlace ?_ ?_ ?_
  · rintro before before' t t' rest rest' rfl rfl hRest
    exact .ok hRest trivial
  · exact tracks_failHere fun _ _ => rfl
  · intro before
    exact ⟨_, rfl⟩

/- An identifier that has to come next is the same in both. -/
theorem tracks_expectIdentifier
    {keyword : String}
    (hPlace : m.Beside c d) :
    Tracks m c d (expectIdentifier keyword)
      (expectIdentifier keyword) Eq := by
  apply tracks_peek
  cases hPlace.fronts with
  | ended => exact tracks_failHere fun _ _ => rfl
  | @next before before' t t' rest rest' hSame hRest =>
      rcases Token.Spelling.mk.inj hSame with ⟨hKind, hText⟩
      dsimp only [List.head?_cons]
      rw [hKind]
      split
      · exact tracks_advance (tracks_pure hRest hText.symm)
      · exact tracks_failHere fun _ _ => rfl
  | more hLoose _ => exact tracks_failed hLoose rfl

/- Some token has to follow an operator in both. -/
theorem tracks_requireOperand
    (hSame : spelling t' = spelling t)
    (hPlace : m.Beside c d) :
    Tracks m c d (requireOperand t) (requireOperand t')
      fun _ _ => True := by
  have hText : t'.text = t.text := (Token.Spelling.mk.inj hSame).2
  apply tracks_peek
  cases hPlace.fronts with
  | ended =>
      apply tracks_throw
      unfold ParseError.Same ParseError.unplaced
      rw [hText]
  | next hNext hRest => exact tracks_pure hPlace trivial
  | more hLoose _ => exact tracks_failed hLoose rfl

end Parser
end StackScript
