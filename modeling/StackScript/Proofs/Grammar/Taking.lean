import StackScript.Parse.Cursor

/-
  What parsers take from a list of tokens.

  A parser that succeeds has moved the cursor over a run of
  the next tokens, in their order. `Parser.Takes` says what
  this run and the result have to do with each other, and
  there is one rule for each way of making parsers.

  Key definitions include:
    * `Parser.Takes`

  Key theorems include:
    * `Parser.Takes.bind`
    * `Parser.takes_advance`
    * `Parser.takes_expectOperator`
-/

namespace StackScript

/- A place in front of a token is where that token starts. -/
@[simp] theorem Cursor.here_cons
    (before : Option Token)
    (t : Token)
    (rest : List Token) :
    Cursor.here ⟨before, t :: rest⟩ = t.location :=
  rfl

namespace Parser

variable {α β : Type}
variable {c : Cursor}
variable {x : Parser α}
variable {f : α → Parser β}
variable {P : List Token → α → Prop}
variable {Q : List Token → β → Prop}

/-
  Where a parser succeeds, the tokens that it moves over and
  its result are related.
-/
def Takes
    (c : Cursor)
    (x : Parser α)
    (P : List Token → α → Prop) : Prop :=
  ∀ a after, x.run c = .ok (a, after) →
    ∃ ts, c.rest = ts ++ after.rest ∧ P ts a

------------------------------------------------------------
-- Results and Errors
------------------------------------------------------------

/- A result takes nothing. -/
theorem takes_pure
    {a : α}
    (h : P [] a) :
    Takes c (pure a) P := by
  intro b after hRun
  cases hRun
  exact ⟨[], rfl, h⟩

/- An error takes nothing and gives nothing. -/
theorem takes_throw
    (error : ParseError) :
    Takes c (throw error) P :=
  nofun

theorem takes_failHere
    (error : Location → ParseError) :
    Takes c (failHere error) P :=
  nofun

theorem Takes.mono
    {R : List Token → α → Prop}
    (h : Takes c x P)
    (hImp : ∀ ts a, P ts a → R ts a) :
    Takes c x R := by
  intro a after hRun
  rcases h a after hRun with ⟨ts, hRest, hTaken⟩
  exact ⟨ts, hRest, hImp ts a hTaken⟩

------------------------------------------------------------
-- Sequences
------------------------------------------------------------

/- A sequence succeeds where both parts do. -/
theorem run_bind_eq_ok
    {b : β}
    {after : Cursor}
    (h : (x >>= f).run c = .ok (b, after)) :
    ∃ a middle,
      x.run c = .ok (a, middle) ∧
        (f a).run middle = .ok (b, after) := by
  have hRun :
      (x >>= f).run c =
        (x.run c).bind fun r => (f r.1).run r.2 :=
    rfl
  rw [hRun] at h
  cases hFirst : x.run c with
  | error error =>
      rw [hFirst] at h
      cases h
  | ok result =>
      rw [hFirst] at h
      exact ⟨result.1, result.2, rfl, h⟩

/- What a sequence takes is what its parts take. -/
theorem Takes.bind
    (hFirst : Takes c x P)
    (hThen :
      ∀ ts a middle, P ts a →
        Takes middle (f a) fun us => Q (ts ++ us)) :
    Takes c (x >>= f) Q := by
  intro b after hRun
  rcases run_bind_eq_ok hRun with ⟨a, middle, hStart, hEnd⟩
  rcases hFirst a middle hStart with ⟨ts, hRest, hTaken⟩
  rcases hThen ts a middle hTaken b after hEnd with
    ⟨us, hMore, hBoth⟩
  refine ⟨ts ++ us, ?_, hBoth⟩
  rw [hRest, hMore, List.append_assoc]

/- What is computed without the cursor takes nothing. -/
theorem takes_lift
    {result : Except ParseError α}
    (h : ∀ a, result = .ok a → Takes c (f a) Q) :
    Takes c (liftM result >>= f) Q := by
  intro b after hRun
  rcases run_bind_eq_ok hRun with ⟨a, middle, hStart, hEnd⟩
  cases hResult : result with
  | error error =>
      rw [hResult] at hStart
      cases hStart
  | ok value =>
      rw [hResult] at hStart
      cases hStart
      exact h a hResult b after hEnd

------------------------------------------------------------
-- Looking and Moving
------------------------------------------------------------

/- Looking at the cursor takes nothing. -/
theorem takes_get
    {f : Cursor → Parser β}
    (h : Takes c (f c) Q) :
    Takes c (get >>= f) Q :=
  h

theorem takes_here
    {f : Location → Parser β}
    (h : Takes c (f c.here) Q) :
    Takes c (here >>= f) Q :=
  h

theorem takes_peek
    {f : Option Token → Parser β}
    (h : Takes c (f c.rest.head?) Q) :
    Takes c (peek >>= f) Q :=
  h

theorem takes_peekIs
    {f : Bool → Parser β}
    {p : Token → Bool}
    (h : Takes c (f (c.rest.head?.any p)) Q) :
    Takes c (peekIs p >>= f) Q :=
  h

/- Moving takes the next token. -/
theorem takes_advance
    {before : Option Token}
    {t : Token}
    {rest : List Token}
    {f : Unit → Parser β}
    (h : Takes ⟨some t, rest⟩ (f ()) fun us => Q (t :: us)) :
    Takes ⟨before, t :: rest⟩ (advance >>= f) Q := by
  intro b after hRun
  rcases h b after hRun with ⟨us, hRest, hTaken⟩
  refine ⟨t :: us, ?_, hTaken⟩
  rw [List.cons_append, ← hRest]

/- A test for the next token, which is there if it holds. -/
theorem takes_ifNext
    {p : Token → Bool}
    {found other : Parser β}
    (hFound :
      ∀ t rest, c.rest = t :: rest → p t = true → Takes c found Q)
    (hOther : Takes c other Q) :
    Takes c
      (peekIs p >>= fun b => if b = true then found else other)
      Q := by
  apply takes_peekIs
  cases hRest : c.rest with
  | nil => exact hOther
  | cons t rest =>
      change Takes _ (if p t = true then _ else _) _
      by_cases hToken : p t = true
      · rw [if_pos hToken]
        exact hFound t rest hRest hToken
      · rw [if_neg hToken]
        exact hOther

/- A test for the next token that takes it, or goes on without. -/
theorem takes_ifPeek
    {p : Token → Bool}
    {found other : Parser β}
    (hFound :
      ∀ t, p t = true →
        ∀ middle, Takes middle found fun us => Q (t :: us))
    (hOther : Takes c other Q) :
    Takes c
      (peekIs p >>= fun b =>
        if b = true then advance >>= fun _ => found else other)
      Q := by
  rcases c with ⟨before, rest⟩
  refine takes_ifNext ?_ hOther
  rintro t rest rfl hToken
  exact takes_advance (hFound t hToken _)

/- A parser that leaves the cursor where it is takes nothing. -/
theorem takes_unmoved
    (hSame : ∀ a after, x.run c = .ok (a, after) → after = c)
    (h : ∀ a, Takes c (f a) Q) :
    Takes c (x >>= f) Q := by
  intro b after hRun
  rcases run_bind_eq_ok hRun with ⟨a, middle, hStart, hEnd⟩
  rw [hSame a middle hStart] at hEnd
  exact h a b after hEnd

/- Some token has to follow, but is not taken. -/
theorem takes_requireOperand
    {t : Token}
    {f : PUnit → Parser β}
    (h : Takes c (f ⟨⟩) Q) :
    Takes c (requireOperand t >>= f) Q := by
  apply takes_unmoved
  · intro a after hRun
    unfold requireOperand at hRun
    rcases run_bind_eq_ok hRun with ⟨o, here, hPeek, hTest⟩
    cases hPeek
    split at hTest
    · cases hTest
    · cases hTest
      rfl
  · intro _
    exact h

/- An operator that has to come next is taken. -/
theorem takes_expectOperator
    {text : String}
    {f : Unit → Parser β}
    (h :
      ∀ t, t.isOperator text = true →
        ∀ middle, Takes middle (f ()) fun us => Q (t :: us)) :
    Takes c (expectOperator text >>= f) Q := by
  have hExpect :
      Takes c (expectOperator text) fun ts _ =>
        ∃ t, ts = [t] ∧ t.isOperator text = true :=
    takes_ifPeek
      (fun t hToken _ => takes_pure ⟨t, rfl, hToken⟩)
      (takes_failHere _)
  apply hExpect.bind
  rintro _ _ middle ⟨t, rfl, hToken⟩
  exact h t hToken middle

/- A semicolon that has to come next is taken. -/
theorem takes_expectSemicolon
    {f : Unit → Parser β}
    (h :
      ∀ t, t.isSeparator ";" = true →
        ∀ middle, Takes middle (f ()) fun us => Q (t :: us)) :
    Takes c (expectSemicolon >>= f) Q := by
  have hExpect :
      Takes c expectSemicolon fun ts _ =>
        ∃ t, ts = [t] ∧ t.isSeparator ";" = true :=
    takes_ifPeek
      (fun t hToken _ => takes_pure ⟨t, rfl, hToken⟩)
      (takes_failHere _)
  apply hExpect.bind
  rintro _ _ middle ⟨t, rfl, hToken⟩
  exact h t hToken middle

/- An identifier that has to come next is taken. -/
theorem takes_expectIdentifier
    {keyword : String}
    {f : String → Parser β}
    (h :
      ∀ t, t.kind = .identifier →
        ∀ middle, Takes middle (f t.text) fun us => Q (t :: us)) :
    Takes c (expectIdentifier keyword >>= f) Q := by
  have hExpect :
      Takes c (expectIdentifier keyword) fun ts name =>
        ∃ t, ts = [t] ∧ t.kind = .identifier ∧ name = t.text := by
    rcases c with ⟨before, rest⟩
    apply takes_peek
    cases rest with
    | nil => exact takes_failHere _
    | cons t rest =>
        dsimp only [List.head?_cons]
        by_cases hKind : t.kind = .identifier
        · rw [if_pos hKind]
          exact takes_advance (takes_pure ⟨t, rfl, hKind, rfl⟩)
        · rw [if_neg hKind]
          exact takes_failHere _
  apply hExpect.bind
  rintro _ _ middle ⟨t, rfl, hKind, rfl⟩
  exact h t hKind middle

end Parser
end StackScript
