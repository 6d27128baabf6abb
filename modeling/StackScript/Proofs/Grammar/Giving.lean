import StackScript.Parse.Statement
import StackScript.Proofs.Token.Spacing

/-
  What parsers give on tokens that are known.

  The counterpart of `Parser.Takes`: a parser succeeds on a
  cursor, leaves certain tokens behind and gives a result
  with a property. There is one rule for each way of making
  parsers.

  Key definitions include:
    * `Parser.Gives`

  Key theorems include:
    * `Parser.Gives.bind`
    * `Parser.gives_expectOperator`
    * `Token.exists_cons_of_spellings`
-/

namespace StackScript

------------------------------------------------------------
-- Tokens With Known Spellings
------------------------------------------------------------

namespace Token

variable {ts : List Token}
variable {vs ws : List Spelling}

/- The first token of known spellings. -/
theorem exists_cons_of_spellings
    {w : Spelling}
    (h : ts.map spelling = w :: ws) :
    ∃ place us, ts = ⟨w.kind, w.text, place⟩ :: us ∧
      us.map spelling = ws := by
  rcases List.map_eq_cons_iff.1 h with ⟨t, us, rfl, rfl, hOthers⟩
  exact ⟨t.location, us, rfl, hOthers⟩

/- The parts of tokens whose spellings have two parts. -/
theorem exists_append_of_spellings
    (h : ts.map spelling = vs ++ ws) :
    ∃ us us', ts = us ++ us' ∧ us.map spelling = vs ∧
      us'.map spelling = ws :=
  List.map_eq_append_iff.1 h

end Token

------------------------------------------------------------
-- Results
------------------------------------------------------------

namespace Parser

variable {α β : Type}
variable {c : Cursor}
variable {x : Parser α}
variable {f : α → Parser β}
variable {middle rest : List Token}
variable {P : α → Prop}
variable {Q : β → Prop}

/-
  The parser succeeds, leaves the tokens `rest` and gives a
  result with a property.
-/
def Gives
    (c : Cursor)
    (x : Parser α)
    (rest : List Token)
    (P : α → Prop) : Prop :=
  ∃ a before, x.run c = .ok (a, ⟨before, rest⟩) ∧ P a

theorem gives_pure
    {before : Option Token}
    {a : α}
    (h : P a) :
    Gives ⟨before, rest⟩ (pure a) rest P :=
  ⟨a, before, rfl, h⟩

theorem Gives.mono
    {R : α → Prop}
    (h : Gives c x rest P)
    (hImp : ∀ a, P a → R a) :
    Gives c x rest R := by
  rcases h with ⟨a, before, hRun, hGiven⟩
  exact ⟨a, before, hRun, hImp a hGiven⟩

/- A sequence whose first part is known goes on from there. -/
theorem gives_run
    {a : α}
    {next : Cursor}
    (hRun : x.run c = .ok (a, next))
    (h : Gives next (f a) rest Q) :
    Gives c (x >>= f) rest Q := by
  rcases h with ⟨b, last, hEnd, hResult⟩
  refine ⟨b, last, ?_, hResult⟩
  have hBoth :
      (x >>= f).run c =
        (x.run c).bind fun r => (f r.1).run r.2 :=
    rfl
  rw [hBoth, hRun]
  exact hEnd

/- A sequence goes on where its first part stops. -/
theorem Gives.bind
    (hFirst : Gives c x middle P)
    (hThen :
      ∀ a before, P a → Gives ⟨before, middle⟩ (f a) rest Q) :
    Gives c (x >>= f) rest Q := by
  rcases hFirst with ⟨a, before, hRun, hGiven⟩
  exact gives_run hRun (hThen a before hGiven)

/- What is computed without the cursor leaves it in its place. -/
theorem gives_lift
    {result : Except ParseError α}
    {a : α}
    (hResult : result = .ok a)
    (h : Gives c (f a) rest Q) :
    Gives c (liftM result >>= f) rest Q := by
  rw [hResult]
  exact h

------------------------------------------------------------
-- Looking and Moving
------------------------------------------------------------

variable {before : Option Token}
variable {t : Token}
variable {us : List Token}

theorem gives_peek
    {f : Option Token → Parser β}
    (h : Gives ⟨before, us⟩ (f us.head?) rest Q) :
    Gives ⟨before, us⟩ (peek >>= f) rest Q :=
  h

theorem gives_ifNext
    {p : Token → Bool}
    {found other : Parser β}
    (hToken : p t = true)
    (h : Gives ⟨before, t :: us⟩ found rest Q) :
    Gives ⟨before, t :: us⟩
      (peekIs p >>= fun b => if b = true then found else other)
      rest Q := by
  change Gives _ (if p t = true then found else other) _ _
  rwa [if_pos hToken]

theorem gives_ifNotNext
    {p : Token → Bool}
    {found other : Parser β}
    (hToken : ∀ t ∈ us.head?, p t = false)
    (h : Gives ⟨before, us⟩ other rest Q) :
    Gives ⟨before, us⟩
      (peekIs p >>= fun b => if b = true then found else other)
      rest Q := by
  change
    Gives _ (if us.head?.any p = true then found else other) _ _
  rw [if_neg]
  · exact h
  · cases us with
    | nil => simp
    | cons t us => simp [hToken t rfl]

theorem gives_advance
    {f : Unit → Parser β}
    (h : Gives ⟨some t, us⟩ (f ()) rest Q) :
    Gives ⟨before, t :: us⟩ (advance >>= f) rest Q :=
  h

theorem gives_expectOperator
    {text : String}
    {f : Unit → Parser β}
    (hToken : t.isOperator text = true)
    (h : Gives ⟨some t, us⟩ (f ()) rest Q) :
    Gives ⟨before, t :: us⟩ (expectOperator text >>= f) rest Q := by
  refine gives_run ?_ h
  change
    (if t.isOperator text = true then (advance : Parser Unit)
      else failHere (.missingToken text)).run ⟨before, t :: us⟩ = _
  rw [if_pos hToken]
  rfl

theorem gives_expectSemicolon
    {f : Unit → Parser β}
    (hToken : t.isSeparator ";" = true)
    (h : Gives ⟨some t, us⟩ (f ()) rest Q) :
    Gives ⟨before, t :: us⟩ (expectSemicolon >>= f) rest Q := by
  refine gives_run ?_ h
  change
    (if t.isSeparator ";" = true then (advance : Parser Unit)
      else failHere (.missingToken ";")).run ⟨before, t :: us⟩ = _
  rw [if_pos hToken]
  rfl

theorem gives_expectIdentifier
    {keyword : String}
    {f : String → Parser β}
    (hKind : t.kind = .identifier)
    (h : Gives ⟨some t, us⟩ (f t.text) rest Q) :
    Gives ⟨before, t :: us⟩ (expectIdentifier keyword >>= f)
      rest Q := by
  refine gives_run ?_ h
  change
    (if t.kind = .identifier then
        (advance >>= fun _ => pure t.text : Parser String)
      else failHere (.expectedIdentifier keyword)).run
        ⟨before, t :: us⟩ = _
  rw [if_pos hKind]
  rfl

theorem gives_requireOperand
    {operator : Token}
    {f : PUnit → Parser β}
    (h : Gives ⟨before, t :: us⟩ (f ⟨⟩) rest Q) :
    Gives ⟨before, t :: us⟩ (requireOperand operator >>= f) rest Q :=
  gives_run rfl h

end Parser
end StackScript
