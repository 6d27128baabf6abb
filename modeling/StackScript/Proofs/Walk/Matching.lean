import Mathlib
import StackScript.Proofs.Walk.Reading

/-
  Walks and parsers that do the same.

  The cursor at a position has the tokens from there on to
  read. A walk matches a parser if it ends as the parser
  does: with the same result in front of the same tokens, or
  with the same error. It then never moved behind the last
  token and never met stacks that do not go together. There
  is one rule for each way of making parsers.

  Key definitions include:
    * `Cursor.at`
    * `ParseError.isEnd`
    * `Parser.Advances`
    * `Walk.Matches`

  Key theorems include:
    * `Walk.Matches.bind`
    * `Walk.matches_advance`
    * `Walk.exists_reduceFor`
    * `Walk.exists_reduceAll`
-/

namespace StackScript

------------------------------------------------------------
-- Cursors at Positions
------------------------------------------------------------

namespace Cursor

/- The cursor behind a number of tokens. -/
def «at»
    (tokens : List Token)
    (position : Nat) : Cursor where
  before :=
    match position with
    | 0 => none
    | last + 1 => tokens[last]?
  rest := tokens.drop position

variable {tokens : List Token}
variable {position : Nat}

theorem at_zero (tokens : List Token) :
    Cursor.at tokens 0 = .start tokens := rfl

theorem peek?_at
    (tokens : List Token)
    (position : Nat) :
    (Cursor.at tokens position).peek? = tokens[position]? :=
  List.head?_drop

/- In front of a token the cursor moves to the next position. -/
theorem advance_at (h : position < tokens.length) :
    (Cursor.at tokens position).advance =
      Cursor.at tokens (position + 1) := by
  unfold Cursor.at advance
  dsimp only
  rw [List.drop_eq_getElem_cons h, List.getElem?_eq_getElem h]

/- The last token is pointed at where none is left. -/
theorem here_at (h : position ≤ tokens.length) :
    (Cursor.at tokens position).here =
      ((tokens[position]?.or tokens.getLast?).map
        (·.location)).getD .start := by
  unfold here
  rw [peek?_at]
  cases hNext : tokens[position]? with
  | some t => rfl
  | none =>
      have hEnd : position = tokens.length :=
        Nat.le_antisymm h (List.getElem?_eq_none_iff.1 hNext)
      rw [Option.none_or, List.getLast?_eq_getElem?, hEnd]
      cases hLength : tokens.length with
      | zero =>
          rw [List.length_eq_zero_iff.1 hLength]
          rfl
      | succ last =>
          rw [Nat.add_sub_cancel]
          unfold Cursor.at
          dsimp only
          cases tokens[last]? <;> rfl

end Cursor

/- The error says that the tokens end too early. -/
def ParseError.isEnd : ParseError → Bool
| .unexpectedEnd _ => true
| _ => false

/-
  A parser that succeeds at a position takes one token at
  least, and no more than there are.
-/
def Parser.Advances
    {α : Type}
    (tokens : List Token)
    (position : Nat)
    (x : Parser α) : Prop :=
  ∀ a c, x.run (.at tokens position) = .ok (a, c) →
    ∃ after,
      position < after ∧ after ≤ tokens.length ∧ c = .at tokens after

namespace Walk

open StackScript.Parser (Pending reduce reduceFor reduceAll)

variable {α β : Type}
variable {tokens : List Token}
variable {cut : Prop}
variable {position middle reach : Nat}
variable {w : Walk α}
variable {x : Parser α}

/-
  From a position a walk does what a parser does. Where it
  succeeds it gets as far as `reach` at least, and where it
  finds that the tokens end too early it is behind the last
  one. Both may be cut short by the bound on their calls,
  under a condition, and then neither succeeds.
-/
def Matches
    (tokens : List Token)
    (cut : Prop)
    (position reach : Nat)
    (w : Walk α)
    (x : Parser α) : Prop :=
  match w position with
  | .ok a after =>
      reach ≤ after ∧ after ≤ tokens.length ∧
        x.run (.at tokens position) = .ok (a, .at tokens after)
  | .error (.refused e) after =>
      after ≤ tokens.length ∧
        (e.isEnd = true → after = tokens.length) ∧
        x.run (.at tokens position) = .error e
  | .error .spent _ =>
      cut ∧ ∃ e, x.run (.at tokens position) = .error e
  | .error .overrun _ | .error .unbalanced _ => False

------------------------------------------------------------
-- Results and Errors
------------------------------------------------------------

theorem matches_pure
    {a : α}
    (hReach : reach ≤ position)
    (hEnd : position ≤ tokens.length) :
    Matches tokens cut position reach (pure a) (pure a) :=
  ⟨hReach, hEnd, rfl⟩

/- An error that does not say that the tokens end. -/
theorem matches_refuse
    {e : ParseError}
    (hEnd : position ≤ tokens.length)
    (hOther : e.isEnd = false) :
    Matches tokens cut position reach
      (refuse e : Walk α) (throw e) :=
  ⟨hEnd, fun hSame => absurd hSame (by rw [hOther]; decide), rfl⟩

theorem matches_failHere
    {error : Location → ParseError}
    (hEnd : position ≤ tokens.length)
    (hEarly :
      ∀ l, (error l).isEnd = true → position = tokens.length) :
    Matches tokens cut position reach
      (failHere tokens error : Walk α) (Parser.failHere error) := by
  refine ⟨hEnd, hEarly _, ?_⟩
  have hRun :
      (Parser.failHere error : Parser α).run (.at tokens position) =
        .error (error (Cursor.at tokens position).here) :=
    rfl
  rw [hRun, Cursor.here_at hEnd]

theorem matches_spent (h : cut) :
    Matches tokens cut position reach
      (throw .spent : Walk α) (Parser.failHere .unexpectedEnd) :=
  ⟨h, _, rfl⟩

/- What is known where a walk succeeds. -/
theorem Matches.of_ok
    {a : α}
    {after : Nat}
    (h : Matches tokens cut position reach w x)
    (hRun : w position = .ok a after) :
    reach ≤ after ∧ after ≤ tokens.length ∧
      x.run (.at tokens position) = .ok (a, .at tokens after) := by
  unfold Matches at h
  rw [hRun] at h
  exact h

/- The parser succeeds only where the walk does. -/
theorem Matches.advances
    (h : Matches tokens cut position (position + 1) w x) :
    Parser.Advances tokens position x := by
  intro a c hRun
  unfold Matches at h
  rw [hRun] at h
  cases hWalk : w position with
  | ok b after =>
      rw [hWalk] at h
      rcases h with ⟨hReach, hEnd, hSame⟩
      cases hSame
      exact ⟨after, hReach, hEnd, rfl⟩
  | error stop after =>
      rw [hWalk] at h
      cases stop with
      | refused e => nomatch h.2.2
      | overrun => exact h.elim
      | unbalanced => exact h.elim
      | spent =>
          rcases h.2 with ⟨e, hSame⟩
          cases hSame

/- Where it fails and was not cut short, the tokens are refused. -/
theorem Matches.of_error
    {stop : Stop}
    {after : Nat}
    (h : Matches tokens cut position reach w x)
    (hWhole : ¬cut)
    (hRun : w position = .error stop after) :
    after ≤ tokens.length ∧
      ∃ e, stop = .refused e ∧
        (e.isEnd = true → after = tokens.length) ∧
        x.run (.at tokens position) = .error e := by
  unfold Matches at h
  rw [hRun] at h
  cases stop with
  | refused e => exact ⟨h.1, e, rfl, h.2⟩
  | overrun => exact h.elim
  | unbalanced => exact h.elim
  | spent => exact absurd h.1 hWhole

theorem Matches.mono
    {cut' : Prop}
    {reach' : Nat}
    (h : Matches tokens cut position reach w x)
    (hCut : cut → cut')
    (hReach : reach' ≤ reach) :
    Matches tokens cut' position reach' w x := by
  unfold Matches at h ⊢
  cases hRun : w position with
  | ok a after =>
      rw [hRun] at h
      exact ⟨Nat.le_trans hReach h.1, h.2⟩
  | error stop after =>
      rw [hRun] at h
      cases stop with
      | refused e => exact h
      | overrun => exact h
      | unbalanced => exact h
      | spent => exact ⟨hCut h.1, h.2⟩

------------------------------------------------------------
-- Sequences
------------------------------------------------------------

theorem bind_of_ok
    {f : α → Walk β}
    {a : α}
    {after : Nat}
    (h : w position = .ok a after) :
    (w >>= f) position = f a after := by
  change EStateM.bind w f position = _
  unfold EStateM.bind
  rw [h]

theorem bind_of_error
    {f : α → Walk β}
    {stop : Stop}
    {after : Nat}
    (h : w position = .error stop after) :
    (w >>= f) position = .error stop after := by
  change EStateM.bind w f position = _
  unfold EStateM.bind
  rw [h]

/- A sequence goes on where its first part gets. -/
theorem Matches.bind
    {f : α → Walk β}
    {g : α → Parser β}
    (hFirst : Matches tokens cut position middle w x)
    (hThen :
      ∀ a after, middle ≤ after → after ≤ tokens.length →
        Matches tokens cut after reach (f a) (g a)) :
    Matches tokens cut position reach (w >>= f) (x >>= g) := by
  have hParser :
      (x >>= g).run (.at tokens position) =
        (x.run (.at tokens position)).bind fun r => (g r.1).run r.2 :=
    rfl
  unfold Matches at hFirst ⊢
  rw [hParser]
  cases hRun : w position with
  | ok a after =>
      rw [hRun] at hFirst
      rcases hFirst with ⟨hMiddle, hEnd, hSame⟩
      rw [bind_of_ok hRun, hSame]
      exact hThen a after hMiddle hEnd
  | error stop after =>
      rw [hRun] at hFirst
      rw [bind_of_error hRun]
      cases stop with
      | refused e =>
          rcases hFirst with ⟨hEnd, hEarly, hSame⟩
          rw [hSame]
          exact ⟨hEnd, hEarly, rfl⟩
      | overrun => exact hFirst
      | unbalanced => exact hFirst
      | spent =>
          rcases hFirst with ⟨hCut, e, hSame⟩
          rw [hSame]
          exact ⟨hCut, e, rfl⟩

/- A choice matches if both ways do. -/
theorem matches_ite
    {c : Prop}
    [Decidable c]
    {v : Walk α}
    {y : Parser α}
    (hThen : c → Matches tokens cut position reach w x)
    (hElse : ¬c → Matches tokens cut position reach v y) :
    Matches tokens cut position reach
      (if c then w else v) (if c then x else y) := by
  by_cases h : c
  · rw [if_pos h, if_pos h]
    exact hThen h
  · rw [if_neg h, if_neg h]
    exact hElse h

------------------------------------------------------------
-- Looking and Moving
------------------------------------------------------------

theorem matches_peek
    {f : Option Token → Walk β}
    {g : Option Token → Parser β}
    (h :
      Matches tokens cut position reach
        (f tokens[position]?) (g tokens[position]?)) :
    Matches tokens cut position reach
      (peek tokens >>= f) (Parser.peek >>= g) := by
  have hParser :
      (Parser.peek >>= g).run (.at tokens position) =
        (g (Cursor.at tokens position).peek?).run
          (.at tokens position) :=
    rfl
  unfold Matches at h ⊢
  rw [hParser, Cursor.peek?_at]
  exact h

theorem matches_peekIs
    {p : Token → Bool}
    {f : Bool → Walk β}
    {g : Bool → Parser β}
    (h :
      Matches tokens cut position reach
        (f (tokens[position]?.any p)) (g (tokens[position]?.any p))) :
    Matches tokens cut position reach
      (peekIs tokens p >>= f) (Parser.peekIs p >>= g) :=
  matches_peek (f := fun next => f (next.any p))
    (g := fun next => g (next.any p)) h

/- The token in front of the position is the one just read. -/
theorem matches_before
    {f : Option Token → Walk β}
    {g : Cursor → Parser β}
    (h :
      Matches tokens cut position reach
        (f (Cursor.at tokens position).before)
        (g (Cursor.at tokens position))) :
    Matches tokens cut position reach
      (before tokens >>= f) (get >>= g) := by
  cases position with
  | zero => exact h
  | succ position => exact h

theorem matches_here
    {f : Location → Walk β}
    {g : Location → Parser β}
    (hEnd : position ≤ tokens.length)
    (h : ∀ l, Matches tokens cut position reach (f l) (g l)) :
    Matches tokens cut position reach
      (here tokens >>= f) (Parser.here >>= g) := by
  have hWalk :
      (here tokens >>= f) position =
        f (Cursor.at tokens position).here position := by
    rw [Cursor.here_at hEnd]
    rfl
  have hSame := h (Cursor.at tokens position).here
  unfold Matches at hSame ⊢
  rw [hWalk]
  exact hSame

/- A move starts in front of a token. -/
theorem matches_advance (hNext : position < tokens.length) :
    Matches tokens cut position (position + 1)
      (advance tokens) Parser.advance := by
  have hTest :
      advance tokens position =
        (if position < tokens.length then set (position + 1)
          else throw .overrun : Walk Unit) position :=
    rfl
  have hMove : advance tokens position = .ok () (position + 1) := by
    rw [hTest, if_pos hNext]
    rfl
  have hRun :
      Parser.advance.run (.at tokens position) =
        .ok ((), (Cursor.at tokens position).advance) :=
    rfl
  unfold Matches
  rw [hMove, hRun, Cursor.advance_at hNext]
  exact ⟨Nat.le_refl _, hNext, rfl⟩

theorem lt_length_of_getElem?
    {t : Token}
    (h : tokens[position]? = some t) :
    position < tokens.length :=
  (List.getElem?_eq_some_iff.1 h).1

/- A test for the next token, which is there if it holds. -/
theorem matches_ifNext
    {p : Token → Bool}
    {found other : Walk β}
    {found' other' : Parser β}
    (hFound :
      position < tokens.length →
        Matches tokens cut position reach found found')
    (hOther : Matches tokens cut position reach other other') :
    Matches tokens cut position reach
      (peekIs tokens p >>= fun b => if b = true then found else other)
      (Parser.peekIs p >>= fun b =>
        if b = true then found' else other') := by
  apply matches_peekIs
  apply matches_ite
  · intro hTest
    cases hNext : tokens[position]? with
    | none =>
        rw [hNext] at hTest
        cases hTest
    | some t => exact hFound (lt_length_of_getElem? hNext)
  · intro _
    exact hOther

theorem matches_expectOperator
    (text : String)
    (hEnd : position ≤ tokens.length) :
    Matches tokens cut position (position + 1)
      (expectOperator tokens text) (Parser.expectOperator text) :=
  matches_ifNext matches_advance (matches_failHere hEnd nofun)

theorem matches_expectSemicolon (hEnd : position ≤ tokens.length) :
    Matches tokens cut position (position + 1)
      (expectSemicolon tokens) Parser.expectSemicolon :=
  matches_ifNext matches_advance (matches_failHere hEnd nofun)

theorem matches_expectIdentifier
    (keyword : String)
    (hEnd : position ≤ tokens.length) :
    Matches tokens cut position (position + 1)
      (expectIdentifier tokens keyword)
      (Parser.expectIdentifier keyword) := by
  apply matches_peek
  cases hNext : tokens[position]? with
  | none => exact matches_failHere hEnd nofun
  | some t =>
      apply matches_ite
      · intro _
        apply (matches_advance (lt_length_of_getElem? hNext)).bind
        intro _ after hLess hEnd
        exact matches_pure hLess hEnd
      · intro _
        exact matches_failHere hEnd nofun

theorem matches_requireOperand
    (t : Token)
    (hEnd : position ≤ tokens.length) :
    Matches tokens cut position position
      (requireOperand tokens t) (Parser.requireOperand t) := by
  apply matches_peek
  apply matches_ite
  · intro _
    exact matches_refuse hEnd rfl
  · intro _
    exact matches_pure (Nat.le_refl _) hEnd

------------------------------------------------------------
-- Stacks
------------------------------------------------------------

variable {output : List Expr}
variable {pending : Pending}

/- Stacks that go together are let through. -/
theorem matches_checkStacks
    {f : Unit → Walk α}
    (h : Balanced output pending)
    (hThen : Matches tokens cut position reach (f ()) x) :
    Matches tokens cut position reach
      (checkStacks output pending >>= f) x := by
  unfold checkStacks
  rw [if_pos h]
  exact hThen

/- A waiting operator finds its operands, and leaves one. -/
theorem exists_reduce
    {entry : Connective × Location}
    (place : Location)
    (h : Balanced output (entry :: pending)) :
    ∃ left,
      reduce place output (entry :: pending) = .ok (left, pending) ∧
        Balanced left pending := by
  match output, h with
  | right :: left :: others, h => exact ⟨_, rfl, Nat.succ.inj h⟩

/- However many operators are taken, their operands are there. -/
theorem exists_reduceFor
    (c : Connective)
    (place : Location)
    (h : Balanced output pending) :
    ∃ left waiting,
      reduceFor c place pending output = .ok (left, waiting) ∧
        Balanced left waiting := by
  induction pending generalizing output with
  | nil => exact ⟨output, [], rfl, h⟩
  | cons entry pending ih =>
      rw [reduceFor]
      split
      · rcases exists_reduce place h with ⟨left, hReduce, hLeft⟩
        rw [hReduce]
        exact ih hLeft
      · exact ⟨output, entry :: pending, rfl, h⟩

/- When all of them are taken there is one operand left. -/
theorem exists_reduceAll
    (place : Location)
    (h : Balanced output pending) :
    ∃ e, reduceAll place pending output = .ok [e] := by
  induction pending generalizing output with
  | nil =>
      rcases List.length_eq_one_iff.1 h with ⟨e, rfl⟩
      exact ⟨e, rfl⟩
  | cons entry pending ih =>
      rw [reduceAll]
      rcases exists_reduce place h with ⟨left, hReduce, hLeft⟩
      rw [hReduce]
      exact ih hLeft

/- What a reduction leaves is what both go on with. -/
theorem matches_reduced
    {result : Except ParseError α}
    {left : α}
    {f : α → Walk β}
    {g : α → Parser β}
    (hResult : result = .ok left)
    (h : Matches tokens cut position reach (f left) (g left)) :
    Matches tokens cut position reach
      (reduced result >>= f) (liftM result >>= g) := by
  rw [hResult]
  exact h

theorem matches_conclude
    (hEnd : position ≤ tokens.length)
    (h : Balanced output pending) :
    Matches tokens cut position position
      (conclude tokens output pending)
      (Parser.conclude output pending) := by
  apply matches_here hEnd
  intro place
  rcases exists_reduceAll place h with ⟨e, hAll⟩
  apply matches_reduced hAll
  exact matches_pure (Nat.le_refl _) hEnd

end Walk
end StackScript
