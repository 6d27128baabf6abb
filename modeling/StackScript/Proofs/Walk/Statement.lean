import StackScript.Proofs.Walk.Expression

/-
  Walks over statements and programs.

  As the readers of expressions do, those of statements call
  each other, and walks do as all of them do, by induction
  on the bound of their calls. The bound that is supplied
  for a list of tokens is never reached, so that a program
  is read, or refused, after finitely many moves, all of
  them within the list.

  Key definitions include:
    * `Walk.StatementsMatch`

  Key theorems include:
    * `Walk.statementsMatch`
    * `Walk.matches_statements`
    * `Program.parse_keeps_moving`
-/

namespace StackScript
namespace Walk

variable {tokens : List Token}
variable {cut : Prop}
variable {bound position reach : Nat}

------------------------------------------------------------
-- Parts of Statements
------------------------------------------------------------

/- An expression, unless it is left out. -/
theorem matches_expressionUnless
    (stop : Token → Bool)
    (hCut : bound < 3 * (tokens.length - position) + 2 → cut)
    (hEnd : position ≤ tokens.length) :
    Matches tokens cut position position
      (expressionUnless tokens bound stop)
      (Parser.expressionUnless bound stop) := by
  refine matches_ifNext (fun _ => matches_pure (Nat.le_refl _) hEnd) ?_
  apply (matches_expression 0 hCut hEnd).bind
  intro e after hMore hEnd
  exact matches_pure (by omega) hEnd

theorem matches_parenthesized
    (hCut : bound < 3 * (tokens.length - position) + 2 → cut)
    (hEnd : position ≤ tokens.length) :
    Matches tokens cut position (position + 1)
      (parenthesized tokens bound) (Parser.parenthesized bound) := by
  apply (matches_expectOperator "(" hEnd).bind
  intro _ after hMore hEnd
  apply (matches_expression 0 (fun _ => hCut (by omega)) hEnd).bind
  intro e middle hMiddle hEnd
  apply (matches_expectOperator ")" hEnd).bind
  intro _ last hLast hEnd
  exact matches_pure (by omega) hEnd

theorem matches_declaration
    (hCut : bound < 3 * (tokens.length - position) + 2 → cut)
    (hNext : position < tokens.length) :
    Matches tokens cut position (position + 1)
      (declaration tokens bound) (Parser.declaration bound) := by
  apply matches_here (Nat.le_of_lt hNext)
  intro place
  apply (matches_advance hNext).bind
  intro _ after hMore hEnd
  apply (matches_expectIdentifier "new" hEnd).bind
  intro name middle hMiddle hEnd
  apply matches_peek
  cases hSign : tokens[middle]? with
  | none => exact matches_pure (by omega) hEnd
  | some t =>
      apply matches_ite
      · intro _
        apply (matches_advance (lt_length_of_getElem? hSign)).bind
        intro _ behind hBehind hEnd
        apply (matches_requireOperand t hEnd).bind
        intro _ start hStart hEnd
        apply (matches_expression 0 (fun _ => hCut (by omega)) hEnd).bind
        intro value last hLast hEnd
        exact matches_pure (by omega) hEnd
      · intro _
        exact matches_pure (by omega) hEnd

theorem matches_returnStatement
    (hCut : bound < 3 * (tokens.length - position) + 2 → cut)
    (hNext : position < tokens.length) :
    Matches tokens cut position (position + 1)
      (returnStatement tokens bound)
      (Parser.returnStatement bound) := by
  apply matches_here (Nat.le_of_lt hNext)
  intro place
  apply (matches_advance hNext).bind
  intro _ after hMore hEnd
  refine matches_ifNext ?_ ?_
  · intro _
    apply (matches_expectSemicolon hEnd).bind
    intro _ last hLast hEnd
    exact matches_pure (by omega) hEnd
  · apply (matches_expression 0 (fun _ => hCut (by omega)) hEnd).bind
    intro argument middle hMiddle hEnd
    apply (matches_expectSemicolon hEnd).bind
    intro _ last hLast hEnd
    exact matches_pure (by omega) hEnd

/- Each parameter takes a token, and so does each comma. -/
theorem matches_parameterList
    (function : String)
    (known : List String)
    (hCut : bound < tokens.length - position + 1 → cut)
    (hEnd : position ≤ tokens.length) :
    Matches tokens cut position (position + 1)
      (parameterList tokens function bound known)
      (Parser.parameterList function bound known) := by
  induction bound generalizing position known with
  | zero => exact matches_spent (hCut (by omega))
  | succ bound ih =>
      rw [parameterList, Parser.parameterList]
      apply matches_peek
      cases hName : tokens[position]? with
      | none => exact matches_failHere hEnd nofun
      | some t =>
          have hLess := lt_length_of_getElem? hName
          apply matches_ite
          · intro _
            apply matches_ite
            · intro _
              exact matches_refuse hEnd rfl
            · intro _
              exact matches_refuse hEnd rfl
          · intro _
            apply matches_ite
            · intro _
              exact matches_refuse hEnd rfl
            · intro _
              apply (matches_advance hLess).bind
              intro _ after hMore hEnd
              refine matches_ifNext ?_ (matches_pure hMore hEnd)
              intro hLess
              apply (matches_advance hLess).bind
              intro _ last hLast hEnd
              exact (ih _ (fun _ => hCut (by omega)) hEnd).mono id
                (by omega)

theorem matches_parameters
    (function : String)
    (hCut : bound < tokens.length - position + 1 → cut)
    (hEnd : position ≤ tokens.length) :
    Matches tokens cut position (position + 1)
      (parameters tokens bound function)
      (Parser.parameters bound function) := by
  apply (matches_expectOperator "(" hEnd).bind
  intro _ after hMore hEnd
  refine matches_ifNext ?_ ?_
  · intro _
    apply (matches_expectOperator ")" hEnd).bind
    intro _ last hLast hEnd
    exact matches_pure (by omega) hEnd
  · apply (matches_parameterList function [] (fun _ => hCut (by omega))
      hEnd).bind
    intro names middle hMiddle hEnd
    apply (matches_expectOperator ")" hEnd).bind
    intro _ last hLast hEnd
    exact matches_pure (by omega) hEnd

------------------------------------------------------------
-- Readers of Statements
------------------------------------------------------------

/-
  What walks do at one bound on their calls: each of them
  takes a token at least, but for a statement where none is
  left. Those that start with their keyword are called in
  front of one.
-/
structure StatementsMatch
    (tokens : List Token)
    (bound : Nat) : Prop where
  statement :
    ∀ position, position ≤ tokens.length →
      Matches tokens (bound < 3 * (tokens.length - position) + 3)
        position (min (position + 1) tokens.length)
        (statement tokens bound) (Parser.statement bound)
  ifStatement :
    ∀ position, position < tokens.length →
      Matches tokens (bound < 3 * (tokens.length - position) + 2)
        position (position + 1)
        (ifStatement tokens bound) (Parser.ifStatement bound)
  forStatement :
    ∀ position, position < tokens.length →
      Matches tokens (bound < 3 * (tokens.length - position) + 2)
        position (position + 1)
        (forStatement tokens bound) (Parser.forStatement bound)
  block :
    ∀ position, position ≤ tokens.length →
      Matches tokens (bound < 3 * (tokens.length - position) + 2)
        position (position + 1)
        (block tokens bound) (Parser.block bound)
  items :
    ∀ position, position ≤ tokens.length →
      Matches tokens (bound < 3 * (tokens.length - position) + 4)
        position (position + 1)
        (items tokens bound) (Parser.items bound)

namespace StatementsMatch

theorem zero (tokens : List Token) : StatementsMatch tokens 0 where
  statement _ _ := matches_spent (by omega)
  ifStatement _ _ := matches_spent (by omega)
  forStatement _ _ := matches_spent (by omega)
  block _ _ := matches_spent (by omega)
  items _ _ := matches_spent (by omega)

/- A statement of a kind that has a reader of its own. -/
theorem matches_some
    {w : Walk Stmt}
    {x : Parser Stmt}
    (h : Matches tokens cut position reach w x) :
    Matches tokens cut position reach
      (do return some (← w)) (do return some (← x)) := by
  apply h.bind
  intro s after hReach hEnd
  exact matches_pure hReach hEnd

/- A loop with its condition, whose keyword is next. -/
theorem matches_while
    {place : Location}
    (h : StatementsMatch tokens bound)
    (hNext : position < tokens.length) :
    Matches tokens (bound < 3 * (tokens.length - position) + 2)
      position (position + 1)
      (do
        advance tokens
        let condition ← parenthesized tokens bound
        let body ← Walk.block tokens bound
        return some (.whileLoop condition body place) :
        Walk (Option Stmt))
      (do
        Parser.advance
        let condition ← Parser.parenthesized bound
        let body ← Parser.block bound
        return some (.whileLoop condition body place) :
        Parser (Option Stmt)) := by
  apply (matches_advance hNext).bind
  intro _ after hMore hEnd
  apply (matches_parenthesized (by omega) hEnd).bind
  intro condition middle hMiddle hEnd
  apply ((h.block middle hEnd).mono (by omega) (Nat.le_refl _)).bind
  intro body last hLast hEnd
  exact matches_pure (by omega) hEnd

/- A function, whose keyword is next. -/
theorem matches_function
    {place : Location}
    (h : StatementsMatch tokens bound)
    (hNext : position < tokens.length) :
    Matches tokens (bound < 3 * (tokens.length - position) + 2)
      position (position + 1)
      (do
        advance tokens
        let name ← expectIdentifier tokens "function"
        let names ← parameters tokens bound name
        let body ← Walk.block tokens bound
        return some (.function name names body place) :
        Walk (Option Stmt))
      (do
        Parser.advance
        let name ← Parser.expectIdentifier "function"
        let names ← Parser.parameters bound name
        let body ← Parser.block bound
        return some (.function name names body place) :
        Parser (Option Stmt)) := by
  apply (matches_advance hNext).bind
  intro _ after hMore hEnd
  apply (matches_expectIdentifier "function" hEnd).bind
  intro name middle hMiddle hEnd
  apply (matches_parameters name (by omega) hEnd).bind
  intro names behind hBehind hEnd
  apply ((h.block behind hEnd).mono (by omega) (Nat.le_refl _)).bind
  intro body last hLast hEnd
  exact matches_pure (by omega) hEnd

theorem statement_succ
    (h : StatementsMatch tokens bound)
    (hEnd : position ≤ tokens.length) :
    Matches tokens (bound + 1 < 3 * (tokens.length - position) + 3)
      position (min (position + 1) tokens.length)
      (Walk.statement tokens (bound + 1))
      (Parser.statement (bound + 1)) := by
  rw [Walk.statement, Parser.statement]
  apply matches_peek
  cases hNext : tokens[position]? with
  | none =>
      have hNone := List.getElem?_eq_none_iff.1 hNext
      exact matches_pure (by omega) hEnd
  | some t =>
      have hLess := lt_length_of_getElem? hNext
      have hReach : min (position + 1) tokens.length ≤ position + 1 :=
        Nat.min_le_left _ _
      have hMove
          {s : Option Stmt} :
          Matches tokens (bound + 1 < 3 * (tokens.length - position) + 3)
            position (min (position + 1) tokens.length)
            (do advance tokens; return s)
            (do Parser.advance; return s) := by
        apply (matches_advance hLess).bind
        intro _ after hMore hEnd
        exact matches_pure (by omega) hEnd
      repeat'
        refine matches_ite (fun _ => ?_) (fun _ => ?_)
      · exact hMove
      · exact matches_some
          ((matches_declaration (by omega) hLess).mono id hReach)
      · exact matches_some ((h.ifStatement _ hLess).mono (by omega) hReach)
      · exact (h.matches_while hLess).mono (by omega) hReach
      · exact matches_some ((h.forStatement _ hLess).mono (by omega) hReach)
      · exact (h.matches_function hLess).mono (by omega) hReach
      · exact matches_some
          ((matches_returnStatement (by omega) hLess).mono id hReach)
      · exact hMove
      · exact hMove
      · apply (matches_expression 0 (by omega) hEnd).bind
        intro e after hMore hEnd
        exact matches_pure (by omega) hEnd

theorem ifStatement_succ
    (h : StatementsMatch tokens bound)
    (hNext : position < tokens.length) :
    Matches tokens (bound + 1 < 3 * (tokens.length - position) + 2)
      position (position + 1)
      (Walk.ifStatement tokens (bound + 1))
      (Parser.ifStatement (bound + 1)) := by
  rw [Walk.ifStatement, Parser.ifStatement]
  apply matches_here (Nat.le_of_lt hNext)
  intro place
  apply (matches_advance hNext).bind
  intro _ after hMore hEnd
  apply (matches_parenthesized (by omega) hEnd).bind
  intro condition middle hMiddle hEnd
  apply ((h.block middle hEnd).mono (by omega) (Nat.le_refl _)).bind
  intro body behind hBehind hEnd
  refine matches_ifNext ?_ (matches_pure (by omega) hEnd)
  intro hLess
  apply (matches_advance hLess).bind
  intro _ start hStart hEnd
  refine matches_ifNext ?_ ?_
  · intro hLess
    apply ((h.ifStatement start hLess).mono (by omega)
      (Nat.le_refl _)).bind
    intro inner last hLast hEnd
    exact matches_pure (by omega) hEnd
  · apply ((h.block start hEnd).mono (by omega) (Nat.le_refl _)).bind
    intro otherwise last hLast hEnd
    exact matches_pure (by omega) hEnd

theorem forStatement_succ
    (h : StatementsMatch tokens bound)
    (hNext : position < tokens.length) :
    Matches tokens (bound + 1 < 3 * (tokens.length - position) + 2)
      position (position + 1)
      (Walk.forStatement tokens (bound + 1))
      (Parser.forStatement (bound + 1)) := by
  rw [Walk.forStatement, Parser.forStatement]
  apply matches_here (Nat.le_of_lt hNext)
  intro place
  apply (matches_advance hNext).bind
  intro _ after hMore hEnd
  apply (matches_expectOperator "(" hEnd).bind
  intro _ start hStart hEnd
  apply ((h.statement start hEnd).mono (by omega) (Nat.le_refl _)).bind
  intro initial middle hMiddle hEnd
  cases initial with
  | none => exact matches_failHere hEnd nofun
  | some initial =>
      apply (matches_expectSemicolon hEnd).bind
      intro _ first hFirst hEnd
      apply (matches_expressionUnless _ (by omega) hEnd).bind
      intro condition second hSecond hEnd
      apply (matches_expectSemicolon hEnd).bind
      intro _ third hThird hEnd
      apply (matches_expressionUnless _ (by omega) hEnd).bind
      intro update fourth hFourth hEnd
      apply (matches_expectOperator ")" hEnd).bind
      intro _ behind hBehind hEnd
      apply ((h.block behind hEnd).mono (by omega) (Nat.le_refl _)).bind
      intro body last hLast hEnd
      exact matches_pure (by omega) hEnd

theorem block_succ
    (h : StatementsMatch tokens bound)
    (hEnd : position ≤ tokens.length) :
    Matches tokens (bound + 1 < 3 * (tokens.length - position) + 2)
      position (position + 1)
      (Walk.block tokens (bound + 1)) (Parser.block (bound + 1)) := by
  rw [Walk.block, Parser.block]
  apply (matches_expectOperator "\x7b" hEnd).bind
  intro _ after hMore hEnd
  exact (h.items after hEnd).mono (by omega) (by omega)

theorem items_succ
    (h : StatementsMatch tokens bound)
    (hEnd : position ≤ tokens.length) :
    Matches tokens (bound + 1 < 3 * (tokens.length - position) + 4)
      position (position + 1)
      (Walk.items tokens (bound + 1)) (Parser.items (bound + 1)) := by
  rw [Walk.items, Parser.items]
  apply matches_peek
  cases hNext : tokens[position]? with
  | none => exact matches_failHere hEnd nofun
  | some t =>
      have hLess := lt_length_of_getElem? hNext
      apply matches_ite
      · intro _
        apply (matches_advance hLess).bind
        intro _ after hMore hEnd
        exact matches_pure hMore hEnd
      · intro _
        apply ((h.statement position hEnd).mono (by omega)
          (Nat.le_refl _)).bind
        intro first after hMore hEnd
        apply ((h.items after hEnd).mono (by omega) (Nat.le_refl _)).bind
        intro others last hLast hEnd
        exact matches_pure (by omega) hEnd

end StatementsMatch

theorem statementsMatch
    (tokens : List Token)
    (bound : Nat) :
    StatementsMatch tokens bound := by
  induction bound with
  | zero => exact .zero tokens
  | succ bound ih =>
      constructor
      case statement =>
        intro position hEnd
        exact ih.statement_succ hEnd
      case ifStatement =>
        intro position hNext
        exact ih.ifStatement_succ hNext
      case forStatement =>
        intro position hNext
        exact ih.forStatement_succ hNext
      case block =>
        intro position hEnd
        exact ih.block_succ hEnd
      case items =>
        intro position hEnd
        exact ih.items_succ hEnd

/- Statements are read up to the end of the tokens. -/
theorem matches_statements (hEnd : position ≤ tokens.length) :
    Matches tokens (bound < 3 * (tokens.length - position) + 4)
      position tokens.length
      (statements tokens bound) (Parser.statements bound) := by
  induction bound generalizing position with
  | zero => exact matches_spent (by omega)
  | succ bound ih =>
      rw [statements, Parser.statements]
      apply matches_peek
      cases hNext : tokens[position]? with
      | none => exact matches_pure (List.getElem?_eq_none_iff.1 hNext) hEnd
      | some t =>
          have hLess := lt_length_of_getElem? hNext
          have hFirst := (statementsMatch tokens bound).statement _ hEnd
          apply (hFirst.mono (by omega) (Nat.le_refl _)).bind
          intro first after hMore hEnd
          apply ((ih hEnd).mono (by omega) (Nat.le_refl _)).bind
          intro others last hLast hEnd
          exact matches_pure hLast hEnd

end Walk

------------------------------------------------------------
-- Programs
------------------------------------------------------------

namespace Program

open Walk

/- With its bound a list of tokens is walked to its end. -/
theorem matches_parse (tokens : List Token) :
    Matches tokens False 0 tokens.length
      (Walk.statements tokens (parseBound tokens))
      (Parser.statements (parseBound tokens)) := by
  refine (matches_statements (Nat.zero_le _)).mono ?_ (Nat.le_refl _)
  unfold parseBound
  omega

theorem parse_of_walk_ok
    {tokens : List Token}
    {p : Program}
    {after : Nat}
    (h : Walk.statements tokens (parseBound tokens) 0 = .ok p after) :
    after = tokens.length ∧ Program.parse tokens = .ok p := by
  rcases (matches_parse tokens).of_ok h with ⟨hReach, hEnd, hRun⟩
  rw [Cursor.at_zero] at hRun
  unfold Program.parse
  rw [hRun]
  exact ⟨Nat.le_antisymm hEnd hReach, rfl⟩

theorem parse_of_walk_error
    {tokens : List Token}
    {stop : Stop}
    {after : Nat}
    (h :
      Walk.statements tokens (parseBound tokens) 0 =
        .error stop after) :
    after ≤ tokens.length ∧
      ∃ e, stop = .refused e ∧
        (e.isEnd = true → after = tokens.length) ∧
        Program.parse tokens = .error e := by
  rcases (matches_parse tokens).of_error id h with
    ⟨hEnd, e, hStop, hEarly, hRun⟩
  rw [Cursor.at_zero] at hRun
  refine ⟨hEnd, e, hStop, hEarly, ?_⟩
  unfold Program.parse
  rw [hRun]
  rfl

/-
  Whatever the tokens are, reading them comes to an end
  within the bound, as a walk that is checked at every move:
  it never moves behind the last token, and finds that the
  tokens end too early only when it is there. In front of a
  token a reader that succeeds takes one at least. Wherever
  an expression is read its stacks go together, so that
  operators find their operands and one operand is left.
-/
theorem parse_keeps_moving (tokens : List Token) :
    (∀ p after,
      Walk.statements tokens (parseBound tokens) 0 = .ok p after →
        after = tokens.length ∧ Program.parse tokens = .ok p) ∧
    (∀ stop after,
      Walk.statements tokens (parseBound tokens) 0 =
          .error stop after →
        after ≤ tokens.length ∧
          ∃ e, stop = .refused e ∧
            (e.isEnd = true → after = tokens.length) ∧
            Program.parse tokens = .error e) ∧
    (∀ bound position, position < tokens.length →
      Parser.Advances tokens position (Parser.statement bound) ∧
        Parser.Advances tokens position (Parser.block bound) ∧
        (∀ least,
          Parser.Advances tokens position
            (Parser.expression bound least)) ∧
        Parser.Advances tokens position (Parser.operand bound) ∧
        Parser.Advances tokens position (Parser.ifStatement bound)) ∧
    (∀ bound least position, position ≤ tokens.length →
      Matches tokens (bound < 3 * (tokens.length - position) + 2)
        position (position + 1)
        (Walk.expression tokens bound least)
        (Parser.expression bound least)) ∧
    ∀ c place output pending, Balanced output pending →
      (∃ left waiting,
        Parser.reduceFor c place pending output =
            .ok (left, waiting) ∧
          Balanced left waiting) ∧
        ∃ e, Parser.reduceAll place pending output = .ok [e] := by
  refine ⟨fun _ _ => parse_of_walk_ok, fun _ _ => parse_of_walk_error,
    ?_, ?_, ?_⟩
  · intro bound position hNext
    have hEnd := Nat.le_of_lt hNext
    have hExpressions := expressionsMatch tokens bound
    have hStatements := statementsMatch tokens bound
    have hReach : position + 1 ≤ min (position + 1) tokens.length :=
      Nat.le_min.2 ⟨Nat.le_refl _, hNext⟩
    exact ⟨((hStatements.statement _ hEnd).mono id hReach).advances,
      (hStatements.block _ hEnd).advances,
      fun least => (hExpressions.expression _ least hEnd).advances,
      (hExpressions.operand _ hEnd).advances,
      (hStatements.ifStatement _ hNext).advances⟩
  · intro bound least position hEnd
    exact (expressionsMatch tokens bound).expression position least hEnd
  · intro c place output pending hBalanced
    exact ⟨exists_reduceFor c place hBalanced,
      exists_reduceAll place hBalanced⟩

/- A branch that assigns a sum of a product, all at one place. -/
def branching : List Token :=
  [(.keyword, "if"), (.operator, "("), (.identifier, "a"),
    (.operator, ")"), (.operator, "\x7b"), (.identifier, "b"),
    (.operator, "="), (.literal, "1"), (.operator, "+"),
    (.literal, "2"), (.operator, "*"), (.identifier, "c"),
    (.separator, ";"), (.operator, "\x7d")].map
    fun (kind, text) => ⟨kind, text, .start⟩

/- A call that ends behind its parenthesis, with a sign in front. -/
def breaking : List Token :=
  [⟨.operator, "-", ⟨3, 1⟩⟩, ⟨.identifier, "f", ⟨2, 2⟩⟩,
    ⟨.operator, "(", ⟨1, 3⟩⟩]

/- A sum that waits for the product on its right. -/
def waiting : Parser.Pending :=
  [(⟨.mul, 20, false, .binary⟩, ⟨1, 4⟩),
    (⟨.add, 10, false, .binary⟩, ⟨1, 2⟩)]

/-
  The branch takes all its tokens, and the sum in it as many
  as it has; the call misses one.
-/
theorem parse_keeps_moving_branching :
    (∃ p,
      Walk.statements branching (parseBound branching) 0 = .ok p 14 ∧
        14 = branching.length ∧ Program.parse branching = .ok p) ∧
    (∃ s c after,
      (Parser.ifStatement 70).run (.at branching 0) = .ok (s, c) ∧
        0 < after ∧ c = .at branching after) ∧
    (∃ sum,
      Walk.expression branching 70 2 7 = .ok sum 12 ∧
        (Parser.expression 70 2).run (.at branching 7) =
          .ok (sum, .at branching 12)) ∧
    (∃ e,
      Walk.statements breaking (parseBound breaking) 0 =
          .error (.refused e) breaking.length ∧
        e.isEnd = true ∧ Program.parse breaking = .error e) ∧
    ∀ first second third place,
      Balanced [third, second, first] waiting ∧
        ∃ e,
          Parser.reduceAll place waiting [third, second, first] =
            .ok [e] := by
  obtain ⟨p, hWhole⟩ :
      ∃ p, Walk.statements branching (parseBound branching) 0 =
        .ok p 14 :=
    ⟨_, by cbv⟩
  obtain ⟨s, c, hBranch⟩ :
      ∃ s c,
        (Parser.ifStatement 70).run (.at branching 0) = .ok (s, c) :=
    ⟨_, _, by cbv⟩
  obtain ⟨sum, hSum⟩ :
      ∃ sum, Walk.expression branching 70 2 7 = .ok sum 12 :=
    ⟨_, by cbv⟩
  obtain ⟨e, hBroken, hShort⟩ :
      ∃ e, Walk.statements breaking (parseBound breaking) 0 =
          .error (.refused e) 3 ∧ e.isEnd = true :=
    ⟨.unexpectedEnd ⟨1, 3⟩, by cbv, rfl⟩
  rcases parse_keeps_moving branching with
    ⟨hRead, -, hCalls, hExpressions, hStacks⟩
  obtain ⟨after, hLess, -, hAfter⟩ :=
    (hCalls 70 0 (by decide)).2.2.2.2 s c hBranch
  obtain ⟨-, -, hSame⟩ := (hExpressions 70 2 7 (by decide)).of_ok hSum
  obtain ⟨-, _, ⟨⟩, -, hRefused⟩ :=
    (parse_keeps_moving breaking).2.1 _ 3 hBroken
  refine ⟨⟨p, hWhole, hRead p 14 hWhole⟩,
    ⟨s, c, after, hBranch, hLess, hAfter⟩, ⟨sum, hSum, hSame⟩,
    ⟨e, hBroken, hShort, hRefused⟩, ?_⟩
  intro first second third place
  have hBalanced : Balanced [third, second, first] waiting := rfl
  exact ⟨hBalanced,
    (hStacks ⟨.assign, 1, true, .assignment⟩ place _ _ hBalanced).2⟩

end Program
end StackScript
