import StackScript.Proofs.Walk.Matching

/-
  Walks over expressions.

  The readers of expressions call each other, so that walks
  do as they do is shown for all of them together, by
  induction on the bound of their calls. The walk is cut
  short only if the bound is less than three calls for each
  token that is left, and some more.

  Key definitions include:
    * `Walk.ExpressionsMatch`

  Key theorems include:
    * `Walk.ExpressionsMatch.connectives_succ`
    * `Walk.expressionsMatch`
-/

namespace StackScript
namespace Walk

open StackScript.Parser (Pending sign? step?)

variable {tokens : List Token}
variable {cut : Prop}
variable {bound position least : Nat}

------------------------------------------------------------
-- Steps after Operands
------------------------------------------------------------

theorem matches_refuseStep (hEnd : position ≤ tokens.length) :
    Matches tokens cut position position
      (refuseStep tokens) Parser.refuseStep := by
  apply matches_peek
  cases tokens[position]? with
  | none => exact matches_pure (Nat.le_refl _) hEnd
  | some t =>
      apply matches_ite
      · intro _
        exact matches_refuse hEnd rfl
      · intro _
        exact matches_pure (Nat.le_refl _) hEnd

theorem matches_stepped
    (e : Expr)
    (hEnd : position ≤ tokens.length) :
    Matches tokens cut position position
      (stepped tokens e) (Parser.stepped e) := by
  apply matches_peek
  cases hNext : tokens[position]? with
  | none => exact matches_pure (Nat.le_refl _) hEnd
  | some t =>
      dsimp only
      cases step? t with
      | none => exact matches_pure (Nat.le_refl _) hEnd
      | some operator =>
          cases e with
          | «variable» name place =>
              apply (matches_advance (lt_length_of_getElem? hNext)).bind
              intro _ after hLess hEnd
              apply (matches_refuseStep hEnd).bind
              intro _ last hMore hEnd
              exact matches_pure (by omega) hEnd
          | _ => exact matches_refuse hEnd rfl

theorem matches_called
    (name : Token)
    (arguments : List Expr)
    (hEnd : position ≤ tokens.length) :
    Matches tokens cut position position
      (called tokens name arguments)
      (Parser.called name arguments) :=
  matches_ifNext (fun _ => matches_failHere hEnd nofun)
    (matches_pure (Nat.le_refl _) hEnd)

------------------------------------------------------------
-- Readers of Expressions
------------------------------------------------------------

/-
  What walks do at one bound on their calls: each of them
  takes a token at least, but for what may follow an operand
  and for an operand whose first token is taken.
-/
structure ExpressionsMatch
    (tokens : List Token)
    (bound : Nat) : Prop where
  expression :
    ∀ position least, position ≤ tokens.length →
      Matches tokens (bound < 3 * (tokens.length - position) + 2)
        position (position + 1)
        (expression tokens bound least)
        (Parser.expression bound least)
  connectives :
    ∀ position least output pending, position ≤ tokens.length →
      Balanced output pending →
      Matches tokens (bound < 3 * (tokens.length - position) + 1)
        position position
        (connectives tokens bound least output pending)
        (Parser.connectives bound least output pending)
  operand :
    ∀ position, position ≤ tokens.length →
      Matches tokens (bound < 3 * (tokens.length - position) + 1)
        position (position + 1)
        (operand tokens bound) (Parser.operand bound)
  primary :
    ∀ position before t, position ≤ tokens.length →
      Matches tokens (bound < 3 * (tokens.length - position) + 3)
        position position
        (primary tokens bound before t)
        (Parser.primary bound before t)
  argumentList :
    ∀ position name, position ≤ tokens.length →
      Matches tokens (bound < 3 * (tokens.length - position) + 3)
        position (position + 1)
        (argumentList tokens bound name)
        (Parser.argumentList bound name)

namespace ExpressionsMatch

theorem zero (tokens : List Token) : ExpressionsMatch tokens 0 where
  expression _ _ _ := matches_spent (by omega)
  connectives _ _ _ _ _ _ := matches_spent (by omega)
  operand _ _ := matches_spent (by omega)
  primary _ _ _ _ := matches_spent (by omega)
  argumentList _ _ _ := matches_spent (by omega)

theorem expression_succ
    (h : ExpressionsMatch tokens bound)
    (hEnd : position ≤ tokens.length) :
    Matches tokens (bound + 1 < 3 * (tokens.length - position) + 2)
      position (position + 1)
      (Walk.expression tokens (bound + 1) least)
      (Parser.expression (bound + 1) least) := by
  rw [Walk.expression, Parser.expression]
  apply ((h.operand position hEnd).mono (by omega) (Nat.le_refl _)).bind
  intro first after hLess hEnd
  exact (h.connectives after least [first] [] hEnd rfl).mono
    (by omega) hLess

/- The right side of an assignment, and its node. -/
theorem matches_assignment
    {c : Connective}
    {t : Token}
    {target : Expr}
    {name : String}
    {output : List Expr}
    {pending : Pending}
    (h : ExpressionsMatch tokens bound)
    (hEnd : position ≤ tokens.length)
    (hBalanced : Balanced (target :: output) pending) :
    Matches tokens (bound < 3 * (tokens.length - position) + 2)
      position position
      (do
        requireOperand tokens t
        let right ← Walk.expression tokens bound c.precedence
        conclude tokens
          (.assignment name
            (Parser.assigned c.operator target right t.location)
            t.location :: output)
          pending)
      (do
        Parser.requireOperand t
        let right ← Parser.expression bound c.precedence
        Parser.conclude
          (.assignment name
            (Parser.assigned c.operator target right t.location)
            t.location :: output)
          pending) := by
  apply (matches_requireOperand t hEnd).bind
  intro _ after hMore hEnd
  apply ((h.expression after c.precedence hEnd).mono (by omega)
    (Nat.le_refl _)).bind
  intro right last hLess hEnd
  -- The node takes the place of its target in the output.
  have hNode :
      Balanced
        (.assignment name
          (Parser.assigned c.operator target right t.location)
          t.location :: output)
        pending :=
    hBalanced
  exact (matches_conclude hEnd hNode).mono id (by omega)

/-
  Between operands the stacks stay in step: an operator that
  goes to wait is followed by its right operand.
-/
theorem connectives_succ
    {output : List Expr}
    {pending : Pending}
    (h : ExpressionsMatch tokens bound)
    (hEnd : position ≤ tokens.length)
    (hBalanced : Balanced output pending) :
    Matches tokens (bound + 1 < 3 * (tokens.length - position) + 1)
      position position
      (Walk.connectives tokens (bound + 1) least output pending)
      (Parser.connectives (bound + 1) least output pending) := by
  rw [Walk.connectives, Parser.connectives]
  apply matches_checkStacks hBalanced
  apply matches_peek
  have hConclude :
      Matches tokens (bound + 1 < 3 * (tokens.length - position) + 1)
        position position
        (conclude tokens output pending)
        (Parser.conclude output pending) :=
    matches_conclude hEnd hBalanced
  cases hNext : tokens[position]? with
  | none => exact hConclude
  | some t =>
      have hLess := lt_length_of_getElem? hNext
      dsimp only
      cases Connective.of? t with
      | none => exact hConclude
      | some c =>
          apply matches_ite
          · intro _
            exact hConclude
          · intro _
            apply (matches_advance hLess).bind
            intro _ after hMore hEnd
            rcases exists_reduceFor c t.location hBalanced with
              ⟨output, pending, hReduce, hBalanced⟩
            apply matches_reduced hReduce
            apply matches_ite
            · intro _
              cases output with
              | nil => cases hBalanced
              | cons target output =>
                  dsimp only
                  cases target.name? with
                  | none => exact matches_refuse hEnd rfl
                  | some name =>
                      exact (h.matches_assignment hEnd hBalanced).mono
                        (by omega) (by omega)
            · intro _
              apply (matches_requireOperand t hEnd).bind
              intro _ middle hMiddle hEnd
              apply ((h.operand middle hEnd).mono (by omega)
                (Nat.le_refl _)).bind
              intro next last hLast hEnd
              have hPushed :
                  Balanced (next :: output) ((c, t.location) :: pending) :=
                congrArg Nat.succ hBalanced
              exact (h.connectives last least _ _ hEnd hPushed).mono
                (by omega) (by omega)

theorem operand_succ
    (h : ExpressionsMatch tokens bound)
    (hEnd : position ≤ tokens.length) :
    Matches tokens (bound + 1 < 3 * (tokens.length - position) + 1)
      position (position + 1)
      (Walk.operand tokens (bound + 1))
      (Parser.operand (bound + 1)) := by
  rw [Walk.operand, Parser.operand]
  apply matches_before
  apply matches_peek
  cases hNext : tokens[position]? with
  | none =>
      -- Here alone the tokens are found to end too early.
      have hNone := List.getElem?_eq_none_iff.1 hNext
      exact matches_failHere hEnd fun _ _ => Nat.le_antisymm hEnd hNone
  | some t =>
      have hLess := lt_length_of_getElem? hNext
      apply (matches_advance hLess).bind
      intro _ after hMore hEnd
      apply ((h.primary after _ t hEnd).mono (by omega)
        (Nat.le_refl _)).bind
      intro e last hLast hEnd
      exact (matches_stepped e hEnd).mono id (by omega)

/- A name, and the arguments if it is called. -/
theorem matches_named
    {t : Token}
    (h : ExpressionsMatch tokens bound)
    (hEnd : position ≤ tokens.length) :
    Matches tokens (bound < 3 * (tokens.length - position))
      position position
      (do
        if ← peekIs tokens (·.isOperator "(") then
          advance tokens
          if ← peekIs tokens (·.isOperator ")") then
            advance tokens
            called tokens t []
          else
            let arguments ← Walk.argumentList tokens bound t
            called tokens t arguments
        else return .variable t.text t.location)
      (do
        if ← Parser.peekIs (·.isOperator "(") then
          Parser.advance
          if ← Parser.peekIs (·.isOperator ")") then
            Parser.advance
            Parser.called t []
          else
            let arguments ← Parser.argumentList bound t
            Parser.called t arguments
        else return .variable t.text t.location) := by
  refine matches_ifNext ?_ (matches_pure (Nat.le_refl _) hEnd)
  intro hLess
  apply (matches_advance hLess).bind
  intro _ after hMore hEnd
  refine matches_ifNext ?_ ?_
  · intro hLess
    apply (matches_advance hLess).bind
    intro _ last hLast hEnd
    exact (matches_called t [] hEnd).mono id (by omega)
  · apply ((h.argumentList after t hEnd).mono (by omega)
      (Nat.le_refl _)).bind
    intro arguments last hLast hEnd
    exact (matches_called t arguments hEnd).mono id (by omega)

/- A sign and its argument. -/
theorem matches_sign
    {operator : Operator}
    {t : Token}
    (h : ExpressionsMatch tokens bound)
    (hEnd : position ≤ tokens.length) :
    Matches tokens (bound < 3 * (tokens.length - position) + 2)
      position position
      (do
        requireOperand tokens t
        let argument ←
          Walk.expression tokens bound Connective.signPrecedence
        if operator.isStep && argument.name?.isNone then
          refuse (.invalidPre operator argument.kind t.location)
        else return .unary operator argument t.location : Walk Expr)
      (do
        Parser.requireOperand t
        let argument ←
          Parser.expression bound Connective.signPrecedence
        if operator.isStep && argument.name?.isNone then
          throw (.invalidPre operator argument.kind t.location)
        else return .unary operator argument t.location :
        Parser Expr) := by
  apply (matches_requireOperand t hEnd).bind
  intro _ after hMore hEnd
  apply ((h.expression after _ hEnd).mono (by omega)
    (Nat.le_refl _)).bind
  intro argument last hLast hEnd
  apply matches_ite
  · intro _
    exact matches_refuse hEnd rfl
  · intro _
    exact matches_pure (by omega) hEnd

theorem primary_succ
    {last : Option Token}
    {t : Token}
    (h : ExpressionsMatch tokens bound)
    (hEnd : position ≤ tokens.length) :
    Matches tokens (bound + 1 < 3 * (tokens.length - position) + 3)
      position position
      (Walk.primary tokens (bound + 1) last t)
      (Parser.primary (bound + 1) last t) := by
  rw [Walk.primary, Parser.primary]
  cases t.kind with
  | literal => exact matches_pure (Nat.le_refl _) hEnd
  | stringLiteral => exact matches_pure (Nat.le_refl _) hEnd
  | identifier =>
      exact (h.matches_named hEnd).mono (by omega) (Nat.le_refl _)
  | operator =>
      apply matches_ite
      · intro _
        apply ((h.expression position 0 hEnd).mono (by omega)
          (Nat.le_refl _)).bind
        intro inner after hMore hEnd
        apply (matches_expectOperator ")" hEnd).bind
        intro _ behind hBehind hEnd
        exact matches_pure (by omega) hEnd
      · intro _
        cases sign? last t.text with
        | none => exact matches_refuse hEnd rfl
        | some operator =>
            exact (h.matches_sign hEnd).mono (by omega) (Nat.le_refl _)
  | _ => exact matches_refuse hEnd rfl

theorem argumentList_succ
    {name : Token}
    (h : ExpressionsMatch tokens bound)
    (hEnd : position ≤ tokens.length) :
    Matches tokens (bound + 1 < 3 * (tokens.length - position) + 3)
      position (position + 1)
      (Walk.argumentList tokens (bound + 1) name)
      (Parser.argumentList (bound + 1) name) := by
  rw [Walk.argumentList, Parser.argumentList]
  apply ((h.expression position 0 hEnd).mono (by omega)
    (Nat.le_refl _)).bind
  intro first after hMore hEnd
  refine matches_ifNext ?_ (matches_ifNext ?_ ?_)
  · intro hLess
    apply (matches_advance hLess).bind
    intro _ middle hMiddle hEnd
    apply ((h.argumentList middle name hEnd).mono (by omega)
      (Nat.le_refl _)).bind
    intro others last hLast hEnd
    exact matches_pure (by omega) hEnd
  · intro hLess
    apply (matches_advance hLess).bind
    intro _ last hLast hEnd
    exact matches_pure (by omega) hEnd
  · exact matches_failHere hEnd nofun

end ExpressionsMatch

/- Whatever the bound is, walks do as the readers do. -/
theorem expressionsMatch
    (tokens : List Token)
    (bound : Nat) :
    ExpressionsMatch tokens bound := by
  induction bound with
  | zero => exact .zero tokens
  | succ bound ih =>
      constructor
      case expression =>
        intro position least hEnd
        exact ih.expression_succ hEnd
      case connectives =>
        intro position least output pending hEnd hBalanced
        exact ih.connectives_succ hEnd hBalanced
      case operand =>
        intro position hEnd
        exact ih.operand_succ hEnd
      case primary =>
        intro position last t hEnd
        exact ih.primary_succ hEnd
      case argumentList =>
        intro position name hEnd
        exact ih.argumentList_succ hEnd

/- An expression takes a token at least. -/
theorem matches_expression
    (least : Nat)
    (hCut : bound < 3 * (tokens.length - position) + 2 → cut)
    (hEnd : position ≤ tokens.length) :
    Matches tokens cut position (position + 1)
      (expression tokens bound least)
      (Parser.expression bound least) :=
  ((expressionsMatch tokens bound).expression position least hEnd).mono
    hCut (Nat.le_refl _)

end Walk
end StackScript
