import StackScript.Proofs.Printed.Expression
import StackScript.Proofs.Twin.Reading

/-
  Expressions in two readings.

  Every reader of expressions gives the same in both readings
  up to places. The readers of one bound rest on those of the
  bound below.

  Key definitions include:
    * `Parser.Tracking`

  Key theorems include:
    * `Parser.tracking`
    * `Parser.tracks_expression`
-/

namespace StackScript

open Token (spelling)

------------------------------------------------------------
-- Trees
------------------------------------------------------------

namespace Expr.Same

variable {e e' f f' : Expr}

theorem kind_eq
    (h : e.Same e') :
    e'.kind = e.kind := by
  have hKind : ∀ e : Expr, e.unplaced.kind = e.kind := by
    intro e
    cases e with
    | _ => rfl
  rw [← hKind e', ← hKind e, h]

theorem binary
    {operator : Operator}
    {l l' : Location}
    (hLeft : e.Same e')
    (hRight : f.Same f') :
    (Expr.binary operator e f l).Same (.binary operator e' f' l') :=
  congrArg₂ (Expr.binary operator · · .start) hLeft hRight

theorem logical
    {operator : Operator}
    {l l' : Location}
    (hLeft : e.Same e')
    (hRight : f.Same f') :
    (Expr.logical operator e f l).Same
      (.logical operator e' f' l') :=
  congrArg₂ (Expr.logical operator · · .start) hLeft hRight

theorem unary
    {operator : Operator}
    {l l' : Location}
    (h : e.Same e') :
    (Expr.unary operator e l).Same (.unary operator e' l') :=
  congrArg (Expr.unary operator · .start) h

theorem post
    {operator : Operator}
    {l l' : Location}
    (h : e.Same e') :
    (Expr.post operator e l).Same (.post operator e' l') :=
  congrArg (Expr.post operator · .start) h

theorem assignment
    {name : String}
    {l l' : Location}
    (h : e.Same e') :
    (Expr.assignment name e l).Same (.assignment name e' l') :=
  congrArg (Expr.assignment name · .start) h

end Expr.Same

/- Expressions that are the same one by one. -/
abbrev Expr.SameAll (es es' : List Expr) : Prop :=
  List.Forall₂ Expr.Same es es'

theorem Expr.SameAll.unplacedAll_eq
    {es es' : List Expr}
    (h : Expr.SameAll es es') :
    Expr.unplacedAll es' = Expr.unplacedAll es := by
  induction h with
  | nil => rfl
  | cons hFirst _ ih =>
      rw [Expr.unplacedAll, Expr.unplacedAll, hFirst, ih]

namespace Parser

------------------------------------------------------------
-- The Operator Stack
------------------------------------------------------------

/- The same operators wait, perhaps from other places. -/
def Pending.Same (pending pending' : Pending) : Prop :=
  List.Forall₂ (fun p p' : Connective × Location => p'.1 = p.1)
    pending pending'

/- Outputs and waiting operators are the same up to places. -/
def SameStacks
    (r r' : List Expr × Pending) : Prop :=
  Expr.SameAll r.1 r'.1 ∧ Pending.Same r.2 r'.2

variable {place place' : Location}
variable {output output' : List Expr}
variable {pending pending' : Pending}

theorem same_apply
    {e e' f f' : Expr}
    {l l' : Location}
    (c : Connective)
    (hLeft : e.Same e')
    (hRight : f.Same f') :
    (c.apply e f l).Same (c.apply e' f' l') := by
  unfold Connective.apply
  cases c.kind with
  | logical => exact hLeft.logical hRight
  | binary | assignment => exact hLeft.binary hRight

theorem agree_reduce
    (hOutput : Expr.SameAll output output')
    (hPending : Pending.Same pending pending') :
    Agree ParseError.Same SameStacks
      (reduce place output pending)
      (reduce place' output' pending') := by
  cases hOutput with
  | nil => rfl
  | cons hRight hMore =>
      cases hMore with
      | nil => rfl
      | cons hLeft hOthers =>
          cases hPending with
          | nil => rfl
          | @cons p p' _ _ hFirst hWaiting =>
              rcases p with ⟨c, l⟩
              rcases p' with ⟨c', l'⟩
              cases hFirst
              exact ⟨.cons (same_apply c hLeft hRight) hOthers,
                hWaiting⟩

theorem agree_reduceFor
    (c : Connective)
    (hOutput : Expr.SameAll output output')
    (hPending : Pending.Same pending pending') :
    Agree ParseError.Same SameStacks
      (reduceFor c place pending output)
      (reduceFor c place' pending' output') := by
  induction hPending generalizing output output' with
  | nil => exact ⟨hOutput, .nil⟩
  | @cons p p' pending pending' hFirst hWaiting ih =>
      rcases p with ⟨waiting, l⟩
      rcases p' with ⟨waiting', l'⟩
      dsimp only at hFirst
      subst hFirst
      have hBoth :
          Pending.Same ((waiting', l) :: pending)
            ((waiting', l') :: pending') :=
        .cons rfl hWaiting
      rw [reduceFor, reduceFor]
      split
      · apply (agree_reduce hOutput hBoth).bind
        intro r r' hStacks
        exact ih hStacks.1
      · exact ⟨hOutput, hBoth⟩

theorem agree_reduceAll
    (hOutput : Expr.SameAll output output')
    (hPending : Pending.Same pending pending') :
    Agree ParseError.Same Expr.SameAll
      (reduceAll place pending output)
      (reduceAll place' pending' output') := by
  induction hPending generalizing output output' with
  | nil => exact hOutput
  | @cons p p' pending pending' hFirst hWaiting ih =>
      have hBoth : Pending.Same (p :: pending) (p' :: pending') :=
        .cons hFirst hWaiting
      rw [reduceAll, reduceAll]
      apply (agree_reduce hOutput hBoth).bind
      intro r r' hStacks
      exact ih hStacks.1

variable {m : Slack}
variable {c d : Cursor}
variable {t t' : Token}
variable {e e' : Expr}

/- What is left when no operator waits is the same. -/
theorem tracks_conclude
    (hPlace : m.Beside c d)
    (hOutput : Expr.SameAll output output')
    (hPending : Pending.Same pending pending') :
    Tracks m c d (conclude output pending)
      (conclude output' pending') Expr.Same := by
  apply tracks_here
  apply tracks_lift (agree_reduceAll hOutput hPending)
  intro es es' hLeft
  cases hLeft with
  | nil => exact tracks_throw rfl
  | cons hFirst hMore =>
      cases hMore with
      | nil => exact tracks_pure hPlace hFirst
      | cons => exact tracks_throw rfl

------------------------------------------------------------
-- Signs and Steps
------------------------------------------------------------

theorem step?_eq
    (hSame : spelling t' = spelling t) :
    step? t' = step? t := by
  unfold step?
  rw [(marks_operator "++").eq hSame, (marks_operator "--").eq hSame]

theorem step?_semicolon
    (hSemicolon : spelling t = Token.Spelling.semicolon) :
    step? t = none := by
  cases t
  cases hSemicolon
  rfl

theorem of?_eq
    (hSame : spelling t' = spelling t) :
    Connective.of? t' = Connective.of? t := by
  cases t
  cases t'
  cases hSame
  rfl

theorem of?_semicolon
    (hSemicolon : spelling t = Token.Spelling.semicolon) :
    Connective.of? t = none := by
  cases t
  cases hSemicolon
  rfl

theorem sign?_eq
    {before before' : Option Token}
    {text : String}
    (h : signMayFollow before' = signMayFollow before) :
    sign? before' text = sign? before text := by
  unfold sign?
  rw [h]

theorem tracks_refuseStep
    (hPlace : m.Beside c d) :
    Tracks m c d refuseStep refuseStep fun _ _ => True := by
  apply tracks_peek
  cases hPlace.fronts with
  | ended => exact tracks_pure hPlace trivial
  | next hSame hRest =>
      dsimp only [List.head?_cons]
      rw [step?_eq hSame]
      split
      · exact tracks_throw rfl
      · exact tracks_pure hPlace trivial
  | more hLoose hSemicolon =>
      dsimp only [List.head?_cons]
      rw [step?_semicolon hSemicolon]
      exact tracks_pure hPlace trivial

/- A step is taken behind a variable in both readings, or refused. -/
theorem tracks_step
    {operator : Operator}
    {before before' : Option Token}
    {rest rest' : List Token}
    (hRest : m.Beside ⟨some t, rest⟩ ⟨some t', rest'⟩)
    (hSame : e.Same e') :
    Tracks m ⟨before, t :: rest⟩ ⟨before', t' :: rest'⟩
      (match some operator, e with
        | none, e => return e
        | some _, .post .. => throw (.chainedStep t.location)
        | some operator, .variable .. => do
            advance
            refuseStep
            return .post operator e t.location
        | some operator, e =>
            throw (.invalidPost operator e.kind e.location))
      (match some operator, e' with
        | none, e => return e
        | some _, .post .. => throw (.chainedStep t'.location)
        | some operator, .variable .. => do
            advance
            refuseStep
            return .post operator e' t'.location
        | some operator, e =>
            throw (.invalidPost operator e.kind e.location))
      Expr.Same := by
  have hKind := hSame.kind_eq
  cases e with
  | «variable» name l =>
      cases e' with
      | «variable» name' l' =>
          apply tracks_advance
          apply (tracks_refuseStep hRest).bind
          intro _ _ c' d' hPlace _
          exact tracks_pure hPlace hSame.post
      | _ => cases hSame
  | post operator a l =>
      cases e' with
      | post operator' a' l' => exact tracks_throw rfl
      | _ => cases hSame
  | _ =>
      cases e' with
      | «variable» | post => cases hSame
      | _ =>
          apply tracks_throw
          exact congrArg (ParseError.invalidPost operator · .start) hKind

/- An operand with the step that may follow it is the same. -/
theorem tracks_stepped
    (hPlace : m.Beside c d)
    (hSame : e.Same e') :
    Tracks m c d (stepped e) (stepped e') Expr.Same := by
  apply tracks_peek
  cases hPlace.fronts with
  | ended => exact tracks_pure hPlace hSame
  | @next before before' t t' rest rest' hToken hRest =>
      dsimp only [List.head?_cons]
      rw [step?_eq hToken]
      cases step? t with
      | none => exact tracks_pure hPlace hSame
      | some operator => exact tracks_step hRest hSame
  | more hLoose hSemicolon =>
      dsimp only [List.head?_cons]
      rw [step?_semicolon hSemicolon]
      exact tracks_pure hPlace hSame

------------------------------------------------------------
-- Expressions
------------------------------------------------------------

variable {bound bound' : Nat}

/-
  The readers of expressions give the same in both readings,
  at bounds side by side.
-/
structure Tracking
    (m : Slack)
    (bound bound' : Nat) : Prop where
  expression :
    ∀ {c d} least, m.Beside c d →
      Tracks m c d (Parser.expression bound least)
        (Parser.expression bound' least) Expr.Same
  connectives :
    ∀ {c d output output' pending pending'} least,
      m.Beside c d → Expr.SameAll output output' →
      Pending.Same pending pending' →
      Tracks m c d (Parser.connectives bound least output pending)
        (Parser.connectives bound' least output' pending') Expr.Same
  operand :
    ∀ {c d}, m.Beside c d →
      Tracks m c d (Parser.operand bound) (Parser.operand bound')
        Expr.Same
  primary :
    ∀ {c d before before' t t'}, m.Beside c d →
      signMayFollow before' = signMayFollow before →
      spelling t' = spelling t →
      Tracks m c d (Parser.primary bound before t)
        (Parser.primary bound' before' t') Expr.Same
  argumentList :
    ∀ {c d t t'}, m.Beside c d → spelling t' = spelling t →
      Tracks m c d (Parser.argumentList bound t)
        (Parser.argumentList bound' t') Expr.SameAll

/- Without a bound left, both readings fail alike. -/
theorem tracks_exhausted
    {α β : Type}
    {x : Parser α}
    {y : Nat → Parser β}
    {Q : α → β → Prop}
    (hBound : m.Bounds 0 bound')
    (hLeft : x = failHere .unexpectedEnd)
    (hRight : y 0 = failHere .unexpectedEnd) :
    Tracks m c d x (y bound') Q := by
  rw [hLeft]
  rcases hBound.2 with hSame | hLoose
  · rw [← hSame, hRight]
    exact tracks_failHere fun _ _ => rfl
  · exact tracks_failed hLoose rfl

namespace Tracking

theorem zero
    (hBound : m.Bounds 0 bound') :
    Tracking m 0 bound' where
  expression least _ :=
    tracks_exhausted (y := (Parser.expression · least)) hBound rfl rfl
  connectives least _ _ _ :=
    tracks_exhausted (y := (Parser.connectives · least _ _)) hBound rfl rfl
  operand _ :=
    tracks_exhausted (y := Parser.operand) hBound rfl rfl
  primary _ _ _ :=
    tracks_exhausted (y := (Parser.primary · _ _)) hBound rfl rfl
  argumentList _ _ :=
    tracks_exhausted (y := (Parser.argumentList · _)) hBound rfl rfl

theorem expression_succ
    (h : Tracking m bound bound')
    (hPlace : m.Beside c d)
    (least : Nat) :
    Tracks m c d (Parser.expression (bound + 1) least)
      (Parser.expression (bound' + 1) least) Expr.Same := by
  rw [Parser.expression, Parser.expression]
  apply (h.operand hPlace).bind
  intro e e' c' d' hNext hSame
  exact h.connectives least hNext (.cons hSame .nil) .nil

theorem same_assigned
    {l l' : Location}
    {target target' right right' : Expr}
    (operator : Operator)
    (hTarget : target.Same target')
    (hRight : right.Same right') :
    (assigned operator target right l).Same
      (assigned operator target' right' l') := by
  unfold assigned
  cases operator.base? with
  | none => exact hRight
  | some base => exact hTarget.binary hRight

/- An assignment takes its target from the output in both. -/
theorem tracks_assignment
    (h : Tracking m bound bound')
    (hPlace : m.Beside c d)
    (hToken : spelling t' = spelling t)
    (connective : Connective)
    (hOutput : Expr.SameAll output output')
    (hPending : Pending.Same pending pending') :
    Tracks m c d
      (match output with
        | [] => throw (.unexpectedEnd t.location)
        | target :: output =>
            match target.name? with
            | none =>
                throw (.assignment connective.operator t.location)
            | some name => do
                requireOperand t
                let right ←
                  Parser.expression bound connective.precedence
                let value :=
                  assigned connective.operator target right t.location
                conclude (.assignment name value t.location :: output)
                  pending)
      (match output' with
        | [] => throw (.unexpectedEnd t'.location)
        | target :: output =>
            match target.name? with
            | none =>
                throw (.assignment connective.operator t'.location)
            | some name => do
                requireOperand t'
                let right ←
                  Parser.expression bound' connective.precedence
                let value :=
                  assigned connective.operator target right t'.location
                conclude (.assignment name value t'.location :: output)
                  pending')
      Expr.Same := by
  cases hOutput with
  | nil => exact tracks_throw rfl
  | @cons target target' _ _ hTarget hOthers =>
      dsimp only
      rw [hTarget.name?_eq]
      cases target.name? with
      | none => exact tracks_throw rfl
      | some name =>
          apply (tracks_requireOperand hToken hPlace).bind
          intro _ _ c' d' hNext _
          apply (h.expression _ hNext).bind
          intro right right' c'' d'' hLast hRight
          exact tracks_conclude hLast
            (.cons (same_assigned _ hTarget hRight).assignment hOthers)
            hPending

theorem connectives_succ
    (h : Tracking m bound bound')
    (hPlace : m.Beside c d)
    (least : Nat)
    (hOutput : Expr.SameAll output output')
    (hPending : Pending.Same pending pending') :
    Tracks m c d (Parser.connectives (bound + 1) least output pending)
      (Parser.connectives (bound' + 1) least output' pending')
      Expr.Same := by
  have hEnd := tracks_conclude hPlace hOutput hPending
  rw [Parser.connectives, Parser.connectives]
  apply tracks_peek
  cases hPlace.fronts with
  | ended => exact hEnd
  | @next before before' t t' rest rest' hToken hRest =>
      dsimp only [List.head?_cons]
      rw [of?_eq hToken]
      cases hConnective : Connective.of? t with
      | none => exact hEnd
      | some connective =>
          dsimp only
          split
          · exact hEnd
          · apply tracks_advance
            apply tracks_lift (agree_reduceFor _ hOutput hPending)
            rintro ⟨output, pending⟩ ⟨output', pending'⟩
              ⟨hOutput, hPending⟩
            dsimp only
            split
            · exact h.tracks_assignment hRest hToken _ hOutput hPending
            · apply (tracks_requireOperand hToken hRest).bind
              intro _ _ c' d' hNext _
              apply (h.operand hNext).bind
              intro e e' c'' d'' hLast hSame
              exact h.connectives least hLast (.cons hSame hOutput)
                (.cons rfl hPending)
  | more hLoose hSemicolon =>
      dsimp only [List.head?_cons]
      rw [of?_semicolon hSemicolon]
      exact hEnd

theorem operand_succ
    (h : Tracking m bound bound')
    (hPlace : m.Beside c d) :
    Tracks m c d (Parser.operand (bound + 1))
      (Parser.operand (bound' + 1)) Expr.Same := by
  have hBefore := hPlace.before
  rw [Parser.operand, Parser.operand]
  apply tracks_get
  apply tracks_peek
  cases hPlace.fronts with
  | ended => exact tracks_failHere fun _ _ => rfl
  | next hToken hRest =>
      apply tracks_advance
      apply (h.primary hRest hBefore hToken).bind
      intro e e' c' d' hNext hSame
      exact tracks_stepped hNext hSame
  | more hLoose _ => exact tracks_failed hLoose rfl

/- A call is the same in both readings, or goes on in both. -/
theorem tracks_called
    {es es' : List Expr}
    (hPlace : m.Beside c d)
    (hToken : spelling t' = spelling t)
    (hArguments : Expr.SameAll es es') :
    Tracks m c d (called t es) (called t' es') Expr.Same := by
  have hText : t'.text = t.text := (Token.Spelling.mk.inj hToken).2
  refine tracks_ifNext (marks_operator "(") hPlace ?_ ?_
  · intro _ _ _ _ _ _ _ _ _ _ _
    apply tracks_failHere
    intro l l'
    exact congrArg (ParseError.chainedFunctionCall · .start) hText
  · apply tracks_pure hPlace
    unfold Expr.Same Expr.unplaced
    rw [hText, hArguments.unplacedAll_eq]

/- A sign and its argument are the same in both readings. -/
theorem tracks_sign
    (h : Tracking m bound bound')
    (hPlace : m.Beside c d)
    (hToken : spelling t' = spelling t)
    (operator : Operator) :
    Tracks m c d
      (do
        requireOperand t
        let argument ←
          Parser.expression bound Connective.signPrecedence
        if operator.isStep && argument.name?.isNone then
          throw (.invalidPre operator argument.kind t.location)
        else return .unary operator argument t.location)
      (do
        requireOperand t'
        let argument ←
          Parser.expression bound' Connective.signPrecedence
        if operator.isStep && argument.name?.isNone then
          throw (.invalidPre operator argument.kind t'.location)
        else return .unary operator argument t'.location)
      Expr.Same := by
  apply (tracks_requireOperand hToken hPlace).bind
  intro _ _ c' d' hNext _
  apply (h.expression _ hNext).bind
  intro e e' c'' d'' hLast hSame
  rw [hSame.name?_eq]
  split
  · apply tracks_throw
    exact congrArg (ParseError.invalidPre operator · .start)
      hSame.kind_eq
  · exact tracks_pure hLast hSame.unary

theorem primary_succ
    {before before' : Option Token}
    (h : Tracking m bound bound')
    (hPlace : m.Beside c d)
    (hBefore : signMayFollow before' = signMayFollow before)
    (hToken : spelling t' = spelling t) :
    Tracks m c d (Parser.primary (bound + 1) before t)
      (Parser.primary (bound' + 1) before' t') Expr.Same := by
  rcases Token.Spelling.mk.inj hToken with ⟨hKind, hText⟩
  have hRefused :
      Tracks m c d
        (throw (.unexpectedToken t.text t.location) : Parser Expr)
        (throw (.unexpectedToken t'.text t'.location) : Parser Expr)
        Expr.Same :=
    tracks_throw (congrArg (ParseError.unexpectedToken · .start) hText)
  rw [Parser.primary, Parser.primary, hKind]
  cases t.kind with
  | literal =>
      exact tracks_pure hPlace (congrArg (Expr.literal · .start) hText)
  | stringLiteral =>
      exact tracks_pure hPlace (congrArg (Expr.string · .start) hText)
  | identifier =>
      refine tracks_ifPeek (marks_operator "(") hPlace ?_ ?_
      · intro c' d' hNext
        refine tracks_ifPeek (marks_operator ")") hNext ?_ ?_
        · intro c'' d'' hLast
          exact tracks_called hLast hToken .nil
        · apply (h.argumentList hNext hToken).bind
          intro es es' c'' d'' hLast hArguments
          exact tracks_called hLast hToken hArguments
      · exact tracks_pure hPlace
          (congrArg (Expr.variable · .start) hText)
  | operator =>
      rw [hText] at hRefused
      dsimp only
      rw [hText, sign?_eq hBefore]
      split
      · apply (h.expression 0 hPlace).bind
        intro e e' c' d' hNext hSame
        apply (tracks_expectOperator hNext).bind
        intro _ _ c'' d'' hLast _
        exact tracks_pure hLast hSame
      · cases sign? before t.text with
        | none => exact hRefused
        | some operator => exact h.tracks_sign hPlace hToken operator
  | keyword | separator | unknown => exact hRefused

theorem argumentList_succ
    (h : Tracking m bound bound')
    (hPlace : m.Beside c d)
    (hToken : spelling t' = spelling t) :
    Tracks m c d (Parser.argumentList (bound + 1) t)
      (Parser.argumentList (bound' + 1) t') Expr.SameAll := by
  have hText : t'.text = t.text := (Token.Spelling.mk.inj hToken).2
  rw [Parser.argumentList, Parser.argumentList]
  apply (h.expression 0 hPlace).bind
  intro e e' c' d' hNext hSame
  refine tracks_ifPeek marks_comma hNext ?_ ?_
  · intro c'' d'' hLast
    apply (h.argumentList hLast hToken).bind
    intro es es' c''' d''' hEnd hOthers
    exact tracks_pure hEnd (.cons hSame hOthers)
  · refine tracks_ifPeek (marks_operator ")") hNext ?_ ?_
    · intro c'' d'' hLast
      exact tracks_pure hLast (.cons hSame .nil)
    · apply tracks_failHere
      intro l l'
      exact congrArg (ParseError.functionCall · .start) hText

end Tracking

/- The readers of expressions give the same, at every bound. -/
theorem tracking
    (hBound : m.Bounds bound bound') :
    Tracking m bound bound' := by
  induction bound generalizing bound' with
  | zero => exact .zero hBound
  | succ bound ih =>
      rcases hBound.of_succ with ⟨less, rfl, hLess⟩
      have h := ih hLess
      exact
        { expression := fun least hPlace => h.expression_succ hPlace least
          connectives := fun least hPlace hOutput hPending =>
            h.connectives_succ hPlace least hOutput hPending
          operand := fun hPlace => h.operand_succ hPlace
          primary := fun hPlace hBefore hToken =>
            h.primary_succ hPlace hBefore hToken
          argumentList := fun hPlace hToken =>
            h.argumentList_succ hPlace hToken }

/- An expression is the same in both readings. -/
theorem tracks_expression
    {least : Nat}
    (hBound : m.Bounds bound bound')
    (hPlace : m.Beside c d) :
    Tracks m c d (expression bound least) (expression bound' least)
      Expr.Same :=
  (tracking hBound).expression least hPlace

end Parser
end StackScript
