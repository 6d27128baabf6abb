import StackScript.Proofs.Grammar.Pointing

/-
  Expressions and statements are made at tokens.

  The readers call each other, so what they point at is
  shown for all of them together, by induction on the bound
  of their calls: nodes take the places of tokens that were
  read, and errors point at such a token or at the cursor.

  Key definitions include:
    * `Parser.Placed`
    * `Parser.StatementsPlaced`

  Key theorems include:
    * `Parser.placed`
    * `Parser.statementsPlaced`
    * `Parser.points_statements`
-/

namespace StackScript

namespace Parser

variable {P : Location → Prop}
variable {bound : Nat}

------------------------------------------------------------
-- Expressions
------------------------------------------------------------

/- A step after an operand, if there is one. -/
theorem points_stepped
    {e : Expr}
    (he : e.Placed P) :
    Points P (stepped e) (Expr.Placed P) := by
  have hStep
      {t : Token}
      {operator : Operator}
      (ht : P t.location) :
      Points P
        (do
          advance
          refuseStep
          return .post operator e t.location)
        (Expr.Placed P) := by
    apply points_advance.bind
    intro _ _
    have hRefuse : Points P refuseStep fun _ => True := by
      apply points_peek.bind
      intro next hNext
      split
      · rename_i u
        split
        · exact points_throw (hNext u rfl)
        · exact points_pure trivial
      · exact points_pure trivial
    apply hRefuse.bind
    intro _ _
    exact points_pure (List.forall_mem_cons.2 ⟨ht, he⟩)
  apply points_peek.bind
  intro next hNext
  split
  · exact points_pure he
  · rename_i t
    have ht := hNext t rfl
    split
    · exact points_pure he
    · exact points_throw ht
    · exact hStep ht
    · exact points_throw (he _ (Expr.location_mem_places _))

theorem placed_assigned
    {operator : Operator}
    {target right : Expr}
    {place : Location}
    (hTarget : target.Placed P)
    (hRight : right.Placed P)
    (hPlace : P place) :
    (assigned operator target right place).Placed P := by
  unfold assigned
  split
  · exact List.forall_mem_cons.2
      ⟨hPlace, List.forall_mem_append.2 ⟨hTarget, hRight⟩⟩
  · exact hRight

theorem points_called
    {t : Token}
    {arguments : List Expr}
    (ht : P t.location)
    (hArguments : Expr.PlacedAll P arguments) :
    Points P (called t arguments) (Expr.Placed P) :=
  points_ifNext (points_failHere fun _ => rfl)
    (points_pure (List.forall_mem_cons.2 ⟨ht, hArguments⟩))

/-
  What the readers of expressions do among tokens, at one
  bound on the nesting of their calls.
-/
structure Placed
    (P : Location → Prop)
    (bound : Nat) : Prop where
  expression :
    ∀ least, Points P (Parser.expression bound least) (Expr.Placed P)
  connectives :
    ∀ least output pending,
      Expr.PlacedAll P output →
      Pending.Placed P pending →
      Points P (Parser.connectives bound least output pending)
        (Expr.Placed P)
  operand : Points P (Parser.operand bound) (Expr.Placed P)
  primary :
    ∀ before t, P t.location →
      Points P (Parser.primary bound before t) (Expr.Placed P)
  argumentList :
    ∀ name,
      Points P (Parser.argumentList bound name) (Expr.PlacedAll P)

theorem placed_zero : Placed P 0 where
  expression _ := points_failHere fun _ => rfl
  connectives _ _ _ _ _ := points_failHere fun _ => rfl
  operand := points_failHere fun _ => rfl
  primary _ _ _ := points_failHere fun _ => rfl
  argumentList _ := points_failHere fun _ => rfl

namespace Placed

theorem expression_succ
    (h : Placed P bound)
    (least : Nat) :
    Points P (Parser.expression (bound + 1) least) (Expr.Placed P) := by
  rw [Parser.expression]
  apply h.operand.bind
  intro first hFirst
  exact h.connectives least [first] []
    (Expr.placedAll_cons.2 ⟨hFirst, nofun⟩) nofun

/- The right side of an assignment, and its node. -/
theorem points_assignment
    {c : Connective}
    {t : Token}
    {target : Expr}
    {name : String}
    {output : List Expr}
    {pending : Pending}
    (h : Placed P bound)
    (ht : P t.location)
    (hOutput : Expr.PlacedAll P (target :: output))
    (hPending : Pending.Placed P pending) :
    Points P
      (do
        requireOperand t
        let right ← Parser.expression bound c.precedence
        conclude
          (.assignment name
            (assigned c.operator target right t.location) t.location
            :: output)
          pending)
      (Expr.Placed P) := by
  rcases Expr.placedAll_cons.1 hOutput with ⟨hTarget, hOthers⟩
  apply (points_requireOperand ht).bind
  intro _ _
  apply (h.expression c.precedence).bind
  intro right hRight
  have hNode :
      (Expr.assignment name
        (assigned c.operator target right t.location)
        t.location).Placed P :=
    List.forall_mem_cons.2 ⟨ht, placed_assigned hTarget hRight ht⟩
  exact points_conclude (Expr.placedAll_cons.2 ⟨hNode, hOthers⟩) hPending

theorem connectives_succ
    {output : List Expr}
    {pending : Pending}
    (h : Placed P bound)
    (least : Nat)
    (hOutput : Expr.PlacedAll P output)
    (hPending : Pending.Placed P pending) :
    Points P (Parser.connectives (bound + 1) least output pending)
      (Expr.Placed P) := by
  have hEnd := points_conclude hOutput hPending
  rw [Parser.connectives]
  apply points_peek.bind
  intro next hNext
  split
  · exact hEnd
  rename_i t
  have ht := hNext t rfl
  split
  · exact hEnd
  rename_i c hToken
  split
  · exact hEnd
  apply points_advance.bind
  intro _ _
  have hReduced := points_reduceFor c ht hOutput hPending
  apply (points_lift hReduced.1 hReduced.2).bind
  rintro ⟨output, pending⟩ ⟨hOutput, hPending⟩
  dsimp only at hOutput hPending ⊢
  split
  · split
    · exact points_throw ht
    split
    · exact points_throw ht
    · exact h.points_assignment ht hOutput hPending
  · apply (points_requireOperand ht).bind
    intro _ _
    apply h.operand.bind
    intro operand hOperand
    exact h.connectives least _ _
      (Expr.placedAll_cons.2 ⟨hOperand, hOutput⟩)
      (List.forall_mem_cons.2 ⟨ht, hPending⟩)

theorem operand_succ (h : Placed P bound) :
    Points P (Parser.operand (bound + 1)) (Expr.Placed P) := by
  rw [Parser.operand]
  apply points_get.bind
  intro c _
  apply points_peek.bind
  intro next hNext
  split
  · exact points_failHere fun _ => rfl
  · rename_i t
    apply points_advance.bind
    intro _ _
    apply (h.primary c.before t (hNext t rfl)).bind
    intro e he
    exact points_stepped he

/- A name, or a call of it. -/
theorem points_named
    {t : Token}
    (h : Placed P bound)
    (ht : P t.location) :
    Points P
      (do
        if ← peekIs (·.isOperator "(") then
          advance
          if ← peekIs (·.isOperator ")") then
            advance
            called t []
          else
            let arguments ← Parser.argumentList bound t
            called t arguments
        else return .variable t.text t.location)
      (Expr.Placed P) := by
  apply points_ifNext
  · apply points_advance.bind
    intro _ _
    apply points_ifNext
    · apply points_advance.bind
      intro _ _
      exact points_called ht nofun
    · apply (h.argumentList t).bind
      intro arguments hArguments
      exact points_called ht hArguments
  · exact points_pure (List.forall_mem_singleton.2 ht)

/- A sign or a step in front of its argument. -/
theorem points_sign
    {t : Token}
    {operator : Operator}
    (h : Placed P bound)
    (ht : P t.location) :
    Points P
      (do
        requireOperand t
        let argument ←
          Parser.expression bound Connective.signPrecedence
        if operator.isStep && argument.name?.isNone then
          throw (.invalidPre operator argument.kind t.location)
        else return .unary operator argument t.location)
      (Expr.Placed P) := by
  apply (points_requireOperand ht).bind
  intro _ _
  apply (h.expression _).bind
  intro argument hArgument
  split
  · exact points_throw ht
  · exact points_pure (List.forall_mem_cons.2 ⟨ht, hArgument⟩)

theorem primary_succ
    {t : Token}
    (h : Placed P bound)
    (before : Option Token)
    (ht : P t.location) :
    Points P (Parser.primary (bound + 1) before t)
      (Expr.Placed P) := by
  have hLeaf : ∀ l ∈ [t.location], P l := List.forall_mem_singleton.2 ht
  rw [Parser.primary]
  split
  · exact points_pure hLeaf
  · exact points_pure hLeaf
  · exact h.points_named ht
  · split
    · apply (h.expression 0).bind
      intro inner hInner
      apply (points_expectOperator ")").bind
      intro _ _
      exact points_pure hInner
    · split
      · exact points_throw ht
      · exact h.points_sign ht
  · exact points_throw ht

theorem argumentList_succ
    (h : Placed P bound)
    (name : Token) :
    Points P (Parser.argumentList (bound + 1) name)
      (Expr.PlacedAll P) := by
  rw [Parser.argumentList]
  apply (h.expression 0).bind
  intro first hFirst
  apply points_ifNext
  · apply points_advance.bind
    intro _ _
    apply (h.argumentList name).bind
    intro others hOthers
    exact points_pure (Expr.placedAll_cons.2 ⟨hFirst, hOthers⟩)
  · apply points_ifNext
    · apply points_advance.bind
      intro _ _
      exact points_pure (Expr.placedAll_cons.2 ⟨hFirst, nofun⟩)
    · exact points_failHere fun _ => rfl

end Placed

/- Expressions point at tokens, at every bound. -/
theorem placed (bound : Nat) : Placed P bound := by
  induction bound with
  | zero => exact placed_zero
  | succ bound ih =>
      exact
        { expression := ih.expression_succ
          connectives := fun least _ _ => ih.connectives_succ least
          operand := ih.operand_succ
          primary := fun before _ => ih.primary_succ before
          argumentList := ih.argumentList_succ }

theorem points_expression :
    Points P (expression bound 0) (Expr.Placed P) :=
  (placed bound).expression 0

------------------------------------------------------------
-- Parts of Statements
------------------------------------------------------------

theorem points_expressionUnless (stop : Token → Bool) :
    Points P (expressionUnless bound stop)
      fun e => ∀ l ∈ Expr.placesOption e, P l := by
  apply points_ifNext
  · exact points_pure nofun
  · apply points_expression.bind
    intro e he
    exact points_pure he

theorem points_parenthesized :
    Points P (parenthesized bound) (Expr.Placed P) := by
  apply (points_expectOperator "(").bind
  intro _ _
  apply points_expression.bind
  intro e he
  apply (points_expectOperator ")").bind
  intro _ _
  exact points_pure he

/- A parameter that is wrong is pointed at. -/
theorem points_parameterList
    (function : String)
    (known : List String) :
    Points P (parameterList function bound known) fun _ => True := by
  induction bound generalizing known with
  | zero => exact points_failHere fun _ => rfl
  | succ bound ih =>
      rw [parameterList]
      apply points_peek.bind
      intro next hNext
      split
      · exact points_failHere fun _ => rfl
      rename_i t
      have ht := hNext t rfl
      split
      · split
        · exact points_throw ht
        · exact points_throw ht
      split
      · exact points_throw ht
      · apply points_advance.bind
        intro _ _
        apply points_ifNext
        · exact points_advance.bind fun _ _ => ih _
        · exact points_pure trivial

theorem points_parameters (function : String) :
    Points P (parameters bound function) fun _ => True := by
  apply (points_expectOperator "(").bind
  intro _ _
  apply points_ifNext
  · exact (points_expectOperator ")").bind fun _ _ => points_pure trivial
  · apply (points_parameterList function []).bind
    intro names _
    exact (points_expectOperator ")").bind fun _ _ => points_pure trivial

theorem points_declaration :
    Points P (declaration bound) (Stmt.Placed P) := by
  apply points_here.bind
  intro place hPlace
  apply points_advance.bind
  intro _ _
  apply (points_expectIdentifier "new").bind
  intro name _
  have hDeclare :
      Points P (pure (.declare name place)) (Stmt.Placed P) :=
    points_pure (List.forall_mem_singleton.2 hPlace)
  apply points_peek.bind
  intro next hNext
  split
  · rename_i t
    split
    · apply points_advance.bind
      intro _ _
      apply (points_requireOperand (hNext t rfl)).bind
      intro _ _
      apply points_expression.bind
      intro value hValue
      exact points_pure (List.forall_mem_cons.2 ⟨hPlace, hValue⟩)
    · exact hDeclare
  · exact hDeclare

theorem points_returnStatement :
    Points P (returnStatement bound) (Stmt.Placed P) := by
  apply points_here.bind
  intro place hPlace
  apply points_advance.bind
  intro _ _
  apply points_ifNext
  · apply points_expectSemicolon.bind
    intro _ _
    exact points_pure (List.forall_mem_cons.2 ⟨hPlace, nofun⟩)
  · apply points_expression.bind
    intro argument hArgument
    apply points_expectSemicolon.bind
    intro _ _
    exact points_pure (List.forall_mem_cons.2 ⟨hPlace, hArgument⟩)

------------------------------------------------------------
-- Statements
------------------------------------------------------------

/- A statement that may be empty. -/
abbrev PlacedItem
    (P : Location → Prop)
    (s : Option Stmt) : Prop :=
  Stmt.PlacedAll P s.toList

theorem placedItem_some
    {s : Stmt}
    (h : s.Placed P) :
    PlacedItem P (some s) :=
  List.forall_mem_append.2 ⟨h, nofun⟩

theorem PlacedItem.of_some
    {s : Stmt}
    (h : PlacedItem P (some s)) :
    s.Placed P :=
  (List.forall_mem_append.1 h).1

theorem PlacedItem.prepend
    {first : Option Stmt}
    {others : List Stmt}
    (hFirst : PlacedItem P first)
    (hOthers : Stmt.PlacedAll P others) :
    Stmt.PlacedAll P (first.toList ++ others) := by
  unfold Stmt.PlacedAll
  rw [Stmt.placesAll_append]
  exact List.forall_mem_append.2 ⟨hFirst, hOthers⟩

theorem points_some
    {x : Parser Stmt}
    (h : Points P x (Stmt.Placed P)) :
    Points P (do return some (← x)) (PlacedItem P) :=
  h.bind fun _ hPlaced => points_pure (placedItem_some hPlaced)

/-
  What the readers of statements do among tokens, at one
  bound on the nesting of their calls.
-/
structure StatementsPlaced
    (P : Location → Prop)
    (bound : Nat) : Prop where
  statement : Points P (Parser.statement bound) (PlacedItem P)
  ifStatement : Points P (Parser.ifStatement bound) (Stmt.Placed P)
  forStatement : Points P (Parser.forStatement bound) (Stmt.Placed P)
  block : Points P (Parser.block bound) (Stmt.PlacedAll P)
  items : Points P (Parser.items bound) (Stmt.PlacedAll P)

theorem statementsPlaced_zero : StatementsPlaced P 0 where
  statement := points_failHere fun _ => rfl
  ifStatement := points_failHere fun _ => rfl
  forStatement := points_failHere fun _ => rfl
  block := points_failHere fun _ => rfl
  items := points_failHere fun _ => rfl

namespace StatementsPlaced

theorem statement_succ (h : StatementsPlaced P bound) :
    Points P (Parser.statement (bound + 1)) (PlacedItem P) := by
  rw [Parser.statement]
  apply points_peek.bind
  intro next hNext
  split
  · exact points_pure nofun
  rename_i t
  have ht := hNext t rfl
  apply points_ite
  · exact points_advance.bind fun _ _ => points_pure nofun
  apply points_ite
  · exact points_some points_declaration
  apply points_ite
  · exact points_some h.ifStatement
  apply points_ite
  · apply points_advance.bind
    intro _ _
    apply points_parenthesized.bind
    intro condition hCondition
    apply h.block.bind
    intro body hBody
    apply points_pure
    apply placedItem_some
    exact List.forall_mem_cons.2
      ⟨ht, List.forall_mem_append.2 ⟨hCondition, hBody⟩⟩
  apply points_ite
  · exact points_some h.forStatement
  apply points_ite
  · apply points_advance.bind
    intro _ _
    apply (points_expectIdentifier "function").bind
    intro name _
    apply (points_parameters name).bind
    intro names _
    apply h.block.bind
    intro body hBody
    exact points_pure
      (placedItem_some (List.forall_mem_cons.2 ⟨ht, hBody⟩))
  apply points_ite
  · exact points_some points_returnStatement
  have hLeaf : ∀ l ∈ [t.location], P l := List.forall_mem_singleton.2 ht
  apply points_ite
  · exact points_advance.bind fun _ _ =>
      points_pure (placedItem_some hLeaf)
  apply points_ite
  · exact points_advance.bind fun _ _ =>
      points_pure (placedItem_some hLeaf)
  · exact points_expression.bind fun _ he =>
      points_pure (placedItem_some he)

theorem ifStatement_succ (h : StatementsPlaced P bound) :
    Points P (Parser.ifStatement (bound + 1)) (Stmt.Placed P) := by
  rw [Parser.ifStatement]
  apply points_here.bind
  intro place hPlace
  apply points_advance.bind
  intro _ _
  apply points_parenthesized.bind
  intro condition hCondition
  apply h.block.bind
  intro body hBody
  have hBoth := List.forall_mem_append.2 ⟨hCondition, hBody⟩
  have hElse
      {otherwise : List Stmt}
      (hOther : Stmt.PlacedAll P otherwise) :
      (Stmt.ifElse condition body otherwise place).Placed P :=
    List.forall_mem_cons.2
      ⟨hPlace, List.forall_mem_append.2 ⟨hBoth, hOther⟩⟩
  apply points_ifNext
  · apply points_advance.bind
    intro _ _
    apply points_ifNext
    · apply h.ifStatement.bind
      intro inner hInner
      exact points_pure (hElse (placedItem_some hInner))
    · apply h.block.bind
      intro otherwise hOther
      exact points_pure (hElse hOther)
  · exact points_pure (List.forall_mem_cons.2 ⟨hPlace, hBoth⟩)

theorem forStatement_succ (h : StatementsPlaced P bound) :
    Points P (Parser.forStatement (bound + 1)) (Stmt.Placed P) := by
  rw [Parser.forStatement]
  apply points_here.bind
  intro place hPlace
  apply points_advance.bind
  intro _ _
  apply (points_expectOperator "(").bind
  intro _ _
  apply h.statement.bind
  intro first hFirst
  split
  · exact points_failHere fun _ => rfl
  apply points_expectSemicolon.bind
  intro _ _
  apply (points_expressionUnless _).bind
  intro condition hCondition
  apply points_expectSemicolon.bind
  intro _ _
  apply (points_expressionUnless _).bind
  intro update hUpdate
  apply (points_expectOperator ")").bind
  intro _ _
  apply h.block.bind
  intro body hBody
  apply points_pure
  refine List.forall_mem_cons.2 ⟨hPlace, ?_⟩
  simp only [List.forall_mem_append]
  exact ⟨⟨⟨hFirst.of_some, hCondition⟩, hUpdate⟩, hBody⟩

theorem block_succ (h : StatementsPlaced P bound) :
    Points P (Parser.block (bound + 1)) (Stmt.PlacedAll P) := by
  rw [Parser.block]
  exact (points_expectOperator _).bind fun _ _ => h.items

theorem items_succ (h : StatementsPlaced P bound) :
    Points P (Parser.items (bound + 1)) (Stmt.PlacedAll P) := by
  rw [Parser.items]
  apply points_peek.bind
  intro next _
  split
  · exact points_failHere fun _ => rfl
  split
  · exact points_advance.bind fun _ _ => points_pure nofun
  · apply h.statement.bind
    intro first hFirst
    apply h.items.bind
    intro others hOthers
    exact points_pure (hFirst.prepend hOthers)

end StatementsPlaced

/- Statements point at tokens, at every bound. -/
theorem statementsPlaced (bound : Nat) : StatementsPlaced P bound := by
  induction bound with
  | zero => exact statementsPlaced_zero
  | succ bound ih =>
      exact
        { statement := ih.statement_succ
          ifStatement := ih.ifStatement_succ
          forStatement := ih.forStatement_succ
          block := ih.block_succ
          items := ih.items_succ }

theorem points_statements :
    Points P (statements bound) (Stmt.PlacedAll P) := by
  induction bound with
  | zero => exact points_failHere fun _ => rfl
  | succ bound ih =>
      rw [statements]
      apply points_peek.bind
      intro next _
      split
      · exact points_pure nofun
      · apply (statementsPlaced bound).statement.bind
        intro first hFirst
        apply ih.bind
        intro others hOthers
        exact points_pure (hFirst.prepend hOthers)

end Parser
end StackScript
