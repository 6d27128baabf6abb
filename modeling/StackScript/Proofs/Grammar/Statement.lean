import Mathlib
import StackScript.Parse.Statement
import StackScript.Proofs.Grammar.Expression
import StackScript.Token.Scan

/-
  Statements that are read are derived from their tokens.

  The readers of statements call each other as those of
  expressions do, so what they take is shown for all of them
  together, by induction on the bound of their calls. A
  program is read to the end, so all its tokens are taken.

  Key definitions include:
    * `Stmt.DerivesItem`
    * `Parser.StatementsSound`

  Key theorems include:
    * `Parser.statementsSound`
    * `Program.derives_of_parse`
-/

namespace StackScript

------------------------------------------------------------
-- Items
------------------------------------------------------------

/- Tokens that are a statement, a semicolon or nothing. -/
def Stmt.DerivesItem
    (ts : List Token) :
    Option Stmt → Prop
| none => ts = [] ∨ ∃ t, ts = [t] ∧ t.isSeparator ";" = true
| some s => Stmt.Derives ts s

/- An item in front of others. -/
theorem Stmt.DerivesItems.prepend
    {ts us : List Token}
    {first : Option Stmt}
    {body : List Stmt}
    (hFirst : Stmt.DerivesItem ts first)
    (hOthers : Stmt.DerivesItems us body) :
    Stmt.DerivesItems (ts ++ us) (first.toList ++ body) := by
  cases first with
  | none =>
      rcases hFirst with rfl | ⟨t, rfl, hEmpty⟩
      · exact hOthers
      · exact .empty hEmpty hOthers
  | some s => exact .cons hFirst hOthers

namespace Parser

variable {bound : Nat}
variable {cursor : Cursor}

------------------------------------------------------------
-- Parts of Statements
------------------------------------------------------------

/- An expression, unless it is left out. -/
theorem takes_expressionUnless
    {stop : Token → Bool} :
    Takes cursor (expressionUnless bound stop)
      Expr.DerivesOption := by
  refine takes_ifNext ?_ ?_
  · intro t rest _ _
    exact takes_pure .none
  · apply takes_expression.bind
    intro ts e middle hDerives
    apply takes_pure
    rw [List.append_nil]
    exact .some hDerives

/- An expression in parentheses. -/
theorem takes_parenthesized :
    Takes cursor (parenthesized bound) fun ts e =>
      ∃ o us p, ts = o :: us ++ [p] ∧ o.isOperator "(" = true ∧
        Expr.Derives .assignment us e ∧
        p.isOperator ")" = true := by
  apply takes_expectOperator
  intro o hOpen middle
  apply takes_expression.bind
  intro us e next hDerives
  apply takes_expectOperator
  intro p hClose last
  apply takes_pure
  exact ⟨o, us, p, rfl, hOpen, hDerives, hClose⟩

/- Names that differ from each other and from those before. -/
theorem takes_parameterList
    {function : String}
    {known : List String}
    (hKnown : known.Nodup) :
    Takes cursor (parameterList function bound known)
      fun ts names =>
        ∃ others, names = known ++ others ∧
          DerivesNames ts others ∧ names.Nodup := by
  induction bound generalizing cursor known with
  | zero => exact takes_failHere _
  | succ bound ih =>
      rw [parameterList]
      rcases cursor with ⟨before, rest⟩
      apply takes_peek
      cases rest with
      | nil => exact takes_failHere _
      | cons t rest =>
          dsimp only [List.head?_cons]
          split
          · split
            · exact takes_throw _
            · exact takes_throw _
          · rename_i hKind
            have hName : t.kind = .identifier := by simpa using hKind
            split
            · exact takes_throw _
            · rename_i hNew
              have hBoth : (known ++ [t.text]).Nodup := by
                rw [List.nodup_append]
                refine ⟨hKnown, by simp, ?_⟩
                rintro a hOld b hLast rfl
                cases List.mem_singleton.1 hLast
                exact hNew hOld
              apply takes_advance
              apply takes_ifPeek
              · intro u hComma middle
                refine (ih hBoth).mono ?_
                rintro ts names ⟨others, rfl, hOthers, hNodup⟩
                exact ⟨t.text :: others, by simp,
                  .more hName hComma hOthers, hNodup⟩
              · exact takes_pure ⟨[t.text], rfl, .one hName, hBoth⟩

/- The parameters of a function in parentheses. -/
theorem takes_parameters
    {function : String} :
    Takes cursor (parameters bound function) fun ts names =>
      ∃ o us p, ts = o :: us ++ [p] ∧ o.isOperator "(" = true ∧
        DerivesParameters us names ∧ p.isOperator ")" = true := by
  apply takes_expectOperator
  intro o hOpen middle
  refine takes_ifNext ?_ ?_
  · intro t rest _ _
    apply takes_expectOperator
    intro p hClose last
    apply takes_pure
    exact ⟨o, [], p, rfl, hOpen, ⟨.inl ⟨rfl, rfl⟩, .nil⟩, hClose⟩
  · apply (takes_parameterList .nil).bind
    rintro us _ next ⟨names, rfl, hNames, hNodup⟩
    apply takes_expectOperator
    intro p hClose last
    apply takes_pure
    exact ⟨o, us, p, rfl, hOpen, ⟨.inr hNames, hNodup⟩, hClose⟩

------------------------------------------------------------
-- Simple Statements
------------------------------------------------------------

section Keywords

variable {before : Option Token}
variable {k : Token}
variable {rest : List Token}

theorem takes_declaration
    (hNew : k.isKeyword "new" = true) :
    Takes ⟨before, k :: rest⟩ (declaration bound)
      Stmt.Derives := by
  apply takes_here
  apply takes_advance
  apply takes_expectIdentifier
  intro t hKind middle
  have hDeclare : Stmt.Derives [k, t] (.declare t.text k.location) :=
    .declare hNew hKind
  rcases middle with ⟨before, rest⟩
  apply takes_peek
  cases rest with
  | nil => exact takes_pure hDeclare
  | cons u rest =>
      dsimp only [List.head?_cons]
      split
      · rename_i hEquals
        apply takes_advance
        apply takes_requireOperand
        apply takes_expression.bind
        intro ts value last hValue
        apply takes_pure
        rw [List.append_nil]
        exact .define hNew hKind hEquals hValue
      · exact takes_pure hDeclare

theorem takes_returnStatement
    (hReturn : k.isKeyword "return" = true) :
    Takes ⟨before, k :: rest⟩ (returnStatement bound)
      Stmt.Derives := by
  apply takes_here
  apply takes_advance
  refine takes_ifNext ?_ ?_
  · intro t rest _ _
    apply takes_expectSemicolon
    intro s hEnd last
    apply takes_pure
    exact .ret hReturn .none hEnd
  · apply takes_expression.bind
    intro ts argument middle hArgument
    apply takes_expectSemicolon
    intro s hEnd last
    apply takes_pure
    exact .ret hReturn (.some hArgument) hEnd

end Keywords

------------------------------------------------------------
-- Statements
------------------------------------------------------------

/-
  What the readers of statements take is derived, at one
  bound on the nesting of their calls.
-/
structure StatementsSound (bound : Nat) : Prop where
  statement :
    ∀ cursor,
      Takes cursor (Parser.statement bound) Stmt.DerivesItem
  ifStatement :
    ∀ before k rest, k.isKeyword "if" = true →
      Takes ⟨before, k :: rest⟩ (Parser.ifStatement bound)
        fun ts s => s.isIf = true ∧ Stmt.Derives ts s
  forStatement :
    ∀ before k rest, k.isKeyword "for" = true →
      Takes ⟨before, k :: rest⟩ (Parser.forStatement bound)
        Stmt.Derives
  block :
    ∀ cursor, Takes cursor (Parser.block bound) Stmt.DerivesBlock
  items :
    ∀ cursor,
      Takes cursor (Parser.items bound) fun ts body =>
        ∃ us p, ts = us ++ [p] ∧ p.isOperator "\x7d" = true ∧
          Stmt.DerivesItems us body

theorem statementsSound_zero : StatementsSound 0 where
  statement _ := takes_failHere _
  ifStatement _ _ _ _ := takes_failHere _
  forStatement _ _ _ _ := takes_failHere _
  block _ := takes_failHere _
  items _ := takes_failHere _

namespace StatementsSound

variable {before : Option Token}
variable {k : Token}
variable {rest : List Token}

/- A statement read as such is an item. -/
theorem takes_some
    {x : Parser Stmt}
    (h : Takes cursor x Stmt.Derives) :
    Takes cursor (do return some (← x)) Stmt.DerivesItem := by
  apply h.bind
  intro ts s middle hDerives
  apply takes_pure
  rw [List.append_nil]
  exact hDerives

theorem statement_succ
    (h : StatementsSound bound) :
    Takes cursor (Parser.statement (bound + 1))
      Stmt.DerivesItem := by
  rw [Parser.statement]
  rcases cursor with ⟨before, rest⟩
  apply takes_peek
  cases rest with
  | nil => exact takes_pure (.inl rfl)
  | cons t rest =>
      dsimp only [List.head?_cons]
      split
      · rename_i hEmpty
        exact takes_advance (takes_pure (.inr ⟨t, rfl, hEmpty⟩))
      split
      · rename_i hNew
        exact takes_some (takes_declaration hNew)
      split
      · rename_i hIf
        apply takes_some
        exact (h.ifStatement before t rest hIf).mono
          fun _ _ hBoth => hBoth.2
      split
      · rename_i hWhile
        apply takes_advance
        apply takes_parenthesized.bind
        rintro _ condition middle
          ⟨o, us, p, rfl, hOpen, hCondition, hClose⟩
        apply (h.block middle).bind
        intro vs body last hBody
        apply takes_pure
        have hLoop :=
          Stmt.Derives.whileLoop hWhile hOpen hCondition hClose hBody
        simpa [Stmt.DerivesItem] using hLoop
      split
      · rename_i hFor
        exact takes_some (h.forStatement before t rest hFor)
      split
      · rename_i hFunction
        apply takes_advance
        apply takes_expectIdentifier
        intro u hKind middle
        apply takes_parameters.bind
        rintro _ names next
          ⟨o, us, p, rfl, hOpen, hParameters, hClose⟩
        apply (h.block next).bind
        intro vs body last hBody
        apply takes_pure
        have hDeclared :=
          Stmt.Derives.function hFunction hKind hOpen hParameters
            hClose hBody
        simpa [Stmt.DerivesItem] using hDeclared
      split
      · rename_i hReturn
        exact takes_some (takes_returnStatement hReturn)
      split
      · rename_i hBreak
        exact takes_advance (takes_pure (.breakLoop hBreak))
      split
      · rename_i hContinue
        exact takes_advance (takes_pure (.continueLoop hContinue))
      · apply takes_expression.bind
        intro ts e middle hDerives
        apply takes_pure
        rw [List.append_nil]
        exact .expr hDerives

theorem ifStatement_succ
    (h : StatementsSound bound)
    (hIf : k.isKeyword "if" = true) :
    Takes ⟨before, k :: rest⟩ (Parser.ifStatement (bound + 1))
      fun ts s => s.isIf = true ∧ Stmt.Derives ts s := by
  rw [Parser.ifStatement]
  apply takes_here
  apply takes_advance
  apply takes_parenthesized.bind
  rintro _ condition middle
    ⟨o, us, p, rfl, hOpen, hCondition, hClose⟩
  apply (h.block middle).bind
  intro vs body next hBody
  -- Both forms of `else` give the tokens behind it a list.
  have hElse :
      ∀ l ws otherwise, l.isKeyword "else" = true →
        Stmt.DerivesOther ws otherwise →
        Stmt.Derives (k :: (o :: us ++ [p] ++ (vs ++ l :: ws)))
          (.ifElse condition body otherwise k.location) := by
    intro l ws otherwise hKeyword hOther
    have hChosen :=
      Stmt.Derives.ifElse hIf hOpen hCondition hClose hBody hKeyword
        hOther
    simpa using hChosen
  apply takes_ifPeek
  · intro l hKeyword after
    refine takes_ifNext ?_ ?_
    · rcases after with ⟨before, rest⟩
      rintro t rest rfl hAgain
      apply (h.ifStatement before t rest hAgain).bind
      rintro ws inner last ⟨hInner, hDerives⟩
      apply takes_pure
      rw [List.append_nil]
      exact ⟨rfl, hElse l ws _ hKeyword (.chained hInner hDerives)⟩
    · apply (h.block after).bind
      intro ws otherwise last hOther
      apply takes_pure
      rw [List.append_nil]
      exact ⟨rfl, hElse l ws _ hKeyword (.block hOther)⟩
  · apply takes_pure
    have hAlone :=
      Stmt.Derives.ifThen hIf hOpen hCondition hClose hBody
    exact ⟨rfl, by simpa using hAlone⟩

theorem forStatement_succ
    (h : StatementsSound bound)
    (hFor : k.isKeyword "for" = true) :
    Takes ⟨before, k :: rest⟩ (Parser.forStatement (bound + 1))
      Stmt.Derives := by
  rw [Parser.forStatement]
  apply takes_here
  apply takes_advance
  apply takes_expectOperator
  intro o hOpen first
  apply (h.statement first).bind
  intro is initial second hInitial
  cases initial with
  | none => exact takes_failHere _
  | some initial =>
      apply takes_expectSemicolon
      intro s hFirst third
      apply takes_expressionUnless.bind
      intro cs condition fourth hCondition
      apply takes_expectSemicolon
      intro s' hSecond fifth
      apply takes_expressionUnless.bind
      intro us update sixth hUpdate
      apply takes_expectOperator
      intro p hClose seventh
      apply (h.block seventh).bind
      intro bs body last hBody
      apply takes_pure
      have hLoop :=
        Stmt.Derives.forLoop hFor hOpen hInitial hFirst hCondition
          hSecond hUpdate hClose hBody
      simpa using hLoop

theorem block_succ
    (h : StatementsSound bound) :
    Takes cursor (Parser.block (bound + 1))
      Stmt.DerivesBlock := by
  rw [Parser.block]
  apply takes_expectOperator
  intro o hOpen middle
  refine (h.items middle).mono ?_
  rintro _ body ⟨us, p, rfl, hClose, hItems⟩
  exact .braces hOpen hItems hClose

theorem items_succ
    (h : StatementsSound bound) :
    Takes cursor (Parser.items (bound + 1)) fun ts body =>
      ∃ us p, ts = us ++ [p] ∧ p.isOperator "\x7d" = true ∧
        Stmt.DerivesItems us body := by
  rw [Parser.items]
  rcases cursor with ⟨before, rest⟩
  apply takes_peek
  cases rest with
  | nil => exact takes_failHere _
  | cons t rest =>
      dsimp only [List.head?_cons]
      split
      · rename_i hClose
        exact takes_advance
          (takes_pure ⟨[], t, rfl, hClose, .nil⟩)
      · apply (h.statement _).bind
        intro ts first middle hFirst
        apply (h.items middle).bind
        rintro _ body last ⟨us, p, rfl, hClose, hItems⟩
        apply takes_pure
        exact ⟨ts ++ us, p, by simp, hClose, hItems.prepend hFirst⟩

end StatementsSound

/- What statements take is derived, at every bound. -/
theorem statementsSound (bound : Nat) : StatementsSound bound := by
  induction bound with
  | zero => exact statementsSound_zero
  | succ bound ih =>
      exact
        { statement := fun _ => ih.statement_succ
          ifStatement := fun _ _ _ hIf => ih.ifStatement_succ hIf
          forStatement := fun _ _ _ hFor => ih.forStatement_succ hFor
          block := fun _ => ih.block_succ
          items := fun _ => ih.items_succ }

------------------------------------------------------------
-- Programs
------------------------------------------------------------

theorem takes_statements :
    Takes cursor (statements bound) Stmt.DerivesItems := by
  induction bound generalizing cursor with
  | zero => exact takes_failHere _
  | succ bound ih =>
      rw [statements]
      rcases cursor with ⟨before, rest⟩
      apply takes_peek
      cases rest with
      | nil => exact takes_pure .nil
      | cons t rest =>
          apply ((statementsSound bound).statement _).bind
          intro ts first middle hFirst
          apply ih.bind
          intro us body last hItems
          apply takes_pure
          rw [List.append_nil]
          exact hItems.prepend hFirst

/- Statements are read to the end of the tokens. -/
theorem rest_eq_nil_of_statements
    {body : List Stmt}
    {after : Cursor}
    (h : (statements bound).run cursor = .ok (body, after)) :
    after.rest = [] := by
  induction bound generalizing cursor body with
  | zero => cases h
  | succ bound ih =>
      rw [statements] at h
      rcases run_bind_eq_ok h with ⟨next, middle, hPeek, hRest⟩
      cases hPeek
      split at hRest
      · rename_i hNone
        cases hRest
        exact List.head?_eq_none_iff.1 hNone
      · rcases run_bind_eq_ok hRest with ⟨first, second, _, hThen⟩
        rcases run_bind_eq_ok hThen with ⟨others, third, hOthers, hLast⟩
        cases hLast
        exact ih hOthers

/- Statements that are read are derived from all the tokens. -/
theorem derives_of_statements
    {body : List Stmt}
    {after : Cursor}
    (h : (statements bound).run cursor = .ok (body, after)) :
    Stmt.DerivesItems cursor.rest body := by
  rcases takes_statements body after h with ⟨ts, hTokens, hDerives⟩
  rw [rest_eq_nil_of_statements h, List.append_nil] at hTokens
  rwa [hTokens]

end Parser

namespace Program

/- A program is read as statements. -/
theorem run_of_parse
    {tokens : List Token}
    {p : Program}
    (h : Program.parse tokens = .ok p) :
    ∃ after,
      (Parser.statements (parseBound tokens)).run (.start tokens) =
        .ok (p, after) := by
  unfold Program.parse at h
  cases hRun :
      (Parser.statements (parseBound tokens)).run
        (.start tokens) with
  | error error =>
      rw [hRun] at h
      cases h
  | ok result =>
      rw [hRun] at h
      cases h
      exact ⟨result.2, rfl⟩

/-
  The tokens of a program that is read derive it: each of
  them has its place in the tree, in their order, and none
  is left over.
-/
theorem derives_of_parse
    {tokens : List Token}
    {p : Program}
    (h : Program.parse tokens = .ok p) :
    Program.Derives tokens p := by
  rcases run_of_parse h with ⟨after, hRun⟩
  exact Parser.derives_of_statements hRun

/- A loop that adds up what a variable passes through. -/
def summing : Program :=
  [.whileLoop
    (.binary .lt (.variable "i" ⟨1, 8⟩) (.literal "9" ⟨1, 12⟩)
      ⟨1, 10⟩)
    [.expr
      (.assignment "s"
        (.binary .add (.variable "s" ⟨1, 18⟩)
          (.binary .mul
            (.unary .minus
              (.post .increment (.variable "i" ⟨1, 25⟩) ⟨1, 26⟩)
              ⟨1, 24⟩)
            (.literal "2" ⟨1, 31⟩) ⟨1, 29⟩)
          ⟨1, 21⟩)
        ⟨1, 21⟩)]
    ⟨1, 1⟩]

/- A compound assignment to a variable in parentheses. -/
theorem derives_of_parse_summing :
    Program.parse
        (Token.scan "while (i < 9) \x7b (s) += -i++ * 2; \x7d") =
      .ok summing ∧
    Program.Derives
      (Token.scan "while (i < 9) \x7b (s) += -i++ * 2; \x7d")
      summing := by
  have hParse :
      Program.parse
          (Token.scan "while (i < 9) \x7b (s) += -i++ * 2; \x7d") =
        .ok summing := by
    cbv
  exact ⟨hParse, derives_of_parse hParse⟩

end Program
end StackScript
