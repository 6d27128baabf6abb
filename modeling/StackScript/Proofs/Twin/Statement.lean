import StackScript.Proofs.Printed.Statement
import StackScript.Proofs.Twin.Expression

/-
  Statements and programs in two readings.

  Every reader of statements gives the same in both readings
  up to places. A statement is read where some word is left
  in the first reading, or where both end.

  Key definitions include:
    * `Stmt.SameAll`
    * `Parser.StatementTracking`

  Key theorems include:
    * `Parser.statementTracking`
    * `Program.agree_parse`
-/

namespace StackScript

open Token (spelling)

------------------------------------------------------------
-- Trees
------------------------------------------------------------

/- Statements that are the same one by one. -/
def Stmt.SameAll (ss ss' : List Stmt) : Prop :=
  Stmt.unplacedAll ss' = Stmt.unplacedAll ss

/- Optional expressions that are both missing or the same. -/
def Expr.SameOption (e e' : Option Expr) : Prop :=
  e'.map Expr.unplaced = e.map Expr.unplaced

/- Optional statements that are both missing or the same. -/
def Stmt.SameOption (s s' : Option Stmt) : Prop :=
  s'.map Stmt.unplaced = s.map Stmt.unplaced

theorem Stmt.unplacedAll_eq_map (ss : List Stmt) :
    Stmt.unplacedAll ss = ss.map Stmt.unplaced := by
  induction ss with
  | nil => rfl
  | cons s ss ih => rw [Stmt.unplacedAll, ih, List.map_cons]

/- Statements in front of others are the same with them. -/
theorem Stmt.SameAll.prepend
    {first first' : Option Stmt}
    {ss ss' : List Stmt}
    (hFirst : Stmt.SameOption first first')
    (hOthers : Stmt.SameAll ss ss') :
    Stmt.SameAll (first.toList ++ ss) (first'.toList ++ ss') := by
  unfold Stmt.SameAll at hOthers ⊢
  cases first with
  | none =>
      cases first' with
      | none => exact hOthers
      | some s' => cases hFirst
  | some s =>
      cases first' with
      | none => cases hFirst
      | some s' =>
          have hSame : s'.unplaced = s.unplaced :=
            Option.some.inj hFirst
          change s'.unplaced :: Stmt.unplacedAll ss' = _
          rw [hSame, hOthers]
          rfl

namespace Parser

variable {m : Slack}
variable {c d : Cursor}
variable {bound bound' : Nat}

------------------------------------------------------------
-- Simple Statements
------------------------------------------------------------

/- At the end of the tokens there is no expression. -/
theorem expression_at_end
    (bound least : Nat)
    (before : Option Token) :
    ∃ e, (expression bound least).run ⟨before, []⟩ = .error e := by
  cases bound with
  | zero => exact ⟨_, rfl⟩
  | succ bound =>
      rw [expression]
      cases bound with
      | zero => exact ⟨_, rfl⟩
      | succ bound =>
          rw [operand]
          exact ⟨_, rfl⟩

/- A sequence fails where its first part does. -/
theorem run_bind_error
    {α β : Type}
    {x : Parser α}
    {f : α → Parser β}
    (h : ∃ e, x.run c = .error e) :
    ∃ e, (x >>= f).run c = .error e := by
  rcases h with ⟨e, hRun⟩
  have hBoth :
      (x >>= f).run c = (x.run c).bind fun r => (f r.1).run r.2 :=
    rfl
  rw [hRun] at hBoth
  exact ⟨e, hBoth⟩

theorem tracks_declaration
    (hBound : m.Bounds bound bound')
    {before before' : Option Token}
    {t t' : Token}
    {rest rest' : List Token}
    (hRest : m.Beside ⟨some t, rest⟩ ⟨some t', rest'⟩) :
    Tracks m ⟨before, t :: rest⟩ ⟨before', t' :: rest'⟩
      (declaration bound) (declaration bound') Stmt.Same := by
  apply tracks_here
  apply tracks_advance
  apply (tracks_expectIdentifier hRest).bind
  rintro name _ c d hPlace rfl
  have hDeclared :
      ∀ l l', Tracks m c d (return (.declare name l) : Parser Stmt)
        (return (.declare name l') : Parser Stmt) Stmt.Same :=
    fun _ _ => tracks_pure hPlace rfl
  apply tracks_peek
  cases hPlace.fronts with
  | ended => exact hDeclared _ _
  | @next _ _ u u' _ _ hToken hNext =>
      dsimp only [List.head?_cons]
      rw [(marks_operator "=").eq hToken]
      split
      · apply tracks_advance
        apply (tracks_requireOperand hToken hNext).bind
        intro _ _ c' d' hMore _
        apply (tracks_expression hBound hMore).bind
        intro e e' c'' d'' hLast hSame
        exact tracks_pure hLast
          (congrArg (Stmt.define name · .start) hSame)
      · exact hDeclared _ _
  | @more _ _ u' _ hLoose hSemicolon =>
      dsimp only [List.head?_cons]
      rw [(marks_operator "=").semicolon hSemicolon]
      exact hDeclared _ _

theorem tracks_returnStatement
    (hBound : m.Bounds bound bound')
    {before before' : Option Token}
    {t t' : Token}
    {rest rest' : List Token}
    (hRest : m.Beside ⟨some t, rest⟩ ⟨some t', rest'⟩) :
    Tracks m ⟨before, t :: rest⟩ ⟨before', t' :: rest'⟩
      (returnStatement bound) (returnStatement bound') Stmt.Same := by
  apply tracks_here
  apply tracks_advance
  refine tracks_ifSemicolon hRest ?_ ?_ ?_
  · intro _ _ _ _ _ _ _ _ _
    apply (tracks_expectSemicolon hRest).bind
    intro _ _ c' d' hNext _
    exact tracks_pure hNext rfl
  · apply (tracks_expression hBound hRest).bind
    intro e e' c' d' hNext hSame
    apply (tracks_expectSemicolon hNext).bind
    intro _ _ c'' d'' hLast _
    exact tracks_pure hLast
      (congrArg (fun e => Stmt.ret (some e) .start) hSame)
  · intro before
    exact run_bind_error (expression_at_end _ _ _)

/- The expression of a header is the same in both, or missing. -/
theorem tracks_conditionUnless
    (hBound : m.Bounds bound bound')
    (hPlace : m.Beside c d) :
    Tracks m c d (expressionUnless bound (·.isSeparator ";"))
      (expressionUnless bound' (·.isSeparator ";"))
      Expr.SameOption := by
  refine tracks_ifSemicolon hPlace ?_ ?_ ?_
  · intro _ _ _ _ _ _ _ _ _
    exact tracks_pure hPlace rfl
  · apply (tracks_expression hBound hPlace).bind
    intro e e' c' d' hNext hSame
    exact tracks_pure hNext (congrArg some hSame)
  · intro before
    exact run_bind_error (expression_at_end _ _ _)

theorem tracks_updateUnless
    (hBound : m.Bounds bound bound')
    (hPlace : m.Beside c d) :
    Tracks m c d (expressionUnless bound (·.isOperator ")"))
      (expressionUnless bound' (·.isOperator ")"))
      Expr.SameOption := by
  refine tracks_ifNext (marks_operator ")") hPlace ?_ ?_
  · intro _ _ _ _ _ _ _ _ _ _ _
    exact tracks_pure hPlace rfl
  · apply (tracks_expression hBound hPlace).bind
    intro e e' c' d' hNext hSame
    exact tracks_pure hNext (congrArg some hSame)

theorem tracks_parenthesized
    (hBound : m.Bounds bound bound')
    (hPlace : m.Beside c d) :
    Tracks m c d (parenthesized bound) (parenthesized bound')
      Expr.Same := by
  apply (tracks_expectOperator hPlace).bind
  intro _ _ c' d' hNext _
  apply (tracks_expression hBound hNext).bind
  intro e e' c'' d'' hMore hSame
  apply (tracks_expectOperator hMore).bind
  intro _ _ c''' d''' hLast _
  exact tracks_pure hLast hSame

------------------------------------------------------------
-- Parameters
------------------------------------------------------------

theorem tracks_parameterList
    {function : String}
    (known : List String)
    (hBound : m.Bounds bound bound')
    (hPlace : m.Beside c d) :
    Tracks m c d (parameterList function bound known)
      (parameterList function bound' known) Eq := by
  induction bound generalizing bound' known c d with
  | zero =>
      exact tracks_exhausted (y := (parameterList function · known))
        hBound rfl rfl
  | succ bound ih =>
      rcases hBound.of_succ with ⟨less, rfl, hLess⟩
      rw [parameterList, parameterList]
      apply tracks_peek
      cases hPlace.fronts with
      | ended => exact tracks_failHere fun _ _ => rfl
      | @next before before' t t' rest rest' hToken hRest =>
          rcases Token.Spelling.mk.inj hToken with ⟨hKind, hText⟩
          dsimp only [List.head?_cons]
          rw [hKind, hText, (marks_operator ")").eq hToken]
          split
          · split
            · exact tracks_throw rfl
            · exact tracks_throw rfl
          split
          · exact tracks_throw rfl
          · apply tracks_advance
            refine tracks_ifPeek marks_comma hRest ?_ ?_
            · intro c' d' hNext
              exact ih _ hLess hNext
            · exact tracks_pure hRest rfl
      | more hLoose _ => exact tracks_failed hLoose rfl

theorem tracks_parameters
    {function : String}
    (hBound : m.Bounds bound bound')
    (hPlace : m.Beside c d) :
    Tracks m c d (parameters bound function)
      (parameters bound' function) Eq := by
  apply (tracks_expectOperator hPlace).bind
  intro _ _ c' d' hNext _
  refine tracks_ifNext (marks_operator ")") hNext ?_ ?_
  · intro _ _ _ _ _ _ _ _ _ _ _
    apply (tracks_expectOperator hNext).bind
    intro _ _ c'' d'' hLast _
    exact tracks_pure hLast rfl
  · apply (tracks_parameterList [] hBound hNext).bind
    rintro names _ c'' d'' hMore rfl
    apply (tracks_expectOperator hMore).bind
    intro _ _ c''' d''' hLast _
    exact tracks_pure hLast rfl

------------------------------------------------------------
-- Statements
------------------------------------------------------------

/-
  The readers of statements give the same in both readings,
  at bounds side by side. Only a reading that has ended gives
  no statement without taking a semicolon, so the first may
  not end alone.
-/
structure StatementTracking
    (m : Slack)
    (bound bound' : Nat) : Prop where
  statement :
    ∀ {c d}, m.Beside c d → (c.rest = [] → d.rest = []) →
      Tracks m c d (Parser.statement bound) (Parser.statement bound')
        Stmt.SameOption
  ifStatement :
    ∀ {before before' t t' rest rest'},
      m.Beside ⟨some t, rest⟩ ⟨some t', rest'⟩ →
      Tracks m ⟨before, t :: rest⟩ ⟨before', t' :: rest'⟩
        (Parser.ifStatement bound) (Parser.ifStatement bound')
        Stmt.Same
  forStatement :
    ∀ {before before' t t' rest rest'},
      m.Beside ⟨some t, rest⟩ ⟨some t', rest'⟩ →
      Tracks m ⟨before, t :: rest⟩ ⟨before', t' :: rest'⟩
        (Parser.forStatement bound) (Parser.forStatement bound')
        Stmt.Same
  block :
    ∀ {c d}, m.Beside c d →
      Tracks m c d (Parser.block bound) (Parser.block bound')
        Stmt.SameAll
  items :
    ∀ {c d}, m.Beside c d →
      Tracks m c d (Parser.items bound) (Parser.items bound')
        Stmt.SameAll

namespace StatementTracking

variable {before before' : Option Token}
variable {t t' : Token}
variable {rest rest' : List Token}

theorem zero
    (hBound : m.Bounds 0 bound') :
    StatementTracking m 0 bound' where
  statement _ _ :=
    tracks_exhausted (y := Parser.statement) hBound rfl rfl
  ifStatement _ :=
    tracks_exhausted (y := Parser.ifStatement) hBound rfl rfl
  forStatement _ :=
    tracks_exhausted (y := Parser.forStatement) hBound rfl rfl
  block _ :=
    tracks_exhausted (y := Parser.block) hBound rfl rfl
  items _ :=
    tracks_exhausted (y := Parser.items) hBound rfl rfl

theorem tracks_some
    {x y : Parser Stmt}
    (h : Tracks m c d x y Stmt.Same) :
    Tracks m c d (do return some (← x)) (do return some (← y))
      Stmt.SameOption := by
  apply h.bind
  intro s s' c' d' hPlace hSame
  exact tracks_pure hPlace (congrArg some hSame)

theorem statement_succ
    (hBound : m.Bounds bound bound')
    (h : StatementTracking m bound bound')
    (hPlace : m.Beside c d)
    (hEnd : c.rest = [] → d.rest = []) :
    Tracks m c d (Parser.statement (bound + 1))
      (Parser.statement (bound' + 1)) Stmt.SameOption := by
  rw [Parser.statement, Parser.statement]
  apply tracks_peek
  cases hPlace.fronts with
  | ended => exact tracks_pure hPlace rfl
  | more => cases hEnd rfl
  | next hToken hRest =>
      have hEmpty := is_eq .separator ";" hToken
      dsimp only [List.head?_cons]
      rw [Token.isSeparator, Token.isSeparator, hEmpty,
        (marks_keyword "new").eq hToken, (marks_keyword "if").eq hToken,
        (marks_keyword "while").eq hToken,
        (marks_keyword "for").eq hToken,
        (marks_keyword "function").eq hToken,
        (marks_keyword "return").eq hToken,
        (marks_keyword "break").eq hToken,
        (marks_keyword "continue").eq hToken]
      split
      · exact tracks_advance (tracks_pure hRest rfl)
      split
      · exact tracks_some (tracks_declaration hBound hRest)
      split
      · exact tracks_some (h.ifStatement hRest)
      split
      · apply tracks_advance
        apply (tracks_parenthesized hBound hRest).bind
        intro e e' c' d' hNext hCondition
        apply (h.block hNext).bind
        intro body body' c'' d'' hLast hBody
        exact tracks_pure hLast
          (congrArg some
            (congrArg₂ (Stmt.whileLoop · · .start) hCondition hBody))
      split
      · exact tracks_some (h.forStatement hRest)
      split
      · apply tracks_advance
        apply (tracks_expectIdentifier hRest).bind
        rintro name _ c' d' hNext rfl
        apply (tracks_parameters hBound hNext).bind
        rintro names _ c'' d'' hMore rfl
        apply (h.block hMore).bind
        intro body body' c''' d''' hLast hBody
        exact tracks_pure hLast
          (congrArg some
            (congrArg (Stmt.function name names · .start) hBody))
      split
      · exact tracks_some (tracks_returnStatement hBound hRest)
      split
      · exact tracks_advance (tracks_pure hRest rfl)
      split
      · exact tracks_advance (tracks_pure hRest rfl)
      · apply (tracks_expression hBound hPlace).bind
        intro e e' c' d' hNext hSame
        exact tracks_pure hNext
          (congrArg some (congrArg Stmt.expr hSame))

theorem ifStatement_succ
    (hBound : m.Bounds bound bound')
    (h : StatementTracking m bound bound')
    (hRest : m.Beside ⟨some t, rest⟩ ⟨some t', rest'⟩) :
    Tracks m ⟨before, t :: rest⟩ ⟨before', t' :: rest'⟩
      (Parser.ifStatement (bound + 1))
      (Parser.ifStatement (bound' + 1)) Stmt.Same := by
  rw [Parser.ifStatement, Parser.ifStatement]
  apply tracks_here
  apply tracks_advance
  apply (tracks_parenthesized hBound hRest).bind
  intro e e' c d hPlace hCondition
  apply (h.block hPlace).bind
  intro body body' c' d' hNext hBody
  refine tracks_ifPeek (marks_keyword "else") hNext ?_ ?_
  · intro c'' d'' hMore
    -- Both forms of `else` give the tokens behind it a list.
    have hElse :
        ∀ {l l' other other'}, Stmt.SameAll other other' →
          (Stmt.ifElse e body other l).Same
            (.ifElse e' body' other' l') := by
      intro l l' other other' hOther
      unfold Stmt.Same Stmt.unplaced
      rw [hCondition, hBody, hOther]
    refine tracks_ifNext (marks_keyword "if") hMore ?_ ?_
    · rintro _ _ u u' us us' rfl rfl _ _ hInner
      apply (h.ifStatement hInner).bind
      intro inner inner' c''' d''' hLast hSame
      refine tracks_pure hLast (hElse ?_)
      exact congrArg (fun s => [s]) hSame
    · apply (h.block hMore).bind
      intro other other' c''' d''' hLast hOther
      exact tracks_pure hLast (hElse hOther)
  · exact tracks_pure hNext
      (congrArg₂ (Stmt.ifThen · · .start) hCondition hBody)

/- A loop without an initial statement is refused at the end. -/
theorem initial_at_end
    {α : Type}
    {f : Stmt → Parser α}
    (before : Option Token) :
    ∃ e,
      (do
        match ← Parser.statement bound with
        | none => failHere .invalidForInitializer
        | some initial => f initial : Parser α).run ⟨before, []⟩ =
        .error e := by
  cases bound with
  | zero => exact ⟨_, rfl⟩
  | succ bound =>
      rw [Parser.statement]
      exact ⟨_, rfl⟩

theorem forStatement_succ
    (hBound : m.Bounds bound bound')
    (h : StatementTracking m bound bound')
    (hRest : m.Beside ⟨some t, rest⟩ ⟨some t', rest'⟩) :
    Tracks m ⟨before, t :: rest⟩ ⟨before', t' :: rest'⟩
      (Parser.forStatement (bound + 1))
      (Parser.forStatement (bound' + 1)) Stmt.Same := by
  rw [Parser.forStatement, Parser.forStatement]
  apply tracks_here
  apply tracks_advance
  apply (tracks_expectOperator hRest).bind
  intro _ _ c d hPlace _
  by_cases hAlone : c.rest = [] ∧ d.rest ≠ []
  · cases hPlace.fronts with
    | ended => exact absurd rfl hAlone.2
    | next => cases hAlone.1
    | more hLoose _ =>
        rcases initial_at_end _ with ⟨e, hRun⟩
        exact tracks_failed hLoose hRun
  · have hEnd : c.rest = [] → d.rest = [] :=
      fun hNil => not_not.1 (not_and.1 hAlone hNil)
    apply (h.statement hPlace hEnd).bind
    intro initial initial' c' d' hNext hInitial
    cases initial with
    | none =>
        cases initial' with
        | none => exact tracks_failHere fun _ _ => rfl
        | some s' => cases hInitial
    | some s =>
        cases initial' with
        | none => cases hInitial
        | some s' =>
            have hFirst : s.Same s' := Option.some.inj hInitial
            apply (tracks_expectSemicolon hNext).bind
            intro _ _ c₁ d₁ hNext _
            apply (tracks_conditionUnless hBound hNext).bind
            intro condition condition' c₂ d₂ hNext hCondition
            apply (tracks_expectSemicolon hNext).bind
            intro _ _ c₃ d₃ hNext _
            apply (tracks_updateUnless hBound hNext).bind
            intro update update' c₄ d₄ hNext hUpdate
            apply (tracks_expectOperator hNext).bind
            intro _ _ c₅ d₅ hNext _
            apply (h.block hNext).bind
            intro body body' c₆ d₆ hLast hBody
            apply tracks_pure hLast
            unfold Stmt.Same Stmt.unplaced
            rw [hFirst, hCondition, hUpdate, hBody]

theorem block_succ
    (h : StatementTracking m bound bound')
    (hPlace : m.Beside c d) :
    Tracks m c d (Parser.block (bound + 1))
      (Parser.block (bound' + 1)) Stmt.SameAll := by
  rw [Parser.block, Parser.block]
  apply (tracks_expectOperator hPlace).bind
  intro _ _ c' d' hNext _
  exact h.items hNext

theorem items_succ
    (h : StatementTracking m bound bound')
    (hPlace : m.Beside c d) :
    Tracks m c d (Parser.items (bound + 1))
      (Parser.items (bound' + 1)) Stmt.SameAll := by
  rw [Parser.items, Parser.items]
  apply tracks_peek
  cases hPlace.fronts with
  | ended => exact tracks_failHere fun _ _ => rfl
  | next hToken hRest =>
      dsimp only [List.head?_cons]
      rw [(marks_operator "\x7d").eq hToken]
      split
      · exact tracks_advance (tracks_pure hRest rfl)
      · have hTracks := h.statement hPlace fun hNil =>
          absurd hNil (List.cons_ne_nil _ _)
        apply hTracks.bind
        intro first first' c' d' hNext hFirst
        apply (h.items hNext).bind
        intro others others' c'' d'' hLast hOthers
        exact tracks_pure hLast (hOthers.prepend hFirst)
  | more hLoose _ => exact tracks_failed hLoose rfl

end StatementTracking

/- The readers of statements give the same, at every bound. -/
theorem statementTracking
    (hBound : m.Bounds bound bound') :
    StatementTracking m bound bound' := by
  induction bound generalizing bound' with
  | zero => exact .zero hBound
  | succ bound ih =>
      rcases hBound.of_succ with ⟨less, rfl, hLess⟩
      have h := ih hLess
      exact
        { statement := fun hPlace hEnd =>
            h.statement_succ hLess hPlace hEnd
          ifStatement := fun hRest => h.ifStatement_succ hLess hRest
          forStatement := fun hRest => h.forStatement_succ hLess hRest
          block := fun hPlace => h.block_succ hPlace
          items := fun hPlace => h.items_succ hPlace }

------------------------------------------------------------
-- Programs
------------------------------------------------------------

/- Statements up to the end are the same if both ends are. -/
theorem tracks_statements
    (hWords : m.words = [])
    (hBound : m.Bounds bound bound')
    (hPlace : m.Beside c d) :
    Tracks m c d (statements bound) (statements bound')
      Stmt.SameAll := by
  induction bound generalizing bound' c d with
  | zero => exact tracks_exhausted (y := statements) hBound rfl rfl
  | succ bound ih =>
      rcases hBound.of_succ with ⟨less, rfl, hLess⟩
      have hEnd : c.rest = [] → d.rest = [] := by
        intro hNil
        have hRest := hPlace.rest
        rw [hNil, hWords] at hRest
        exact List.map_eq_nil_iff.1 hRest
      rw [statements, statements]
      apply tracks_peek
      cases hPlace.fronts with
      | ended => exact tracks_pure hPlace rfl
      | more => cases hEnd rfl
      | next hToken hRest =>
          have hTracks :=
            (statementTracking hLess).statement hPlace fun hNil =>
              absurd hNil (List.cons_ne_nil _ _)
          apply hTracks.bind
          intro first first' c' d' hNext hFirst
          apply (ih hLess hNext).bind
          intro others others' c'' d'' hLast hOthers
          exact tracks_pure hLast (hOthers.prepend hFirst)

end Parser

/- Two lists of the same words are read alike. -/
theorem Program.agree_parse
    {ts ts' : List Token}
    (hSame : ts'.map spelling = ts.map spelling) :
    Agree ParseError.Same Stmt.SameAll
      (Program.parse ts) (Program.parse ts') := by
  have hLength : ts'.length = ts.length := by
    rw [← List.length_map spelling, hSame, List.length_map]
  have hBound :
      Parser.Slack.none.Bounds (Program.parseBound ts)
        (Program.parseBound ts') := by
    unfold Program.parseBound
    rw [hLength]
    exact ⟨Nat.le_refl _, .inl rfl⟩
  have hPlace :
      Parser.Slack.none.Beside (.start ts) (.start ts') :=
    ⟨by rw [Parser.Slack.none, List.append_nil]; exact hSame, rfl⟩
  have hBoth := Parser.tracks_statements rfl hBound hPlace
  unfold Program.parse
  unfold Parser.Tracks at hBoth
  generalize (Parser.statements (Program.parseBound ts)).run _ = left
    at hBoth
  generalize (Parser.statements (Program.parseBound ts')).run _ = right
    at hBoth
  cases hBoth with
  | ok _ hResult => exact hResult
  | error hSame => exact hSame
  | loose hLoose => exact hLoose.elim

end StackScript
