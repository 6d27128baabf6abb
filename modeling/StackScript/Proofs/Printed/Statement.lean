import StackScript.Proofs.Printed.Expression

/-
  Programs that are written down are read back.

  Every statement is followed by a semicolon, which ends the
  expression that it may end with and is read as an empty
  statement by itself.

  Key definitions include:
    * `Parser.Repeats`
    * `Stmt.Reads`
    * `Stmt.ReadsBlock`

  Key theorems include:
    * `Stmt.reads`
    * `Program.parse_scan_render`
-/

namespace StackScript

open StackScript.Parser
open Token (spelling exists_cons_of_spellings)
open Token (exists_append_of_spellings exists_of_parenthesized)

/- Two statements differ in their places alone. -/
def Stmt.Same (s s' : Stmt) : Prop :=
  s'.unplaced = s.unplaced

------------------------------------------------------------
-- Parts of Statements
------------------------------------------------------------

namespace Parser

variable {before : Option Token}
variable {ts rest : List Token}
variable {bound : Nat}

/- An expression in parentheses. -/
theorem gives_parenthesized
    {e : Expr}
    (h : e.ReadsWhole)
    (hText :
      ts.map spelling = Token.Spelling.parenthesized e.words)
    (hBound : 8 * ts.length ≤ bound) :
    Gives ⟨before, ts ++ rest⟩ (parenthesized bound) rest
      e.Same := by
  rcases exists_of_parenthesized hText with ⟨o, us, p, rfl, hInner⟩
  simp only [List.length_cons, List.length_append,
    List.length_nil] at hBound
  rw [List.cons_append, List.append_assoc]
  unfold parenthesized
  apply gives_expectOperator rfl
  have hRead :=
    h us (some ⟨.operator, "(", o⟩) (⟨.operator, ")", p⟩ :: rest)
      bound hInner rfl ends_close (by omega)
  apply hRead.bind
  intro f last hSame
  exact gives_expectOperator rfl (gives_pure hSame)

/- An expression that may be left out in front of a token. -/
theorem gives_expressionUnless
    {e : Option Expr}
    {stop : Token → Bool}
    {u : Token}
    (hFormed : Expr.FormedOption e)
    (hText : ts.map spelling = Expr.wordsOption e)
    (hBefore : signMayFollow before = true)
    (hStop : ∀ t, t.spelling.opens = true → stop t = false)
    (hNext : stop u = true)
    (hEnds : Ends (u :: rest))
    (hBound : 8 * ts.length ≤ bound) :
    Gives ⟨before, ts ++ u :: rest⟩ (expressionUnless bound stop)
      (u :: rest) fun f =>
        f.map Expr.unplaced = e.map Expr.unplaced := by
  unfold expressionUnless
  cases e with
  | none =>
      rw [List.map_eq_nil_iff.1 hText]
      exact gives_ifNext hNext (gives_pure rfl)
  | some e =>
      rcases Expr.exists_opens_tokens hFormed hText with
        ⟨t, us, rfl, hOpens⟩
      apply gives_ifNotNext
      · rintro _ ⟨⟩
        exact hStop t hOpens
      · apply ((e.reads hFormed).whole _ _ _ _ hText hBefore hEnds
          hBound).bind
        intro f last hSame
        exact gives_pure (congrArg some hSame)

/- One more name, which differs from those before. -/
theorem gives_parameter
    {function x : String}
    {known : List String}
    {l : Location}
    {us : List Token}
    {Q : List String → Prop}
    (hFresh : x ∉ known)
    (h :
      Gives ⟨some ⟨.identifier, x, l⟩, us⟩
        (peekIs (·.isSeparator ",") >>= fun more =>
          if more = true then
            advance >>= fun _ =>
              parameterList function bound (known ++ [x])
          else pure (known ++ [x]))
        rest Q) :
    Gives ⟨before, ⟨.identifier, x, l⟩ :: us⟩
      (parameterList function (bound + 1) known) rest Q := by
  rw [parameterList]
  apply gives_peek
  dsimp only [List.head?_cons]
  rw [if_neg (not_not_intro rfl), if_neg hFresh]
  exact gives_advance h

/- Names that differ from each other and from those before. -/
theorem gives_parameterList
    {function : String}
    {known names : List String}
    (hSome : names ≠ [])
    (hText : ts.map spelling = nameWords names)
    (hNodup : (known ++ names).Nodup)
    (hNext : ∀ t ∈ rest.head?, t.isSeparator "," = false)
    (hBound : ts.length ≤ bound) :
    Gives ⟨before, ts ++ rest⟩ (parameterList function bound known)
      rest (· = known ++ names) := by
  fun_induction nameWords names generalizing ts before bound known with
  | case1 => exact absurd rfl hSome
  | case2 x =>
      rcases exists_cons_of_spellings hText with ⟨l, none, rfl, hNone⟩
      rw [List.map_eq_nil_iff.1 hNone] at hBound ⊢
      obtain ⟨n, rfl⟩ : ∃ n, bound = n + 1 :=
        ⟨bound - 1, by simp at hBound; omega⟩
      have hFresh : x ∉ known := fun hMem =>
        List.disjoint_of_nodup_append hNodup hMem List.mem_cons_self
      exact gives_parameter hFresh
        (gives_ifNotNext hNext (gives_pure rfl))
  | case3 x names hMore ih =>
      rcases exists_cons_of_spellings hText with ⟨l, us, rfl, hUs⟩
      rcases exists_cons_of_spellings hUs with ⟨m, vs, rfl, hVs⟩
      simp only [List.length_cons] at hBound
      obtain ⟨n, rfl⟩ : ∃ n, bound = n + 1 :=
        ⟨bound - 1, by omega⟩
      have hFresh : x ∉ known := fun hMem =>
        List.disjoint_of_nodup_append hNodup hMem List.mem_cons_self
      rw [List.append_cons] at hNodup ⊢
      apply gives_parameter hFresh
      refine gives_ifNext rfl (gives_advance ?_)
      exact ih hMore hVs hNodup (by omega)

theorem exists_name_tokens
    {x : String}
    {names : List String}
    (hText : ts.map spelling = nameWords (x :: names)) :
    ∃ l us, ts = ⟨.identifier, x, l⟩ :: us := by
  cases names with
  | nil | cons =>
      rcases exists_cons_of_spellings hText with ⟨l, us, rfl, _⟩
      exact ⟨l, us, rfl⟩

/- The parameters of a function in parentheses. -/
theorem gives_parameters
    {function : String}
    {names : List String}
    (hText :
      ts.map spelling =
        Token.Spelling.parenthesized (nameWords names))
    (hNodup : names.Nodup)
    (hBound : ts.length ≤ bound) :
    Gives ⟨before, ts ++ rest⟩ (parameters bound function) rest
      (· = names) := by
  rcases exists_of_parenthesized hText with ⟨o, us, p, rfl, hInner⟩
  simp only [List.length_cons, List.length_append,
    List.length_nil] at hBound
  rw [List.cons_append, List.append_assoc]
  unfold parameters
  apply gives_expectOperator rfl
  cases names with
  | nil =>
      rw [List.map_eq_nil_iff.1 hInner]
      exact gives_ifNext rfl
        (gives_expectOperator rfl (gives_pure rfl))
  | cons x names =>
      have hRead :
          Gives
            ⟨some ⟨.operator, "(", o⟩,
              us ++ ⟨.operator, ")", p⟩ :: rest⟩
            (parameterList function bound [])
            (⟨.operator, ")", p⟩ :: rest) (· = x :: names) := by
        refine gives_parameterList nofun hInner hNodup ?_ (by omega)
        rintro _ ⟨⟩
        rfl
      apply gives_ifNotNext
      · rcases exists_name_tokens hInner with ⟨l, vs, rfl⟩
        rintro _ ⟨⟩
        rfl
      · apply hRead.bind
        rintro _ last rfl
        exact gives_expectOperator rfl (gives_pure rfl)

------------------------------------------------------------
-- Statements of Each Kind
------------------------------------------------------------

variable {t : Token}
variable {us vs : List Token}
variable {l : Location}
variable {P : Stmt → Prop}

/- A statement is an expression if no keyword comes next. -/
theorem gives_statement_expression
    {R : Expr → Prop}
    (hOpens : t.spelling.opens = true)
    (h : Gives ⟨before, t :: us⟩ (expression bound 0) rest R) :
    Gives ⟨before, t :: us⟩ (statement (bound + 1)) rest fun r =>
      ∃ e, R e ∧ r = some (.expr e) := by
  have hSeparator : t.isSeparator ";" = false :=
    Token.is_eq_false_of_opens hOpens rfl
  have hKeyword : ∀ text, t.isKeyword text = false :=
    fun _ => Token.is_eq_false_of_opens hOpens rfl
  rw [statement]
  apply gives_peek
  simp only [List.head?_cons, hSeparator, hKeyword,
    Bool.false_eq_true, if_false]
  exact h.bind fun e last hGiven => gives_pure ⟨e, hGiven, rfl⟩

/- A statement that a parser of its own reads. -/
theorem gives_statement_of
    {c : Cursor}
    {x : Parser Stmt}
    (h : Gives c x rest P)
    (hRun :
      (statement bound).run c =
        (x >>= fun s => pure (some s)).run c) :
    Gives c (statement bound) rest fun r =>
      ∃ s, P s ∧ r = some s := by
  unfold Gives
  rw [hRun]
  exact h.bind fun s last hGiven => gives_pure ⟨s, hGiven, rfl⟩

/- A declaration without a value. -/
theorem gives_declare
    {x : String}
    {m : Location}
    (bound : Nat)
    (hNext : ∀ t ∈ us.head?, t.isOperator "=" = false) :
    Gives ⟨before, ⟨.keyword, "new", l⟩ :: ⟨.identifier, x, m⟩ :: us⟩
      (declaration bound) us (· = .declare x l) := by
  unfold declaration
  refine gives_run rfl (gives_advance ?_)
  apply gives_expectIdentifier rfl
  apply gives_peek
  cases us with
  | nil => exact gives_pure rfl
  | cons t us =>
      dsimp only [List.head?_cons]
      rw [hNext t rfl]
      exact gives_pure rfl

/- A declaration with a value. -/
theorem gives_define
    {x : String}
    {m q : Location}
    {R : Expr → Prop}
    (h :
      Gives ⟨some ⟨.operator, "=", q⟩, t :: us⟩ (expression bound 0)
        rest R) :
    Gives
      ⟨before,
        ⟨.keyword, "new", l⟩ :: ⟨.identifier, x, m⟩
          :: ⟨.operator, "=", q⟩ :: t :: us⟩
      (declaration bound) rest fun s =>
        ∃ e, R e ∧ s = .define x e l := by
  unfold declaration
  refine gives_run rfl (gives_advance ?_)
  apply gives_expectIdentifier rfl
  apply gives_peek
  apply gives_advance
  apply gives_requireOperand
  exact h.bind fun e last hGiven => gives_pure ⟨e, hGiven, rfl⟩

/- The value that a function gives back, and its semicolon. -/
theorem gives_returnStatement
    {e : Option Expr}
    {q : Location}
    (hFormed : Expr.FormedOption e)
    (hText : ts.map spelling = Expr.wordsOption e)
    (hBound : 8 * ts.length ≤ bound) :
    Gives
      ⟨before,
        ⟨.keyword, "return", l⟩ :: (ts ++ ⟨.separator, ";", q⟩ :: rest)⟩
      (returnStatement bound) rest (Stmt.ret e .start).Same := by
  unfold returnStatement
  refine gives_run rfl (gives_advance ?_)
  cases e with
  | none =>
      rw [List.map_eq_nil_iff.1 hText]
      exact gives_ifNext rfl (gives_expectSemicolon rfl (gives_pure rfl))
  | some e =>
      have hRead :=
        (e.reads hFormed).whole ts (some ⟨.keyword, "return", l⟩)
          (⟨.separator, ";", q⟩ :: rest) bound hText rfl ends_separator
          hBound
      rcases Expr.exists_opens_tokens hFormed hText with
        ⟨t, us, rfl, hOpens⟩
      apply gives_ifNotNext
      · rintro _ ⟨⟩
        exact Token.is_eq_false_of_opens hOpens rfl
      · apply hRead.bind
        intro f last hSame
        apply gives_expectSemicolon rfl
        exact gives_pure
          (congrArg (fun e => Stmt.ret (some e) .start) hSame)

/- A condition, a body and no alternative. -/
theorem gives_ifThen
    {R : Expr → Prop}
    {Q : List Stmt → Prop}
    (hCondition :
      Gives ⟨some ⟨.keyword, "if", l⟩, ts⟩ (parenthesized bound) us R)
    (hBody : ∀ last, Gives ⟨last, us⟩ (block bound) rest Q)
    (hNext : ∀ t ∈ rest.head?, t.isKeyword "else" = false) :
    Gives ⟨before, ⟨.keyword, "if", l⟩ :: ts⟩
      (ifStatement (bound + 1)) rest fun s =>
        ∃ e ss, R e ∧ Q ss ∧ s = .ifThen e ss l := by
  rw [ifStatement]
  refine gives_run rfl (gives_advance ?_)
  apply hCondition.bind
  intro e last hGiven
  apply (hBody last).bind
  intro ss last hAll
  exact gives_ifNotNext hNext (gives_pure ⟨e, ss, hGiven, hAll, rfl⟩)

/- A condition, a body and an alternative in braces. -/
theorem gives_ifElse
    {m o : Location}
    {R : Expr → Prop}
    {Q Q' : List Stmt → Prop}
    (hCondition :
      Gives ⟨some ⟨.keyword, "if", l⟩, ts⟩ (parenthesized bound) us R)
    (hBody :
      ∀ last,
        Gives ⟨last, us⟩ (block bound)
          (⟨.keyword, "else", m⟩ :: ⟨.operator, "\x7b", o⟩ :: vs) Q)
    (hOther :
      Gives ⟨some ⟨.keyword, "else", m⟩, ⟨.operator, "\x7b", o⟩ :: vs⟩
        (block bound) rest Q') :
    Gives ⟨before, ⟨.keyword, "if", l⟩ :: ts⟩
      (ifStatement (bound + 1)) rest fun s =>
        ∃ e ss ss', R e ∧ Q ss ∧ Q' ss' ∧ s = .ifElse e ss ss' l := by
  rw [ifStatement]
  refine gives_run rfl (gives_advance ?_)
  apply hCondition.bind
  intro e last hGiven
  apply (hBody last).bind
  intro ss last hAll
  refine gives_ifNext rfl (gives_advance ?_)
  apply gives_ifNotNext
  · rintro _ ⟨⟩
    rfl
  · apply hOther.bind
    intro ss' last hAlso
    exact gives_pure ⟨e, ss, ss', hGiven, hAll, hAlso, rfl⟩

theorem gives_whileLoop
    {R : Expr → Prop}
    {Q : List Stmt → Prop}
    (hCondition :
      Gives ⟨some ⟨.keyword, "while", l⟩, ts⟩ (parenthesized bound)
        us R)
    (hBody : ∀ last, Gives ⟨last, us⟩ (block bound) rest Q) :
    Gives ⟨before, ⟨.keyword, "while", l⟩ :: ts⟩
      (statement (bound + 1)) rest fun r =>
        ∃ e ss, R e ∧ Q ss ∧ r = some (.whileLoop e ss l) := by
  rw [statement]
  apply gives_peek
  apply gives_advance
  apply hCondition.bind
  intro e last hGiven
  apply (hBody last).bind
  intro ss last hAll
  exact gives_pure ⟨e, ss, hGiven, hAll, rfl⟩

/- The three parts between the parentheses of a loop, and its body. -/
theorem gives_forLoop
    {o m n p : Location}
    {ws : List Token}
    {R R' : Option Expr → Prop}
    {Q : List Stmt → Prop}
    (hInitial :
      Gives ⟨some ⟨.operator, "(", o⟩, ts⟩ (statement bound)
        (⟨.separator, ";", m⟩ :: us) fun r => ∃ s, P s ∧ r = some s)
    (hCondition :
      Gives ⟨some ⟨.separator, ";", m⟩, us⟩
        (expressionUnless bound (·.isSeparator ";"))
        (⟨.separator, ";", n⟩ :: vs) R)
    (hUpdate :
      Gives ⟨some ⟨.separator, ";", n⟩, vs⟩
        (expressionUnless bound (·.isOperator ")"))
        (⟨.operator, ")", p⟩ :: ws) R')
    (hBody :
      Gives ⟨some ⟨.operator, ")", p⟩, ws⟩ (block bound) rest Q) :
    Gives ⟨before, ⟨.keyword, "for", l⟩ :: ⟨.operator, "(", o⟩ :: ts⟩
      (forStatement (bound + 1)) rest fun s =>
        ∃ s' c u ss, P s' ∧ R c ∧ R' u ∧ Q ss ∧
          s = .forLoop s' c u ss l := by
  rw [forStatement]
  refine gives_run rfl (gives_advance ?_)
  apply gives_expectOperator rfl
  apply hInitial.bind
  rintro _ last ⟨s', hFirst, rfl⟩
  apply gives_expectSemicolon rfl
  apply hCondition.bind
  intro c last hSecond
  apply gives_expectSemicolon rfl
  apply hUpdate.bind
  intro u last hThird
  apply gives_expectOperator rfl
  apply hBody.bind
  intro ss last hAll
  exact gives_pure ⟨s', c, u, ss, hFirst, hSecond, hThird, hAll, rfl⟩

------------------------------------------------------------
-- Sequences of Statements
------------------------------------------------------------

variable {Q : List Stmt → Prop}

/- A semicolon is an empty statement. -/
theorem run_empty :
    (statement (bound + 1)).run
        ⟨before, ⟨.separator, ";", l⟩ :: rest⟩ =
      .ok (none, ⟨some ⟨.separator, ";", l⟩, rest⟩) := by
  rw [statement]
  rfl

/-
  The parser reads statements one by one, up to a token that
  ends them.
-/
def Repeats
    (loop : Nat → Parser (List Stmt))
    (stop : Token → Bool) : Prop :=
  ∀ before t us rest n (Q : List Stmt → Prop),
    stop t = false →
    Gives ⟨before, t :: us⟩
        (statement n >>= fun first =>
          loop n >>= fun others => pure (first.toList ++ others))
        rest Q →
      Gives ⟨before, t :: us⟩ (loop (n + 1)) rest Q

theorem repeats_items :
    Repeats items (·.isOperator "\x7d") := by
  intro before t us rest n Q hNext h
  have hOther : t.isOperator "\x7d" = false := hNext
  rw [items]
  apply gives_peek
  dsimp only [List.head?_cons]
  rw [hOther]
  exact h

theorem repeats_statements :
    Repeats statements fun _ => false := by
  intro before t us rest n Q _ h
  rw [statements]
  exact gives_peek h

/- A statement, its semicolon and the statements behind it. -/
theorem Repeats.gives
    {loop : Nat → Parser (List Stmt)}
    {stop : Token → Bool}
    (hLoop : Repeats loop stop)
    (hFirst : stop t = false)
    (hSemicolon : stop ⟨.separator, ";", l⟩ = false)
    (hStatement :
      Gives ⟨before, t :: us⟩ (statement (bound + 2))
        (⟨.separator, ";", l⟩ :: ts) fun r => ∃ s, P s ∧ r = some s)
    (hOthers :
      Gives ⟨some ⟨.separator, ";", l⟩, ts⟩ (loop (bound + 1))
        rest Q) :
    Gives ⟨before, t :: us⟩ (loop (bound + 3)) rest fun ss =>
      ∃ s others, P s ∧ Q others ∧ ss = s :: others := by
  apply hLoop _ _ _ _ _ _ hFirst
  apply hStatement.bind
  rintro _ last ⟨s, hGiven, rfl⟩
  have hEmpty :
      Gives ⟨last, ⟨.separator, ";", l⟩ :: ts⟩ (loop (bound + 2))
        rest Q := by
    apply hLoop _ _ _ _ _ _ hSemicolon
    refine gives_run run_empty ?_
    exact hOthers.bind fun others last hMore => gives_pure hMore
  apply hEmpty.bind
  intro others last hMore
  exact gives_pure ⟨s, others, hGiven, hMore, rfl⟩

end Parser

------------------------------------------------------------
-- Statements
------------------------------------------------------------

/- The words of a statement are read back as it. -/
def Stmt.Reads (s : Stmt) : Prop :=
  ∀ ts before rest bound l,
    ts.map spelling = s.words → signMayFollow before = true →
    8 * ts.length < bound →
      Gives ⟨before, ts ++ ⟨.separator, ";", l⟩ :: rest⟩
        (statement bound) (⟨.separator, ";", l⟩ :: rest)
        fun r => ∃ s', s.Same s' ∧ r = some s'

/- The words of a body are read back as it. -/
def Stmt.ReadsBlock (ss : List Stmt) : Prop :=
  ∀ ts before rest bound,
    ts.map spelling = Token.Spelling.braced (Stmt.wordsAll ss) →
    8 * ts.length ≤ bound →
      Gives ⟨before, ts ++ rest⟩ (block bound) rest fun ss' =>
        Stmt.unplacedAll ss' = Stmt.unplacedAll ss

/- No statement begins with a closing brace. -/
theorem Stmt.exists_first_token
    {s : Stmt}
    {ts : List Token}
    (h : s.Formed)
    (hText : ts.map spelling = s.words) :
    ∃ t us, ts = t :: us ∧ t.isOperator "\x7d" = false := by
  cases s with
  | expr e =>
      rcases Expr.exists_opens_tokens h hText with
        ⟨t, us, rfl, hOpens⟩
      exact ⟨t, us, rfl, Token.is_eq_false_of_opens hOpens rfl⟩
  | _ =>
      rcases exists_cons_of_spellings hText with ⟨l, us, rfl, _⟩
      exact ⟨_, us, rfl, rfl⟩

/- Statements are read back one after the other. -/
theorem Stmt.gives_wordsAll
    {loop : Nat → Parser (List Stmt)}
    {stop : Token → Bool}
    {ss : List Stmt}
    {before : Option Token}
    {ts next rest : List Token}
    {bound : Nat}
    (hLoop : Repeats loop stop)
    (hStop : ∀ t : Token, t.isOperator "\x7d" = false → stop t = false)
    (hEnd :
      ∀ before n, Gives ⟨before, next⟩ (loop (n + 1)) rest (· = []))
    (hFormed : Stmt.FormedAll ss)
    (hReads : ∀ s ∈ ss, s.Reads)
    (hText : ts.map spelling = Stmt.wordsAll ss)
    (hBefore : signMayFollow before = true)
    (hBound : 8 * ts.length < bound) :
    Gives ⟨before, ts ++ next⟩ (loop bound) rest fun ss' =>
      Stmt.unplacedAll ss' = Stmt.unplacedAll ss := by
  induction ss generalizing ts before bound with
  | nil =>
      rw [List.map_eq_nil_iff.1 hText]
      obtain ⟨n, rfl⟩ : ∃ n, bound = n + 1 := ⟨bound - 1, by omega⟩
      refine (hEnd before n).mono ?_
      rintro _ rfl
      rfl
  | cons s ss ih =>
      rw [Stmt.wordsAll] at hText
      rcases exists_append_of_spellings hText with
        ⟨us, others, rfl, hFirst, hMore⟩
      rcases exists_cons_of_spellings hMore with ⟨l, vs, rfl, hOthers⟩
      -- The statement and its semicolon are one round each.
      simp only [List.length_append, List.length_cons] at hBound
      obtain ⟨n, rfl⟩ : ∃ n, bound = n + 3 := ⟨bound - 3, by omega⟩
      have hRead :=
        hReads s List.mem_cons_self us before (vs ++ next) (n + 2) l
          hFirst hBefore (by omega)
      have hReadOthers :=
        ih hFormed.2
          (fun s' hs' => hReads s' (List.mem_cons_of_mem _ hs'))
          hOthers
          (show signMayFollow (some ⟨.separator, ";", l⟩) = true
            from rfl)
          (show 8 * vs.length < n + 1 by omega)
      rcases Stmt.exists_first_token hFormed.1 hFirst with
        ⟨t, us', rfl, hBrace⟩
      rw [List.append_assoc, List.cons_append, List.cons_append]
      refine (hLoop.gives (hStop t hBrace) (hStop _ rfl) hRead
        hReadOthers).mono ?_
      rintro _ ⟨s', ss', hSame, hAll, rfl⟩
      rw [Stmt.unplacedAll, Stmt.unplacedAll, hSame, hAll]

/- A body is read back if its statements are. -/
theorem Stmt.readsBlock_of_reads
    {ss : List Stmt}
    (hFormed : Stmt.FormedAll ss)
    (hReads : ∀ s ∈ ss, s.Reads) :
    Stmt.ReadsBlock ss := by
  intro ts before rest bound hText hBound
  rcases Token.exists_of_braced hText with ⟨o, us, p, rfl, hInner⟩
  simp only [List.length_cons, List.length_append,
    List.length_nil] at hBound
  obtain ⟨n, rfl⟩ : ∃ n, bound = n + 1 := ⟨bound - 1, by omega⟩
  rw [List.cons_append, List.append_assoc, block]
  apply gives_expectOperator rfl
  refine Stmt.gives_wordsAll repeats_items (fun _ h => h) ?_ hFormed
    hReads hInner rfl (by omega)
  intro before n
  rw [items]
  apply gives_peek
  exact gives_advance (gives_pure rfl)

namespace Stmt.Reads

variable {place : Location}

theorem of_expr
    {e : Expr}
    (hFormed : e.Formed) :
    (Stmt.expr e).Reads := by
  intro ts before rest bound l hText hBefore hBound
  obtain ⟨n, rfl⟩ : ∃ n, bound = n + 1 := ⟨bound - 1, by omega⟩
  have hRead :=
    (e.reads hFormed).whole ts before
      (⟨.separator, ";", l⟩ :: rest) n hText hBefore ends_separator
      (by omega)
  rcases Expr.exists_opens_tokens hFormed hText with
    ⟨t, us, rfl, hOpens⟩
  refine (gives_statement_expression hOpens hRead).mono ?_
  rintro _ ⟨e', hSame, rfl⟩
  exact ⟨.expr e', congrArg Stmt.expr hSame, rfl⟩

theorem of_declare
    {x : String} :
    (Stmt.declare x place).Reads := by
  intro ts before rest bound l hText _ hBound
  rcases exists_cons_of_spellings hText with ⟨q, us, rfl, hMore⟩
  rcases exists_cons_of_spellings hMore with ⟨m, none, rfl, hNone⟩
  rw [List.map_eq_nil_iff.1 hNone] at hBound ⊢
  obtain ⟨n, rfl⟩ : ∃ n, bound = n + 1 := ⟨bound - 1, by omega⟩
  refine (gives_statement_of (gives_declare n ?_) ?_).mono ?_
  · rintro _ ⟨⟩
    rfl
  · rw [statement]
    rfl
  · rintro _ ⟨_, rfl, rfl⟩
    exact ⟨.declare x q, rfl, rfl⟩

theorem of_define
    {x : String}
    {value : Expr}
    (hFormed : value.Formed) :
    (Stmt.define x value place).Reads := by
  intro ts before rest bound l hText _ hBound
  rw [Stmt.words] at hText
  rcases exists_cons_of_spellings hText with ⟨q, us, rfl, hMore⟩
  rcases exists_cons_of_spellings hMore with ⟨m, vs, rfl, hValue⟩
  rcases exists_cons_of_spellings hValue with ⟨o, ws, rfl, hRight⟩
  simp only [List.length_cons] at hBound
  obtain ⟨n, rfl⟩ : ∃ n, bound = n + 1 := ⟨bound - 1, by omega⟩
  have hRead :=
    (value.reads hFormed).whole ws (some ⟨.operator, "=", o⟩)
      (⟨.separator, ";", l⟩ :: rest) n hRight rfl ends_separator
      (by omega)
  rcases Expr.exists_opens_tokens hFormed hRight with
    ⟨t, ws', rfl, _⟩
  refine (gives_statement_of (gives_define hRead) ?_).mono ?_
  · rw [statement]
    rfl
  · rintro _ ⟨_, ⟨e, hSame, rfl⟩, rfl⟩
    exact ⟨.define x e q, congrArg (Stmt.define x · .start) hSame,
      rfl⟩

theorem of_ret
    {argument : Option Expr}
    (hFormed : Expr.FormedOption argument) :
    (Stmt.ret argument place).Reads := by
  intro ts before rest bound l hText _ hBound
  rw [Stmt.words] at hText
  rcases exists_cons_of_spellings hText with ⟨q, us, rfl, hMore⟩
  rcases exists_append_of_spellings hMore with
    ⟨vs, ends, rfl, hArgument, hEnd⟩
  -- This semicolon is part of the statement; one more follows it.
  rcases exists_cons_of_spellings hEnd with ⟨m, none, rfl, hNone⟩
  rw [List.map_eq_nil_iff.1 hNone] at hBound ⊢
  simp only [List.length_append, List.length_cons,
    List.length_nil] at hBound
  obtain ⟨n, rfl⟩ : ∃ n, bound = n + 1 := ⟨bound - 1, by omega⟩
  have hInner : 8 * vs.length ≤ n := by omega
  rw [List.cons_append, List.append_assoc]
  apply gives_statement_of
    (gives_returnStatement hFormed hArgument hInner)
  rw [statement]
  rfl

/- A statement of one word. -/
theorem of_single
    {s : Stmt}
    {word : String}
    (hWords : s.words = [Token.Spelling.keyword word])
    (hRead :
      ∀ before rest n q,
        Gives ⟨before, ⟨.keyword, word, q⟩ :: rest⟩ (statement (n + 1))
          rest fun r => ∃ s', s.Same s' ∧ r = some s') :
    s.Reads := by
  intro ts before rest bound l hText _ hBound
  rw [hWords] at hText
  rcases exists_cons_of_spellings hText with ⟨q, none, rfl, hNone⟩
  rw [List.map_eq_nil_iff.1 hNone] at hBound ⊢
  obtain ⟨n, rfl⟩ : ∃ n, bound = n + 1 := ⟨bound - 1, by omega⟩
  exact hRead before _ n q

theorem of_breakLoop :
    (Stmt.breakLoop place).Reads := by
  apply of_single rfl
  intro before rest n q
  rw [statement]
  apply gives_peek
  exact gives_advance (gives_pure ⟨.breakLoop q, rfl, rfl⟩)

theorem of_continueLoop :
    (Stmt.continueLoop place).Reads := by
  apply of_single rfl
  intro before rest n q
  rw [statement]
  apply gives_peek
  exact gives_advance (gives_pure ⟨.continueLoop q, rfl, rfl⟩)

/- A condition in parentheses and a body in braces. -/
theorem exists_header
    {condition : Expr}
    {body : List Stmt}
    {ts rest : List Token}
    {bound : Nat}
    (hCondition : condition.ReadsWhole)
    (hBody : Stmt.ReadsBlock body)
    (hText :
      ts.map spelling =
        Token.Spelling.parenthesized condition.words
          ++ Token.Spelling.braced (Stmt.wordsAll body))
    (hBound : 8 * ts.length ≤ bound) :
    ∃ us,
      (∀ before,
        Gives ⟨before, ts ++ rest⟩ (parenthesized bound) us
          condition.Same) ∧
      ∀ before,
        Gives ⟨before, us⟩ (block bound) rest fun ss =>
          Stmt.unplacedAll ss = Stmt.unplacedAll body := by
  rcases exists_append_of_spellings hText with
    ⟨us, vs, rfl, hHeader, hBlock⟩
  simp only [List.length_append] at hBound
  refine ⟨vs ++ rest, ?_, ?_⟩
  · intro before
    rw [List.append_assoc]
    exact gives_parenthesized hCondition hHeader (by omega)
  · intro before
    exact hBody vs before rest bound hBlock (by omega)

theorem of_whileLoop
    {condition : Expr}
    {body : List Stmt}
    (hCondition : condition.ReadsWhole)
    (hBody : Stmt.ReadsBlock body) :
    (Stmt.whileLoop condition body place).Reads := by
  intro ts before rest bound l hText _ hBound
  rw [Stmt.words] at hText
  rcases exists_cons_of_spellings hText with ⟨q, us, rfl, hMore⟩
  rw [List.length_cons] at hBound
  obtain ⟨n, rfl⟩ : ∃ n, bound = n + 1 := ⟨bound - 1, by omega⟩
  rcases exists_header hCondition hBody hMore
      (show 8 * us.length ≤ n by omega) with
    ⟨vs, hHeader, hBlock⟩
  refine (gives_whileLoop (hHeader _) hBlock).mono ?_
  rintro _ ⟨e, ss, hSame, hAll, rfl⟩
  exact ⟨.whileLoop e ss q,
    congrArg₂ (Stmt.whileLoop · · .start) hSame hAll, rfl⟩

/- No alternative stands in front of the semicolon. -/
theorem of_ifThen
    {condition : Expr}
    {body : List Stmt}
    (hCondition : condition.ReadsWhole)
    (hBody : Stmt.ReadsBlock body) :
    (Stmt.ifThen condition body place).Reads := by
  intro ts before rest bound l hText _ hBound
  rw [Stmt.words] at hText
  rcases exists_cons_of_spellings hText with ⟨q, us, rfl, hMore⟩
  rw [List.length_cons] at hBound
  obtain ⟨n, rfl⟩ : ∃ n, bound = n + 2 := ⟨bound - 2, by omega⟩
  rcases exists_header hCondition hBody hMore
      (show 8 * us.length ≤ n by omega) with
    ⟨vs, hHeader, hBlock⟩
  refine (gives_statement_of
    (gives_ifThen (hHeader _) hBlock ?_) ?_).mono ?_
  · rintro _ ⟨⟩
    rfl
  · rw [statement]
    rfl
  · rintro _ ⟨_, ⟨e, ss, hSame, hAll, rfl⟩, rfl⟩
    exact ⟨.ifThen e ss q,
      congrArg₂ (Stmt.ifThen · · .start) hSame hAll, rfl⟩

theorem of_ifElse
    {condition : Expr}
    {body otherwise : List Stmt}
    (hCondition : condition.ReadsWhole)
    (hBody : Stmt.ReadsBlock body)
    (hOther : Stmt.ReadsBlock otherwise) :
    (Stmt.ifElse condition body otherwise place).Reads := by
  intro ts before rest bound l hText _ hBound
  rw [Stmt.words] at hText
  rcases exists_cons_of_spellings hText with ⟨q, others, rfl, hMore⟩
  rcases exists_append_of_spellings hMore with
    ⟨us, others, rfl, hBoth, hElse⟩
  rcases exists_cons_of_spellings hElse with ⟨m, vs, rfl, hBraced⟩
  -- A brace follows `else`, even if the alternative is one `if`.
  simp only [List.length_append, List.length_cons] at hBound
  obtain ⟨n, rfl⟩ : ∃ n, bound = n + 2 := ⟨bound - 2, by omega⟩
  have hReadOther :=
    hOther vs (some ⟨.keyword, "else", m⟩)
      (⟨.separator, ";", l⟩ :: rest) n hBraced (by omega)
  rcases Token.exists_of_braced hBraced with ⟨o, ws, p, rfl, _⟩
  rcases exists_header hCondition hBody hBoth
      (show 8 * us.length ≤ n by omega) with
    ⟨_, hHeader, hBlock⟩
  rw [List.cons_append, List.append_assoc]
  refine (gives_statement_of
    (gives_ifElse (hHeader _) hBlock hReadOther) ?_).mono ?_
  · rw [statement]
    rfl
  · rintro _ ⟨_, ⟨e, ss, ss', hSame, hAll, hAlso, rfl⟩, rfl⟩
    refine ⟨.ifElse e ss ss' q, ?_, rfl⟩
    unfold Expr.Same at hSame
    unfold Stmt.Same
    rw [Stmt.unplaced, Stmt.unplaced, hSame, hAll, hAlso]

theorem of_function
    {x : String}
    {names : List String}
    {body : List Stmt}
    (hNodup : names.Nodup)
    (hBody : Stmt.ReadsBlock body) :
    (Stmt.function x names body place).Reads := by
  intro ts before rest bound l hText _ hBound
  rw [Stmt.words] at hText
  rcases exists_cons_of_spellings hText with ⟨q, others, rfl, hMore⟩
  rcases exists_cons_of_spellings hMore with ⟨m, others, rfl, hRest⟩
  rcases exists_append_of_spellings hRest with
    ⟨us, vs, rfl, hHeader, hBlock⟩
  simp only [List.length_append, List.length_cons] at hBound
  obtain ⟨n, rfl⟩ : ∃ n, bound = n + 1 := ⟨bound - 1, by omega⟩
  rw [List.cons_append, List.cons_append, List.append_assoc, statement]
  apply gives_peek
  apply gives_advance
  apply gives_expectIdentifier rfl
  apply (gives_parameters hHeader hNodup (by omega)).bind
  rintro _ last rfl
  apply (hBody vs last _ n hBlock (by omega)).bind
  intro body' last hAll
  refine gives_pure ⟨.function x _ body' q, ?_, rfl⟩
  exact congrArg (Stmt.function x _ · .start) hAll

theorem of_forLoop
    {initial : Stmt}
    {condition update : Option Expr}
    {body : List Stmt}
    (hInitial : initial.Reads)
    (hCondition : Expr.FormedOption condition)
    (hUpdate : Expr.FormedOption update)
    (hBody : Stmt.ReadsBlock body) :
    (Stmt.forLoop initial condition update body place).Reads := by
  intro ts before rest bound l hText _ hBound
  rw [Stmt.words] at hText
  rcases exists_cons_of_spellings hText with ⟨q, others, rfl, hMore⟩
  rcases exists_append_of_spellings hMore with
    ⟨header, vs, rfl, hHeader, hBlock⟩
  rcases exists_of_parenthesized hHeader with
    ⟨o, parts, p, rfl, hParts⟩
  rcases exists_append_of_spellings hParts with
    ⟨parts, others, rfl, hFront, hThird⟩
  rcases exists_append_of_spellings hFront with
    ⟨is, others, rfl, hFirst, hSecond⟩
  rcases exists_cons_of_spellings hSecond with ⟨m, cs, rfl, hMiddle⟩
  rcases exists_cons_of_spellings hThird with ⟨k, us, rfl, hLast⟩
  simp only [List.length_append, List.length_cons,
    List.length_nil] at hBound
  obtain ⟨n, rfl⟩ : ∃ n, bound = n + 2 := ⟨bound - 2, by omega⟩
  have hReadFirst :=
    hInitial is (some ⟨.operator, "(", o⟩)
      (cs ++ ⟨.separator, ";", k⟩ :: (us ++ ⟨.operator, ")", p⟩
        :: (vs ++ ⟨.separator, ";", l⟩ :: rest)))
      n m hFirst rfl (by omega)
  have hReadBody :=
    hBody vs (some ⟨.operator, ")", p⟩)
      (⟨.separator, ";", l⟩ :: rest) n hBlock (by omega)
  have hBounds : 8 * cs.length ≤ n ∧ 8 * us.length ≤ n := by omega
  simp only [List.cons_append, List.append_assoc, List.nil_append]
  refine (gives_statement_of
    (gives_forLoop hReadFirst
      (gives_expressionUnless hCondition hMiddle rfl ?_ rfl
        ends_separator hBounds.1)
      (gives_expressionUnless hUpdate hLast rfl ?_ rfl ends_close
        hBounds.2)
      hReadBody) ?_).mono ?_
  · exact fun t hOpens => Token.is_eq_false_of_opens hOpens rfl
  · exact fun t hOpens => Token.is_eq_false_of_opens hOpens rfl
  · rw [statement]
    rfl
  · rintro _ ⟨_, ⟨s, c, u, ss, hSame, hC, hU, hAll, rfl⟩, rfl⟩
    refine ⟨.forLoop s c u ss q, ?_, rfl⟩
    unfold Stmt.Same at hSame ⊢
    rw [Stmt.unplaced, Stmt.unplaced, hSame, hC, hU, hAll]

end Stmt.Reads

mutual

/- Every statement of a form that the language has is read back. -/
theorem Stmt.reads
    (s : Stmt)
    (h : s.Formed) :
    s.Reads := by
  match s with
  | .expr _ => exact .of_expr h
  | .declare _ _ => exact .of_declare
  | .define _ _ _ => exact .of_define h.2
  | .function _ _ body _ =>
      rcases h with ⟨_, _, hNodup, hBody⟩
      exact .of_function hNodup
        (Stmt.readsBlock_of_reads hBody (Stmt.reads_of_mem body hBody))
  | .ret _ _ => exact .of_ret h
  | .ifThen condition body _ =>
      exact .of_ifThen (condition.reads h.1).whole
        (Stmt.readsBlock_of_reads h.2 (Stmt.reads_of_mem body h.2))
  | .ifElse condition body otherwise _ =>
      rcases h with ⟨hCondition, hBody, hOther⟩
      exact .of_ifElse (condition.reads hCondition).whole
        (Stmt.readsBlock_of_reads hBody (Stmt.reads_of_mem body hBody))
        (Stmt.readsBlock_of_reads hOther
          (Stmt.reads_of_mem otherwise hOther))
  | .whileLoop condition body _ =>
      exact .of_whileLoop (condition.reads h.1).whole
        (Stmt.readsBlock_of_reads h.2 (Stmt.reads_of_mem body h.2))
  | .forLoop initial _ _ body _ =>
      rcases h with ⟨hInitial, hCondition, hUpdate, hBody⟩
      exact .of_forLoop (initial.reads hInitial) hCondition hUpdate
        (Stmt.readsBlock_of_reads hBody (Stmt.reads_of_mem body hBody))
  | .breakLoop _ => exact .of_breakLoop
  | .continueLoop _ => exact .of_continueLoop

theorem Stmt.reads_of_mem
    (ss : List Stmt)
    (h : Stmt.FormedAll ss) :
    ∀ s ∈ ss, s.Reads := by
  match ss with
  | [] => exact nofun
  | s :: ss =>
      exact List.forall_mem_cons.2
        ⟨s.reads h.1, Stmt.reads_of_mem ss h.2⟩

end

------------------------------------------------------------
-- Programs
------------------------------------------------------------

/-
  A program that is written down is read back, up to its
  places.
-/
theorem Program.parse_scan_render
    {p : Program}
    (h : Program.Formed p) :
    ∃ q, Program.parse (Token.scan p.render) = .ok q ∧
      q.unplaced = p.unplaced := by
  have hEnd :
      ∀ before n, Gives ⟨before, []⟩ (statements (n + 1)) [] (· = []) := by
    intro before n
    rw [statements]
    exact gives_peek (gives_pure rfl)
  have hRead :
      Gives ⟨none, Token.scan p.render ++ []⟩
        (statements (Program.parseBound (Token.scan p.render))) []
        fun q => Stmt.unplacedAll q = Stmt.unplacedAll p :=
    Stmt.gives_wordsAll repeats_statements (fun _ _ => rfl) hEnd h
      (Stmt.reads_of_mem p h) (Program.spellings_scan_render h) rfl
      (by unfold Program.parseBound; omega)
  rw [List.append_nil] at hRead
  rcases hRead with ⟨q, last, hRun, hSame⟩
  refine ⟨q, ?_, hSame⟩
  unfold Program.parse
  unfold Cursor.start
  rw [hRun]
  rfl

/-
  A loop that starts with a `return`, and a call with signs in
  front of signs.
-/
def Program.signed : Program :=
  [.forLoop
    (.ret (some (.unary .minus (.variable "a" ⟨1, 14⟩) ⟨1, 13⟩)) ⟨1, 6⟩)
    none
    (some (.post .increment (.variable "b" ⟨1, 19⟩) ⟨1, 20⟩))
    [.expr
      (.call "f"
        [.unary .not
          (.unary .minus
            (.binary .sub (.literal "1" ⟨1, 31⟩)
              (.unary .minus (.literal "2.5" ⟨1, 36⟩) ⟨1, 35⟩) ⟨1, 33⟩)
            ⟨1, 29⟩)
          ⟨1, 28⟩,
        .string "'\"'" ⟨1, 42⟩]
        ⟨1, 26⟩)]
    ⟨1, 1⟩]

theorem Program.parse_scan_render_signed :
    signed.render =
      "for ( return - a ; ; ; b ++ ) " ++
        "\x7b f ( ! ( - ( 1 - ( - 2.5 ) ) ) , '\"' ) ; \x7d ; " ∧
    Program.Formed signed ∧
    ∃ q, Program.parse (Token.scan signed.render) = .ok q ∧
      q.unplaced = signed.unplaced := by
  have hParse :
      Program.parse
          (Token.scan
            "for (return -a;;; b++) \x7b f(!-(1 - -2.5), '\"') \x7d") =
        .ok signed := by
    cbv
  have hFormed : Program.Formed signed :=
    Program.formed_of_parse hParse
  exact ⟨by decide, hFormed, Program.parse_scan_render hFormed⟩

end StackScript
