import StackScript.Proofs.Grammar.Statement

/-
  Programs consist of known tokens.

  A token of an unknown kind belongs to no form of the
  grammar, so a text that is read as a program has none: all
  its quotes are closed and all its characters are of use.

  Key definitions include:
    * `Token.AllKnown`

  Key theorems include:
    * `Program.allKnown_of_parse`
-/

namespace StackScript

/- All tokens of a list are of known kinds. -/
def Token.AllKnown (ts : List Token) : Prop :=
  ∀ t ∈ ts, t.kind ≠ .unknown

namespace Token

variable {t : Token}
variable {ts us : List Token}

theorem allKnown_nil : AllKnown [] :=
  nofun

theorem allKnown_cons :
    AllKnown (t :: ts) ↔ t.kind ≠ .unknown ∧ AllKnown ts :=
  List.forall_mem_cons

theorem allKnown_append :
    AllKnown (ts ++ us) ↔ AllKnown ts ∧ AllKnown us :=
  List.forall_mem_append

/- What has some kind is of a known one. -/
theorem known_of_kind
    {kind : Kind}
    (h : t.kind = kind)
    (hKind : kind ≠ .unknown) :
    t.kind ≠ .unknown := by
  rwa [h]

theorem known_of_is
    {kind : Kind}
    {text : String}
    (h : t.is kind text = true)
    (hKind : kind ≠ .unknown) :
    t.kind ≠ .unknown := by
  unfold Token.is at h
  rw [Bool.and_eq_true, beq_iff_eq] at h
  exact known_of_kind h.1 hKind

theorem known_operator
    {text : String}
    (h : t.isOperator text = true) :
    t.kind ≠ .unknown :=
  known_of_is h nofun

theorem known_separator
    {text : String}
    (h : t.isSeparator text = true) :
    t.kind ≠ .unknown :=
  known_of_is h nofun

theorem known_keyword
    {text : String}
    (h : t.isKeyword text = true) :
    t.kind ≠ .unknown :=
  known_of_is h nofun

end Token

open Token

------------------------------------------------------------
-- Expressions
------------------------------------------------------------

mutual

theorem Expr.Derives.allKnown :
    ∀ {level : Level} {ts : List Token} {e : Expr},
      Expr.Derives level ts e → AllKnown ts
| _, _, _, .tighter hNext => hNext.allKnown
| _, _, _, .assign hTarget hEquals hValue
| _, _, _, .compound hTarget _ hEquals hValue =>
    allKnown_append.2 ⟨hTarget.allKnown,
      allKnown_cons.2 ⟨known_operator hEquals, hValue.allKnown⟩⟩
| _, _, _, .rightward _ hLeft hToken hRight
| _, _, _, .leftward _ hLeft hToken hRight =>
    allKnown_append.2 ⟨hLeft.allKnown,
      allKnown_cons.2 ⟨known_operator hToken, hRight.allKnown⟩⟩
| _, _, _, .sign _ hToken hArgument
| _, _, _, .stepBefore _ hToken hArgument =>
    allKnown_cons.2 ⟨known_operator hToken, hArgument.allKnown⟩
| _, _, _, .stepAfter _ hTarget hToken =>
    allKnown_append.2 ⟨hTarget.allKnown,
      allKnown_cons.2 ⟨known_operator hToken, allKnown_nil⟩⟩
| _, _, _, .literal hKind
| _, _, _, .string hKind
| _, _, _, .variable hKind =>
    allKnown_cons.2 ⟨known_of_kind hKind nofun, allKnown_nil⟩
| _, _, _, .group hOpen hInner hClose =>
    allKnown_cons.2 ⟨known_operator hOpen,
      allKnown_append.2 ⟨hInner.allKnown,
        allKnown_cons.2 ⟨known_operator hClose, allKnown_nil⟩⟩⟩
| _, _, _, .emptyCall hKind hOpen hClose =>
    allKnown_cons.2 ⟨known_of_kind hKind nofun,
      allKnown_cons.2 ⟨known_operator hOpen,
        allKnown_cons.2 ⟨known_operator hClose, allKnown_nil⟩⟩⟩
| _, _, _, .call hKind hOpen hArguments hClose =>
    allKnown_cons.2 ⟨known_of_kind hKind nofun,
      allKnown_cons.2 ⟨known_operator hOpen,
        allKnown_append.2 ⟨hArguments.allKnown,
          allKnown_cons.2 ⟨known_operator hClose, allKnown_nil⟩⟩⟩⟩

theorem Expr.DerivesList.allKnown :
    ∀ {ts : List Token} {es : List Expr},
      Expr.DerivesList ts es → AllKnown ts
| _, _, .one hFirst => hFirst.allKnown
| _, _, .more hFirst hComma hOthers =>
    allKnown_append.2 ⟨hFirst.allKnown,
      allKnown_cons.2 ⟨known_separator hComma, hOthers.allKnown⟩⟩

end

theorem Expr.DerivesOption.allKnown
    {ts : List Token}
    {e : Option Expr}
    (h : Expr.DerivesOption ts e) :
    AllKnown ts := by
  cases h with
  | none => exact allKnown_nil
  | some h => exact h.allKnown

------------------------------------------------------------
-- Statements
------------------------------------------------------------

theorem DerivesNames.allKnown
    {ts : List Token}
    {names : List String}
    (h : DerivesNames ts names) :
    AllKnown ts := by
  induction h with
  | one hKind =>
      exact allKnown_cons.2 ⟨known_of_kind hKind nofun, allKnown_nil⟩
  | more hKind hComma _ ih =>
      exact allKnown_cons.2 ⟨known_of_kind hKind nofun,
        allKnown_cons.2 ⟨known_separator hComma, ih⟩⟩

theorem DerivesParameters.allKnown
    {ts : List Token}
    {names : List String}
    (h : DerivesParameters ts names) :
    AllKnown ts := by
  rcases h.1 with ⟨rfl, _⟩ | hNames
  · exact allKnown_nil
  · exact hNames.allKnown

mutual

theorem Stmt.Derives.allKnown :
    ∀ {ts : List Token} {s : Stmt}, Stmt.Derives ts s → AllKnown ts
| _, _, .expr h => h.allKnown
| _, _, .declare hNew hKind =>
    allKnown_cons.2 ⟨known_keyword hNew,
      allKnown_cons.2 ⟨known_of_kind hKind nofun, allKnown_nil⟩⟩
| _, _, .define hNew hKind hEquals hValue =>
    allKnown_cons.2 ⟨known_keyword hNew,
      allKnown_cons.2 ⟨known_of_kind hKind nofun,
        allKnown_cons.2 ⟨known_operator hEquals, hValue.allKnown⟩⟩⟩
| _, _, .ifThen hWord hOpen hCondition hClose hBody
| _, _, .whileLoop hWord hOpen hCondition hClose hBody => by
    simp only [List.cons_append, allKnown_cons, allKnown_append]
    exact ⟨known_keyword hWord, known_operator hOpen,
      hCondition.allKnown, known_operator hClose, hBody.allKnown⟩
| _, _, .ifElse hIf hOpen hCondition hClose hBody hElse hOther => by
    simp only [List.cons_append, allKnown_cons, allKnown_append]
    exact ⟨known_keyword hIf, known_operator hOpen,
      ⟨hCondition.allKnown, known_operator hClose, hBody.allKnown⟩,
      known_keyword hElse, hOther.allKnown⟩
| _, _, .forLoop hFor hOpen hInitial hFirst hCondition hSecond hUpdate
    hClose hBody => by
    simp only [List.cons_append, allKnown_cons, allKnown_append]
    exact ⟨known_keyword hFor, known_operator hOpen,
      ⟨⟨hInitial.allKnown, known_separator hFirst,
        hCondition.allKnown⟩, known_separator hSecond,
        hUpdate.allKnown⟩, known_operator hClose, hBody.allKnown⟩
| _, _, .function hFunction hKind hOpen hParameters hClose hBody => by
    simp only [List.cons_append, allKnown_cons, allKnown_append]
    exact ⟨known_keyword hFunction, known_of_kind hKind nofun,
      known_operator hOpen, hParameters.allKnown,
      known_operator hClose, hBody.allKnown⟩
| _, _, .ret hReturn hArgument hEnd =>
    allKnown_cons.2 ⟨known_keyword hReturn,
      allKnown_append.2 ⟨hArgument.allKnown,
        allKnown_cons.2 ⟨known_separator hEnd, allKnown_nil⟩⟩⟩
| _, _, .breakLoop hWord
| _, _, .continueLoop hWord =>
    allKnown_cons.2 ⟨known_keyword hWord, allKnown_nil⟩

theorem Stmt.DerivesOther.allKnown :
    ∀ {ts : List Token} {body : List Stmt},
      Stmt.DerivesOther ts body → AllKnown ts
| _, _, .block h => h.allKnown
| _, _, .chained _ h => h.allKnown

theorem Stmt.DerivesBlock.allKnown :
    ∀ {ts : List Token} {body : List Stmt},
      Stmt.DerivesBlock ts body → AllKnown ts
| _, _, .braces hOpen hItems hClose =>
    allKnown_cons.2 ⟨known_operator hOpen,
      allKnown_append.2 ⟨hItems.allKnown,
        allKnown_cons.2 ⟨known_operator hClose, allKnown_nil⟩⟩⟩

theorem Stmt.DerivesItems.allKnown :
    ∀ {ts : List Token} {body : List Stmt},
      Stmt.DerivesItems ts body → AllKnown ts
| _, _, .nil => allKnown_nil
| _, _, .empty hEmpty hOthers =>
    allKnown_cons.2 ⟨known_separator hEmpty, hOthers.allKnown⟩
| _, _, .cons hFirst hOthers =>
    allKnown_append.2 ⟨hFirst.allKnown, hOthers.allKnown⟩

end

------------------------------------------------------------
-- Programs
------------------------------------------------------------

/- Tokens that are read as a program are all known. -/
theorem Program.allKnown_of_parse
    {ts : List Token}
    {p : Program}
    (h : Program.parse ts = .ok p) :
    AllKnown ts := by
  rcases run_of_parse h with ⟨after, hRun⟩
  exact (Parser.derives_of_statements hRun).allKnown

end StackScript
