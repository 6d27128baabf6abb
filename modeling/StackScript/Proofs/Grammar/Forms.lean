import StackScript.Proofs.Grammar.Statement
import StackScript.Proofs.Token.Lexemes

/-
  The forms of the trees that are read from a text.

  A tree can hold any text as a literal or a name and any
  operator anywhere. In the trees that come from a text,
  literals are numbers, names are names and every operator
  is in a position where the language has it.

  Key definitions include:
    * `Expr.Formed`
    * `Stmt.Formed`
    * `Program.Formed`

  Key theorems include:
    * `Program.formed_of_parse`
-/

namespace StackScript

------------------------------------------------------------
-- Forms
------------------------------------------------------------

/- The operators between two operands. -/
def Operator.binaries : List Operator :=
  [.add, .sub, .mul, .div, .mod, .eq, .ne, .lt, .gt, .le, .ge]

/- The operators between two conditions. -/
def Operator.logicals : List Operator :=
  [.and, .or]

/- A name that is no keyword. -/
def FreeName (name : String) : Prop :=
  Token.Spells .identifier name.toList

mutual

/- An expression of a form that the language has. -/
def Expr.Formed : Expr → Prop
| .literal text _ => Token.Spells .literal text.toList
| .string text _ => Token.Spells .stringLiteral text.toList
| .variable name _ => FreeName name
| .binary operator a b _ =>
    operator ∈ Operator.binaries ∧ a.Formed ∧ b.Formed
| .logical operator a b _ =>
    operator ∈ Operator.logicals ∧ a.Formed ∧ b.Formed
| .unary operator a _ =>
    (operator ∈ Operator.signs ∨
      operator ∈ Operator.steps ∧ a.name?.isSome = true) ∧ a.Formed
| .post operator a _ =>
    operator ∈ Operator.steps ∧ a.name?.isSome = true ∧ a.Formed
| .assignment name value _ => FreeName name ∧ value.Formed
| .call name arguments _ =>
    FreeName name ∧ Expr.FormedAll arguments

/- Expressions of forms that the language has. -/
def Expr.FormedAll : List Expr → Prop
| [] => True
| e :: es => e.Formed ∧ Expr.FormedAll es

end

/- An expression of such a form, if there is one. -/
def Expr.FormedOption : Option Expr → Prop
| none => True
| some e => e.Formed

mutual

/- A statement of a form that the language has. -/
def Stmt.Formed : Stmt → Prop
| .expr e => e.Formed
| .declare name _ => FreeName name
| .define name value _ => FreeName name ∧ value.Formed
| .function name parameters body _ =>
    FreeName name ∧ (∀ p ∈ parameters, FreeName p) ∧
      parameters.Nodup ∧ Stmt.FormedAll body
| .ret argument _ => Expr.FormedOption argument
| .ifThen condition body _ =>
    condition.Formed ∧ Stmt.FormedAll body
| .ifElse condition body otherwise _ =>
    condition.Formed ∧ Stmt.FormedAll body ∧
      Stmt.FormedAll otherwise
| .whileLoop condition body _ =>
    condition.Formed ∧ Stmt.FormedAll body
| .forLoop initial condition update body _ =>
    initial.Formed ∧ Expr.FormedOption condition ∧
      Expr.FormedOption update ∧ Stmt.FormedAll body
| .breakLoop _ | .continueLoop _ => True

/- Statements of forms that the language has. -/
def Stmt.FormedAll : List Stmt → Prop
| [] => True
| s :: ss => s.Formed ∧ Stmt.FormedAll ss

end

/- A program of a form that the language has. -/
def Program.Formed (p : Program) : Prop :=
  Stmt.FormedAll p

------------------------------------------------------------
-- Forms of What Is Derived
------------------------------------------------------------

/- A token is a word of its kind, if that is known. -/
def Token.Spelled (t : Token) : Prop :=
  t.kind ≠ .unknown → Token.Spells t.kind t.text.toList

theorem Token.Spelled.spells
    {t : Token}
    {kind : Token.Kind}
    (h : t.Spelled)
    (hKind : t.kind = kind)
    (hKnown : kind ≠ .unknown) :
    Token.Spells kind t.text.toList := by
  subst hKind
  exact h hKnown

/- The operators of the strata are those between operands. -/
theorem Level.mem_logicals_of_rightward
    {level : Level}
    {operator : Operator}
    (h : operator ∈ level.rightward) :
    operator ∈ Operator.logicals := by
  have hAll :
      ∀ level : Level, ∀ operator ∈ level.rightward,
        operator ∈ Operator.logicals := by
    intro level
    cases level <;> decide
  exact hAll level operator h

theorem Level.mem_binaries_of_leftward
    {level : Level}
    {operator : Operator}
    (h : operator ∈ level.leftward) :
    operator ∈ Operator.binaries := by
  have hAll :
      ∀ level : Level, ∀ operator ∈ level.leftward,
        operator ∈ Operator.binaries := by
    intro level
    cases level <;> decide
  exact hAll level operator h

theorem Operator.mem_binaries_of_compounds
    {text : String}
    {base : Operator}
    (h : (text, base) ∈ Operator.compounds) :
    base ∈ Operator.binaries := by
  have hAll :
      ∀ pair ∈ Operator.compounds, pair.2 ∈ Operator.binaries := by
    decide
  exact hAll _ h

mutual

theorem Expr.Derives.formed :
    ∀ {level : Level} {ts : List Token} {e : Expr},
      Expr.Derives level ts e → (∀ t ∈ ts, t.Spelled) → e.Formed
| _, _, _, .tighter hNext, hSpelled => hNext.formed hSpelled
| _, _, _, .assign hTarget _ hValue, hSpelled =>
    ⟨hTarget.formed fun u hu => hSpelled u (by simp [hu]),
      hValue.formed fun u hu => hSpelled u (by simp [hu])⟩
| _, _, _, .compound hTarget hBase _ hValue, hSpelled => by
    have hName := hTarget.formed fun u hu => hSpelled u (by simp [hu])
    exact ⟨hName, Operator.mem_binaries_of_compounds hBase, hName,
      hValue.formed fun u hu => hSpelled u (by simp [hu])⟩
| _, _, _, .rightward hOperator hLeft _ hRight, hSpelled =>
    ⟨Level.mem_logicals_of_rightward hOperator,
      hLeft.formed fun u hu => hSpelled u (by simp [hu]),
      hRight.formed fun u hu => hSpelled u (by simp [hu])⟩
| _, _, _, .leftward hOperator hLeft _ hRight, hSpelled =>
    ⟨Level.mem_binaries_of_leftward hOperator,
      hLeft.formed fun u hu => hSpelled u (by simp [hu]),
      hRight.formed fun u hu => hSpelled u (by simp [hu])⟩
| _, _, _, .sign hOperator _ hArgument, hSpelled =>
    ⟨.inl hOperator,
      hArgument.formed fun u hu => hSpelled u (by simp [hu])⟩
| _, _, _, .stepBefore hOperator _ hTarget, hSpelled =>
    ⟨.inr ⟨hOperator, rfl⟩,
      hTarget.formed fun u hu => hSpelled u (by simp [hu])⟩
| _, _, _, .stepAfter hOperator hTarget _, hSpelled =>
    ⟨hOperator, rfl,
      hTarget.formed fun u hu => hSpelled u (by simp [hu])⟩
| _, _, _, .literal hKind, hSpelled =>
    (hSpelled _ List.mem_cons_self).spells hKind nofun
| _, _, _, .string hKind, hSpelled =>
    (hSpelled _ List.mem_cons_self).spells hKind nofun
| _, _, _, .variable hKind, hSpelled =>
    (hSpelled _ List.mem_cons_self).spells hKind nofun
| _, _, _, .group _ hInner _, hSpelled =>
    hInner.formed fun u hu => hSpelled u (by simp [hu])
| _, _, _, .emptyCall hKind _ _, hSpelled =>
    ⟨(hSpelled _ List.mem_cons_self).spells hKind nofun, trivial⟩
| _, _, _, .call hKind _ hArguments _, hSpelled =>
    ⟨(hSpelled _ List.mem_cons_self).spells hKind nofun,
      hArguments.formed fun u hu => hSpelled u (by simp [hu])⟩

theorem Expr.DerivesList.formed :
    ∀ {ts : List Token} {es : List Expr},
      Expr.DerivesList ts es → (∀ t ∈ ts, t.Spelled) →
        Expr.FormedAll es
| _, _, .one hFirst, hSpelled =>
    ⟨hFirst.formed hSpelled, trivial⟩
| _, _, .more hFirst _ hOthers, hSpelled =>
    ⟨hFirst.formed fun u hu => hSpelled u (by simp [hu]),
      hOthers.formed fun u hu => hSpelled u (by simp [hu])⟩

end

theorem Expr.DerivesOption.formed
    {ts : List Token}
    {e : Option Expr}
    (h : Expr.DerivesOption ts e)
    (hSpelled : ∀ t ∈ ts, t.Spelled) :
    Expr.FormedOption e := by
  cases h with
  | none => trivial
  | some h => exact h.formed hSpelled

theorem DerivesNames.formed
    {ts : List Token}
    {names : List String}
    (h : DerivesNames ts names)
    (hSpelled : ∀ t ∈ ts, t.Spelled) :
    ∀ name ∈ names, FreeName name := by
  induction h with
  | one hKind =>
      intro name hMem
      rw [List.mem_singleton.1 hMem]
      exact (hSpelled _ List.mem_cons_self).spells hKind nofun
  | more hKind _ _ ih =>
      intro name hMem
      rcases List.mem_cons.1 hMem with rfl | hMore
      · exact (hSpelled _ List.mem_cons_self).spells hKind nofun
      · exact ih (fun u hu => hSpelled u (by simp [hu])) name hMore

theorem DerivesParameters.formed
    {ts : List Token}
    {names : List String}
    (h : DerivesParameters ts names)
    (hSpelled : ∀ t ∈ ts, t.Spelled) :
    (∀ name ∈ names, FreeName name) ∧ names.Nodup := by
  refine ⟨?_, h.2⟩
  rcases h.1 with ⟨_, rfl⟩ | hNames
  · exact nofun
  · exact hNames.formed hSpelled

mutual

theorem Stmt.Derives.formed :
    ∀ {ts : List Token} {s : Stmt},
      Stmt.Derives ts s → (∀ t ∈ ts, t.Spelled) → s.Formed
| _, _, .expr h, hSpelled => h.formed hSpelled
| _, _, .declare _ hKind, hSpelled =>
    (hSpelled _ (by simp)).spells hKind nofun
| _, _, .define (t := t) _ hKind _ hValue, hSpelled =>
    ⟨(hSpelled t (by simp)).spells hKind nofun,
      hValue.formed fun u hu => hSpelled u (by simp [hu])⟩
| _, _, .ifThen _ _ hCondition _ hBody, hSpelled =>
    ⟨hCondition.formed fun u hu => hSpelled u (by simp [hu]),
      hBody.formed fun u hu => hSpelled u (by simp [hu])⟩
| _, _, .ifElse _ _ hCondition _ hBody _ hOther, hSpelled =>
    ⟨hCondition.formed fun u hu => hSpelled u (by simp [hu]),
      hBody.formed fun u hu => hSpelled u (by simp [hu]),
      hOther.formed fun u hu => hSpelled u (by simp [hu])⟩
| _, _, .whileLoop _ _ hCondition _ hBody, hSpelled =>
    ⟨hCondition.formed fun u hu => hSpelled u (by simp [hu]),
      hBody.formed fun u hu => hSpelled u (by simp [hu])⟩
| _, _, .forLoop _ _ hInitial _ hCondition _ hUpdate _ hBody,
    hSpelled =>
    ⟨hInitial.formed fun u hu => hSpelled u (by simp [hu]),
      hCondition.formed fun u hu => hSpelled u (by simp [hu]),
      hUpdate.formed fun u hu => hSpelled u (by simp [hu]),
      hBody.formed fun u hu => hSpelled u (by simp [hu])⟩
| _, _, .function (t := t) _ hKind _ hParameters _ hBody,
    hSpelled => by
    have hNames :=
      hParameters.formed fun u hu => hSpelled u (by simp [hu])
    exact ⟨(hSpelled t (by simp)).spells hKind nofun, hNames.1,
      hNames.2, hBody.formed fun u hu => hSpelled u (by simp [hu])⟩
| _, _, .ret _ hArgument _, hSpelled =>
    hArgument.formed fun u hu => hSpelled u (by simp [hu])
| _, _, .breakLoop _, _ => trivial
| _, _, .continueLoop _, _ => trivial

theorem Stmt.DerivesOther.formed :
    ∀ {ts : List Token} {body : List Stmt},
      Stmt.DerivesOther ts body → (∀ t ∈ ts, t.Spelled) →
        Stmt.FormedAll body
| _, _, .block h, hSpelled => h.formed hSpelled
| _, _, .chained _ h, hSpelled => ⟨h.formed hSpelled, trivial⟩

theorem Stmt.DerivesBlock.formed :
    ∀ {ts : List Token} {body : List Stmt},
      Stmt.DerivesBlock ts body → (∀ t ∈ ts, t.Spelled) →
        Stmt.FormedAll body
| _, _, .braces _ hItems _, hSpelled =>
    hItems.formed fun u hu => hSpelled u (by simp [hu])

theorem Stmt.DerivesItems.formed :
    ∀ {ts : List Token} {body : List Stmt},
      Stmt.DerivesItems ts body → (∀ t ∈ ts, t.Spelled) →
        Stmt.FormedAll body
| _, _, .nil, _ => trivial
| _, _, .empty _ hOthers, hSpelled =>
    hOthers.formed fun u hu => hSpelled u (by simp [hu])
| _, _, .cons hFirst hOthers, hSpelled =>
    ⟨hFirst.formed fun u hu => hSpelled u (by simp [hu]),
      hOthers.formed fun u hu => hSpelled u (by simp [hu])⟩

end

/- A program that is read from a text is of such a form. -/
theorem Program.formed_of_parse
    {source : String}
    {p : Program}
    (h : Program.parse (Token.scan source) = .ok p) :
    Program.Formed p := by
  rcases run_of_parse h with ⟨after, hRun⟩
  exact (Parser.derives_of_statements hRun).formed fun _ hMem =>
    Token.spells_of_mem_scan hMem

end StackScript
