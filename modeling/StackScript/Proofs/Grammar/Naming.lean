import StackScript.Proofs.Grammar.Forms
import StackScript.Proofs.Meaning.Hidden

/-
  Names in texts are not hidden ones.

  A hidden name has a dollar in it, which no name that is
  read from a text has. So the names in a program that is
  read never clash with those of hidden variables.

  Key theorems include:
    * `FreeName.plain`
    * `Program.plain_of_parse`
-/

namespace StackScript

------------------------------------------------------------
-- Names
------------------------------------------------------------

namespace Token

theorem IsNameTail.dollar_not_mem
    {cs : List Char}
    (h : IsNameTail cs) :
    '$' ∉ cs := by
  induction h with
  | nil => exact List.not_mem_nil
  | word hWord _ ih =>
      rw [List.mem_cons, not_or]
      refine ⟨?_, ih⟩
      rintro rfl
      exact absurd hWord (by decide)
  | point _ _ ih =>
      rw [List.mem_cons, not_or]
      exact ⟨by decide, ih⟩

theorem IsName.dollar_not_mem
    {cs : List Char}
    (h : IsName cs) :
    '$' ∉ cs := by
  cases cs with
  | nil => exact h.elim
  | cons c cs =>
      rw [List.mem_cons, not_or]
      refine ⟨?_, h.2.dollar_not_mem⟩
      rintro rfl
      exact absurd h.1 (by decide)

end Token

/- A name that is read does not start like a hidden one. -/
theorem FreeName.plain
    {name : String}
    (h : FreeName name) :
    ¬ hiddenStart <+: name.toList := by
  intro hStart
  have hDollar : '$' ∈ hiddenStart := by decide
  exact h.1.dollar_not_mem (hStart.subset hDollar)

------------------------------------------------------------
-- Trees
------------------------------------------------------------

theorem plain_singleton {name : String} :
    Plain [name] ↔ ¬ hiddenStart <+: name.toList := by
  rw [plain_cons]
  exact and_iff_left nofun

mutual

theorem Expr.Formed.plain
    {e : Expr}
    (h : e.Formed) :
    Plain e.identifiers := by
  match e with
  | .literal .. | .string .. => exact nofun
  | .variable name _ => exact plain_singleton.2 (FreeName.plain h)
  | .binary _ a b _ | .logical _ a b _ =>
      exact plain_append.2 ⟨h.2.1.plain, h.2.2.plain⟩
  | .unary _ a _ => exact h.2.plain
  | .post _ a _ => exact h.2.2.plain
  | .assignment name value _ =>
      exact plain_cons.2 ⟨h.1.plain, h.2.plain⟩
  | .call name arguments _ =>
      exact plain_cons.2 ⟨h.1.plain, Expr.plain_of_formedAll h.2⟩

theorem Expr.plain_of_formedAll
    {es : List Expr}
    (h : Expr.FormedAll es) :
    Plain (Expr.identifiersAll es) := by
  match es with
  | [] => exact nofun
  | e :: es =>
      exact plain_append.2 ⟨h.1.plain, Expr.plain_of_formedAll h.2⟩

end

theorem Expr.plain_of_formedOption
    {e? : Option Expr}
    (h : Expr.FormedOption e?) :
    Plain (Expr.identifiersIn e?) := by
  cases e? with
  | none => exact nofun
  | some e => exact Expr.Formed.plain h

mutual

theorem Stmt.Formed.plain
    {s : Stmt}
    (h : s.Formed) :
    Plain s.identifiers := by
  match s with
  | .expr e => exact Expr.Formed.plain h
  | .declare name _ => exact plain_singleton.2 (FreeName.plain h)
  | .define name value _ =>
      exact plain_cons.2 ⟨h.1.plain, h.2.plain⟩
  | .function name parameters body _ =>
      have hParameters : Plain parameters :=
        fun parameter hMem => (h.2.1 parameter hMem).plain
      exact plain_cons.2 ⟨h.1.plain,
        plain_append.2 ⟨hParameters, Stmt.plain_of_formedAll h.2.2.2⟩⟩
  | .ret argument _ => exact Expr.plain_of_formedOption h
  | .ifThen condition body _ | .whileLoop condition body _ =>
      exact plain_append.2 ⟨h.1.plain, Stmt.plain_of_formedAll h.2⟩
  | .ifElse condition body otherwise _ =>
      exact plain_append.2
        ⟨plain_append.2 ⟨h.1.plain, Stmt.plain_of_formedAll h.2.1⟩,
          Stmt.plain_of_formedAll h.2.2⟩
  | .forLoop initial condition update body _ =>
      rcases h with ⟨hInitial, hCondition, hUpdate, hBody⟩
      have hFirst := plain_append.2
        ⟨hInitial.plain, Expr.plain_of_formedOption hCondition⟩
      exact plain_append.2
        ⟨plain_append.2 ⟨hFirst, Expr.plain_of_formedOption hUpdate⟩,
          Stmt.plain_of_formedAll hBody⟩
  | .breakLoop _ | .continueLoop _ => exact nofun

theorem Stmt.plain_of_formedAll
    {ss : List Stmt}
    (h : Stmt.FormedAll ss) :
    Plain (Stmt.identifiersAll ss) := by
  match ss with
  | [] => exact nofun
  | s :: ss =>
      exact plain_append.2 ⟨h.1.plain, Stmt.plain_of_formedAll h.2⟩

end

/- The names in a program that is read from a text are plain. -/
theorem Program.plain_of_parse
    {source : String}
    {p : Program}
    (h : Program.parse (Token.scan source) = .ok p) :
    Plain (Stmt.identifiersAll p) :=
  Stmt.plain_of_formedAll (Program.formed_of_parse h)

end StackScript
