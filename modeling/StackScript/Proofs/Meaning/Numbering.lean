import StackScript.Proofs.Emission.Derivation
import StackScript.Proofs.Meaning.Evaluate

/-
  How functions are numbered.

  Functions are marked in the order in which their
  declarations end, so that the functions of a program, and
  those within each of them, have numbers in a row.

  Key theorems include:
    * `Stmt.Emits.numbers`
    * `Stmt.Emits.mark_lt`
-/

namespace StackScript

------------------------------------------------------------
-- Marks
------------------------------------------------------------

mutual

/- Expressions make no functions. -/
theorem Expr.Emits.numbers
    {start : Nat}
    {keep : Bool}
    {e : Expr}
    {s t : Fresh}
    {c : Code}
    (h : Expr.Emits start keep e s c t) :
    t.routines = s.routines := by
  cases h with
  | literal => rfl
  | string => rfl
  | «variable» => rfl
  | binary _ hLeft hRight =>
      exact hRight.numbers.trans hLeft.numbers
  | both hLeft hRight =>
      exact hRight.numbers.trans hLeft.numbers
  | either hLeft hRight =>
      exact hRight.numbers.trans hLeft.numbers
  | plus hArgument => exact hArgument.numbers
  | stepped => rfl
  | unary _ _ _ hArgument => exact hArgument.numbers
  | keptPost => rfl
  | droppedPost => rfl
  | assignment hValue => exact hValue.numbers
  | call hArguments => exact hArguments.numbers

/- Nor do expressions in a row. -/
theorem Expr.EmitsAll.numbers
    {start : Nat}
    {es : List Expr}
    {s t : Fresh}
    {c : Code}
    (h : Expr.EmitsAll start es s c t) :
    t.routines = s.routines := by
  cases h with
  | nil => rfl
  | cons hFirst hOthers =>
      exact hOthers.numbers.trans hFirst.numbers

end

theorem Expr.EmitsTest.numbers
    {start leave : Nat}
    {condition : Option Expr}
    {s t : Fresh}
    {c : Code}
    (h : Expr.EmitsTest start leave condition s c t) :
    t.routines = s.routines := by
  cases h with
  | missing => rfl
  | present hTest => exact hTest.numbers

theorem Expr.EmitsUpdate.numbers
    {start : Nat}
    {update : Option Expr}
    {s t : Fresh}
    {c : Code}
    (h : Expr.EmitsUpdate start update s c t) :
    t.routines = s.routines := by
  cases h with
  | missing => rfl
  | present hUpdate => exact hUpdate.numbers

mutual

/- A statement makes as many functions as it declares. -/
theorem Stmt.Emits.numbers
    {start : Nat}
    {loop : Option Loop}
    {stmt : Stmt}
    {s t : Fresh}
    {c : Code}
    (h : Stmt.Emits start loop stmt s c t) :
    t.routines = s.routines + stmt.functions := by
  cases h with
  | expr hExpr => exact hExpr.numbers
  | declare => rfl
  | define hValue => exact hValue.numbers
  | function hBody =>
      rw [Stmt.functions, ← Nat.add_assoc, ← hBody.numbers]
      rfl
  | retNull => rfl
  | ret hValue => exact hValue.numbers
  | ifThen hTest hBody =>
      rw [Stmt.functions, hBody.numbers, hTest.numbers]
  | ifElse hTest hBody hOther =>
      rw [Stmt.functions, hOther.numbers, hBody.numbers,
        hTest.numbers, Nat.add_assoc]
  | whileLoop hTest hBody _ =>
      rw [Stmt.functions, hBody.numbers, hTest.numbers]
  | forLoop hInitial _ hTest hBody _ hUpdate _ =>
      rw [Stmt.functions, hUpdate.numbers, hBody.numbers,
        hTest.numbers, hInitial.numbers, Nat.add_assoc]
  | breakLoop => rfl
  | continueLoop => rfl

/- Statements in a row do, too. -/
theorem Stmt.EmitsAll.numbers
    {start : Nat}
    {loop : Option Loop}
    {stmts : List Stmt}
    {s t : Fresh}
    {c : Code}
    (h : Stmt.EmitsAll start loop stmts s c t) :
    t.routines = s.routines + Stmt.functionsAll stmts := by
  cases h with
  | nil => rfl
  | cons hFirst hOthers =>
      rw [Stmt.functionsAll, hOthers.numbers, hFirst.numbers,
        Nat.add_assoc]

end

mutual

/- The functions that a statement pushes have used numbers. -/
theorem Stmt.Emits.mark_lt
    {start : Nat}
    {loop : Option Loop}
    {stmt : Stmt}
    {s t : Fresh}
    {c : Code}
    (h : Stmt.Emits start loop stmt s c t) :
    ∀ r ∈ c.routines, r.mark < t.routines := by
  intro r hr
  cases h with
  | expr hExpr => simp [hExpr.routines_eq_nil] at hr
  | declare => simp at hr
  | define hValue => simp [hValue.routines_eq_nil] at hr
  | function hBody =>
      simp only [Code.routines_append, Code.routines_named,
        Code.routines_pushed_routine, List.nil_append,
        List.append_nil, List.mem_singleton] at hr
      rw [hr]
      exact Nat.lt_succ_self _
  | retNull => simp at hr
  | ret hValue => simp [hValue.routines_eq_nil] at hr
  | ifThen hTest hBody =>
      exact hBody.mark_lt r (by
        simpa [hTest.routines_eq_nil] using hr)
  | ifElse hTest hBody hOther =>
      simp only [Code.routines_append, hTest.routines_eq_nil,
        Code.routines_jump, Code.routines_scoped,
        List.nil_append, List.append_nil, List.mem_append] at hr
      rcases hr with hr | hr
      · have hLess := hBody.mark_lt r hr
        have hMore := hOther.numbers
        omega
      · exact hOther.mark_lt r hr
  | whileLoop hTest hBody _ =>
      exact hBody.mark_lt r (by
        simpa [hTest.routines_eq_nil] using hr)
  | forLoop hInitial _ hTest hBody _ hUpdate _ =>
      simp only [Code.routines_append, Code.routines_bare,
        hTest.routines_eq_nil, hUpdate.routines_eq_nil,
        Code.routines_jump, Code.routines_scoped,
        List.nil_append, List.append_nil, List.mem_append] at hr
      have hTestSame := hTest.numbers
      have hLastSame := hUpdate.numbers
      rcases hr with hr | hr
      · have hLess := hInitial.mark_lt r hr
        have hMore := hBody.numbers
        omega
      · have hLess := hBody.mark_lt r hr
        omega
  | breakLoop => simp at hr
  | continueLoop => simp at hr

/- So do those that statements in a row push. -/
theorem Stmt.EmitsAll.mark_lt
    {start : Nat}
    {loop : Option Loop}
    {stmts : List Stmt}
    {s t : Fresh}
    {c : Code}
    (h : Stmt.EmitsAll start loop stmts s c t) :
    ∀ r ∈ c.routines, r.mark < t.routines := by
  intro r hr
  cases h with
  | nil => cases hr
  | cons hFirst hOthers =>
      rw [Code.routines_append, List.mem_append] at hr
      rcases hr with hr | hr
      · have hLess := hFirst.mark_lt r hr
        have hMore := hOthers.numbers
        omega
      · exact hOthers.mark_lt r hr

end

end StackScript
