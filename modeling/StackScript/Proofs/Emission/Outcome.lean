import StackScript.Proofs.Emission.Patching
import StackScript.Proofs.Emission.Exits
import StackScript.Proofs.Grammar.Forms

/-
  Which programs have code.

  Of what the making of code can refuse, a program that was
  read from a text can hold one thing: a `break` or a
  `continue` that no loop of its function surrounds. The
  first of them in the text is the one that is reported.

  Key definitions include:
    * `Emit.Meets`
    * `Stmt.signatures`

  Key theorems include:
    * `Expr.emit_meets`
    * `Stmt.emit_meets`
    * `build_eq_error_iff`
-/

namespace StackScript

------------------------------------------------------------
-- Outcomes of Making Code
------------------------------------------------------------

namespace Emit

variable {α β : Type}
variable {x : Emit α}
variable {f : α → Emit β}

/-
  Code is made, or if an exit is met, its error is raised,
  whatever the fresh numbers are.
-/
def Meets
    (x : Emit α) :
    Option Exit → Prop
| none => ∀ s, ∃ a t, x s = .ok a t
| some e => ∀ s, ∃ t, x s = .error e.error t

theorem meets_pure (a : α) : Meets (pure a) none :=
  fun s => ⟨a, s, rfl⟩

theorem bind_of_ok
    {a : α}
    {s t : Fresh}
    (h : x s = .ok a t) :
    (x >>= f) s = f a t := by
  change EStateM.bind x f s = _
  unfold EStateM.bind
  rw [h]

theorem bind_of_error
    {error : CompileError}
    {s t : Fresh}
    (h : x s = .error error t) :
    (x >>= f) s = .error error t := by
  change EStateM.bind x f s = _
  unfold EStateM.bind
  rw [h]

/- Of two parts, the first that meets an exit raises it. -/
theorem Meets.bind
    {first second : Option Exit}
    (hFirst : x.Meets first)
    (hThen : ∀ a, (f a).Meets second) :
    (x >>= f).Meets (first.or second) := by
  cases first with
  | some e =>
      intro s
      rcases hFirst s with ⟨t, hError⟩
      exact ⟨t, bind_of_error hError⟩
  | none =>
      cases second with
      | none =>
          intro s
          rcases hFirst s with ⟨a, t, hOk⟩
          rw [bind_of_ok hOk]
          exact hThen a t
      | some e =>
          intro s
          rcases hFirst s with ⟨a, t, hOk⟩
          rw [bind_of_ok hOk]
          exact hThen a t

/- A part that meets nothing leaves the outcome to the other. -/
theorem Meets.andThen
    {exit : Option Exit}
    (hFirst : x.Meets none)
    (hThen : ∀ a, (f a).Meets exit) :
    (x >>= f).Meets exit :=
  hFirst.bind hThen

theorem Meets.before
    {exit : Option Exit}
    (hFirst : x.Meets exit)
    (hThen : ∀ a, (f a).Meets none) :
    (x >>= f).Meets exit := by
  have hBoth := hFirst.bind hThen
  rwa [Option.or_none] at hBoth

/- What is done with the code meets nothing. -/
theorem Meets.finish
    {exit : Option Exit}
    {g : α → β}
    (h : x.Meets exit) :
    (do return g (← x)).Meets exit :=
  h.before fun a => meets_pure (g a)

theorem meets_temporary : Emit.temporary.Meets none :=
  fun _ => ⟨_, _, rfl⟩

theorem meets_mark : Emit.mark.Meets none :=
  fun _ => ⟨_, _, rfl⟩

end Emit

------------------------------------------------------------
-- Expressions
------------------------------------------------------------

theorem Operator.binaryOp?_of_mem
    {operator : Operator}
    (h : operator ∈ Operator.binaries) :
    ∃ op, operator.binaryOp? = some op := by
  have hAll :
      ∀ operator ∈ Operator.binaries,
        operator.binaryOp?.isSome = true := by
    decide
  exact Option.isSome_iff_exists.1 (hAll operator h)

theorem Operator.eq_of_mem_logicals
    {operator : Operator}
    (h : operator ∈ Operator.logicals) :
    operator = .and ∨ operator = .or := by
  simpa [Operator.logicals] using h

theorem Operator.isStep_of_mem
    {operator : Operator}
    (h : operator ∈ Operator.steps) :
    operator.isStep = true := by
  have hAll : ∀ operator ∈ Operator.steps, operator.isStep = true := by
    decide
  exact hAll operator h

/- A sign is dropped or has an operation of its own. -/
theorem Operator.unaryOp?_of_mem
    {operator : Operator}
    (h : operator ∈ Operator.signs) :
    operator = .plus ∨
      operator ≠ .plus ∧ operator.isStep = false ∧
        ∃ op, operator.unaryOp? = some op := by
  have hAll :
      ∀ operator ∈ Operator.signs,
        operator = .plus ∨
          operator ≠ .plus ∧ operator.isStep = false ∧
            operator.unaryOp?.isSome = true := by
    decide
  simpa only [Option.isSome_iff_exists] using hAll operator h

/- A variable can be stepped. -/
theorem Expr.meets_updateTarget
    (e : Expr)
    (operator : Operator)
    (h : e.name?.isSome = true) :
    (e.updateTarget operator).Meets none := by
  rcases Option.isSome_iff_exists.1 h with ⟨name, hName⟩
  unfold Expr.updateTarget
  rw [hName]
  exact Emit.meets_pure name

open Emit

mutual

/- An expression of a form that the language has has code. -/
theorem Expr.emit_meets
    (e : Expr)
    (h : e.Formed)
    (start : Nat)
    (keep : Bool) :
    (e.emit start keep).Meets none := by
  match e with
  | .literal text place =>
      have hNumber : Token.IsNumber text.toList := h
      rcases Option.isSome_iff_exists.1 hNumber.isSome_ofText? with
        ⟨c, hText⟩
      rw [Expr.emit, hText]
      exact meets_pure _
  | .string text place =>
      rw [Expr.emit]
      exact meets_pure _
  | .variable name place =>
      rw [Expr.emit]
      exact meets_pure _
  | .binary operator a b place =>
      rcases h with ⟨hOperator, hLeft, hRight⟩
      rcases Operator.binaryOp?_of_mem hOperator with ⟨op, hOp⟩
      rw [Expr.emit, hOp]
      apply (a.emit_meets hLeft start true).andThen
      intro left
      exact (b.emit_meets hRight _ true).finish
  | .logical operator a b place =>
      rcases h with ⟨hOperator, hLeft, hRight⟩
      rcases Operator.eq_of_mem_logicals hOperator with rfl | rfl
      · rw [Expr.emit]
        apply (a.emit_meets hLeft start true).andThen
        intro left
        exact (b.emit_meets hRight _ true).finish
      · rw [Expr.emit]
        apply (a.emit_meets hLeft start true).andThen
        intro left
        exact (b.emit_meets hRight _ true).finish
  | .unary operator a place =>
      rcases h with ⟨hSign | ⟨hMem, hTarget⟩, hArgument⟩
      · rcases Operator.unaryOp?_of_mem hSign with
          rfl | ⟨hPlus, hStep, op, hOp⟩
        · rw [Expr.emit, if_pos rfl]
          exact a.emit_meets hArgument start keep
        · rw [Expr.emit, if_neg hPlus, if_neg (by simp [hStep]), hOp]
          exact (a.emit_meets hArgument start true).finish
      · have hStep := Operator.isStep_of_mem hMem
        have hPlus : operator ≠ .plus := by
          rintro rfl
          cases hStep
        rw [Expr.emit, if_neg hPlus, if_pos hStep]
        exact (a.meets_updateTarget operator hTarget).finish
  | .post operator a place =>
      rcases h with ⟨hMem, hTarget, hArgument⟩
      rw [Expr.emit, if_pos (Operator.isStep_of_mem hMem)]
      apply (a.meets_updateTarget operator hTarget).andThen
      intro name
      split
      · exact meets_temporary.finish
      · exact meets_pure _
  | .assignment name value place =>
      rw [Expr.emit]
      exact (value.emit_meets h.2 start true).finish
  | .call name arguments place =>
      rw [Expr.emit]
      exact (Expr.emitAll_meets arguments h.2 start).finish

theorem Expr.emitAll_meets
    (es : List Expr)
    (h : Expr.FormedAll es)
    (start : Nat) :
    (Expr.emitAll start es).Meets none := by
  match es with
  | [] =>
      rw [Expr.emitAll]
      exact meets_pure _
  | e :: es =>
      rw [Expr.emitAll]
      apply (e.emit_meets h.1 start true).andThen
      intro first
      exact (Expr.emitAll_meets es h.2 _).finish

end

------------------------------------------------------------
-- Statements
------------------------------------------------------------

/- An optional expression has code. -/
theorem Expr.emitOption_meets
    {e : Option Expr}
    {missing : Code}
    {emit : Expr → Emit Code}
    (h : Expr.FormedOption e)
    (hEmit : ∀ e : Expr, e.Formed → (emit e).Meets none) :
    (emitOption missing emit e).Meets none := by
  cases e with
  | none => exact meets_pure missing
  | some e => exact hEmit e h

mutual

/-
  The code of a statement is made unless one of its exits is
  stray, and the first such is raised.
-/
theorem Stmt.emit_meets
    (stmt : Stmt)
    (h : stmt.Formed)
    (start : Nat)
    (loop : Option Loop) :
    (stmt.emit start loop).Meets
      ((stmt.exits loop.isSome).find? Exit.stray) := by
  match stmt with
  | .expr e =>
      rw [Stmt.emit]
      exact e.emit_meets h start false
  | .declare name place =>
      rw [Stmt.emit]
      exact meets_pure _
  | .define name value place =>
      rw [Stmt.emit]
      exact (value.emit_meets h.2 _ true).finish
  | .function name parameters body place =>
      -- The loops around a function do not enclose its body.
      rw [Stmt.emit, Stmt.exits]
      apply (Stmt.emitAll_meets body h.2.2.2 0 none).before
      intro code
      exact meets_mark.finish
  | .ret argument place =>
      rw [Stmt.emit]
      exact (Expr.emitOption_meets h fun e hFormed =>
        e.emit_meets hFormed start true).finish
  | .ifThen condition body place =>
      rw [Stmt.emit, Stmt.exits]
      apply (condition.emit_meets h.1 start true).andThen
      intro test
      have hBody :=
        Stmt.emitAll_meets body h.2 (start + test.length + 3)
          (loop.map .enter)
      rw [Option.isSome_map] at hBody
      exact hBody.finish
  | .ifElse condition body otherwise place =>
      rw [Stmt.emit, Stmt.exits, List.find?_append]
      rcases h with ⟨hCondition, hFirst, hSecond⟩
      apply (condition.emit_meets hCondition start true).andThen
      intro test
      have hBody :=
        Stmt.emitAll_meets body hFirst (start + test.length + 3)
          (loop.map .enter)
      rw [Option.isSome_map] at hBody
      apply hBody.bind
      intro code
      have hOther :=
        Stmt.emitAll_meets otherwise hSecond
          (start + test.length + 2 + code.length + 5)
          (loop.map .enter)
      rw [Option.isSome_map] at hOther
      exact hOther.finish
  | .whileLoop condition body place =>
      rw [Stmt.emit, Stmt.exits]
      apply (condition.emit_meets h.1 start true).andThen
      intro test
      exact (Stmt.emitAll_meets body h.2 _ (some _)).finish
  | .forLoop initial condition update body place =>
      rw [Stmt.emit, Stmt.exits, List.find?_append]
      rcases h with ⟨hInitial, hCondition, hUpdate, hBody⟩
      -- What it does first leaves the loop around it, if any.
      have hFirst :=
        initial.emit_meets hInitial (start + 1) (loop.map .enter)
      rw [Option.isSome_map] at hFirst
      apply hFirst.bind
      intro first
      dsimp only
      have hTest :
          ∀ again leave,
            (emitOption []
              (fun e => do
                let code ← e.emit again true
                return code ++ Code.jump .jz leave)
              condition).Meets none :=
        fun again leave =>
          Expr.emitOption_meets hCondition fun e hFormed =>
            (e.emit_meets hFormed again true).finish
      apply (hTest _ _).andThen
      intro test
      apply (Stmt.emitAll_meets body hBody _ (some _)).before
      intro code
      exact (Expr.emitOption_meets hUpdate fun e hFormed =>
        e.emit_meets hFormed _ false).finish
  | .breakLoop place =>
      cases loop with
      | none => exact fun s => ⟨s, rfl⟩
      | some l => exact meets_pure _
  | .continueLoop place =>
      cases loop with
      | none => exact fun s => ⟨s, rfl⟩
      | some l => exact meets_pure _

theorem Stmt.emitAll_meets
    (stmts : List Stmt)
    (h : Stmt.FormedAll stmts)
    (start : Nat)
    (loop : Option Loop) :
    (Stmt.emitAll start loop stmts).Meets
      ((Stmt.exitsAll loop.isSome stmts).find? Exit.stray) := by
  match stmts with
  | [] =>
      rw [Stmt.emitAll]
      exact meets_pure _
  | s :: ss =>
      rw [Stmt.emitAll, Stmt.exitsAll, List.find?_append]
      apply (s.emit_meets h.1 start loop).bind
      intro first
      exact (Stmt.emitAll_meets ss h.2 _ loop).finish

end

------------------------------------------------------------
-- Parameters
------------------------------------------------------------

mutual

/- The parameters of the functions in a statement, at any depth. -/
def Stmt.signatures : Stmt → List (List String)
| .function _ parameters body _ =>
    parameters :: Stmt.signaturesAll body
| .ifThen _ body _ | .whileLoop _ body _ => Stmt.signaturesAll body
| .ifElse _ body otherwise _ =>
    Stmt.signaturesAll body ++ Stmt.signaturesAll otherwise
| .forLoop initial _ _ body _ =>
    initial.signatures ++ Stmt.signaturesAll body
| .expr _ | .declare .. | .define .. | .ret .. => []
| .breakLoop _ | .continueLoop _ => []

/- The parameters of the functions in some statements. -/
def Stmt.signaturesAll : List Stmt → List (List String)
| [] => []
| s :: ss => s.signatures ++ Stmt.signaturesAll ss

end

mutual

/- No function has two parameters of one name. -/
theorem Stmt.nodup_of_mem_signatures
    (stmt : Stmt)
    (h : stmt.Formed) :
    ∀ names ∈ stmt.signatures, names.Nodup := by
  intro names hMem
  match stmt with
  | .function name parameters body place =>
      rcases List.mem_cons.1 hMem with rfl | hMore
      · exact h.2.2.1
      · exact Stmt.nodup_of_mem_signaturesAll body h.2.2.2 names hMore
  | .ifThen condition body place =>
      exact Stmt.nodup_of_mem_signaturesAll body h.2 names hMem
  | .ifElse condition body otherwise place =>
      rcases List.mem_append.1 hMem with hFirst | hSecond
      · exact Stmt.nodup_of_mem_signaturesAll body h.2.1 names hFirst
      · exact Stmt.nodup_of_mem_signaturesAll otherwise h.2.2 names
          hSecond
  | .whileLoop condition body place =>
      exact Stmt.nodup_of_mem_signaturesAll body h.2 names hMem
  | .forLoop initial condition update body place =>
      rcases List.mem_append.1 hMem with hFirst | hSecond
      · exact initial.nodup_of_mem_signatures h.1 names hFirst
      · exact Stmt.nodup_of_mem_signaturesAll body h.2.2.2 names
          hSecond
  | .expr _ | .declare .. | .define .. | .ret .. => cases hMem
  | .breakLoop _ | .continueLoop _ => cases hMem

theorem Stmt.nodup_of_mem_signaturesAll
    (stmts : List Stmt)
    (h : Stmt.FormedAll stmts) :
    ∀ names ∈ Stmt.signaturesAll stmts, names.Nodup := by
  intro names hMem
  match stmts with
  | [] => cases hMem
  | s :: ss =>
      rcases List.mem_append.1 hMem with hFirst | hSecond
      · exact s.nodup_of_mem_signatures h.1 names hFirst
      · exact Stmt.nodup_of_mem_signaturesAll ss h.2 names hSecond

end

------------------------------------------------------------
-- Programs
------------------------------------------------------------

/- The code of a program is made unless an exit is stray. -/
theorem Program.compile_meets
    {p : Program}
    (h : Program.Formed p) :
    p.compile.Meets p.stray? := by
  rw [p.compile_eq]
  exact (Stmt.emitAll_meets p h 0 none).finish

/-
  A text that is read as a program becomes code unless a
  `break` or a `continue` stands in no loop of its function,
  and then the first of them in the text is reported. No
  function has two parameters of one name.
-/
theorem build_eq_error_iff
    {source : String}
    {p : Program}
    (h : Program.parse (Token.scan source) = .ok p)
    (routines : Nat) :
    (∀ error,
      (build routines source).1 = .error error ↔
        ∃ x, p.stray? = some x ∧ error = .compile x.error) ∧
    p.exits.map Exit.mark = Token.exits (Token.scan source) ∧
    ∀ names ∈ Stmt.signaturesAll p, names.Nodup := by
  have hFormed := Program.formed_of_parse h
  refine ⟨?_, ?_, Stmt.nodup_of_mem_signaturesAll p hFormed⟩
  · have hMeets := Program.compile_meets hFormed
    unfold build
    rw [h]
    dsimp only
    cases hStray : p.stray? with
    | none =>
        rw [hStray] at hMeets
        rcases hMeets ⟨0, routines⟩ with ⟨code, t, hOk⟩
        rw [hOk]
        simp
    | some x =>
        rw [hStray] at hMeets
        rcases hMeets ⟨0, routines⟩ with ⟨t, hError⟩
        rw [hError]
        simp [eq_comm]
  · rcases Program.run_of_parse h with ⟨after, hRun⟩
    exact (Parser.derives_of_statements hRun).marks_exits false

/- A text whose function leaves, where it sets up a loop, the one outside. -/
def leavingText : String :=
  "while (1) \x7b function f(a, b) \x7b for (break; ; ) \x7b continue \x7d \x7d \x7d"

/- The tree of that text. -/
def leavingTree : Program :=
  [.whileLoop (.literal "1" ⟨1, 8⟩)
    [.function "f" ["a", "b"]
      [.forLoop (.breakLoop ⟨1, 37⟩) none none
        [.continueLoop ⟨1, 50⟩] ⟨1, 32⟩]
      ⟨1, 13⟩]
    ⟨1, 1⟩]

/-
  The `break` is stray, as a loop around a function does not
  count and the loop that it sets up does not either.
-/
theorem build_eq_error_iff_leaving :
    Program.parse (Token.scan leavingText) = .ok leavingTree ∧
    leavingTree.exits = [⟨true, ⟨1, 37⟩, false⟩, ⟨false, ⟨1, 50⟩, true⟩] ∧
    (build 0 leavingText).1 =
      .error (.compile (.breakOutsideLoop ⟨1, 37⟩)) := by
  have hParse :
      Program.parse (Token.scan leavingText) = .ok leavingTree := by
    cbv
  have hExits :
      leavingTree.exits =
        [⟨true, ⟨1, 37⟩, false⟩, ⟨false, ⟨1, 50⟩, true⟩] := by
    decide
  refine ⟨hParse, hExits, ?_⟩
  apply ((build_eq_error_iff hParse 0).1 _).2
  exact ⟨⟨true, ⟨1, 37⟩, false⟩, by decide, rfl⟩

end StackScript
