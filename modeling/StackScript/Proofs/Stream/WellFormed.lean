import StackScript.Proofs.Stream.Splitting

/-
  Compiled streams are well formed.

  The stream that a program is compiled to, and the stream
  of every function in it, splits into instructions, and
  every jump in it, also one that is never taken, leads to
  the start of one of them.

  The argument goes in two passes over the rules of code.
  The first says that code is a row of whole instructions,
  so that positions behind pieces of it are starts. With
  that the second finds each jump target among the starts;
  where a statement stands in a loop, the two targets of the
  loop are known to be starts already.

  Main declarations:
    * `Stmt.Emits.laid`
    * `Stmt.Emits.lands`
    * `Code.Contains.built`
    * `Program.wellFormed_of_compile`
-/

namespace StackScript
namespace Code

------------------------------------------------------------
-- First Pass: Code Is Whole Instructions
------------------------------------------------------------

theorem laid_bare
    {o : Op}
    (h : o.arity = 0) :
    Laid (bare o) :=
  .single (single_bare h)

theorem laid_named
    {o : Op}
    {name : String}
    (h : o = .load ∨ o = .store ∨ o = .alloc) :
    Laid (named o name) :=
  .single (single_named h)

theorem laid_pushed (c : Constant) :
    Laid (pushed c) :=
  .single (single_pushed c)

theorem laid_jump
    {o : Op}
    {target : Nat}
    (h : o = .jmp ∨ o = .jz) :
    Laid (jump o target) :=
  .single (single_jump h)

/- A row stays one with a conditional jump behind it. -/
theorem Laid.thenTest
    {c : Code}
    (h : Laid c)
    (target : Nat) :
    Laid (c ++ jump .jz target) :=
  h.join (laid_jump (.inr rfl))

/- A row stays one with a jump behind it. -/
theorem Laid.thenJump
    {c : Code}
    (h : Laid c)
    (target : Nat) :
    Laid (c ++ jump .jmp target) :=
  h.join (laid_jump (.inl rfl))

theorem laid_pushIf
    (keep : Bool)
    (c : Constant) :
    Laid (pushIf keep c) := by
  cases keep with
  | true => exact laid_pushed c
  | false => exact .nil

theorem laid_dropUnless (keep : Bool) :
    Laid (dropUnless keep) := by
  cases keep with
  | true => exact .nil
  | false => exact laid_bare rfl

theorem laid_loadIf
    (keep : Bool)
    (name : String) :
    Laid (loadIf keep name) := by
  cases keep with
  | true => exact laid_named (.inl rfl)
  | false => exact .nil

theorem laid_step
    (operator : Operator)
    (name : String) :
    Laid (step operator name) := by
  have hOp : (stepOp operator).arity = 0 := by
    unfold stepOp
    split <;> rfl
  exact (((laid_named (.inl rfl)).join (laid_pushed _)).join
    (laid_bare hOp)).join (laid_named (.inr (.inl rfl)))

theorem laid_stepKeepingOld
    (operator : Operator)
    (name hidden : String) :
    Laid (stepKeepingOld operator name hidden) :=
  ((((((laid_bare rfl).join
    (laid_named (.inr (.inr rfl)))).join
    (laid_named (.inl rfl))).join
    (laid_named (.inr (.inl rfl)))).join
    (laid_step operator name)).join
    (laid_named (.inl rfl))).join (laid_bare rfl)

theorem laid_both
    (start : Nat)
    {left right : Code}
    (hLeft : Laid left)
    (hRight : Laid right) :
    Laid (both start left right) :=
  (((((hLeft.thenTest _).join
    hRight).thenTest _).join
    (laid_pushed _)).thenJump _).join
    (laid_pushed _)

theorem laid_either
    (start : Nat)
    {left right : Code}
    (hLeft : Laid left)
    (hRight : Laid right) :
    Laid (either start left right) :=
  (((((((hLeft.thenTest _).join
    (laid_pushed _)).thenJump _).join
    hRight).thenTest _).join
    (laid_pushed _)).thenJump _).join
    (laid_pushed _)

theorem laid_scoped
    {body : Code}
    (hBody : Laid body) :
    Laid (Code.scoped body) :=
  ((laid_bare rfl).join hBody).join (laid_bare rfl)

/- The closings of scopes in front of a jump are whole. -/
theorem laid_exit
    (l : Loop)
    (target : Nat) :
    Laid (exit l target) := by
  unfold exit
  refine .join ?_ (laid_jump (.inl rfl))
  induction l.opened with
  | zero => exact .nil
  | succ n ih =>
      rw [List.replicate_succ, List.flatten_cons]
      exact (laid_bare rfl).join ih

end Code

/- Operations between two operands have no operand words. -/
theorem Operator.arity_of_binaryOp?
    {operator : Operator}
    {op : Op}
    (h : operator.binaryOp? = some op) :
    op.arity = 0 := by
  cases operator <;> cases h <;> rfl

/- Operations on one operand have no operand words. -/
theorem Operator.arity_of_unaryOp?
    {operator : Operator}
    {op : Op}
    (h : operator.unaryOp? = some op) :
    op.arity = 0 := by
  cases operator <;> cases h <;> rfl

mutual

/- The code of an expression is a row of whole instructions. -/
theorem Expr.Emits.laid
    {start : Nat}
    {keep : Bool}
    {e : Expr}
    {s t : Fresh}
    {c : Code}
    (h : Expr.Emits start keep e s c t) :
    Code.Laid c := by
  cases h with
  | literal => exact Code.laid_pushIf _ _
  | string => exact Code.laid_pushIf _ _
  | «variable» =>
      exact (Code.laid_named (.inl rfl)).join
        (Code.laid_dropUnless _)
  | binary hOp hLeft hRight =>
      have hBare :=
        Code.laid_bare (Operator.arity_of_binaryOp? hOp)
      exact ((hLeft.laid.join hRight.laid).join hBare).join
        (Code.laid_dropUnless _)
  | both hLeft hRight =>
      exact (Code.laid_both _ hLeft.laid hRight.laid).join
        (Code.laid_dropUnless _)
  | either hLeft hRight =>
      exact (Code.laid_either _ hLeft.laid hRight.laid).join
        (Code.laid_dropUnless _)
  | plus hArgument => exact hArgument.laid
  | stepped =>
      exact (Code.laid_step _ _).join (Code.laid_loadIf _ _)
  | unary _ _ hOp hArgument =>
      have hBare :=
        Code.laid_bare (Operator.arity_of_unaryOp? hOp)
      exact (hArgument.laid.join hBare).join
        (Code.laid_dropUnless _)
  | keptPost => exact Code.laid_stepKeepingOld _ _ _
  | droppedPost => exact Code.laid_step _ _
  | assignment hValue =>
      exact (hValue.laid.join
        (Code.laid_named (.inr (.inl rfl)))).join
        (Code.laid_loadIf _ _)
  | call hArguments =>
      exact (hArguments.laid.join
        (.single (Code.single_called _ _))).join
        (Code.laid_dropUnless _)

/- So is that of expressions in a row. -/
theorem Expr.EmitsAll.laid
    {start : Nat}
    {es : List Expr}
    {s t : Fresh}
    {c : Code}
    (h : Expr.EmitsAll start es s c t) :
    Code.Laid c := by
  cases h with
  | nil => exact .nil
  | cons hFirst hOthers => exact hFirst.laid.join hOthers.laid

end

/- The test of a loop is a row of whole instructions. -/
theorem Expr.EmitsTest.laid
    {start leave : Nat}
    {condition : Option Expr}
    {s t : Fresh}
    {c : Code}
    (h : Expr.EmitsTest start leave condition s c t) :
    Code.Laid c := by
  cases h with
  | missing => exact .nil
  | present hTest =>
      exact hTest.laid.thenTest _

/- The update of a loop is a row of whole instructions. -/
theorem Expr.EmitsUpdate.laid
    {start : Nat}
    {update : Option Expr}
    {s t : Fresh}
    {c : Code}
    (h : Expr.EmitsUpdate start update s c t) :
    Code.Laid c := by
  cases h with
  | missing => exact .nil
  | present hUpdate => exact hUpdate.laid

mutual

/- The code of a statement is a row of whole instructions. -/
theorem Stmt.Emits.laid
    {start : Nat}
    {loop : Option Loop}
    {stmt : Stmt}
    {s t : Fresh}
    {c : Code}
    (h : Stmt.Emits start loop stmt s c t) :
    Code.Laid c := by
  cases h with
  | expr hExpr => exact hExpr.laid
  | declare => exact Code.laid_named (.inr (.inr rfl))
  | define hValue =>
      exact ((Code.laid_named (.inr (.inr rfl))).join
        hValue.laid).join (Code.laid_named (.inr (.inl rfl)))
  | function _ =>
      exact ((Code.laid_named (.inr (.inr rfl))).join
        (Code.laid_pushed _)).join
        (Code.laid_named (.inr (.inl rfl)))
  | retNull =>
      exact (Code.laid_pushed _).join (Code.laid_bare rfl)
  | ret hValue => exact hValue.laid.join (Code.laid_bare rfl)
  | ifThen hTest hBody =>
      exact (hTest.laid.thenTest _).join
        (Code.laid_scoped hBody.laid)
  | ifElse hTest hBody hOther =>
      exact (((hTest.laid.thenTest _).join
        (Code.laid_scoped hBody.laid)).thenJump _).join
        (Code.laid_scoped hOther.laid)
  | whileLoop hTest hBody _ =>
      exact ((hTest.laid.thenTest _).join
        (Code.laid_scoped hBody.laid)).thenJump _
  | forLoop hInitial _ hTest hBody _ hUpdate _ =>
      have hOpen : Code.Laid (Code.bare .pushScope) :=
        Code.laid_bare rfl
      exact (((((hOpen.join hInitial.laid).join hTest.laid).join
        (Code.laid_scoped hBody.laid)).join
        hUpdate.laid).thenJump _).join
        (Code.laid_bare rfl)
  | breakLoop => exact Code.laid_exit _ _
  | continueLoop => exact Code.laid_exit _ _

/- So is that of statements in a row. -/
theorem Stmt.EmitsAll.laid
    {start : Nat}
    {loop : Option Loop}
    {stmts : List Stmt}
    {s t : Fresh}
    {c : Code}
    (h : Stmt.EmitsAll start loop stmts s c t) :
    Code.Laid c := by
  cases h with
  | nil => exact .nil
  | cons hFirst hOthers => exact hFirst.laid.join hOthers.laid

end

------------------------------------------------------------
-- Second Pass: Jumps Lead to Starts
------------------------------------------------------------

namespace Code

@[simp]
theorem targets_append (c d : Code) :
    (c ++ d : Code).targets = c.targets ++ d.targets :=
  List.filterMap_append

@[simp]
theorem targets_bare (o : Op) :
    (bare o).targets = [] := rfl

@[simp]
theorem targets_named
    (o : Op)
    (name : String) :
    (named o name).targets = [] := rfl

@[simp]
theorem targets_pushed (c : Constant) :
    (pushed c).targets = [] := rfl

@[simp]
theorem targets_jump
    (o : Op)
    (target : Nat) :
    (jump o target).targets = [target] := rfl

@[simp]
theorem targets_called
    (name : String)
    (arguments : Nat) :
    (called name arguments).targets = [] := rfl

@[simp]
theorem targets_pushIf
    (keep : Bool)
    (c : Constant) :
    (pushIf keep c).targets = [] := by
  cases keep <;> rfl

@[simp]
theorem targets_dropUnless (keep : Bool) :
    (dropUnless keep).targets = [] := by
  cases keep <;> rfl

@[simp]
theorem targets_loadIf
    (keep : Bool)
    (name : String) :
    (loadIf keep name).targets = [] := by
  cases keep <;> rfl

@[simp]
theorem targets_step
    (operator : Operator)
    (name : String) :
    (step operator name).targets = [] := rfl

@[simp]
theorem targets_stepKeepingOld
    (operator : Operator)
    (name hidden : String) :
    (stepKeepingOld operator name hidden).targets = [] := rfl

/- The jumps of a conjunction, in order. -/
theorem targets_both
    (start : Nat)
    (left right : Code) :
    (both start left right).targets =
      left.targets ++
        (start + left.length + right.length + 8) ::
          (right.targets ++
            [start + left.length + right.length + 8,
             start + left.length + right.length + 10]) := by
  simp [both]

/- The jumps of a disjunction, in order. -/
theorem targets_either
    (start : Nat)
    (left right : Code) :
    (either start left right).targets =
      left.targets ++
        (start + left.length + 6) ::
          (start + left.length + 6 + right.length + 8) ::
          (right.targets ++
            [start + left.length + 6 + right.length + 6,
             start + left.length + 6 + right.length + 8]) := by
  simp [either]

@[simp]
theorem targets_scoped (body : Code) :
    (Code.scoped body).targets = body.targets := by
  simp [Code.scoped]

@[simp]
theorem targets_exit
    (l : Loop)
    (target : Nat) :
    (exit l target).targets = [target] := by
  have hPops (n : Nat) :
      targets (List.replicate n (bare .popScope)).flatten = [] := by
    induction n with
    | zero => rfl
    | succ n ih =>
        rw [List.replicate_succ, List.flatten_cons, targets_append,
          ih]
        rfl
  simp [exit, hPops]

/-
  A position is a start, and not behind the last position of
  the statements; the stream has one instruction more there.
-/
def Lands
    (code : Code)
    (last t : Nat) : Prop :=
  code.Starts t ∧ t ≤ last

theorem Lands.congr
    {code : Code}
    {last t t' : Nat}
    (h : code.Lands last t)
    (hEq : t' = t) :
    code.Lands last t' := by
  rw [hEq]
  exact h

/- The body of a block behind some instructions, and its start. -/
theorem Starts.block
    {code front body : Code}
    {start : Nat}
    (hStart : code.Starts start)
    (inner : Nat)
    (hAt : code.Holds start (front ++ Code.scoped body))
    (hFront : Laid front)
    (hInner : inner = start + front.length + 1) :
    code.Holds inner body ∧ code.Starts inner := by
  have hBlock := hAt.right rfl
  refine ⟨hBlock.left.right (by simpa using hInner), ?_⟩
  have hOpen : Laid (bare .pushScope) := laid_bare rfl
  have hMiddle := hStart.across hAt.left hFront rfl
  exact hMiddle.across hBlock.left.left hOpen
    (by simpa using hInner)

section Conditions

variable {code left right : Code}
variable {last start : Nat}

/- The jumps of a conjunction lead to starts if its operands' do. -/
theorem lands_both
    (hAt : code.Holds start (both start left right))
    (hStart : code.Starts start)
    (hLast : start + left.length + right.length + 10 ≤ last)
    (hLaidLeft : Laid left)
    (hLaidRight : Laid right)
    (hLeft :
      code.Holds start left → ∀ x ∈ left.targets, code.Lands last x)
    (hRight :
      code.Holds (start + left.length + 2) right →
        code.Starts (start + left.length + 2) →
          ∀ x ∈ right.targets, code.Lands last x) :
    ∀ x ∈ (both start left right).targets, code.Lands last x := by
  have hEnd :
      code.Starts (start + left.length + right.length + 10) :=
    hStart.across hAt (laid_both start hLaidLeft hLaidRight)
      (by simp; omega)
  unfold both at hAt
  dsimp only at hAt
  have hFront := hAt.left
  have hAtRight :
      code.Holds (start + left.length + 2) right :=
    hFront.left.left.left.right (by simp; omega)
  have hMiddle : code.Starts (start + left.length + 2) :=
    hStart.across hFront.left.left.left.left
      (hLaidLeft.thenTest _) (by simp; omega)
  have hFails :
      code.Starts (start + left.length + right.length + 8) :=
    hStart.across hFront
      (((((hLaidLeft.thenTest _).join
        hLaidRight).thenTest _).join
        (laid_pushed _)).thenJump _)
      (by simp; omega)
  intro x hx
  simp only [targets_both, List.mem_append, List.mem_cons,
    List.not_mem_nil, or_false] at hx
  rcases hx with hx | rfl | hx | rfl | rfl
  · exact hLeft hFront.left.left.left.left.left x hx
  · exact ⟨hFails, by omega⟩
  · exact hRight hAtRight hMiddle x hx
  · exact ⟨hFails, by omega⟩
  · exact ⟨hEnd, hLast⟩

/- So do the jumps of a disjunction. -/
theorem lands_either
    (hAt : code.Holds start (either start left right))
    (hStart : code.Starts start)
    (hLast : start + left.length + 6 + right.length + 8 ≤ last)
    (hLaidLeft : Laid left)
    (hLaidRight : Laid right)
    (hLeft :
      code.Holds start left → ∀ x ∈ left.targets, code.Lands last x)
    (hRight :
      code.Holds (start + left.length + 6) right →
        code.Starts (start + left.length + 6) →
          ∀ x ∈ right.targets, code.Lands last x) :
    ∀ x ∈ (either start left right).targets, code.Lands last x := by
  have hEnd :
      code.Starts (start + left.length + 6 + right.length + 8) :=
    hStart.across hAt (laid_either start hLaidLeft hLaidRight)
      (by simp; omega)
  unfold either at hAt
  dsimp only at hAt
  have hFront := hAt.left
  have hSplit := hFront.left.left.left
  have hLaidSecond :
      Laid
        (left ++ jump .jz (start + left.length + 6)
          ++ pushed (.number .one)
          ++ jump .jmp
            (start + left.length + 6 + right.length + 6 + 2)) :=
    ((hLaidLeft.thenTest _).join (laid_pushed _)).thenJump _
  have hAtRight :
      code.Holds (start + left.length + 6) right :=
    hSplit.right (by simp; omega)
  have hSecond : code.Starts (start + left.length + 6) :=
    hStart.across hSplit.left hLaidSecond (by simp; omega)
  have hFails :
      code.Starts (start + left.length + 6 + right.length + 6) :=
    hStart.across hFront
      ((((hLaidSecond.join hLaidRight).thenTest _).join
        (laid_pushed _)).thenJump _)
      (by simp; omega)
  intro x hx
  simp only [targets_either, List.mem_append, List.mem_cons,
    List.not_mem_nil, or_false] at hx
  rcases hx with hx | rfl | rfl | hx | rfl | rfl
  · exact hLeft hSplit.left.left.left.left x hx
  · exact ⟨hSecond, by omega⟩
  · exact ⟨hEnd, hLast⟩
  · exact hRight hAtRight hSecond x hx
  · exact ⟨hFails, by omega⟩
  · exact ⟨hEnd, hLast⟩

end Conditions

end Code

mutual

/- Every jump in the code of an expression leads to a start. -/
theorem Expr.Emits.lands
    {code : Code}
    {last start : Nat}
    {keep : Bool}
    {e : Expr}
    {s t : Fresh}
    {c : Code}
    (h : Expr.Emits start keep e s c t)
    (hAt : code.Holds start c)
    (hStart : code.Starts start)
    (hLast : start + c.length ≤ last) :
    ∀ x ∈ c.targets, code.Lands last x := by
  intro x hx
  cases h with
  | literal => simp at hx
  | string => simp at hx
  | «variable» => simp at hx
  | @binary _ _ _ _ _ _ _ _ _ left right _ _ hLeft hRight =>
      simp only [List.length_append] at hLast
      have hAtLeft := hAt.left.left.left
      have hAtRight := hAt.left.left.right rfl
      have hMiddle := hStart.across hAtLeft hLeft.laid rfl
      rcases (by simpa using hx :
        x ∈ left.targets ∨ x ∈ right.targets) with hx | hx
      · exact hLeft.lands hAtLeft hStart (by omega) x hx
      · exact hRight.lands hAtRight hMiddle (by omega) x hx
  | @both _ _ _ _ _ _ _ _ left right hLeft hRight =>
      simp only [List.length_append, Code.length_both] at hLast
      rw [Code.targets_append, Code.targets_dropUnless,
        List.append_nil] at hx
      exact Code.lands_both hAt.left hStart (by omega) hLeft.laid
        hRight.laid
        (fun hAt => hLeft.lands hAt hStart (by omega))
        (fun hAt hStart => hRight.lands hAt hStart (by omega)) x hx
  | @either _ _ _ _ _ _ _ _ left right hLeft hRight =>
      simp only [List.length_append, Code.length_either] at hLast
      rw [Code.targets_append, Code.targets_dropUnless,
        List.append_nil] at hx
      exact Code.lands_either hAt.left hStart (by omega) hLeft.laid
        hRight.laid
        (fun hAt => hLeft.lands hAt hStart (by omega))
        (fun hAt hStart => hRight.lands hAt hStart (by omega)) x hx
  | plus hArgument =>
      exact hArgument.lands hAt hStart hLast x hx
  | stepped => simp at hx
  | unary _ _ _ hArgument =>
      simp only [List.length_append] at hLast
      exact hArgument.lands hAt.left.left hStart (by omega) x
        (by simpa using hx)
  | keptPost => simp at hx
  | droppedPost => simp at hx
  | assignment hValue =>
      simp only [List.length_append] at hLast
      exact hValue.lands hAt.left.left hStart (by omega) x
        (by simpa using hx)
  | call hArguments =>
      simp only [List.length_append] at hLast
      exact hArguments.lands hAt.left.left hStart (by omega) x
        (by simpa using hx)

/- So does every jump in the code of expressions in a row. -/
theorem Expr.EmitsAll.lands
    {code : Code}
    {last start : Nat}
    {es : List Expr}
    {s t : Fresh}
    {c : Code}
    (h : Expr.EmitsAll start es s c t)
    (hAt : code.Holds start c)
    (hStart : code.Starts start)
    (hLast : start + c.length ≤ last) :
    ∀ x ∈ c.targets, code.Lands last x := by
  intro x hx
  cases h with
  | nil => simp [Code.targets] at hx
  | cons hFirst hOthers =>
      simp only [List.length_append] at hLast
      have hMiddle := hStart.across hAt.left hFirst.laid rfl
      rw [Code.targets_append, List.mem_append] at hx
      rcases hx with hx | hx
      · exact hFirst.lands hAt.left hStart (by omega) x hx
      · exact hOthers.lands (hAt.right rfl) hMiddle
          (by omega) x hx

end

/- The jump of a loop's test leads where the test itself does. -/
theorem Expr.EmitsTest.lands
    {code : Code}
    {last start leave : Nat}
    {condition : Option Expr}
    {s t : Fresh}
    {c : Code}
    (h : Expr.EmitsTest start leave condition s c t)
    (hAt : code.Holds start c)
    (hStart : code.Starts start)
    (hLast : start + c.length ≤ last)
    (hLeave : code.Lands last leave) :
    ∀ x ∈ c.targets, code.Lands last x := by
  intro x hx
  cases h with
  | missing => simp [Code.targets] at hx
  | present hTest =>
      simp only [List.length_append] at hLast
      rw [Code.targets_append, List.mem_append] at hx
      rcases hx with hx | hx
      · exact hTest.lands hAt.left hStart (by omega) x hx
      · rw [Code.targets_jump, List.mem_singleton] at hx
        rw [hx]
        exact hLeave

/- Every jump in the update of a loop leads to a start. -/
theorem Expr.EmitsUpdate.lands
    {code : Code}
    {last start : Nat}
    {update : Option Expr}
    {s t : Fresh}
    {c : Code}
    (h : Expr.EmitsUpdate start update s c t)
    (hAt : code.Holds start c)
    (hStart : code.Starts start)
    (hLast : start + c.length ≤ last) :
    ∀ x ∈ c.targets, code.Lands last x := by
  cases h with
  | missing =>
      intro x hx
      simp [Code.targets] at hx
  | present hUpdate => exact hUpdate.lands hAt hStart hLast

/- The two targets of a loop, if there is one, are starts. -/
def Loop.Lands
    (code : Code)
    (last : Nat)
    (loop : Option Loop) : Prop :=
  ∀ l, loop = some l →
    code.Lands last l.leave ∧ code.Lands last l.next

/- A block in a loop has the targets of the loop. -/
theorem Loop.Lands.enter
    {code : Code}
    {last : Nat}
    {loop : Option Loop}
    (h : Loop.Lands code last loop) :
    Loop.Lands code last (loop.map .enter) := by
  intro l' hl
  rcases Option.map_eq_some_iff.1 hl with ⟨l, hLoop, rfl⟩
  exact h l hLoop

/- Outside all loops there is nothing to ask for. -/
theorem Loop.lands_none
    {code : Code}
    {last : Nat} :
    Loop.Lands code last none := by
  intro l hl
  cases hl

/- Inside a loop its own targets count. -/
theorem Loop.lands_some
    {code : Code}
    {last leave next opened : Nat}
    (hLeave : code.Lands last leave)
    (hNext : code.Lands last next) :
    Loop.Lands code last (some ⟨leave, next, opened⟩) := by
  intro l hl
  cases hl
  exact ⟨hLeave, hNext⟩

mutual

/- Every jump in the code of a statement leads to a start. -/
theorem Stmt.Emits.lands
    {code : Code}
    {last start : Nat}
    {loop : Option Loop}
    {stmt : Stmt}
    {s t : Fresh}
    {c : Code}
    (h : Stmt.Emits start loop stmt s c t)
    (hAt : code.Holds start c)
    (hStart : code.Starts start)
    (hLast : start + c.length ≤ last)
    (hLoop : Loop.Lands code last loop) :
    ∀ x ∈ c.targets, code.Lands last x := by
  have hEnd : code.Lands last (start + c.length) :=
    ⟨hStart.across hAt h.laid rfl, hLast⟩
  intro x hx
  cases h with
  | expr hExpr => exact hExpr.lands hAt hStart hLast x hx
  | declare => simp at hx
  | define hValue =>
      simp only [List.length_append] at hLast
      have hMiddle :=
        hStart.across hAt.left.left
          (Code.laid_named (.inr (.inr rfl))) rfl
      exact hValue.lands (hAt.left.right rfl) hMiddle
        (by rw [Code.length_named] at hLast; omega) x
        (by simpa using hx)
  | function _ => simp at hx
  | retNull => simp at hx
  | ret hValue =>
      simp only [List.length_append] at hLast
      exact hValue.lands hAt.left hStart (by omega) x
        (by simpa using hx)
  | @ifThen _ _ _ _ _ _ test _ body _ hTest hBody =>
      simp only [List.length_append, Code.length_jump,
        Code.length_scoped] at hLast hEnd
      rcases hStart.block (start + test.length + 3) hAt
        (hTest.laid.thenTest _) (by simp; omega) with
        ⟨hAtBody, hInside⟩
      simp only [Code.targets_append, Code.targets_jump,
        Code.targets_scoped, List.mem_append,
        List.mem_singleton] at hx
      rcases hx with (hx | rfl) | hx
      · exact hTest.lands hAt.left.left hStart (by omega) x hx
      · exact hEnd.congr (by omega)
      · exact hBody.lands hAtBody hInside (by omega)
          hLoop.enter x hx
  | @ifElse _ _ _ _ _ _ _ test _ body _ other _
      hTest hBody hOther =>
      simp only [List.length_append, Code.length_jump,
        Code.length_scoped] at hLast hEnd
      have hJump := hTest.laid.thenTest
        (start + test.length + body.length + 6)
      have hFront :=
        (hJump.join (Code.laid_scoped hBody.laid)).thenJump
          (start + test.length + body.length + other.length + 8)
      have hSecond :
          code.Starts
            (start + test.length + body.length + 6) :=
        hStart.across hAt.left hFront (by simp; omega)
      rcases hStart.block (start + test.length + 3)
        hAt.left.left hJump (by simp; omega) with
        ⟨hAtBody, hInside⟩
      rcases hStart.block
        (start + test.length + body.length + 7) hAt hFront
        (by simp; omega) with ⟨hAtOther, hInsideOther⟩
      simp only [Code.targets_append, Code.targets_jump,
        Code.targets_scoped, List.mem_append,
        List.mem_singleton] at hx
      rcases hx with (((hx | rfl) | hx) | rfl) | hx
      · exact hTest.lands hAt.left.left.left.left hStart
          (by omega) x hx
      · exact ⟨hSecond, by omega⟩
      · exact hBody.lands hAtBody hInside (by omega)
          hLoop.enter x hx
      · exact hEnd.congr (by omega)
      · exact hOther.lands hAtOther hInsideOther (by omega)
          hLoop.enter x hx
  | @whileLoop _ _ _ _ _ _ test _ body _ leave
      hTest hBody hLeave =>
      simp only [List.length_append, Code.length_jump,
        Code.length_scoped] at hLast hEnd
      rcases hStart.block (start + test.length + 3) hAt.left
        (hTest.laid.thenTest _) (by simp; omega) with
        ⟨hAtBody, hInside⟩
      have hLeaves : code.Lands last leave :=
        hEnd.congr (by omega)
      have hAgain : code.Lands last start :=
        ⟨hStart, by omega⟩
      simp only [Code.targets_append, Code.targets_jump,
        Code.targets_scoped, List.mem_append,
        List.mem_singleton] at hx
      rcases hx with ((hx | rfl) | hx) | rfl
      · exact hTest.lands hAt.left.left.left hStart
          (by omega) x hx
      · exact hLeaves
      · exact hBody.lands hAtBody hInside (by omega)
          (Loop.lands_some hLeaves hAgain) x hx
      · exact hAgain
  | @forLoop _ _ _ _ _ _ _ _ first _ test _ body _ update _
      again next leave hInitial hAgain hTest hBody hNext
      hUpdate hLeave =>
      simp only [List.length_append, Code.length_jump,
        Code.length_scoped, Code.length_bare] at hLast hEnd
      -- The starts are found from front to back.
      have hAtUpdate := hAt.left.left
      have hAtScoped := hAtUpdate.left
      have hAtTest := hAtScoped.left
      have hOpen : Code.Laid (Code.bare .pushScope) :=
        Code.laid_bare rfl
      have hFirst :=
        hStart.across hAtTest.left.left hOpen rfl
      have hLaidFirst := hOpen.join hInitial.laid
      have hStartAgain : code.Starts again :=
        hStart.across hAtTest.left hLaidFirst (by simp; omega)
      have hLaidTest := hLaidFirst.join hTest.laid
      rcases hStart.block (again + test.length + 1) hAtScoped
        hLaidTest (by simp; omega) with ⟨hAtBody, hInside⟩
      have hLaidBody :=
        hLaidTest.join (Code.laid_scoped hBody.laid)
      have hStartNext : code.Starts next :=
        hStart.across hAtScoped hLaidBody (by simp; omega)
      have hLaidUpdate := hLaidBody.join hUpdate.laid
      have hStartLeave : code.Starts leave :=
        hStart.across hAt.left (hLaidUpdate.thenJump again)
          (by simp; omega)
      have hLeaves : code.Lands last leave :=
        ⟨hStartLeave, by omega⟩
      have hNexts : code.Lands last next :=
        ⟨hStartNext, by omega⟩
      have hAgain' :
          again =
            start + (Code.bare .pushScope ++ first).length := by
        simp
        omega
      have hNext' :
          next =
            start +
              (Code.bare .pushScope ++ first ++ test
                ++ Code.scoped body).length := by
        simp
        omega
      simp only [Code.targets_append, Code.targets_jump,
        Code.targets_scoped, Code.targets_bare,
        List.nil_append, List.append_nil, List.mem_append,
        List.mem_singleton] at hx
      rcases hx with (((hx | hx) | hx) | hx) | rfl
      · exact hInitial.lands (hAtTest.left.right rfl) hFirst
          (by omega) hLoop.enter x hx
      · exact hTest.lands (hAtTest.right hAgain')
          hStartAgain (by omega) hLeaves x hx
      · exact hBody.lands hAtBody hInside (by omega)
          (Loop.lands_some hLeaves hNexts) x hx
      · exact hUpdate.lands (hAtUpdate.right hNext')
          hStartNext (by omega) x hx
      · exact ⟨hStartAgain, by omega⟩
  | breakLoop =>
      rw [Code.targets_exit, List.mem_singleton] at hx
      rw [hx]
      exact (hLoop _ rfl).1
  | continueLoop =>
      rw [Code.targets_exit, List.mem_singleton] at hx
      rw [hx]
      exact (hLoop _ rfl).2

/- So does every jump in the code of statements in a row. -/
theorem Stmt.EmitsAll.lands
    {code : Code}
    {last start : Nat}
    {loop : Option Loop}
    {stmts : List Stmt}
    {s t : Fresh}
    {c : Code}
    (h : Stmt.EmitsAll start loop stmts s c t)
    (hAt : code.Holds start c)
    (hStart : code.Starts start)
    (hLast : start + c.length ≤ last)
    (hLoop : Loop.Lands code last loop) :
    ∀ x ∈ c.targets, code.Lands last x := by
  intro x hx
  cases h with
  | nil => simp [Code.targets] at hx
  | cons hFirst hOthers =>
      simp only [List.length_append] at hLast
      have hMiddle := hStart.across hAt.left hFirst.laid rfl
      rw [Code.targets_append, List.mem_append] at hx
      rcases hx with hx | hx
      · exact hFirst.lands hAt.left hStart (by omega) hLoop x hx
      · exact hOthers.lands (hAt.right rfl) hMiddle (by omega)
          hLoop x hx

end

------------------------------------------------------------
-- Streams
------------------------------------------------------------

/-
  Statements with some instructions behind them that do not
  jump make a well-formed stream.
-/
theorem Stmt.EmitsAll.wellFormed
    {stmts : List Stmt}
    {s t : Fresh}
    {body tail : Code}
    (h : Stmt.EmitsAll 0 none stmts s body t)
    (hTail : Code.Laid tail)
    (hEnds : tail ≠ [])
    (hTargets : tail.targets = []) :
    Code.WellFormed (body ++ tail) := by
  have hAtAll : Code.Holds (body ++ tail) 0 (body ++ tail) :=
    ⟨[], by rw [List.drop_zero, List.append_nil]⟩
  have hEnd : Code.Starts (body ++ tail) (body ++ tail).length :=
    Code.Starts.first.across hAtAll (h.laid.join hTail) (by simp)
  rcases hEnd.between with ⟨all, hBetween⟩
  have hSplits : Code.Splits (body ++ tail) 0 all := by
    have hAll := hBetween.splits .nil
    rwa [List.append_nil] at hAll
  refine ⟨all, hSplits, hBetween.apt, ?_⟩
  intro x hx
  rw [Code.targets_append, hTargets, List.append_nil] at hx
  have hLands : Code.Lands (body ++ tail) body.length x :=
    h.lands hAtAll.left .first (by simp) Loop.lands_none x hx
  rcases hLands with ⟨hStarts, hLe⟩
  have hPositive := List.length_pos_iff.2 hEnds
  have hInside : x < (body ++ tail).length := by
    rw [List.length_append]
    omega
  exact ⟨hInside, hSplits.exists_pc hStarts hInside⟩

namespace Code

/-
  How a stream of a program is made: from statements, with a
  halt behind those of the program and a result of `null`
  behind those of a function.
-/
inductive Built : Code → Prop
| main
    {stmts s body t}
    (hBody : Stmt.EmitsAll 0 none stmts s body t) :
    Built (body ++ bare .halt)
| function
    {stmts s body t}
    (hBody : Stmt.EmitsAll 0 none stmts s body t) :
    Built (body ++ pushed .null ++ bare .ret)

/- The functions in a stream of a program are made alike. -/
theorem Built.made
    {code : Code}
    {r : Routine}
    (h : Built code)
    (hConst : Word.const (.routine r) ∈ code) :
    r.Made := by
  have hMem := mem_routines.2 hConst
  cases h with
  | main hBody =>
      exact hBody.made r (by simpa using hMem)
  | function hBody =>
      exact hBody.made r (by simpa using hMem)

theorem Built.wellFormed
    {code : Code}
    (h : Built code) :
    code.WellFormed := by
  cases h with
  | main hBody =>
      exact hBody.wellFormed (laid_bare rfl) (by simp [bare]) rfl
  | function hBody =>
      rw [List.append_assoc]
      exact hBody.wellFormed
        ((laid_pushed .null).join (laid_bare rfl))
        (by simp [bare]) rfl

/- Every stream inside a stream of a program is one, too. -/
theorem Contains.built
    {code stream : Code}
    (h : code.Contains stream)
    (hCode : Built code) :
    Built stream := by
  induction h with
  | self => exact hCode
  | inside _ hConst ih =>
      rcases ih.made hConst with ⟨_, _, _, _, hBody, hEq⟩
      rw [hEq]
      exact .function hBody

end Code

/-
  The stream of a compiled program and the streams of all
  functions in it, at any depth, are well formed; in one
  that is not longer than positions are large, no target is
  the placeholder.
-/
theorem Program.wellFormed_of_compile
    {p : Program}
    {code stream : Code}
    {s t : Fresh}
    (h : p.compile s = .ok code t)
    (hStream : code.Contains stream) :
    stream.WellFormed ∧
      (stream.length ≤ Code.placeholder →
        Code.placeholder ∉ stream.targets) := by
  rcases Program.emits_of_compile h with ⟨body, hBody, rfl⟩
  have hWell := (hStream.built (.main hBody)).wellFormed
  refine ⟨hWell, ?_⟩
  intro hLength hMem
  rcases hWell with ⟨_, _, _, hTargets⟩
  have hLess := (hTargets _ hMem).1
  omega

/-
  A function with a loop whose body leaves it from the front
  part of another loop.
-/
theorem Program.wellFormed_of_compile_leaving :
    ∃ code t inner,
      Program.compile
          [.function "f" []
            [.whileLoop (.variable "x" ⟨1, 1⟩)
              [.forLoop (.breakLoop ⟨1, 1⟩) none none []
                ⟨1, 1⟩] ⟨1, 1⟩] ⟨1, 1⟩] ⟨0, 0⟩ =
        .ok code t ∧
      Code.Contains code inner ∧
      Code.targets inner = [18, 18, 10, 0] ∧
      Code.WellFormed inner ∧
      Code.placeholder ∉ Code.targets inner := by
  let inner : Code :=
    Code.named .load "x" ++ Code.jump .jz 18
      ++ Code.bare .pushScope ++ Code.bare .pushScope
      ++ Code.bare .popScope ++ Code.bare .popScope
      ++ Code.jump .jmp 18 ++ Code.scoped []
      ++ Code.jump .jmp 10 ++ Code.bare .popScope
      ++ Code.bare .popScope ++ Code.jump .jmp 0
      ++ Code.pushed .null ++ Code.bare .ret
  let code : Code :=
    Code.named .alloc "f"
      ++ Code.pushed (.routine ⟨0, "f", [], inner⟩)
      ++ Code.named .store "f" ++ Code.bare .halt
  have hCompile :
      Program.compile
          [.function "f" []
            [.whileLoop (.variable "x" ⟨1, 1⟩)
              [.forLoop (.breakLoop ⟨1, 1⟩) none none []
                ⟨1, 1⟩] ⟨1, 1⟩] ⟨1, 1⟩] ⟨0, 0⟩ =
        .ok code ⟨0, 1⟩ := rfl
  have hInner : Code.Contains code inner :=
    .inside .self (r := ⟨0, "f", [], inner⟩)
      (Code.mem_routines.1 List.mem_cons_self)
  rcases Program.wellFormed_of_compile hCompile hInner with
    ⟨hWell, hTargets⟩
  exact ⟨code, _, inner, hCompile, hInner, rfl, hWell,
    hTargets (by decide)⟩

end StackScript
