import StackScript.Proofs.Meaning.Control
import StackScript.Proofs.Meaning.Numbering

/-
  The code of statements does what they mean.

  Each form of a statement is put together from what is known
  of blocks, branches and loops, by induction over the tree.

  Key definitions include:
    * `Library.Knows`

  Correctness is proven by:
    * `Stmt.Emits.follows`
    * `Stmt.EmitsAll.follows`
-/

namespace StackScript

variable {clash : Prop}
variable {P : Routine → Prop}
variable {code : Code}
variable {bound : Nat}
variable {σ τ : State}
variable {loop : Option Loop}

variable {call : String → List Value → Eval Value}

theorem Expr.EmitsTest.follows
    {start leave : Nat}
    {condition : Option Expr}
    {s t : Fresh}
    {piece : Code}
    (h : Expr.EmitsTest start leave condition s piece t)
    (hSteady : Steadies P call)
    (hCalls : CallsFollow clash P bound call)
    (hPlain : ¬ clash → Plain (Expr.identifiersIn condition))
    (hAt : code.Holds start piece)
    (hEnd : start + piece.length < code.length)
    (hLeave : leave < code.length)
    (hAll : σ.scopes.All P)
    (stack : Stack) :
    Follows clash P code bound stack σ (σ.at start stack)
      (fun b τ m =>
        m = τ.at (if b then start + piece.length else leave) stack)
      (Expr.test call condition σ) := by
  cases h with
  | missing => exact .of_arrive rfl
  | present hTest =>
      simp only [List.length_append, Code.length_jump] at hEnd
      have hValue :=
        hTest.follows hSteady hCalls hPlain hAt.left (by omega)
          hAll stack
      apply hValue.bind (Expr.steady_eval hSteady _) hAll
      rintro v τ _ _ _ _ rfl
      apply Follows.of_reaches (reaches_jz (hAt.right rfl) hLeave)
      apply Follows.of_arrive
      rw [List.length_append, Code.length_jump, ← Nat.add_assoc]
      cases v.isZero with
      | true => rfl
      | false => rfl

theorem Expr.EmitsUpdate.follows
    {start : Nat}
    {update : Option Expr}
    {s t : Fresh}
    {piece : Code}
    (h : Expr.EmitsUpdate start update s piece t)
    (hSteady : Steadies P call)
    (hCalls : CallsFollow clash P bound call)
    (hPlain : ¬ clash → Plain (Expr.identifiersIn update))
    (hAt : code.Holds start piece)
    (hEnd : start + piece.length < code.length)
    (hAll : σ.scopes.All P)
    (stack : Stack) :
    Follows clash P code bound stack σ (σ.at start stack)
      (Arrives (start + piece.length) fun _ => stack)
      (Expr.perform call update σ) := by
  cases h with
  | missing => exact .of_arrive rfl
  | present hUpdate =>
      have hValue :=
        hUpdate.follows hSteady hCalls hPlain hAt hEnd hAll stack
      apply hValue.bind (Expr.steady_eval hSteady _) hAll
      rintro v τ _ _ _ _ rfl
      exact .of_arrive rfl

------------------------------------------------------------
-- Statements
------------------------------------------------------------

variable {lib : Library}

/- What holds of the scopes of a frame holds until it is left. -/
theorem Loop.Within.of_leads
    (h : Loop.Within code σ.scopes.depth loop)
    (hLeads : σ.Leads P 0 τ) :
    Loop.Within code τ.scopes.depth loop := by
  rw [hLeads.reach.depth]
  exact h

namespace Library

/- The library has the function values that code pushes. -/
def Knows
    (lib : Library)
    (piece : Code) : Prop :=
  ∀ r ∈ piece.routines, lib.routine r.mark = r

variable {piece other : Code}

/- Code that pushes none asks nothing of a library. -/
theorem knows_of_routines (h : piece.routines = []) :
    lib.Knows piece := by
  intro r hr
  rw [h] at hr
  cases hr

@[simp]
theorem knows_bare (o : Op) : lib.Knows (Code.bare o) :=
  knows_of_routines rfl

@[simp]
theorem knows_jump
    (o : Op)
    (target : Nat) :
    lib.Knows (Code.jump o target) :=
  knows_of_routines rfl

@[simp]
theorem knows_append :
    lib.Knows (piece ++ other) ↔ lib.Knows piece ∧ lib.Knows other := by
  unfold Knows
  rw [Code.routines_append, List.forall_mem_append]

@[simp]
theorem knows_scoped :
    lib.Knows (Code.scoped piece) ↔ lib.Knows piece := by
  unfold Knows
  rw [Code.routines_scoped]

end Library

mutual

/- A run of the code of a statement follows its evaluation. -/
theorem Stmt.Emits.follows
    {start : Nat}
    {loop : Option Loop}
    {stmt : Stmt}
    {s t : Fresh}
    {piece : Code}
    {σ : State}
    (h : Stmt.Emits start loop stmt s piece t)
    (hSteady : Steadies P call)
    (hCalls : CallsFollow clash P bound call)
    (hPlain : ¬ clash → Plain stmt.identifiers)
    (hOffers : lib.Offers P s.routines stmt.functions)
    (hKnows : lib.Knows piece)
    (hLoop : Loop.Within code σ.scopes.depth loop)
    (hAt : code.Holds start piece)
    (hEnd : start + piece.length < code.length)
    (hAll : σ.scopes.All P)
    (stack : Stack) :
    Follows clash P code bound stack σ (σ.at start stack)
      (Signal.Arrives code (start + piece.length) loop stack)
      (stmt.eval lib call bound s.routines σ) := by
  cases h with
  | expr hExpr =>
      rw [Stmt.eval]
      have hValue :=
        hExpr.follows hSteady hCalls hPlain hAt hEnd hAll stack
      apply hValue.bind (Expr.steady_eval hSteady _) hAll
      rintro v τ _ _ _ _ rfl
      exact .of_arrive rfl
  | declare =>
      rw [Stmt.eval]
      apply (follows_declare hAt).bind (Eval.steady_declare _) hAll
      rintro _ τ _ _ _ _ rfl
      exact .of_arrive rfl
  | @define _ _ name value _ _ body _ hValue =>
      simp only [List.length_append, Code.length_named] at hEnd
      have hStop :
          start + (Code.named .alloc name ++ body
              ++ Code.named .store name).length =
            start + body.length + 4 := by
        simp
        omega
      rw [Stmt.eval, hStop]
      refine follows_define hAt (value.steady_eval hSteady) hAll ?_
      intro τ hAll
      exact hValue.follows hSteady hCalls
        (fun hc => (plain_cons.1 (hPlain hc)).2)
        (hAt.left.right rfl) (by omega) hAll stack
  | @function _ _ name parameters stmts _ _ body u hBody =>
      have hRoutine :
          lib.routine (s.routines + Stmt.functionsAll stmts) =
            ⟨u.routines, name, parameters,
              body ++ Code.pushed .null ++ Code.bare .ret⟩ := by
        rw [← hBody.numbers]
        apply hKnows ⟨u.routines, name, parameters, _⟩
        rw [Code.routines_append, Code.routines_append,
          Code.routines_pushed_routine]
        exact List.mem_singleton.2 rfl
      have hValue :
          (Value.routine
            (lib.routine
              (s.routines + Stmt.functionsAll stmts))).All P := by
        intro r hr
        cases hr
        apply hOffers
        · omega
        · rw [Stmt.functions]
          omega
      rw [Stmt.eval]
      rw [hRoutine] at hValue ⊢
      refine follows_define hAt (Eval.steady_pure hValue) hAll ?_
      intro τ _
      apply Follows.of_next
        (Machine.step_pushed (hAt.left.right rfl))
      exact .of_arrive rfl
  | retNull =>
      rw [Stmt.eval]
      apply Follows.of_next (Machine.step_pushed hAt.left)
      exact .of_arrive ⟨start + 2, hAt.right rfl, rfl⟩
  | @ret _ _ e _ _ body _ hValue =>
      simp only [List.length_append, Code.length_bare] at hEnd
      rw [Stmt.eval]
      have hFirst :=
        hValue.follows hSteady hCalls hPlain hAt.left (by omega)
          hAll stack
      apply hFirst.bind (e.steady_eval hSteady) hAll
      rintro v τ _ _ _ _ rfl
      exact .of_arrive ⟨start + body.length, hAt.right rfl, rfl⟩
  | @ifThen _ _ condition stmts _ _ test u body _ hTest hBody =>
      simp only [List.length_append, Code.length_jump,
        Code.length_scoped] at hEnd
      simp only [Library.knows_append, Library.knows_scoped] at hKnows
      have hNames := fun hc => plain_append.1 (hPlain hc)
      have hStop :
          start + (test
              ++ Code.jump .jz (start + test.length + body.length + 4)
              ++ Code.scoped body).length =
            start + test.length + body.length + 4 := by
        simp
        omega
      have hScoped :
          code.Holds (start + test.length + 2) (Code.scoped body) :=
        hAt.right (by simp; omega)
      rw [Stmt.eval, hStop]
      rw [← hTest.numbers] at hOffers ⊢
      have hFirst :=
        hTest.follows hSteady hCalls (fun hc => (hNames hc).1)
          hAt.left.left (by omega) hAll stack
      refine follows_ifThen hAt (by omega)
        (condition.steady_eval hSteady)
        (Stmt.frames_evalAll hSteady bound _ stmts hOffers) hAll
        hFirst ?_
      intro τ hLeads
      exact hBody.follows hSteady hCalls (fun hc => (hNames hc).2)
        hOffers hKnows.2 (hLoop.of_leads hLeads).enter
        (hScoped.left.right rfl) (by omega) hLeads.all.push stack
  | @ifElse _ _ condition stmts others _ _ test u body v other _
      hTest hBody hOther =>
      simp only [List.length_append, Code.length_jump,
        Code.length_scoped] at hEnd
      simp only [Library.knows_append, Library.knows_scoped] at hKnows
      have hNames := fun hc => plain_append.1 (hPlain hc)
      have hNames' := fun hc => plain_append.1 (hNames hc).1
      have hStop :
          start + (test
              ++ Code.jump .jz (start + test.length + body.length + 6)
              ++ Code.scoped body
              ++ Code.jump .jmp
                (start + test.length + body.length + other.length + 8)
              ++ Code.scoped other).length =
            start + test.length + body.length + other.length + 8 := by
        simp
        omega
      have hScoped :
          code.Holds (start + test.length + 2) (Code.scoped body) :=
        hAt.left.left.right (by simp; omega)
      have hElse :
          code.Holds (start + test.length + body.length + 6)
            (Code.scoped other) :=
        hAt.right (by simp; omega)
      rw [Stmt.functions] at hOffers
      rw [Stmt.eval, hStop]
      rw [← hTest.numbers] at hOffers ⊢
      have hOffersBody :
          lib.Offers P u.routines (Stmt.functionsAll stmts) :=
        hOffers.within (by omega) (by omega)
      have hOffersOther :
          lib.Offers P v.routines (Stmt.functionsAll others) := by
        rw [hBody.numbers]
        exact hOffers.within (by omega) (by omega)
      have hFirst :=
        hTest.follows hSteady hCalls (fun hc => (hNames' hc).1)
          hAt.left.left.left.left (by omega) hAll stack
      rw [← hBody.numbers]
      refine follows_ifElse hAt (by omega)
        (condition.steady_eval hSteady)
        (Stmt.frames_evalAll hSteady bound _ stmts hOffersBody)
        (Stmt.frames_evalAll hSteady bound _ others hOffersOther) hAll
        hFirst ?_ ?_
      · intro τ hLeads
        exact hBody.follows hSteady hCalls
          (fun hc => (hNames' hc).2) hOffersBody hKnows.1.1.2
          (hLoop.of_leads hLeads).enter (hScoped.left.right rfl)
          (by omega) hLeads.all.push stack
      · intro τ hLeads
        exact hOther.follows hSteady hCalls (fun hc => (hNames hc).2)
          hOffersOther hKnows.2 (hLoop.of_leads hLeads).enter
          (hElse.left.right rfl) (by omega) hLeads.all.push stack
  | @whileLoop _ _ condition stmts _ _ test u body _ leave
      hTest hBody hLeave =>
      simp only [List.length_append, Code.length_jump,
        Code.length_scoped] at hEnd
      simp only [Library.knows_append, Library.knows_scoped] at hKnows
      have hNames := fun hc => plain_append.1 (hPlain hc)
      have hScoped :
          code.Holds (start + test.length + 2) (Code.scoped body) :=
        hAt.left.right (by simp; omega)
      have hStop :
          start + (test ++ Code.jump .jz leave ++ Code.scoped body
              ++ Code.jump .jmp start).length = leave := by
        simp
        omega
      rw [Stmt.eval, hStop]
      rw [← hTest.numbers] at hOffers ⊢
      refine follows_whileLoop hAt (by omega)
        (Expr.steady_test hSteady (some condition))
        (Stmt.frames_evalAll hSteady bound _ stmts hOffers) ?_ ?_ hAll
      · intro τ hAll
        have hLength :
            start + test.length + 2 =
              start + (test ++ Code.jump .jz leave).length := by
          simp
          omega
        rw [hLength]
        exact (Expr.EmitsTest.present hTest).follows hSteady hCalls
          (fun hc => (hNames hc).1) hAt.left.left
          (by simp; omega) (by omega) hAll stack
      · intro τ hAll
        exact hBody.follows hSteady hCalls (fun hc => (hNames hc).2)
          hOffers hKnows.1.2 (Loop.within_body (by omega) (by omega))
          (hScoped.left.right rfl) (by omega) hAll.push stack
  | @forLoop _ _ initial condition update stmts _ _ first u test w
      body x last _ again next leave
      hInitial hAgain hTest hBody hNext hUpdate hLeave =>
      simp only [List.length_append, Code.length_jump,
        Code.length_scoped, Code.length_bare] at hEnd
      simp only [Library.knows_append, Library.knows_scoped] at hKnows
      have hNames := fun hc => plain_append.1 (hPlain hc)
      have hNames' := fun hc => plain_append.1 (hNames hc).1
      have hNames'' := fun hc => plain_append.1 (hNames' hc).1
      have hTestAt : code.Holds again test :=
        hAt.left.left.left.left.right (by simp; omega)
      have hScoped :
          code.Holds (again + test.length) (Code.scoped body) :=
        hAt.left.left.left.right (by simp; omega)
      have hUpdateAt : code.Holds next last :=
        hAt.left.left.right (by simp; omega)
      have hStop :
          start + (Code.bare .pushScope ++ first ++ test
              ++ Code.scoped body ++ last ++ Code.jump .jmp again
              ++ Code.bare .popScope).length = leave + 1 := by
        simp
        omega
      rw [Stmt.functions] at hOffers
      rw [Stmt.eval, hStop]
      have hOffersFirst :
          lib.Offers P s.routines initial.functions :=
        hOffers.within (by omega) (by omega)
      have hOffersBody :
          lib.Offers P w.routines (Stmt.functionsAll stmts) := by
        rw [hTest.numbers, hInitial.numbers]
        exact hOffers.within (by omega) (by omega)
      rw [← hInitial.numbers, ← hTest.numbers]
      refine follows_forLoop hAt hAgain hNext hLeave (by omega)
        (initial.frames_eval hSteady bound _ hOffersFirst)
        (Expr.steady_test hSteady condition)
        (Stmt.frames_evalAll hSteady bound _ stmts hOffersBody)
        (Expr.steady_perform hSteady update) hAll ?_ ?_ ?_ ?_
      · have hFirst :=
          hInitial.follows hSteady hCalls (fun hc => (hNames'' hc).1)
            hOffersFirst hKnows.1.1.1.1.1.2 hLoop.enter
            (hAt.left.left.left.left.left.right rfl) (by omega)
            hAll.push stack
        rwa [show start + 1 + first.length = again by omega] at hFirst
      · intro υ hAll
        exact hTest.follows hSteady hCalls
          (fun hc => (hNames'' hc).2) hTestAt (by omega)
          (by omega) hAll stack
      · intro υ hAll
        exact hBody.follows hSteady hCalls
          (fun hc => (hNames hc).2) hOffersBody hKnows.1.1.1.2
          (Loop.within_body (by omega) (by omega))
          (hScoped.left.right rfl) (by omega) hAll.push stack
      · intro υ hAll
        exact hUpdate.follows hSteady hCalls
          (fun hc => (hNames' hc).2) hUpdateAt (by omega) hAll stack
  | @breakLoop _ l _ _ =>
      rw [Stmt.eval]
      rcases hLoop l rfl with ⟨hLeave, _, hOpened⟩
      apply Follows.of_reaches (reaches_exit hAt hOpened hLeave)
      exact .of_arrive ⟨l, rfl, rfl⟩
  | @continueLoop _ l _ _ =>
      rw [Stmt.eval]
      rcases hLoop l rfl with ⟨_, hNext, hOpened⟩
      apply Follows.of_reaches (reaches_exit hAt hOpened hNext)
      exact .of_arrive ⟨l, rfl, rfl⟩

/- So does that of statements in a row. -/
theorem Stmt.EmitsAll.follows
    {start : Nat}
    {loop : Option Loop}
    {stmts : List Stmt}
    {s t : Fresh}
    {piece : Code}
    {σ : State}
    (h : Stmt.EmitsAll start loop stmts s piece t)
    (hSteady : Steadies P call)
    (hCalls : CallsFollow clash P bound call)
    (hPlain : ¬ clash → Plain (Stmt.identifiersAll stmts))
    (hOffers : lib.Offers P s.routines (Stmt.functionsAll stmts))
    (hKnows : lib.Knows piece)
    (hLoop : Loop.Within code σ.scopes.depth loop)
    (hAt : code.Holds start piece)
    (hEnd : start + piece.length < code.length)
    (hAll : σ.scopes.All P)
    (stack : Stack) :
    Follows clash P code bound stack σ (σ.at start stack)
      (Signal.Arrives code (start + piece.length) loop stack)
      (Stmt.evalAll lib call bound s.routines stmts σ) := by
  cases h with
  | nil =>
      rw [Stmt.evalAll]
      exact .of_arrive rfl
  | @cons _ _ stmt stmts _ u _ first others hFirst hOthers =>
      simp only [List.length_append] at hEnd
      have hNames := fun hc => plain_append.1 (hPlain hc)
      have hKnows' := Library.knows_append.1 hKnows
      rw [Stmt.functionsAll] at hOffers
      have hOffersFirst : lib.Offers P s.routines stmt.functions :=
        hOffers.within (by omega) (by omega)
      have hOffersOthers :
          lib.Offers P u.routines (Stmt.functionsAll stmts) := by
        rw [hFirst.numbers]
        exact hOffers.within (by omega) (by omega)
      rw [Stmt.evalAll, ← hFirst.numbers, List.length_append,
        ← Nat.add_assoc]
      have hStmt :=
        hFirst.follows hSteady hCalls (fun hc => (hNames hc).1)
          hOffersFirst hKnows'.1 hLoop hAt.left (by omega) hAll stack
      apply hStmt.andThen
        (stmt.frames_eval hSteady bound _ hOffersFirst σ hAll)
      intro signal τ opened after _ hFits hLeads hArrive
      cases signal with
      | next =>
          cases hFits
          cases hArrive
          apply Follows.of_leads hLeads
          exact hOthers.follows hSteady hCalls
            (fun hc => (hNames hc).2) hOffersOthers hKnows'.2
            (hLoop.of_leads hLeads) (hAt.right rfl) (by omega)
            hLeads.all stack
      | _ => exact .of_arrive hArrive

end

end StackScript
