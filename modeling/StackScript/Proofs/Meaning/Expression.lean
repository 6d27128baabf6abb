import StackScript.Proofs.Meaning.Follow

/-
  The code of expressions does what they mean.

  Wherever the code of an expression stands in a stream, a
  run of it follows the evaluation of the expression, if the
  runs of calls follow calls.

  Key definitions include:
    * `CallsFollow`

  Correctness is proven by:
    * `Expr.Emits.follows`
    * `Expr.EmitsAll.follows`
-/

namespace StackScript

/- Operands with a value on top if it is kept. -/
def Stack.kept :
    Bool → Stack → Value → Stack
| true, stack, v => v :: stack
| false, stack, _ => stack

variable {clash : Prop}
variable {P : Routine → Prop}
variable {code : Code}
variable {bound pc : Nat}
variable {stack : Stack}
variable {σ τ : State}

------------------------------------------------------------
-- Kept Values
------------------------------------------------------------

/- A value on the stack is dropped unless it is kept. -/
theorem reaches_dropUnless
    {keep : Bool}
    {v : Value}
    (hAt : code.Holds pc (Code.dropUnless keep)) :
    Machine.Reaches code (τ.at pc (v :: stack))
      (τ.at (pc + (Code.dropUnless keep).length)
        (Stack.kept keep stack v)) := by
  cases keep with
  | true => exact .refl
  | false => exact .of_next (Machine.step_pop hAt)

/- A variable is loaded if its value is kept. -/
theorem reaches_loadIf
    {keep : Bool}
    {name : String}
    {v : Value}
    (hAt : code.Holds pc (Code.loadIf keep name))
    (hValue : τ.scopes.lookup name = .ok v) :
    Machine.Reaches code (τ.at pc stack)
      (τ.at (pc + (Code.loadIf keep name).length)
        (Stack.kept keep stack v)) := by
  cases keep with
  | true => exact .load hAt hValue
  | false => exact .refl

/- A constant is pushed if it is kept. -/
theorem reaches_pushIf
    {keep : Bool}
    {c : Constant}
    (hAt : code.Holds pc (Code.pushIf keep c)) :
    Machine.Reaches code (τ.at pc stack)
      (τ.at (pc + (Code.pushIf keep c).length)
        (Stack.kept keep stack (.ofConstant c))) := by
  cases keep with
  | true => exact .of_next (Machine.step_pushed hAt)
  | false => exact .refl

/- A variable with the result is loaded if that is kept. -/
theorem follows_loadIf
    {keep : Bool}
    {name : String}
    {v : Value}
    {last : Nat}
    (hAt : code.Holds pc (Code.loadIf keep name))
    (hValue : τ.scopes.lookup name = .ok v)
    (hLast : last = pc + (Code.loadIf keep name).length) :
    Follows clash P code bound stack σ (τ.at pc stack)
      (Arrives last (Stack.kept keep stack)) (.ok v τ) := by
  subst hLast
  exact (Follows.of_arrive rfl).of_reaches
    (reaches_loadIf hAt hValue)

/- A value that is arrived with is dropped unless it is kept. -/
theorem Follows.dropped
    {keep : Bool}
    {stop last : Nat}
    {m : Machine}
    {result : EStateM.Result Stop State Value}
    (h :
      Follows clash P code bound stack σ m
        (Arrives stop (· :: stack)) result)
    (hAt : code.Holds stop (Code.dropUnless keep))
    (hLast : last = stop + (Code.dropUnless keep).length) :
    Follows clash P code bound stack σ m
      (Arrives last (Stack.kept keep stack)) result := by
  subst hLast
  apply h.reach
  rintro v τ _ rfl
  exact ⟨_, reaches_dropUnless hAt, rfl⟩

------------------------------------------------------------
-- Steps of a Variable
------------------------------------------------------------

/- An increment or a decrement is an operation on two values. -/
theorem Operator.exists_stepOp (operator : Operator) :
    ∃ o : Operator, o.binaryOp? = some (Code.stepOp operator) := by
  unfold Code.stepOp
  split
  · exact ⟨.sub, rfl⟩
  · exact ⟨.add, rfl⟩

/- What comes of one evaluation after another. -/
theorem Eval.bind_eq_ok
    {α β : Type}
    {x : Eval α}
    {f : α → Eval β}
    {b : β}
    (h : (x >>= f) σ = .ok b τ) :
    ∃ a υ, x σ = .ok a υ ∧ f a υ = .ok b τ := by
  change EStateM.bind x f σ = _ at h
  unfold EStateM.bind at h
  cases hFirst : x σ with
  | ok a υ =>
      rw [hFirst] at h
      exact ⟨a, υ, rfl, h⟩
  | error stop υ =>
      rw [hFirst] at h
      cases h

/- A variable that was stored has the value. -/
theorem Eval.lookup_of_store
    {name : String}
    {v : Value}
    (h : Eval.store name v σ = .ok () τ) :
    τ.scopes.lookup name = .ok v := by
  change
    EStateM.bind (Eval.lift (σ.scopes.assign name v)) _ σ = _ at h
  cases hAssign : σ.scopes.assign name v with
  | ok scopes =>
      rw [hAssign] at h
      cases h
      exact Scopes.lookup_assign hAssign
  | error e =>
      rw [hAssign] at h
      cases h

/- A variable that was stepped has the new value. -/
theorem Eval.lookup_of_update
    {f : Combination}
    {name : String}
    {w : Value × Value}
    (h : Eval.update f name σ = .ok w τ) :
    τ.scopes.lookup name = .ok w.2 := by
  unfold Eval.update at h
  rcases Eval.bind_eq_ok h with ⟨old, σ₁, _, h⟩
  rcases Eval.bind_eq_ok h with ⟨new, σ₂, _, h⟩
  rcases Eval.bind_eq_ok h with ⟨_, σ₃, hStore, h⟩
  cases h
  exact Eval.lookup_of_store hStore

theorem follows_update
    {operator : Operator}
    {name : String}
    (hAll : σ.scopes.All P)
    (hAt : code.Holds pc (Code.step operator name)) :
    Follows clash P code bound stack σ (σ.at pc stack)
      (Arrives (pc + 7) fun _ => stack)
      (Eval.update (Code.stepOp operator).combine name σ) := by
  rcases operator.exists_stepOp with ⟨o, hOp⟩
  have hLoad : code.Holds pc (Code.named .load name) :=
    hAt.left.left.left
  have hOne : code.Holds (pc + 2) (Code.pushed (.number .one)) :=
    hAt.left.left.right rfl
  have hApply :
      code.Holds (pc + 4) (Code.bare (Code.stepOp operator)) :=
    hAt.left.right rfl
  have hStore : code.Holds (pc + 5) (Code.named .store name) :=
    hAt.right rfl
  unfold Eval.update
  apply (follows_load hLoad).bind (Eval.steady_load name) hAll
  rintro old τ _ _ _ hAll rfl
  apply Follows.of_next (Machine.step_pushed hOne)
  apply (follows_combine hOp hApply).bind
    (Eval.steady_combine _ _ _) hAll
  rintro new υ _ _ hNew hAll rfl
  apply (follows_store hStore).bind (Eval.steady_store hNew) hAll
  rintro _ ω _ _ _ _ rfl
  exact .of_arrive rfl

------------------------------------------------------------
-- Old Values
------------------------------------------------------------

/- Stepping a variable fails, or it changes that variable. -/
theorem Eval.update_eq
    (f : Combination)
    (name : String) :
    Eval.update f name σ =
      match σ.scopes.lookup name with
      | .error e => .error (.failed e) σ
      | .ok old =>
          match f σ.host.precision old (.number .one) with
          | .error e => .error (.failed e) σ
          | .ok new =>
              match σ.scopes.assign name new with
              | .error e => .error (.failed e) σ
              | .ok scopes => .ok (old, new) (σ.inScopes scopes) := by
  change
    EStateM.bind (Eval.lift (σ.scopes.lookup name)) _ σ = _
  cases σ.scopes.lookup name with
  | error e => rfl
  | ok old =>
      dsimp only
      change
        EStateM.bind
          (Eval.lift (f σ.host.precision old (.number .one))) _ σ = _
      cases f σ.host.precision old (.number .one) with
      | error e => rfl
      | ok new =>
          dsimp only
          change
            EStateM.bind
              (EStateM.bind
                (Eval.lift (σ.scopes.assign name new)) _) _ σ = _
          cases σ.scopes.assign name new with
          | error e => rfl
          | ok scopes => rfl

/- The state in which a hidden variable holds a value. -/
def State.hiding
    (σ : State)
    (number : Nat)
    (v : Value) : State :=
  σ.inScopes (σ.scopes.hide number v)

/- A hidden variable is declared in a new scope. -/
theorem reaches_hiding
    {number : Nat}
    (hPush : code.Holds pc (Code.bare .pushScope))
    (hAlloc :
      code.Holds (pc + 1) (Code.named .alloc (hiddenName number))) :
    Machine.Reaches code (σ.at pc stack)
      ((σ.hiding number .null).at (pc + 3) stack) := by
  have hStep :
      Machine.step code
          ((σ.inScopes σ.scopes.push).at (pc + 1) stack) =
        .ok .next ((σ.hiding number .null).at (pc + 3) stack) :=
    Machine.step_alloc hAlloc
  exact (Machine.Reaches.of_next (Machine.step_pushScope hPush)).trans
    (.of_next hStep)

/- Nothing can be stepped that has no value. -/
theorem combine_stepOp_null
    (operator : Operator)
    (precision : Nat) :
    (Code.stepOp operator).combine precision .null (.number .one) =
      .error (.typeMismatch (Code.stepOp operator) .null .number) := by
  unfold Code.stepOp
  split <;> rfl

section Hiding

variable {operator : Operator}
variable {name : String}
variable {number : Nat}

/- What stands where in code that keeps an old value. -/
structure HoldsOld
    (code : Code)
    (pc : Nat)
    (operator : Operator)
    (name : String)
    (number : Nat) : Prop where
  push : code.Holds pc (Code.bare .pushScope)
  alloc : code.Holds (pc + 1) (Code.named .alloc (hiddenName number))
  save : code.Holds (pc + 3) (Code.named .load name)
  hold : code.Holds (pc + 5) (Code.named .store (hiddenName number))
  load : code.Holds (pc + 7) (Code.named .load name)
  one : code.Holds (pc + 9) (Code.pushed (.number .one))
  apply : code.Holds (pc + 11) (Code.bare (Code.stepOp operator))
  store : code.Holds (pc + 12) (Code.named .store name)
  fetch : code.Holds (pc + 14) (Code.named .load (hiddenName number))
  pop : code.Holds (pc + 16) (Code.bare .popScope)

theorem holdsOld_of_holds
    (h :
      code.Holds pc
        (Code.stepKeepingOld operator name (hiddenName number))) :
    HoldsOld code pc operator name number := by
  have hStep : code.Holds (pc + 7) (Code.step operator name) :=
    h.left.left.right rfl
  exact {
    push := h.left.left.left.left.left.left
    alloc := h.left.left.left.left.left.right rfl
    save := h.left.left.left.left.right rfl
    hold := h.left.left.left.right rfl
    load := hStep.left.left.left
    one := hStep.left.left.right rfl
    apply := hStep.left.right rfl
    store := hStep.right rfl
    fetch := h.left.right rfl
    pop := h.right rfl }

/- The hidden variable itself cannot be stepped. -/
theorem HoldsOld.clashes
    (h : HoldsOld code pc operator (hiddenName number) number)
    (hAll : σ.scopes.All P) :
    Machine.Clashes P code stack σ (σ.at pc stack) := by
  rcases operator.exists_stepOp with ⟨o, hOp⟩
  have hNull : Value.null.All P := by
    intro r hr
    cases hr
  have hFails :
      Machine.step code
          ((σ.hiding number .null).at (pc + 11)
            (.number .one :: .null :: stack)) =
        .error
          (.typeMismatch (Code.stepOp operator) .null .number)
          ((σ.hiding number .null).at (pc + 12) stack) := by
    rw [Machine.step_binary hOp h.apply, combine_stepOp_null]
  have hReach :
      Machine.Reaches code (σ.at pc stack)
        ((σ.hiding number .null).at (pc + 11)
          (.number .one :: .null :: stack)) := by
    apply (reaches_hiding h.push h.alloc).trans
    apply (Machine.Reaches.load h.save Scopes.lookup_hidden).trans
    apply (Machine.Reaches.store h.hold Scopes.assign_hidden).trans
    apply (Machine.Reaches.load h.load Scopes.lookup_hidden).trans
    exact .of_next (Machine.step_pushed h.one)
  have hRun : Machine.run 1 code _ = _ :=
    Machine.run_error h.apply (by simp [Code.bare]) hFails
  rcases hReach.failed hRun with ⟨more, hMore⟩
  refine ⟨more, _, _, hMore, rfl, List.suffix_refl _, 1, ?_⟩
  exact ⟨Scopes.over_hide, hAll.hide hNull, rfl, rfl⟩

/- Any other variable is stepped, and its old value kept. -/
theorem HoldsOld.follows
    (h : HoldsOld code pc operator name number)
    (hName : name ≠ hiddenName number) :
    Follows clash P code bound stack σ (σ.at pc stack)
      (Arrives (pc + 17) (·.1 :: stack))
      (Eval.update (Code.stepOp operator).combine name σ) := by
  rcases operator.exists_stepOp with ⟨o, hOp⟩
  apply Follows.of_reaches (reaches_hiding h.push h.alloc)
  rw [Eval.update_eq]
  cases hOld : σ.scopes.lookup name with
  | error e =>
      have hHidden :
          (σ.hiding number .null).scopes.lookup name = .error e :=
        (Scopes.lookup_hide hName).trans hOld
      have hStep :
          Machine.step code
            ((σ.hiding number .null).at (pc + 3) stack) = _ :=
        Machine.step_load h.save
      rw [hHidden] at hStep
      apply Follows.of_failed h.save (by simp [Code.named]) hStep
      exact ⟨List.suffix_refl _, .inr ⟨number, .null, .inl rfl, rfl⟩⟩
  | ok old =>
      have hGet : ∃ x, σ.scopes.get? x = some old := by
        refine ⟨name, ?_⟩
        unfold Scopes.lookup at hOld
        split at hOld
        · rename_i v hValue
          cases hOld
          exact hValue
        · cases hOld
      -- The old value is saved, and loaded once more.
      have hSaved :
          Machine.Reaches code
            ((σ.hiding number .null).at (pc + 3) stack)
            ((σ.hiding number old).at (pc + 11)
              (.number .one :: old :: stack)) := by
        have hHidden (v : Value) :
            (σ.hiding number v).scopes.lookup name = .ok old :=
          (Scopes.lookup_hide hName).trans hOld
        apply (Machine.Reaches.load h.save (hHidden .null)).trans
        apply (Machine.Reaches.store h.hold Scopes.assign_hidden).trans
        apply (Machine.Reaches.load h.load (hHidden old)).trans
        exact .of_next (Machine.step_pushed h.one)
      apply Follows.of_reaches hSaved
      have hStep :
          Machine.step code
            ((σ.hiding number old).at (pc + 11)
              (.number .one :: old :: stack)) = _ :=
        Machine.step_binary hOp h.apply
      have hHost : (σ.hiding number old).host = σ.host := rfl
      rw [hHost] at hStep
      dsimp only
      cases hNew :
          (Code.stepOp operator).combine σ.host.precision old
            (.number .one) with
      | error e =>
          rw [hNew] at hStep
          apply Follows.of_failed h.apply (by simp [Code.bare]) hStep
          exact ⟨List.suffix_refl _,
            .inr ⟨number, old, .inr hGet, rfl⟩⟩
      | ok new =>
          rw [hNew] at hStep
          apply Follows.of_next hStep
          have hAssign :
              (σ.hiding number old).scopes.assign name new =
                (σ.scopes.assign name new).map
                  (·.hide number old) :=
            Scopes.assign_hide hName
          have hStore :
              Machine.step code
                ((σ.hiding number old).at (pc + 12)
                  (new :: stack)) = _ :=
            Machine.step_store h.store
          rw [hAssign] at hStore
          dsimp only
          cases hScopes : σ.scopes.assign name new with
          | error e =>
              rw [hScopes] at hStore
              apply Follows.of_failed h.store (by simp [Code.named])
                hStore
              exact ⟨List.suffix_refl _,
                .inr ⟨number, old, .inr hGet, rfl⟩⟩
          | ok scopes =>
              rw [hScopes] at hStore
              apply Follows.of_next hStore
              apply Follows.of_reaches
                (Machine.Reaches.load h.fetch Scopes.lookup_hidden)
              exact (Follows.of_arrive rfl).of_next
                (Machine.step_popScope h.pop)

theorem follows_stepKeepingOld
    (hPlain : ¬ clash → name ≠ hiddenName number)
    (hAll : σ.scopes.All P)
    (hAt :
      code.Holds pc
        (Code.stepKeepingOld operator name (hiddenName number))) :
    Follows clash P code bound stack σ (σ.at pc stack)
      (Arrives (pc + 17) (·.1 :: stack))
      (Eval.update (Code.stepOp operator).combine name σ) := by
  have hOld := holdsOld_of_holds hAt
  by_cases hName : name = hiddenName number
  · subst hName
    by_cases hClash : clash
    · exact .inr ⟨hClash, hOld.clashes hAll⟩
    · exact absurd rfl (hPlain hClash)
  · exact hOld.follows hName

end Hiding

------------------------------------------------------------
-- Conditions
------------------------------------------------------------

/- A conditional jump goes where the value on the stack says. -/
theorem reaches_jz
    {target : Nat}
    {v : Value}
    (hAt : code.Holds pc (Code.jump .jz target))
    (hTarget : target < code.length) :
    Machine.Reaches code (τ.at pc (v :: stack))
      (τ.at (if v.isZero then target else pc + 2) stack) :=
  .of_next (Machine.step_jz hAt hTarget)

/- A truth value is pushed, and code behind it skipped. -/
theorem reaches_pushed_jmp
    {target : Nat}
    {c : Constant}
    (hPush : code.Holds pc (Code.pushed c))
    (hJump : code.Holds (pc + 2) (Code.jump .jmp target))
    (hTarget : target < code.length) :
    Machine.Reaches code (τ.at pc stack)
      (τ.at target (.ofConstant c :: stack)) :=
  (Machine.Reaches.of_next (Machine.step_pushed hPush)).trans
    (.of_next (Machine.step_jmp hJump hTarget))

/-
  Whether the value on the stack is zero decides between two
  truth values, which the code behind it pushes.
-/
theorem reaches_truth
    {fails : Nat}
    {v : Value}
    (hTest : code.Holds pc (Code.jump .jz fails))
    (hOne : code.Holds (pc + 2) (Code.pushed (.number .one)))
    (hJump : code.Holds (pc + 4) (Code.jump .jmp (fails + 2)))
    (hZero : code.Holds fails (Code.pushed (.number (.zero false))))
    (hEnd : fails + 2 < code.length) :
    Machine.Reaches code (τ.at pc (v :: stack))
      (τ.at (fails + 2) (Value.ofBool (!v.isZero) :: stack)) := by
  apply (reaches_jz hTest (by omega)).trans
  cases hValue : v.isZero with
  | true => exact .of_next (Machine.step_pushed hZero)
  | false => exact reaches_pushed_jmp hOne hJump hEnd

/- The second operand of `and` is evaluated if the first holds. -/
theorem follows_both
    {x y : Eval Value}
    {left right : Code}
    (hAt : code.Holds pc (Code.both pc left right))
    (hEnd : pc + left.length + right.length + 10 < code.length)
    (hSteady : Eval.Steady P (Value.All P) x)
    (hSteady' : Eval.Steady P (Value.All P) y)
    (hAll : σ.scopes.All P)
    (hLeft :
      Follows clash P code bound stack σ (σ.at pc stack)
        (Arrives (pc + left.length) (· :: stack)) (x σ))
    (hRight :
      ∀ τ : State, τ.scopes.All P →
        Follows clash P code bound stack τ
          (τ.at (pc + left.length + 2) stack)
          (Arrives (pc + left.length + 2 + right.length)
            (· :: stack)) (y τ)) :
    Follows clash P code bound stack σ (σ.at pc stack)
      (Arrives (pc + left.length + right.length + 10) (· :: stack))
      ((do
        if (← x).isZero then return .ofBool false
        else return .ofBool !(← y).isZero : Eval Value) σ) := by
  unfold Code.both at hAt
  dsimp only at hAt
  have hZero :
      code.Holds (pc + left.length + right.length + 8)
        (Code.pushed (.number (.zero false))) :=
    hAt.right (by simp; omega)
  apply hLeft.bind hSteady hAll
  rintro l τ _ _ _ hAll rfl
  apply Follows.of_reaches
    (reaches_jz (hAt.left.left.left.left.left.right rfl) (by omega))
  cases hValue : l.isZero with
  | true =>
      exact (Follows.of_arrive rfl).of_next
        (Machine.step_pushed hZero)
  | false =>
      apply (hRight τ hAll).bind hSteady' hAll
      rintro r υ _ _ _ _ rfl
      apply Follows.of_reaches
        (reaches_truth
          (hAt.left.left.left.right (by simp; omega))
          (hAt.left.left.right (by simp; omega))
          (hAt.left.right (by simp; omega)) hZero (by omega))
      exact .of_arrive rfl

/- The second operand of `or` is evaluated if the first does not. -/
theorem follows_either
    {x y : Eval Value}
    {left right : Code}
    (hAt : code.Holds pc (Code.either pc left right))
    (hEnd :
      pc + left.length + 6 + right.length + 6 + 2 < code.length)
    (hSteady : Eval.Steady P (Value.All P) x)
    (hSteady' : Eval.Steady P (Value.All P) y)
    (hAll : σ.scopes.All P)
    (hLeft :
      Follows clash P code bound stack σ (σ.at pc stack)
        (Arrives (pc + left.length) (· :: stack)) (x σ))
    (hRight :
      ∀ τ : State, τ.scopes.All P →
        Follows clash P code bound stack τ
          (τ.at (pc + left.length + 6) stack)
          (Arrives (pc + left.length + 6 + right.length)
            (· :: stack)) (y τ)) :
    Follows clash P code bound stack σ (σ.at pc stack)
      (Arrives (pc + left.length + 6 + right.length + 6 + 2)
        (· :: stack))
      ((do
        if (← x).isZero then return .ofBool !(← y).isZero
        else return .ofBool true : Eval Value) σ) := by
  unfold Code.either at hAt
  dsimp only at hAt
  have hRest := hAt.left.left.left
  apply hLeft.bind hSteady hAll
  rintro l τ _ _ _ hAll rfl
  apply Follows.of_reaches
    (reaches_jz (hRest.left.left.left.left.right rfl) (by omega))
  cases hValue : l.isZero with
  | true =>
      apply (hRight τ hAll).bind hSteady' hAll
      rintro r υ _ _ _ _ rfl
      apply Follows.of_reaches
        (reaches_truth (hRest.right (by simp; omega))
          (hAt.left.left.right (by simp; omega))
          (hAt.left.right (by simp; omega))
          (hAt.right (by simp; omega)) (by omega))
      exact .of_arrive rfl
  | false =>
      apply Follows.of_reaches
        (reaches_pushed_jmp
          (hRest.left.left.left.right (by simp; omega))
          (hRest.left.left.right (by simp; omega)) (by omega))
      exact .of_arrive rfl

------------------------------------------------------------
-- Expressions
------------------------------------------------------------

/- There is one value for each expression. -/
theorem Expr.length_evalAll
    {call : String → List Value → Eval Value}
    {es : List Expr}
    {vs : List Value}
    {σ τ : State}
    (h : Expr.evalAll call es σ = .ok vs τ) :
    vs.length = es.length := by
  induction es generalizing vs σ with
  | nil =>
      rw [Expr.evalAll] at h
      cases h
      rfl
  | cons e es ih =>
      rw [Expr.evalAll] at h
      rcases Eval.bind_eq_ok h with ⟨v, σ₁, _, h⟩
      rcases Eval.bind_eq_ok h with ⟨ws, σ₂, hOthers, h⟩
      cases h
      rw [List.length_cons, List.length_cons, ih hOthers]

/- Wherever a call stands, a run of it follows the call. -/
def CallsFollow
    (clash : Prop)
    (P : Routine → Prop)
    (bound : Nat)
    (call : String → List Value → Eval Value) : Prop :=
  ∀ {code : Code} {pc : Nat} {name : String}
    {arguments : List Value} {stack : Stack} {σ : State},
    code.Holds pc (Code.called name arguments.length) →
    σ.scopes.All P →
    (∀ v ∈ arguments, v.All P) →
    Follows clash P code bound stack σ
      (σ.at pc (arguments.reverse ++ stack))
      (Arrives (pc + 3) (· :: stack)) (call name arguments σ)

variable {call : String → List Value → Eval Value}

mutual

/- A run of the code of an expression follows its evaluation. -/
theorem Expr.Emits.follows
    {start : Nat}
    {keep : Bool}
    {e : Expr}
    {s t : Fresh}
    {piece : Code}
    {σ : State}
    (h : Expr.Emits start keep e s piece t)
    (hSteady : Steadies P call)
    (hCalls : CallsFollow clash P bound call)
    (hPlain : ¬ clash → Plain e.identifiers)
    (hAt : code.Holds start piece)
    (hEnd : start + piece.length < code.length)
    (hAll : σ.scopes.All P)
    (stack : Stack) :
    Follows clash P code bound stack σ (σ.at start stack)
      (Arrives (start + piece.length) (Stack.kept keep stack))
      (e.eval call σ) := by
  cases h with
  | literal hText =>
      rw [Expr.eval, hText]
      exact (Follows.of_arrive rfl).of_reaches (reaches_pushIf hAt)
  | string =>
      rw [Expr.eval]
      exact (Follows.of_arrive rfl).of_reaches (reaches_pushIf hAt)
  | «variable» =>
      rw [Expr.eval]
      exact (follows_load hAt.left).dropped (hAt.right rfl)
        (by simp; omega)
  | @binary _ _ _ a b _ _ _ _ left right op hOp hLeft hRight =>
      simp only [List.length_append, Code.length_bare] at hEnd
      have hNames := fun hc => plain_append.1 (hPlain hc)
      have hApply :
          code.Holds (start + left.length + right.length)
            (Code.bare op) :=
        hAt.left.right (by simp; omega)
      rw [Expr.eval, Operator.compute?_eq, hOp]
      refine Follows.dropped ?_ (hAt.right rfl) (by simp; omega)
      have hFirst :=
        hLeft.follows hSteady hCalls (fun hc => (hNames hc).1)
          hAt.left.left.left (by omega) hAll stack
      apply hFirst.bind (a.steady_eval hSteady) hAll
      rintro l τ _ _ _ hAll rfl
      have hSecond :=
        hRight.follows hSteady hCalls (fun hc => (hNames hc).2)
          (hAt.left.left.right rfl) (by omega) hAll (l :: stack)
      apply (hSecond.of_suffix (List.suffix_cons l stack)).bind
        (b.steady_eval hSteady) hAll
      rintro r υ _ _ _ _ rfl
      have hStop :
          start + (left ++ right ++ Code.bare op).length =
            start + left.length + right.length + 1 := by
        simp; omega
      rw [hStop]
      exact follows_combine hOp hApply
  | @both _ _ a b _ _ _ _ left right hLeft hRight =>
      simp only [List.length_append, Code.length_both] at hEnd
      have hNames := fun hc => plain_append.1 (hPlain hc)
      have hBoth := hAt.left
      unfold Code.both at hBoth
      dsimp only at hBoth
      unfold Expr.eval
      refine Follows.dropped ?_ (hAt.right rfl) (by simp; omega)
      have hFirst :=
        hLeft.follows hSteady hCalls (fun hc => (hNames hc).1)
          hBoth.left.left.left.left.left.left (by omega) hAll stack
      rw [Code.length_both, ← Nat.add_assoc, ← Nat.add_assoc]
      refine follows_both hAt.left (by omega) (a.steady_eval hSteady)
        (b.steady_eval hSteady) hAll hFirst ?_
      intro τ hAll
      exact hRight.follows hSteady hCalls (fun hc => (hNames hc).2)
        (hBoth.left.left.left.left.right (by simp; omega))
        (by omega) hAll stack
  | @either _ _ a b _ _ _ _ left right hLeft hRight =>
      simp only [List.length_append, Code.length_either] at hEnd
      have hNames := fun hc => plain_append.1 (hPlain hc)
      have hEither := hAt.left
      unfold Code.either at hEither
      dsimp only at hEither
      have hRest := hEither.left.left.left
      unfold Expr.eval
      refine Follows.dropped ?_ (hAt.right rfl) (by simp; omega)
      have hFirst :=
        hLeft.follows hSteady hCalls (fun hc => (hNames hc).1)
          hRest.left.left.left.left.left (by omega) hAll stack
      have hStop :
          start + (Code.either start left right).length =
            start + left.length + 6 + right.length + 6 + 2 := by
        simp
        omega
      rw [hStop]
      refine follows_either hAt.left (by omega)
        (a.steady_eval hSteady) (b.steady_eval hSteady) hAll hFirst ?_
      intro τ hAll
      exact hRight.follows hSteady hCalls (fun hc => (hNames hc).2)
        (hRest.left.right (by simp; omega)) (by omega) hAll stack
  | plus hArgument =>
      rw [Expr.eval, if_pos rfl]
      exact hArgument.follows hSteady hCalls hPlain hAt hEnd hAll
        stack
  | @stepped _ _ operator name _ _ _ hStep =>
      have hPlus : operator ≠ .plus := by
        rintro rfl
        cases hStep
      rw [Expr.eval, if_neg hPlus, operator.step?_eq, if_pos hStep]
      apply (follows_update hAll hAt.left).bind
        (Eval.steady_update _ name) hAll
      rintro w τ _ hUpdate _ _ rfl
      exact follows_loadIf (hAt.right rfl)
        (Eval.lookup_of_update hUpdate) (by simp; omega)
  | @unary _ _ operator a _ _ argument _ op hPlus hStep hOp hArgument =>
      simp only [List.length_append, Code.length_bare] at hEnd
      rw [Expr.eval, if_neg hPlus, operator.step?_eq, if_neg hStep,
        operator.alter?_eq, hOp]
      refine Follows.dropped ?_ (hAt.right rfl) (by simp; omega)
      have hValue :=
        hArgument.follows hSteady hCalls hPlain hAt.left.left
          (by omega) hAll stack
      apply hValue.bind (a.steady_eval hSteady) hAll
      rintro v τ _ _ _ _ rfl
      rw [List.length_append, Code.length_bare, ← Nat.add_assoc]
      exact follows_alter hOp (hAt.left.right rfl)
  | @keptPost _ operator name _ _ _ hStep =>
      rw [Expr.eval, operator.step?_eq, if_pos hStep]
      have hName : ¬ clash → name ≠ hiddenName s.temporaries := by
        intro hc
        exact ne_hiddenName (hPlain hc name List.mem_cons_self) _
      apply (follows_stepKeepingOld hName hAll hAt).bind
        (Eval.steady_update _ name) hAll
      rintro w τ _ _ _ _ rfl
      exact .of_arrive rfl
  | @droppedPost _ operator name _ _ _ hStep =>
      rw [Expr.eval, operator.step?_eq, if_pos hStep]
      apply (follows_update hAll hAt).bind
        (Eval.steady_update _ name) hAll
      rintro w τ _ _ _ _ rfl
      exact .of_arrive rfl
  | @assignment _ _ name value _ _ body _ hValue =>
      simp only [List.length_append, Code.length_named] at hEnd
      rw [Expr.eval]
      have hFirst :=
        hValue.follows hSteady hCalls
          (fun hc => (plain_cons.1 (hPlain hc)).2) hAt.left.left
          (by omega) hAll stack
      apply hFirst.bind (value.steady_eval hSteady) hAll
      rintro v τ _ _ hv hAll rfl
      apply (follows_store (hAt.left.right rfl)).bind
        (Eval.steady_store hv) hAll
      rintro _ υ _ hStore _ _ rfl
      have hLoad :
          code.Holds (start + body.length + 2)
            (Code.loadIf keep name) :=
        hAt.right (by simp; omega)
      exact follows_loadIf hLoad (Eval.lookup_of_store hStore)
        (by simp; omega)
  | @call _ _ name arguments _ _ body _ hArguments =>
      simp only [List.length_append, Code.length_called] at hEnd
      rw [Expr.eval]
      refine Follows.dropped ?_ (hAt.right rfl) (by simp; omega)
      have hValues :=
        hArguments.follows hSteady hCalls
          (fun hc => (plain_cons.1 (hPlain hc)).2) hAt.left.left
          (by omega) hAll stack
      apply hValues.bind (Expr.steady_evalAll hSteady arguments) hAll
      rintro vs τ _ hEval hvs hAll rfl
      rw [List.length_append, Code.length_called, ← Nat.add_assoc]
      have hCall :
          code.Holds (start + body.length)
            (Code.called name arguments.length) :=
        hAt.left.right rfl
      rw [← Expr.length_evalAll hEval] at hCall
      exact hCalls hCall hAll hvs

/- So does that of expressions in a row. -/
theorem Expr.EmitsAll.follows
    {start : Nat}
    {es : List Expr}
    {s t : Fresh}
    {piece : Code}
    {σ : State}
    (h : Expr.EmitsAll start es s piece t)
    (hSteady : Steadies P call)
    (hCalls : CallsFollow clash P bound call)
    (hPlain : ¬ clash → Plain (Expr.identifiersAll es))
    (hAt : code.Holds start piece)
    (hEnd : start + piece.length < code.length)
    (hAll : σ.scopes.All P)
    (stack : Stack) :
    Follows clash P code bound stack σ (σ.at start stack)
      (Arrives (start + piece.length) (·.reverse ++ stack))
      (Expr.evalAll call es σ) := by
  cases h with
  | nil =>
      rw [Expr.evalAll]
      exact .of_arrive rfl
  | @cons _ e es _ _ _ first others hFirst hOthers =>
      simp only [List.length_append] at hEnd
      have hNames := fun hc => plain_append.1 (hPlain hc)
      rw [Expr.evalAll]
      have hValue :=
        hFirst.follows hSteady hCalls (fun hc => (hNames hc).1)
          hAt.left (by omega) hAll stack
      apply hValue.bind (e.steady_eval hSteady) hAll
      rintro v τ _ _ _ hAll rfl
      have hValues :=
        hOthers.follows hSteady hCalls (fun hc => (hNames hc).2)
          (hAt.right rfl) (by omega) hAll (v :: stack)
      apply (hValues.of_suffix (List.suffix_cons v stack)).bind
        (Expr.steady_evalAll hSteady es) hAll
      rintro vs υ _ _ _ _ rfl
      apply Follows.of_arrive
      unfold Arrives
      simp [Nat.add_assoc]

end

end StackScript
