import StackScript.Proofs.Machine.Reaching
import StackScript.Proofs.Meaning.Frame
import StackScript.Proofs.Meaning.Hidden

/-
  Runs that follow an evaluation.

  A run from a machine follows an evaluation when it arrives
  where the evaluation gives a result, fails where it fails
  and is unfinished where it is. Increments that keep the
  old value use a hidden variable: a failure inside one
  leaves its scope open, and one of that very variable fails
  although the evaluation need not. The latter is a clash,
  and whether clashes are allowed is a parameter.

  Key definitions include:
    * `Machine.Leaves`
    * `Machine.Clashes`
    * `Follows`

  Key theorems include:
    * `Follows.bind`
    * `follows_load`, `follows_store`, `follows_declare`,
      `follows_combine`, `follows_update`
-/

namespace StackScript

------------------------------------------------------------
-- Failures
------------------------------------------------------------

/-
  A machine that failed, with operands above some: it is in
  a state, or in one with the scope of a hidden variable
  left open, which holds nothing or the value of a variable.
-/
def Machine.Leaves
    (m : Machine)
    (τ : State)
    (stack : Stack) : Prop :=
  stack <:+ m.stack ∧
    (m.state = τ ∨
      ∃ number v,
        (v = .null ∨ ∃ name, τ.scopes.get? name = some v) ∧
          m.state = τ.inScopes (τ.scopes.hide number v))

/-
  A run that fails for no misuse, with operands above some,
  and in a state that began as another.
-/
def Machine.Clashes
    (P : Routine → Prop)
    (code : Code)
    (stack : Stack)
    (σ : State)
    (m : Machine) : Prop :=
  ∃ bound e left,
    Machine.run bound code m = .failed e left ∧
      e.isMisuse = false ∧
      stack <:+ left.stack ∧
      ∃ opened, σ.Leads P opened left.state

variable {α β : Type}

/- A run that follows an evaluation, which began in a state. -/
def Follows
    (clash : Prop)
    (P : Routine → Prop)
    (code : Code)
    (bound : Nat)
    (stack : Stack)
    (σ : State)
    (m : Machine)
    (arrive : α → State → Machine → Prop)
    (result : EStateM.Result Stop State α) : Prop :=
  (match result with
    | .ok a τ => ∃ after, Machine.Reaches code m after ∧ arrive a τ after
    | .error (.failed e) τ =>
        ∃ bound left,
          Machine.run bound code m = .failed e left ∧
            left.Leaves τ stack
    | .error .unfinished _ => Machine.run bound code m = .unfinished
    | .error .meaningless _ => False) ∨
    clash ∧ Machine.Clashes P code stack σ m

namespace Follows

variable {clash : Prop}
variable {P : Routine → Prop}
variable {code : Code}
variable {bound small : Nat}
variable {stack inner : Stack}
variable {σ τ : State}
variable {m middle : Machine}
variable {arrive : α → State → Machine → Prop}
variable {next : β → State → Machine → Prop}
variable {result : EStateM.Result Stop State α}

/- A run follows without a clash, or it clashes. -/
theorem split (h : Follows clash P code bound stack σ m arrive result) :
    Follows False P code bound stack σ m arrive result ∨
      Machine.Clashes P code stack σ m := by
  rcases h with h | ⟨_, h⟩
  · exact .inl (.inl h)
  · exact .inr h

/- Following from a state that is reached, with another bound. -/
theorem shift
    {more : Nat}
    (hReach : Machine.Reaches code m middle)
    (hBound :
      Machine.run bound code middle = .unfinished →
        Machine.run more code m = .unfinished)
    (h : Follows clash P code bound stack σ middle arrive result) :
    Follows clash P code more stack σ m arrive result := by
  rcases h with h | ⟨hClash, n, e, left, hRun, hRest⟩
  · left
    cases result with
    | ok a τ =>
        rcases h with ⟨after, hAfter, hArrive⟩
        exact ⟨after, hReach.trans hAfter, hArrive⟩
    | error stop τ =>
        cases stop with
        | failed e =>
            rcases h with ⟨n, left, hRun, hLeaves⟩
            rcases hReach.failed hRun with ⟨more, hMore⟩
            exact ⟨more, left, hMore, hLeaves⟩
        | unfinished => exact hBound h
        | meaningless => exact h
  · right
    rcases hReach.failed hRun with ⟨more, hMore⟩
    exact ⟨hClash, more, e, left, hMore, hRest⟩

theorem of_reaches
    (hReach : Machine.Reaches code m middle)
    (h : Follows clash P code bound stack σ middle arrive result) :
    Follows clash P code bound stack σ m arrive result :=
  h.shift hReach (hReach.1 bound)

theorem of_next
    (hStep : Machine.step code m = .ok .next middle)
    (h : Follows clash P code bound stack σ middle arrive result) :
    Follows clash P code bound stack σ m arrive result :=
  h.of_reaches (.of_next hStep)

/- A step adds one to what is surely unfinished. -/
theorem of_next_succ
    (hStep : Machine.step code m = .ok .next middle)
    (h : Follows clash P code bound stack σ middle arrive result) :
    Follows clash P code (bound + 1) stack σ m arrive result := by
  apply h.shift (.of_next hStep)
  intro hRun
  rw [Machine.run_next hStep]
  exact hRun

theorem of_le
    (hLe : small ≤ bound)
    (h : Follows clash P code bound stack σ m arrive result) :
    Follows clash P code small stack σ m arrive result :=
  h.shift .refl (Machine.unfinished_of_le hLe)

/- Operands that are put on the stack may stay there. -/
theorem of_suffix
    (hStack : stack <:+ inner)
    (h : Follows clash P code bound inner σ m arrive result) :
    Follows clash P code bound stack σ m arrive result := by
  rcases h with h | ⟨hClash, n, e, left, hRun, hError, hInner, hLeads⟩
  · left
    cases result with
    | ok a τ => exact h
    | error stop τ =>
        cases stop with
        | failed e =>
            rcases h with ⟨n, left, hRun, hInner, hState⟩
            exact ⟨n, left, hRun, hStack.trans hInner, hState⟩
        | unfinished => exact h
        | meaningless => exact h
  · right
    exact ⟨hClash, n, e, left, hRun, hError,
      hStack.trans hInner, hLeads⟩

/- What began later began earlier. -/
theorem of_leads
    (hLeads : σ.Leads P 0 τ)
    (h : Follows clash P code bound stack τ m arrive result) :
    Follows clash P code bound stack σ m arrive result := by
  rcases h with h | ⟨hClash, n, e, left, hRun, hError, hInner, hOpened⟩
  · exact .inl h
  · rcases hOpened with ⟨opened, hThen⟩
    exact .inr ⟨hClash, n, e, left, hRun, hError, hInner,
      opened, hLeads.trans hThen⟩

/- An evaluation that gives a result at once. -/
theorem of_arrive
    {a : α}
    (h : arrive a τ m) :
    Follows clash P code bound stack σ m arrive (.ok a τ) :=
  .inl ⟨m, .refl, h⟩

/- A step that fails. -/
theorem of_failed
    {piece : Code}
    {e : EvalError}
    {left : Machine}
    (hAt : code.Holds m.pc piece)
    (hPiece : piece ≠ [])
    (hStep : Machine.step code m = .error e left)
    (hLeaves : left.Leaves τ stack) :
    Follows clash P code bound stack σ m arrive
      (.error (.failed e) τ) :=
  .inl ⟨1, left, Machine.run_error hAt hPiece hStep, hLeaves⟩

/- Going on after an evaluation that is followed. -/
theorem andThen
    {good : Nat → α → Prop}
    {x : Eval α}
    {f : α → Eval β}
    (hx : Follows clash P code bound stack σ m arrive (x σ))
    (hKeeps : Eval.Keeps P good σ (x σ))
    (hf :
      ∀ a τ opened after, x σ = .ok a τ → good opened a →
        σ.Leads P opened τ → arrive a τ after →
        Follows clash P code bound stack σ after next (f a τ)) :
    Follows clash P code bound stack σ m next ((x >>= f) σ) := by
  change Follows clash P code bound stack σ m next (EStateM.bind x f σ)
  rcases hx with hx | hClash
  · unfold EStateM.bind
    cases hResult : x σ with
    | ok a τ =>
        rw [hResult] at hx hKeeps
        rcases hx with ⟨after, hReach, hArrive⟩
        rcases hKeeps with ⟨opened, hGood, hLeads⟩
        exact (hf a τ opened after hResult hGood hLeads hArrive)
          |>.of_reaches hReach
    | error stop τ =>
        rw [hResult] at hx
        left
        cases stop with
        | failed e => exact hx
        | unfinished => exact hx
        | meaningless => exact hx
  · exact .inr hClash

/- Going on after one that leaves no scope open. -/
theorem bind
    {good : α → Prop}
    {x : Eval α}
    {f : α → Eval β}
    (hx : Follows clash P code bound stack σ m arrive (x σ))
    (hSteady : Eval.Steady P good x)
    (hAll : σ.scopes.All P)
    (hf :
      ∀ a τ after, x σ = .ok a τ → good a → τ.scopes.All P →
        arrive a τ after →
        Follows clash P code bound stack τ after next (f a τ)) :
    Follows clash P code bound stack σ m next ((x >>= f) σ) := by
  apply hx.andThen (hSteady σ hAll)
  rintro a τ opened after hResult ⟨rfl, hGood⟩ hLeads hArrive
  exact (hf a τ after hResult hGood hLeads.all hArrive).of_leads
    hLeads

/- Going on from where the run arrived, with nothing to evaluate. -/
theorem reach
    {further : α → State → Machine → Prop}
    (hx : Follows clash P code bound stack σ m arrive result)
    (h :
      ∀ a τ after, arrive a τ after →
        ∃ last, Machine.Reaches code after last ∧ further a τ last) :
    Follows clash P code bound stack σ m further result := by
  rcases hx with hx | hClash
  · left
    cases result with
    | ok a τ =>
        rcases hx with ⟨after, hReach, hArrive⟩
        rcases h a τ after hArrive with ⟨last, hLast, hFurther⟩
        exact ⟨last, hReach.trans hLast, hFurther⟩
    | error stop τ =>
        cases stop with
        | failed e => exact hx
        | unfinished => exact hx
        | meaningless => exact hx
  · exact .inr hClash

end Follows

------------------------------------------------------------
-- Instructions
------------------------------------------------------------

/- Arriving at a position with operands that the result tells. -/
def Arrives
    (stop : Nat)
    (operands : α → Stack)
    (a : α)
    (τ : State)
    (m : Machine) : Prop :=
  m = τ.at stop (operands a)

/- A failure that leaves the state as it is. -/
theorem leaves_at
    {pc : Nat}
    {stack inner : Stack}
    {τ : State}
    (h : stack <:+ inner) :
    (τ.at pc inner).Leaves τ stack :=
  ⟨h, .inl rfl⟩

variable {clash : Prop}
variable {P : Routine → Prop}
variable {code : Code}
variable {bound pc : Nat}
variable {stack : Stack}
variable {σ : State}

theorem follows_load
    {name : String}
    (hAt : code.Holds pc (Code.named .load name)) :
    Follows clash P code bound stack σ (σ.at pc stack)
      (Arrives (pc + 2) (· :: stack)) (Eval.load name σ) := by
  have hStep : Machine.step code (σ.at pc stack) = _ :=
    Machine.step_load hAt
  change Follows _ _ _ _ _ _ _ _ (Eval.lift (σ.scopes.lookup name) σ)
  cases hValue : σ.scopes.lookup name with
  | ok v =>
      rw [hValue] at hStep
      exact (Follows.of_arrive rfl).of_next hStep
  | error e =>
      rw [hValue] at hStep
      exact .of_failed hAt (by simp [Code.named]) hStep
        (leaves_at (List.suffix_refl _))

/- An instruction that changes the scopes and nothing else. -/
theorem follows_onScopes
    {piece : Code}
    {f : Scopes → Except EvalError Scopes}
    {m : Machine}
    {stop : Nat}
    (hAt : code.Holds m.pc piece)
    (hPiece : piece ≠ [])
    (hStep :
      Machine.step code m =
        match f σ.scopes with
        | .ok scopes =>
            .ok .next ((σ.inScopes scopes).at stop stack)
        | .error e => .error e (σ.at stop stack)) :
    Follows clash P code bound stack σ m
      (Arrives stop fun _ => stack) (Eval.onScopes f σ) := by
  change
    Follows _ _ _ _ _ _ _ _
      (EStateM.bind (Eval.lift (f σ.scopes)) _ σ)
  cases hScopes : f σ.scopes with
  | ok scopes =>
      rw [hScopes] at hStep
      exact (Follows.of_arrive rfl).of_next hStep
  | error e =>
      rw [hScopes] at hStep
      exact .of_failed hAt hPiece hStep
        (leaves_at (List.suffix_refl _))

theorem follows_store
    {name : String}
    {v : Value}
    (hAt : code.Holds pc (Code.named .store name)) :
    Follows clash P code bound stack σ (σ.at pc (v :: stack))
      (Arrives (pc + 2) fun _ => stack) (Eval.store name v σ) :=
  follows_onScopes hAt (by simp [Code.named])
    (Machine.step_store hAt)

theorem follows_declare
    {name : String}
    (hAt : code.Holds pc (Code.named .alloc name)) :
    Follows clash P code bound stack σ (σ.at pc stack)
      (Arrives (pc + 2) fun _ => stack) (Eval.declare name σ) :=
  follows_onScopes hAt (by simp [Code.named])
    (Machine.step_alloc hAt)

theorem follows_combine
    {operator : Operator}
    {op : Op}
    {left right : Value}
    (hOp : operator.binaryOp? = some op)
    (hAt : code.Holds pc (Code.bare op)) :
    Follows clash P code bound stack σ
      (σ.at pc (right :: left :: stack))
      (Arrives (pc + 1) (· :: stack))
      (Eval.combine op.combine left right σ) := by
  have hStep :
      Machine.step code (σ.at pc (right :: left :: stack)) = _ :=
    Machine.step_binary hOp hAt
  change
    Follows _ _ _ _ _ _ _ _
      (Eval.lift (op.combine σ.host.precision left right) σ)
  cases hValue : op.combine σ.host.precision left right with
  | ok v =>
      rw [hValue] at hStep
      exact (Follows.of_arrive rfl).of_next hStep
  | error e =>
      rw [hValue] at hStep
      exact .of_failed hAt (by simp [Code.bare]) hStep
        (leaves_at (List.suffix_refl _))

theorem follows_alter
    {operator : Operator}
    {op : Op}
    {value : Value}
    (hOp : operator.unaryOp? = some op)
    (hAt : code.Holds pc (Code.bare op)) :
    Follows clash P code bound stack σ (σ.at pc (value :: stack))
      (Arrives (pc + 1) (· :: stack))
      (Eval.lift (op.alter value) σ) := by
  have hStep :
      Machine.step code (σ.at pc (value :: stack)) = _ :=
    Machine.step_unary hOp hAt
  cases hValue : op.alter value with
  | ok v =>
      rw [hValue] at hStep
      exact (Follows.of_arrive rfl).of_next hStep
  | error e =>
      rw [hValue] at hStep
      exact .of_failed hAt (by simp [Code.bare]) hStep
        (leaves_at (List.suffix_refl _))

end StackScript
