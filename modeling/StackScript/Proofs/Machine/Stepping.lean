import StackScript.Machine.Run
import StackScript.Proofs.Stream.Position

/-
  What one step of the machine does.

  The state of the machine is split into what a program can
  tell, its `State`, and into the position and the operands,
  which only code can tell. For each kind of instruction one
  equation says what a step does where it stands.

  Key definitions include:
    * `State`
    * `State.at`

  Key theorems include:
    * `Machine.step_pushed`, `Machine.step_load`,
      `Machine.step_store`, ...
    * `Machine.run_next`, `Machine.run_enter`
-/

namespace StackScript

------------------------------------------------------------
-- States
------------------------------------------------------------

/- The machine without its position and its operands. -/
structure State where
  scopes : Scopes
  host : Host
  /- How many calls of functions of the program are open. -/
  calls : Nat
  /- How many such calls may be open. -/
  maxCalls : Nat

/- The machine in a state, at a position and with operands. -/
def State.at
    (σ : State)
    (pc : Nat)
    (stack : Stack) : Machine :=
  ⟨stack, σ.scopes, pc, σ.calls, σ.maxCalls, σ.host⟩

/- The state that a machine is in. -/
def Machine.state (m : Machine) : State :=
  ⟨m.scopes, m.host, m.calls, m.maxCalls⟩

/- The same state with other scopes. -/
def State.inScopes
    (σ : State)
    (scopes : Scopes) : State :=
  { σ with scopes }

/- The same state with another host. -/
def State.withHost
    (σ : State)
    (host : Host) : State :=
  { σ with host }

/- What an operation between two operands computes. -/
def Op.combine
    (op : Op)
    (precision : Nat)
    (left right : Value) : Except EvalError Value :=
  match op with
  | .add | .sub | .mul | .div | .mod =>
      Value.arithmetic op left right precision
  | _ => (Value.compare op left right).map .ofBool

/- What an operation on one operand computes. -/
def Op.alter
    (op : Op)
    (value : Value) : Except EvalError Value :=
  match op with
  | .neg => value.negate
  | .not => .ok (.ofBool !value.isTruthy)
  | _ => value.bitNot

/-
  The function of the program that a call by a name enters,
  unless too many calls are open.
-/
def State.callee
    (σ : State)
    (name : String) : Except EvalError Routine :=
  match σ.scopes.get? name with
  | some (.routine r) =>
      if σ.maxCalls ≤ σ.calls then .error (.stackOverflow σ.maxCalls)
      else .ok r
  | some v => .error (.notCallable name v.kind)
  | none => .error (.undefinedFunction name)

namespace Machine

variable {code : Code}
variable {σ : State}
variable {pc : Nat}
variable {stack : Stack}

------------------------------------------------------------
-- Runs by Steps
------------------------------------------------------------

/- A step that is decoded moves behind the instruction. -/
theorem step_of_fetch
    {m : Machine}
    {i : Instruction}
    (h : code.fetch m.pc = .ok i) :
    step code m = perform code i { m with pc := i.next } := by
  change EStateM.bind (Action.decoded (code.fetch m.pc)) _ m = _
  rw [h]
  rfl

/- Behind the last word there is nothing to perform. -/
theorem isEmpty_of_step
    {m after : Machine}
    {flow : Flow}
    (h : step code m = .ok flow after) :
    (code.drop m.pc).isEmpty = false := by
  cases hDrop : code.drop m.pc with
  | nil =>
      have hFetch :
          code.fetch m.pc = .error (.expectedOpcode m.pc) := by
        rw [Code.fetch, hDrop]
      change EStateM.bind (Action.decoded (code.fetch m.pc)) _ m = _ at h
      rw [hFetch] at h
      cases h
  | cons w ws => rfl

/- A run goes on after a step. -/
theorem run_next
    {bound : Nat}
    {m after : Machine}
    (h : step code m = .ok .next after) :
    run (bound + 1) code m = run bound code after := by
  rw [run, isEmpty_of_step h, h]
  rfl

/- A run ends at a step that stops. -/
theorem run_stop
    {bound : Nat}
    {m after : Machine}
    {ending : Ending}
    (h : step code m = .ok (.stop ending) after) :
    run (bound + 1) code m = .done ending after := by
  rw [run, isEmpty_of_step h, h]
  rfl

/- A run fails where a step does. -/
theorem run_error
    {bound : Nat}
    {piece : Code}
    {m after : Machine}
    {e : EvalError}
    (hAt : code.Holds m.pc piece)
    (hPiece : piece ≠ [])
    (h : step code m = .error e after) :
    run (bound + 1) code m = .failed e after := by
  rcases hAt with ⟨rest, hRest⟩
  have hSome : (code.drop m.pc).isEmpty = false := by
    rw [hRest]
    cases piece with
    | nil => exact absurd rfl hPiece
    | cons w ws => rfl
  rw [run, hSome, h]
  rfl

/- A call fails where its parameters cannot be declared. -/
theorem run_enter_error
    {bound : Nat}
    {m after : Machine}
    {r : Routine}
    {arguments : List Value}
    {e : EvalError}
    (h : step code m = .ok (.enter r arguments) after)
    (hBind :
      bindParameters r.parameters arguments after.scopes.push =
        .error e) :
    run (bound + 1) code m = .failed e after := by
  rw [run, isEmpty_of_step h, h]
  dsimp only
  rw [hBind]
  rfl

/- A call runs the function and goes on with its result. -/
theorem run_enter
    {bound : Nat}
    {m after : Machine}
    {r : Routine}
    {arguments : List Value}
    {scopes : Scopes}
    (h : step code m = .ok (.enter r arguments) after)
    (hBind :
      bindParameters r.parameters arguments after.scopes.push =
        .ok scopes) :
    run (bound + 1) code m =
      match run bound r.code (after.entered scopes) with
      | .unfinished => .unfinished
      | .failed e left => .failed e (after.resumed left)
      | .done ending left =>
          run bound code
            (after.resumed (left.withResult ending)) := by
  rw [run, isEmpty_of_step h, h]
  dsimp only
  rw [hBind]
  rfl

------------------------------------------------------------
-- Instructions
------------------------------------------------------------

theorem step_pushed
    {c : Constant}
    (hAt : code.Holds pc (Code.pushed c)) :
    step code (σ.at pc stack) =
      .ok .next (σ.at (pc + 2) (.ofConstant c :: stack)) := by
  rw [step_of_fetch (Code.fetch_of_holds hAt rfl)]
  rfl

theorem step_load
    {name : String}
    (hAt : code.Holds pc (Code.named .load name)) :
    step code (σ.at pc stack) =
      match σ.scopes.lookup name with
      | .ok v => .ok .next (σ.at (pc + 2) (v :: stack))
      | .error e => .error e (σ.at (pc + 2) stack) := by
  rw [step_of_fetch (Code.fetch_of_holds hAt rfl)]
  change EStateM.bind (Action.lift (σ.scopes.lookup name)) _ _ = _
  cases σ.scopes.lookup name with
  | ok v => rfl
  | error e => rfl

/- An instruction that changes the scopes and nothing else. -/
theorem onScopes_next
    (f : Scopes → Except EvalError Scopes)
    (m : Machine) :
    EStateM.bind (Action.onScopes f) (fun _ => pure Flow.next) m =
      match f m.scopes with
      | .ok scopes => .ok .next { m with scopes }
      | .error e => .error e m := by
  change
    EStateM.bind (EStateM.bind (Action.lift (f m.scopes)) _) _ m = _
  cases f m.scopes with
  | ok scopes => rfl
  | error e => rfl

theorem step_store
    {name : String}
    {v : Value}
    (hAt : code.Holds pc (Code.named .store name)) :
    step code (σ.at pc (v :: stack)) =
      match σ.scopes.assign name v with
      | .ok scopes =>
          .ok .next ((σ.inScopes scopes).at (pc + 2) stack)
      | .error e => .error e (σ.at (pc + 2) stack) := by
  rw [step_of_fetch (Code.fetch_of_holds hAt rfl)]
  exact onScopes_next (·.assign name v) (σ.at (pc + 2) stack)

theorem step_alloc
    {name : String}
    (hAt : code.Holds pc (Code.named .alloc name)) :
    step code (σ.at pc stack) =
      match σ.scopes.declare name .null with
      | .ok scopes =>
          .ok .next ((σ.inScopes scopes).at (pc + 2) stack)
      | .error e => .error e (σ.at (pc + 2) stack) := by
  rw [step_of_fetch (Code.fetch_of_holds hAt rfl)]
  exact onScopes_next (·.declare name .null) (σ.at (pc + 2) stack)

theorem step_pushScope
    (hAt : code.Holds pc (Code.bare .pushScope)) :
    step code (σ.at pc stack) =
      .ok .next
        ((σ.inScopes σ.scopes.push).at (pc + 1) stack) := by
  rw [step_of_fetch (Code.fetch_of_holds hAt rfl)]
  rfl

theorem step_popScope
    (hAt : code.Holds pc (Code.bare .popScope)) :
    step code (σ.at pc stack) =
      match σ.scopes.pop with
      | .ok scopes =>
          .ok .next ((σ.inScopes scopes).at (pc + 1) stack)
      | .error e => .error e (σ.at (pc + 1) stack) := by
  rw [step_of_fetch (Code.fetch_of_holds hAt rfl)]
  exact onScopes_next Scopes.pop (σ.at (pc + 1) stack)

theorem step_pop
    {v : Value}
    (hAt : code.Holds pc (Code.bare .pop)) :
    step code (σ.at pc (v :: stack)) =
      .ok .next (σ.at (pc + 1) stack) := by
  rw [step_of_fetch (Code.fetch_of_holds hAt rfl)]
  rfl

/- An instruction between two operands. -/
theorem binary_next
    (f : Value → Value → Except EvalError Value)
    (left right : Value) :
    EStateM.bind (binary f) (fun _ => pure Flow.next)
        (σ.at pc (right :: left :: stack)) =
      match f left right with
      | .ok v => .ok .next (σ.at pc (v :: stack))
      | .error e => .error e (σ.at pc stack) := by
  change
    EStateM.bind (EStateM.bind (Action.lift (f left right)) _) _ _ = _
  cases f left right with
  | ok v => rfl
  | error e => rfl

theorem step_binary
    {operator : Operator}
    {op : Op}
    {left right : Value}
    (hOp : operator.binaryOp? = some op)
    (hAt : code.Holds pc (Code.bare op)) :
    step code (σ.at pc (right :: left :: stack)) =
      match op.combine σ.host.precision left right with
      | .ok v => .ok .next (σ.at (pc + 1) (v :: stack))
      | .error e => .error e (σ.at (pc + 1) stack) := by
  have hArity : op.arity = 0 := by
    cases operator <;> cases hOp <;> rfl
  have hFetch : code.fetch pc = .ok ⟨op, pc, []⟩ :=
    Code.fetch_of_holds hAt hArity.symm
  rw [step_of_fetch hFetch]
  cases operator <;> cases hOp <;> exact binary_next _ left right

/- An instruction on one operand. -/
theorem unary_next
    (f : Value → Except EvalError Value)
    (value : Value) :
    EStateM.bind (unary f) (fun _ => pure Flow.next)
        (σ.at pc (value :: stack)) =
      match f value with
      | .ok v => .ok .next (σ.at pc (v :: stack))
      | .error e => .error e (σ.at pc stack) := by
  change
    EStateM.bind (EStateM.bind (Action.lift (f value)) _) _ _ = _
  cases f value with
  | ok v => rfl
  | error e => rfl

theorem step_unary
    {operator : Operator}
    {op : Op}
    {value : Value}
    (hOp : operator.unaryOp? = some op)
    (hAt : code.Holds pc (Code.bare op)) :
    step code (σ.at pc (value :: stack)) =
      match op.alter value with
      | .ok v => .ok .next (σ.at (pc + 1) (v :: stack))
      | .error e => .error e (σ.at (pc + 1) stack) := by
  have hArity : op.arity = 0 := by
    cases operator <;> cases hOp <;> rfl
  have hFetch : code.fetch pc = .ok ⟨op, pc, []⟩ :=
    Code.fetch_of_holds hAt hArity.symm
  rw [step_of_fetch hFetch]
  cases operator <;> cases hOp
  · exact unary_next (Op.alter .not) value
  · exact unary_next (Op.alter .bitNot) value
  · exact unary_next (Op.alter .neg) value

theorem step_jmp
    {target : Nat}
    (hAt : code.Holds pc (Code.jump .jmp target))
    (hTarget : target < code.length) :
    step code (σ.at pc stack) =
      .ok .next (σ.at target stack) := by
  rw [step_of_fetch (Code.fetch_of_holds hAt rfl)]
  change EStateM.bind (checkTarget code target) _ _ = _
  rw [checkTarget, if_pos hTarget]
  rfl

theorem step_jz
    {target : Nat}
    {v : Value}
    (hAt : code.Holds pc (Code.jump .jz target))
    (hTarget : target < code.length) :
    step code (σ.at pc (v :: stack)) =
      .ok .next
        (σ.at (if v.isZero then target else pc + 2) stack) := by
  rw [step_of_fetch (Code.fetch_of_holds hAt rfl)]
  change EStateM.bind (checkTarget code target) _ _ = _
  rw [checkTarget, if_pos hTarget]
  change (if v.isZero then _ else _ : Action Flow) (σ.at (pc + 2) stack) = _
  cases v.isZero with
  | true => rfl
  | false => rfl

theorem step_ret
    {v : Value}
    (hAt : code.Holds pc (Code.bare .ret)) :
    step code (σ.at pc (v :: stack)) =
      .ok (.stop .returned) (σ.at (pc + 1) (v :: stack)) := by
  rw [step_of_fetch (Code.fetch_of_holds hAt rfl)]
  have hSize :
      Stack.checkSize (v :: stack) 1 = .ok () := by
    rw [Stack.checkSize, if_neg (by simp)]
  change
    EStateM.bind (Action.lift (Stack.checkSize (v :: stack) 1))
      (fun _ => pure (Flow.stop .returned))
      (σ.at (pc + 1) (v :: stack)) = _
  rw [hSize]
  rfl

/- The arguments of a call are on the stack, the last on top. -/
theorem popMany_arguments (arguments : List Value) :
    Action.popMany arguments.length
        (σ.at pc (arguments.reverse ++ stack)) =
      .ok arguments (σ.at pc stack) := by
  have hPop :
      Stack.popMany (arguments.reverse ++ stack) arguments.length =
        .ok (arguments, stack) := by
    have hSize : ¬ (arguments.reverse ++ stack).length
        < arguments.length := by simp
    rw [Stack.popMany, Stack.checkSize, if_neg hSize]
    change Except.ok _ = _
    rw [← List.length_reverse, List.take_left, List.drop_left,
      List.reverse_reverse]
  change
    EStateM.bind
      (Action.lift (Stack.popMany (arguments.reverse ++ stack)
        arguments.length)) _ _ = _
  rw [hPop]
  rfl

theorem step_called
    {name : String}
    {arguments : Nat}
    (hAt : code.Holds pc (Code.called name arguments)) :
    step code (σ.at pc stack) =
      call name arguments (σ.at (pc + 3) stack) := by
  rw [step_of_fetch (Code.fetch_of_holds hAt rfl)]
  rfl

/- What a call of a built-in function does to the machine. -/
theorem callBuiltin_eq
    (name : String)
    (f : Builtin)
    (arguments : List Value)
    (m : Machine) :
    Action.callBuiltin name f arguments m =
      match f.run m.scopes arguments m.host with
      | .ok result host => .ok result { m with host }
      | .error e host => .error (.builtin name e) { m with host } := by
  unfold Action.callBuiltin
  change EStateM.bind EStateM.get _ m = _
  unfold EStateM.bind
  dsimp only [EStateM.get]
  cases f.run m.scopes arguments m.host with
  | ok result host => rfl
  | error e host => rfl

/- What looking for the function of a call gives. -/
theorem callee_eq
    (name : String)
    (m : Machine) :
    callee name m =
      match m.scopes.get? name with
      | some (.routine r) => .ok r m
      | some v => .error (.notCallable name v.kind) m
      | none => .error (.undefinedFunction name) m := by
  unfold callee
  change EStateM.bind EStateM.get _ m = _
  unfold EStateM.bind
  dsimp only [EStateM.get]
  cases m.scopes.get? name with
  | none => rfl
  | some v => cases v <;> rfl

/- A call of a built-in function gives its result at once. -/
theorem call_builtin
    {name : String}
    {mode : Mode}
    {f : Builtin}
    {arguments : List Value}
    (hName : Registry.standard.lookup name = some (mode, f)) :
    call name arguments.length
        (σ.at pc (arguments.reverse ++ stack)) =
      match f.run σ.scopes arguments σ.host with
      | .ok result host =>
          .ok .next
            ((σ.withHost host).at pc (result.getD .null :: stack))
      | .error e host =>
          .error (.builtin name e) ((σ.withHost host).at pc stack) := by
  rw [call, hName]
  change EStateM.bind (Action.popMany arguments.length) _ _ = _
  rw [EStateM.bind, popMany_arguments]
  change
    EStateM.bind (Action.callBuiltin name f arguments) _ _ = _
  have hRun :
      f.run (σ.at pc stack).scopes arguments (σ.at pc stack).host =
        f.run σ.scopes arguments σ.host :=
    rfl
  rw [EStateM.bind, callBuiltin_eq, hRun]
  cases f.run σ.scopes arguments σ.host with
  | ok result host => rfl
  | error e host => rfl

/- Any other call enters a function of the program. -/
theorem call_routine
    {name : String}
    {arguments : List Value}
    (hName : Registry.standard.lookup name = none) :
    call name arguments.length
        (σ.at pc (arguments.reverse ++ stack)) =
      match σ.callee name with
      | .ok r => .ok (.enter r arguments) (σ.at pc stack)
      | .error e =>
          .error e (σ.at pc (arguments.reverse ++ stack)) := by
  rw [call, hName, State.callee]
  change EStateM.bind (callee name) _ _ = _
  have hScopes :
      (σ.at pc (arguments.reverse ++ stack)).scopes = σ.scopes :=
    rfl
  rw [EStateM.bind, callee_eq, hScopes]
  cases hValue : σ.scopes.get? name with
  | none => rfl
  | some v =>
      cases v with
      | routine r =>
          change
            (if σ.maxCalls ≤ σ.calls then _ else _ : Action Flow)
              (σ.at pc (arguments.reverse ++ stack)) = _
          by_cases hFull : σ.maxCalls ≤ σ.calls
          · simp only [if_pos hFull]
            rfl
          · simp only [if_neg hFull]
            change EStateM.bind (Action.popMany _) _ _ = _
            rw [EStateM.bind, popMany_arguments]
            rfl
      | _ => rfl

theorem step_halt
    (hAt : code.Holds pc (Code.bare .halt)) :
    step code (σ.at pc stack) =
      .ok (.stop .finished) (σ.at (pc + 1) stack) := by
  rw [step_of_fetch (Code.fetch_of_holds hAt rfl)]
  rfl

end Machine
end StackScript
