import StackScript.Machine.Basic

/-
  Running instruction streams.

  One instruction is an action that says how to go on; a
  call of a function of the program runs the stream of that
  function to its end. Running is bounded by a number of
  nested steps, and a run that exceeds it is unfinished,
  which is neither success nor failure.

  Key definitions include:
    * `Flow`
    * `Machine.perform`
    * `Ending`
    * `Outcome`
    * `Machine.run`
    * `Machine.execute`

  Key theorems include:
    * `Machine.run_mono`
-/

namespace StackScript

------------------------------------------------------------
-- One Instruction
------------------------------------------------------------

/- How a stream came to its end. -/
inductive Ending where
/- By `HALT`, or behind the last word. -/
| finished
/- By `RETURN`, with the result on the stack. -/
| returned
deriving DecidableEq, Repr

/- How to go on after an instruction. -/
inductive Flow where
| next
| stop (ending : Ending)
| enter (routine : Routine) (arguments : List Value)

namespace Machine

/- A jump target inside the stream. -/
def checkTarget
    (code : Code)
    (target : Nat) : Action Unit :=
  if target < code.length then return
  else throw (.invalidJumpTarget target code.length)

/- An operation on the two topmost operands. -/
def binary
    (f : Value → Value → Except EvalError Value) : Action Unit := do
  let right ← Action.pop
  let left ← Action.pop
  Action.push (← Action.lift (f left right))

/- An operation on the topmost operand. -/
def unary (f : Value → Except EvalError Value) : Action Unit := do
  let value ← Action.pop
  Action.push (← Action.lift (f value))

/- The function of the program that a name stands for. -/
def callee (name : String) : Action Routine := do
  match (← get).scopes.get? name with
  | some (.routine r) => return r
  | some v => throw (.notCallable name v.kind)
  | none => throw (.undefinedFunction name)

/-
  Call a name: a built-in function if there is one, else a
  function of the program, unless too many calls are open.
-/
def call
    (name : String)
    (arguments : Nat) : Action Flow := do
  match Registry.standard.lookup name with
  | some (_, f) =>
      let values ← Action.popMany arguments
      let result ← Action.callBuiltin name f values
      Action.push (result.getD .null)
      return .next
  | none =>
      let routine ← callee name
      let m ← get
      if m.maxCalls ≤ m.calls then throw (.stackOverflow m.maxCalls)
      else
        let values ← Action.popMany arguments
        return .enter routine values

/- Perform an instruction of a stream. -/
def perform
    (code : Code)
    (i : Instruction) : Action Flow := do
  match i.op with
  | .push =>
      let c ← Action.decoded (i.constant 0)
      Action.push (.ofConstant c)
      return .next
  | .load =>
      let name ← Action.decoded (i.name 0)
      let v ← Action.lift ((← get).scopes.lookup name)
      Action.push v
      return .next
  | .store =>
      let v ← Action.pop
      let name ← Action.decoded (i.name 0)
      Action.onScopes (·.assign name v)
      return .next
  | .alloc =>
      let name ← Action.decoded (i.name 0)
      Action.onScopes (·.declare name .null)
      return .next
  | .add | .sub | .mul | .div | .mod =>
      let precision := (← get).host.precision
      binary fun a b => Value.arithmetic i.op a b precision
      return .next
  | .eq | .ne | .gt | .lt | .gte | .lte =>
      binary fun a b => (Value.compare i.op a b).map .ofBool
      return .next
  | .neg =>
      unary Value.negate
      return .next
  | .not =>
      unary fun v => .ok (.ofBool !v.isTruthy)
      return .next
  | .bitNot =>
      unary Value.bitNot
      return .next
  | .jmp =>
      let target ← Action.decoded (i.target 0)
      checkTarget code target
      Action.goTo target
      return .next
  | .jz =>
      let target ← Action.decoded (i.target 0)
      checkTarget code target
      let v ← Action.pop
      if v.isZero then Action.goTo target
      return .next
  | .pop =>
      let _ ← Action.pop
      return .next
  | .pushScope =>
      Action.onScopes fun s => .ok s.push
      return .next
  | .popScope =>
      Action.onScopes Scopes.pop
      return .next
  | .call =>
      let name ← Action.decoded (i.name 0)
      let arguments ← Action.decoded (i.count 1)
      call name arguments
  | .ret =>
      Action.lift ((← get).stack.checkSize 1)
      return .stop .returned
  | .halt => return .stop .finished

/- Decode the next instruction, move behind it and perform it. -/
def step (code : Code) : Action Flow := do
  let i ← Action.decoded (code.fetch (← get).pc)
  Action.goTo i.next
  perform code i

------------------------------------------------------------
-- Calls
------------------------------------------------------------

/- Declare parameters with arguments; missing ones are undefined. -/
def bindParameters :
    List String → List Value → Scopes → Except EvalError Scopes
| [], _, s => .ok s
| p :: ps, vs, s => do
    let s ← s.declare p (vs.head?.getD .undefined)
    bindParameters ps vs.tail s

/- The state in which the stream of a function starts. -/
def entered
    (m : Machine)
    (scopes : Scopes) : Machine :=
  { m with scopes, pc := 0, calls := m.calls + 1 }

/-
  The state of a caller, `m` before the call, after the
  callee left the state `after`.
-/
def resumed
    (m after : Machine) : Machine :=
  { after with
    pc := m.pc
    calls := m.calls
    scopes := after.scopes.truncate m.scopes.depth }

/- A function that ends without a result gives `null`. -/
def withResult
    (m : Machine) :
    Ending → Machine
| .finished => { m with stack := .null :: m.stack }
| .returned => m

end Machine

------------------------------------------------------------
-- Streams
------------------------------------------------------------

/- How a bounded run ends. -/
inductive Outcome where
| done (ending : Ending) (m : Machine)
| failed (error : EvalError) (m : Machine)
| unfinished

namespace Machine

/-
  Run a stream from the current position on. The bound is on
  the steps of the stream and of the functions it calls,
  those of a function counting from its call.
-/
def run :
    Nat → Code → Machine → Outcome
| 0, _, _ => .unfinished
| bound + 1, code, m =>
    if (code.drop m.pc).isEmpty then .done .finished m
    else
      match step code m with
      | .error e m => .failed e m
      | .ok .next m => run bound code m
      | .ok (.stop ending) m => .done ending m
      | .ok (.enter routine arguments) m =>
          match
            bindParameters routine.parameters arguments
              m.scopes.push
          with
          | .error e => .failed e m
          | .ok scopes =>
              match run bound routine.code (m.entered scopes) with
              | .unfinished => .unfinished
              | .failed e after => .failed e (m.resumed after)
              | .done ending after =>
                  run bound code (m.resumed (after.withResult ending))

/- A larger bound keeps the answer of a run that ended. -/
theorem run_mono
    {n k : Nat}
    {code : Code}
    {m : Machine}
    (hle : n ≤ k)
    (h : run n code m ≠ .unfinished) :
    run k code m = run n code m := by
  induction n generalizing k code m with
  | zero => exact absurd rfl h
  | succ n ih =>
      obtain ⟨k, rfl⟩ : ∃ j, k = j + 1 := ⟨k - 1, by omega⟩
      have hle : n ≤ k := by omega
      rw [run] at h ⊢
      rw [run]
      split
      · rfl
      · rename_i hcode
        rw [if_neg hcode] at h
        cases hstep : step code m with
        | error e m' => rfl
        | ok flow m' =>
            cases flow with
            | next =>
                simp only [hstep] at h ⊢
                exact ih hle h
            | stop ending => rfl
            | enter routine arguments =>
                simp only [hstep] at h ⊢
                cases hbind :
                    bindParameters routine.parameters arguments
                      m'.scopes.push with
                | error e => rfl
                | ok scopes =>
                    simp only [hbind] at h ⊢
                    cases hrun :
                        run n routine.code (m'.entered scopes) with
                    | unfinished =>
                        simp only [hrun] at h
                        exact absurd rfl h
                    | failed e after =>
                        rw [ih hle (by simp [hrun]), hrun]
                    | done ending after =>
                        rw [ih hle (by simp [hrun]), hrun]
                        simp only [hrun] at h
                        exact ih hle h

/- Run a stream from its first word on. -/
def execute
    (bound : Nat)
    (code : Code)
    (m : Machine) : Outcome :=
  run bound code { m with pc := 0 }

end Machine
end StackScript
