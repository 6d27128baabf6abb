import StackScript.Builtin.Registry
import StackScript.Machine.Arithmetic
import StackScript.Machine.Stack

/-
  The state of the machine, and actions on it.

  An action that fails keeps what it did to the state before
  it failed.

  Key definitions include:
    * `Config`
    * `Machine`
    * `Machine.new`
    * `Action`
-/

namespace StackScript

/- What a machine is started with. -/
structure Config where
  maxCalls : Nat := 256
  precision : Nat := 20
deriving DecidableEq, Repr

/- The state of the machine. -/
structure Machine where
  stack : Stack
  scopes : Scopes
  /- The position of the next instruction. -/
  pc : Nat
  /- How many calls of functions of the program are open. -/
  calls : Nat
  /- How many such calls may be open. -/
  maxCalls : Nat
  host : Host

/- A machine before its first program. -/
def Machine.new
    (config : Config)
    (input : List UInt8) : Machine where
  stack := []
  scopes := .initial
  pc := 0
  calls := 0
  maxCalls := config.maxCalls
  host := ⟨input, "", config.precision, 0⟩

/- A change of the state that may fail. -/
abbrev Action :=
  EStateM EvalError Machine

namespace Action

/- The result of a computation that may fail. -/
def lift
    {α : Type}
    (result : Except EvalError α) : Action α :=
  match result with
  | .ok a => return a
  | .error e => throw e

/- The result of decoding an operand. -/
def decoded
    {α : Type}
    (result : Except DecodeError α) : Action α :=
  match result with
  | .ok a => return a
  | .error e => throw (.decode e)

/- Push an operand. -/
def push (v : Value) : Action Unit :=
  modify fun m => { m with stack := v :: m.stack }

/- Pop an operand. -/
def pop : Action Value := do
  let m ← get
  let (v, rest) ← lift m.stack.pop
  set { m with stack := rest }
  return v

/- Pop a number of operands, the lowest first. -/
def popMany (n : Nat) : Action (List Value) := do
  let m ← get
  let (vs, rest) ← lift (m.stack.popMany n)
  set { m with stack := rest }
  return vs

/- Change the scopes. -/
def onScopes (f : Scopes → Except EvalError Scopes) : Action Unit := do
  let m ← get
  let scopes ← lift (f m.scopes)
  set { m with scopes }

/- Go on at another position. -/
def goTo (pc : Nat) : Action Unit :=
  modify fun m => { m with pc }

/- Call a built-in function. -/
def callBuiltin
    (name : String)
    (f : Builtin)
    (arguments : List Value) : Action (Option Value) := do
  let m ← get
  match f.run m.scopes arguments m.host with
  | .ok result host =>
      set { m with host }
      return result
  | .error e host =>
      set { m with host }
      throw (.builtin name e)

end Action
end StackScript
