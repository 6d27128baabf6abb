import StackScript.Code.Literal
import StackScript.Token.Scan
import StackScript.Tree.Basic

/-
  What code is made of.

  Making code can fail, and it uses up fresh numbers for
  hidden names and for functions. Its pieces without jumps
  are the same wherever they stand.

  Key definitions include:
    * `CompileError`
    * `Fresh`
    * `Emit`
    * `Code.step`, `Code.stepKeepingOld`
    * `Operator.binaryOp?`, `Operator.unaryOp?`
-/

namespace StackScript

------------------------------------------------------------
-- Errors
------------------------------------------------------------

/- Why no code can be made from a tree. -/
inductive CompileError where
| breakOutsideLoop (place : Location)
| continueOutsideLoop (place : Location)
| unknownOperator
    (kind : String)
    (operator : Operator)
    (place : Location)
| invalidUpdateTarget
    (operator : Operator)
    (kind : String)
    (place : Location)
| invalidLiteral (text : String) (place : Location)
deriving DecidableEq, Repr

/- The text of an error. -/
def CompileError.message : CompileError → String
| .breakOutsideLoop l =>
    s!"Break statement outside of loop at {l.describe}"
| .continueOutsideLoop l =>
    s!"Continue statement outside of loop at {l.describe}"
| .unknownOperator kind operator l =>
    s!"Unknown {kind} operator \"{operator.symbol}\" at {l.describe}"
| .invalidUpdateTarget operator kind l =>
    s!"Cannot apply \"{operator.symbol}\" to a {kind} at {l.describe}"
| .invalidLiteral text l =>
    s!"Invalid numeric literal \"{text}\" at {l.describe}"

------------------------------------------------------------
-- Fresh Numbers
------------------------------------------------------------

/- The numbers that the next hidden name and function get. -/
structure Fresh where
  temporaries : Nat
  routines : Nat
deriving DecidableEq, Repr, Inhabited

/- Making code uses up fresh numbers, and may fail. -/
abbrev Emit :=
  EStateM CompileError Fresh

/- A name that no program can write. -/
def Emit.temporary : Emit String := do
  let fresh ← get
  set { fresh with temporaries := fresh.temporaries + 1 }
  return s!"__$temp{fresh.temporaries}"

/- A mark that no other function has. -/
def Emit.mark : Emit Nat := do
  let fresh ← get
  set { fresh with routines := fresh.routines + 1 }
  return fresh.routines

------------------------------------------------------------
-- Instructions
------------------------------------------------------------

namespace Code

/- An instruction without operands. -/
def bare (o : Op) : Code :=
  [.ofOp o]

/- An instruction on a name. -/
def named
    (o : Op)
    (name : String) : Code :=
  [.ofOp o, .name name]

/- An instruction that pushes a constant. -/
def pushed (c : Constant) : Code :=
  [.ofOp .push, .const c]

/- A jump. -/
def jump
    (o : Op)
    (target : Nat) : Code :=
  [.ofOp o, .target target]

/- A call with a number of arguments. -/
def called
    (name : String)
    (arguments : Nat) : Code :=
  [.ofOp .call, .name name, .count arguments]

/- Push a constant if its value is kept. -/
def pushIf
    (keep : Bool)
    (c : Constant) : Code :=
  if keep then pushed c else []

/- Drop the value on the stack unless it is kept. -/
def dropUnless (keep : Bool) : Code :=
  if keep then [] else bare .pop

/- Load a variable if its value is kept. -/
def loadIf
    (keep : Bool)
    (name : String) : Code :=
  if keep then named .load name else []

/- The operation of an increment or a decrement. -/
def stepOp (operator : Operator) : Op :=
  if operator = .decrement then .sub else .add

/- Add one to a variable, or take one off. -/
def step
    (operator : Operator)
    (name : String) : Code :=
  named .load name ++ pushed (.number .one)
    ++ bare (stepOp operator) ++ named .store name

/-
  Step a variable and leave its old value, which a hidden
  variable in a scope of its own holds meanwhile.
-/
def stepKeepingOld
    (operator : Operator)
    (name hidden : String) : Code :=
  bare .pushScope ++ named .alloc hidden ++ named .load name
    ++ named .store hidden ++ step operator name
    ++ named .load hidden ++ bare .popScope

end Code

------------------------------------------------------------
-- Operators
------------------------------------------------------------

namespace Operator

/- The operation of an operator between two operands. -/
def binaryOp? : Operator → Option Op
| .add => some .add
| .sub => some .sub
| .mul => some .mul
| .div => some .div
| .mod => some .mod
| .eq => some .eq
| .ne => some .ne
| .gt => some .gt
| .lt => some .lt
| .ge => some .gte
| .le => some .lte
| _ => none

/- The operation of an operator in front of an operand. -/
def unaryOp? : Operator → Option Op
| .minus => some .neg
| .not => some .not
| .bitNot => some .bitNot
| _ => none

end Operator

/- The variable that an increment or a decrement changes. -/
def Expr.updateTarget
    (e : Expr)
    (operator : Operator) : Emit String :=
  match e.name? with
  | some name => return name
  | none => throw (.invalidUpdateTarget operator e.kind e.location)

end StackScript
