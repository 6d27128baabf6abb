import StackScript.Proofs.Machine.Stepping

/-
  What programs mean.

  A tree is evaluated directly, over the states of the
  machine and without any code: expressions from left to
  right, statements one after the other, each saying how to
  go on. Calls and repetitions of a loop are bounded, and an
  evaluation beyond the bound is unfinished.

  What an operator means is said here once more, of values
  and without any instruction.

  A function value knows its code and not its tree, so a
  library tells which tree belongs to a function value. Its
  name and its parameters come from the tree as well; only
  the code that it carries does not. The functions that a
  tree declares are numbered in the order in which their
  declarations end.

  Key definitions include:
    * `Operator.compute?`, `Operator.alter?`, `Operator.step?`
    * `Declaration`, `Library`
    * `Eval`
    * `Expr.eval`
    * `Stmt.eval`
    * `Library.call`
    * `Program.eval`
-/

namespace StackScript

------------------------------------------------------------
-- Operators
------------------------------------------------------------

/- What comes of two values, at a precision. -/
abbrev Combination :=
  Nat → Value → Value → Except EvalError Value

namespace Operator

/- What an operator makes of the values of two operands. -/
def compute? : Operator → Option Combination
| .add => some fun precision a b => Value.arithmetic .add a b precision
| .sub => some fun precision a b => Value.arithmetic .sub a b precision
| .mul => some fun precision a b => Value.arithmetic .mul a b precision
| .div => some fun precision a b => Value.arithmetic .div a b precision
| .mod => some fun precision a b => Value.arithmetic .mod a b precision
| .eq => some fun _ a b => (Value.compare .eq a b).map .ofBool
| .ne => some fun _ a b => (Value.compare .ne a b).map .ofBool
| .gt => some fun _ a b => (Value.compare .gt a b).map .ofBool
| .lt => some fun _ a b => (Value.compare .lt a b).map .ofBool
| .ge => some fun _ a b => (Value.compare .gte a b).map .ofBool
| .le => some fun _ a b => (Value.compare .lte a b).map .ofBool
| _ => none

/- What an operator makes of the value of its operand. -/
def alter? : Operator → Option (Value → Except EvalError Value)
| .minus => some Value.negate
| .not => some fun v => .ok (.ofBool !v.isTruthy)
| .bitNot => some Value.bitNot
| _ => none

/- How an increment or a decrement combines a value with one. -/
def step? : Operator → Option Combination
| .increment =>
    some fun precision a b => Value.arithmetic .add a b precision
| .decrement =>
    some fun precision a b => Value.arithmetic .sub a b precision
| _ => none

end Operator

------------------------------------------------------------
-- Libraries
------------------------------------------------------------

/- A function as a tree declares it. -/
structure Declaration where
  name : String
  parameters : List String
  /- The number of the first function declared in its body. -/
  first : Nat
  body : List Stmt

/- The functions of some programs by their numbers. -/
structure Library where
  declared : Nat → Declaration
  /- The code that its value carries. -/
  code : Nat → Code

namespace Library

variable (lib : Library)
variable (k : Nat)

/- The value of a function, with name and parameters as declared. -/
def routine : Routine :=
  ⟨k, (lib.declared k).name, (lib.declared k).parameters, lib.code k⟩

/- The number of the first function declared in a function. -/
def first : Nat :=
  (lib.declared k).first

/- The statements of a function. -/
def body : List Stmt :=
  (lib.declared k).body

end Library

mutual

/- How many functions a statement declares, also within others. -/
def Stmt.functions : Stmt → Nat
| .function _ _ body _ => Stmt.functionsAll body + 1
| .ifThen _ body _ => Stmt.functionsAll body
| .ifElse _ body otherwise _ =>
    Stmt.functionsAll body + Stmt.functionsAll otherwise
| .whileLoop _ body _ => Stmt.functionsAll body
| .forLoop initial _ _ body _ =>
    initial.functions + Stmt.functionsAll body
| _ => 0

/- How many functions some statements declare. -/
def Stmt.functionsAll : List Stmt → Nat
| [] => 0
| s :: ss => s.functions + Stmt.functionsAll ss

end

------------------------------------------------------------
-- Evaluations
------------------------------------------------------------

/- Why an evaluation gives no result. -/
inductive Stop where
| failed (error : EvalError)
/- The bound was too small. -/
| unfinished
/- The tree is none that code can be made from. -/
| meaningless

/- A computation over the states of the machine. -/
abbrev Eval :=
  EStateM Stop State

/- How to go on after a statement. -/
inductive Signal where
| next
| breakLoop
| continueLoop
| ret (v : Value)

/- What a call gives when the body of the function is done. -/
def Signal.result : Signal → Value
| .ret v => v
| _ => .null

/- The state in which the body of a function starts. -/
def State.entered
    (σ : State)
    (scopes : Scopes) : State :=
  { σ with scopes, calls := σ.calls + 1 }

/- The state of a caller after the body left a state. -/
def State.resumed
    (σ after : State) : State :=
  { after with
    calls := σ.calls
    scopes := after.scopes.truncate σ.scopes.depth }

namespace Eval

variable {α : Type}

/- The result of a computation that may fail. -/
def lift (result : Except EvalError α) : Eval α :=
  match result with
  | .ok a => return a
  | .error e => throw (.failed e)

/- What the tree has to have. -/
def demand (part : Option α) : Eval α :=
  match part with
  | some a => return a
  | none => throw .meaningless

/- Change the scopes. -/
def onScopes (f : Scopes → Except EvalError Scopes) : Eval Unit := do
  let scopes ← lift (f (← get).scopes)
  modify (·.inScopes scopes)

/- The value of a variable. -/
def load (name : String) : Eval Value := do
  lift ((← get).scopes.lookup name)

/- Give a variable a value. -/
def store
    (name : String)
    (v : Value) : Eval Unit :=
  onScopes (·.assign name v)

/- Declare a variable. -/
def declare (name : String) : Eval Unit :=
  onScopes (·.declare name .null)

/- What comes of two values at the precision of the state. -/
def combine
    (f : Combination)
    (left right : Value) : Eval Value := do
  lift (f (← get).host.precision left right)

/- Combine a variable with one; its old value and its new one. -/
def update
    (f : Combination)
    (name : String) : Eval (Value × Value) := do
  let old ← load name
  let new ← combine f old (.number .one)
  store name new
  return (old, new)

/- Run statements in a scope of their own, which a return leaves open. -/
def inBlock (body : Eval Signal) : Eval Signal := do
  onScopes fun s => .ok s.push
  match ← body with
  | .ret v => return .ret v
  | signal =>
      onScopes fun s => .ok (s.close 1)
      return signal

/- Repeat a loop, a bounded number of times. -/
def repeated
    (test : Eval Bool)
    (body : Eval Signal)
    (update : Eval Unit) :
    Nat → Eval Signal
| 0 => throw .unfinished
| bound + 1 => do
    if ← test then
      match ← body with
      | .breakLoop => return .next
      | .ret v => return .ret v
      | _ =>
          update
          repeated test body update bound
    else return .next

/- Call a built-in function. -/
def builtin
    (name : String)
    (f : Builtin)
    (arguments : List Value) : Eval Value :=
  fun σ =>
    match f.run σ.scopes arguments σ.host with
    | .ok result host => .ok (result.getD .null) (σ.withHost host)
    | .error e host =>
        .error (.failed (.builtin name e)) (σ.withHost host)

/- Run the body of a function in the scopes of the call. -/
def enclosed
    (scopes : Scopes)
    (body : Eval Signal) : Eval Value :=
  fun σ =>
    match body (σ.entered scopes) with
    | .ok signal after => .ok signal.result (σ.resumed after)
    | .error stop after => .error stop (σ.resumed after)

/-
  Declare each parameter with its argument; one that has
  none is undefined.
-/
def bindArguments :
    List String → List Value → Scopes → Except EvalError Scopes
| [], _, s => .ok s
| p :: ps, [], s => do
    let s ← s.declare p .undefined
    bindArguments ps [] s
| p :: ps, v :: vs, s => do
    let s ← s.declare p v
    bindArguments ps vs s

/- Call a function of the program. -/
def invoke
    (name : String)
    (arguments : List Value)
    (body : Routine → Eval Signal) : Eval Value := do
  let r ← lift ((← get).callee name)
  let scopes ←
    lift (bindArguments r.parameters arguments (← get).scopes.push)
  enclosed scopes (body r)

end Eval

------------------------------------------------------------
-- Expressions
------------------------------------------------------------

mutual

/- The value of an expression, where calls are given. -/
def Expr.eval
    (call : String → List Value → Eval Value) :
    Expr → Eval Value
| .literal text _ => do
    let c ← Eval.demand (Constant.ofText? text)
    return .ofConstant c
| .string text _ => return .text (Token.unquote text)
| .variable name _ => Eval.load name
| .binary operator a b _ => do
    let f ← Eval.demand operator.compute?
    let left ← a.eval call
    let right ← b.eval call
    Eval.combine f left right
| .logical operator a b _ =>
    match operator with
    | .and => do
        if (← a.eval call).isZero then return .ofBool false
        else return .ofBool !(← b.eval call).isZero
    | .or => do
        if (← a.eval call).isZero then
          return .ofBool !(← b.eval call).isZero
        else return .ofBool true
    | _ => throw .meaningless
| .unary operator a _ =>
    if operator = .plus then a.eval call
    else
      match operator.step? with
      | some f => do
          let name ← Eval.demand a.name?
          let (_, new) ← Eval.update f name
          return new
      | none => do
          let f ← Eval.demand operator.alter?
          let v ← a.eval call
          Eval.lift (f v)
| .post operator a _ =>
    match operator.step? with
    | some f => do
        let name ← Eval.demand a.name?
        let (old, _) ← Eval.update f name
        return old
    | none => throw .meaningless
| .assignment name value _ => do
    let v ← value.eval call
    Eval.store name v
    return v
| .call name arguments _ => do
    let values ← Expr.evalAll call arguments
    call name values

/- The values of some expressions, one after the other. -/
def Expr.evalAll
    (call : String → List Value → Eval Value) :
    List Expr → Eval (List Value)
| [] => return []
| e :: es => do
    let v ← e.eval call
    let vs ← Expr.evalAll call es
    return v :: vs

end

------------------------------------------------------------
-- Statements
------------------------------------------------------------

/- A condition of a loop holds; a missing one always does. -/
def Expr.test
    (call : String → List Value → Eval Value) :
    Option Expr → Eval Bool
| none => return true
| some e => do return !(← e.eval call).isZero

/- Evaluate an optional expression for what it does. -/
def Expr.perform
    (call : String → List Value → Eval Value) :
    Option Expr → Eval Unit
| none => return
| some e => do let _ ← e.eval call

mutual

/-
  Run a statement, where calls are given and loops bounded.
  The functions it declares have the numbers from `first` on.
-/
def Stmt.eval
    (lib : Library)
    (call : String → List Value → Eval Value)
    (bound : Nat) :
    Nat → Stmt → Eval Signal
| _, .expr e => do
    let _ ← e.eval call
    return .next
| _, .declare name _ => do
    Eval.declare name
    return .next
| _, .define name value _ => do
    Eval.declare name
    let v ← value.eval call
    Eval.store name v
    return .next
| first, .function name _ body _ => do
    Eval.declare name
    let r := lib.routine (first + Stmt.functionsAll body)
    Eval.store name (.routine r)
    return .next
| _, .ret none _ => return .ret .null
| _, .ret (some e) _ => do
    let v ← e.eval call
    return .ret v
| first, .ifThen condition body _ => do
    if (← condition.eval call).isZero then return .next
    else Eval.inBlock (Stmt.evalAll lib call bound first body)
| first, .ifElse condition body otherwise _ => do
    if (← condition.eval call).isZero then
      let first := first + Stmt.functionsAll body
      Eval.inBlock (Stmt.evalAll lib call bound first otherwise)
    else Eval.inBlock (Stmt.evalAll lib call bound first body)
| first, .whileLoop condition body _ =>
    Eval.repeated (Expr.test call (some condition))
      (Eval.inBlock (Stmt.evalAll lib call bound first body))
      (return) bound
| first, .forLoop initial condition update body _ =>
    Eval.inBlock do
      match ← initial.eval lib call bound first with
      | .next =>
          let first := first + initial.functions
          Eval.repeated (Expr.test call condition)
            (Eval.inBlock (Stmt.evalAll lib call bound first body))
            (Expr.perform call update) bound
      | signal => return signal
| _, .breakLoop _ => return .breakLoop
| _, .continueLoop _ => return .continueLoop

/- Run some statements, up to one that does not go on. -/
def Stmt.evalAll
    (lib : Library)
    (call : String → List Value → Eval Value)
    (bound : Nat) :
    Nat → List Stmt → Eval Signal
| _, [] => return .next
| first, s :: ss => do
    match ← s.eval lib call bound first with
    | .next =>
        Stmt.evalAll lib call bound (first + s.functions) ss
    | signal => return signal

end

------------------------------------------------------------
-- Calls and Programs
------------------------------------------------------------

/-
  Call a name: a built-in function if there is one, else a
  function of the library. The bound is on nested calls and
  on the repetitions of each loop.
-/
def Library.call
    (lib : Library) :
    Nat → String → List Value → Eval Value
| 0, _, _ => throw .unfinished
| bound + 1, name, arguments =>
    match Registry.standard.lookup name with
    | some (_, f) => Eval.builtin name f arguments
    | none =>
        Eval.invoke name arguments fun r =>
          Stmt.evalAll lib (lib.call bound) bound
            (lib.first r.mark) (lib.body r.mark)

/-
  Run a program, whose functions have the numbers from
  `first` on.
-/
def Program.eval
    (lib : Library)
    (bound first : Nat)
    (p : Program) : Eval Signal :=
  Stmt.evalAll lib (lib.call bound) bound first p

end StackScript
