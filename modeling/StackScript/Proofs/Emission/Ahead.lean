import StackScript.Code.Compile

/-
  Code that knows where it stands.

  Made for a known position in the stream, code can have all
  its targets written down at once, since the size of what a
  jump leads over is known before it is made. A loop knows
  where it ends before its body is emitted, and `break` and
  `continue` jump there. No target is filled in later, which
  is what makes this form fit for induction.

  Key definitions include:
    * `Code.both`, `Code.either`
    * `Expr.size`, `Stmt.size`
    * `Expr.emit`
    * `Loop`
    * `Stmt.emit`
-/

namespace StackScript

------------------------------------------------------------
-- Conditions
------------------------------------------------------------

namespace Code

/-
  One if two conditions hold, else zero; the code of the
  second is skipped when the first fails.
-/
def both
    (start : Nat)
    (left right : Code) : Code :=
  let fails := start + left.length + right.length + 8
  left ++ jump .jz fails ++ right ++ jump .jz fails
    ++ pushed (.number .one) ++ jump .jmp (fails + 2)
    ++ pushed (.number (.zero false))

/-
  One if one of two conditions holds, else zero; the code of
  the second is skipped when the first holds.
-/
def either
    (start : Nat)
    (left right : Code) : Code :=
  let second := start + left.length + 6
  let fails := second + right.length + 6
  left ++ jump .jz second ++ pushed (.number .one)
    ++ jump .jmp (fails + 2) ++ right ++ jump .jz fails
    ++ pushed (.number .one) ++ jump .jmp (fails + 2)
    ++ pushed (.number (.zero false))

end Code

------------------------------------------------------------
-- Expressions
------------------------------------------------------------

mutual

/- How many words the code of an expression has. -/
def Expr.size :
    Bool → Expr → Nat
| keep, .literal .. | keep, .string .. => if keep then 2 else 0
| keep, .variable .. => if keep then 2 else 3
| keep, .binary _ a b _ =>
    a.size true + b.size true + if keep then 1 else 2
| keep, .logical operator a b _ =>
    a.size true + b.size true
      + (if operator = .and then 10 else 14)
      + if keep then 0 else 1
| keep, .unary operator a _ =>
    if operator = .plus then a.size keep
    else if operator.isStep then if keep then 9 else 7
    else a.size true + if keep then 1 else 2
| keep, .post .. => if keep then 17 else 7
| keep, .assignment _ value _ =>
    value.size true + if keep then 4 else 2
| keep, .call _ arguments _ =>
    Expr.sizes arguments + if keep then 3 else 4

/- How many words the code of some kept expressions has. -/
def Expr.sizes : List Expr → Nat
| [] => 0
| e :: es => e.size true + Expr.sizes es

end

mutual

/- The code of an expression, to stand at a position. -/
def Expr.emit :
    Nat → Bool → Expr → Emit Code
| _, keep, .literal text place =>
    match Constant.ofText? text with
    | none => throw (.invalidLiteral text place)
    | some c => return Code.pushIf keep c
| _, keep, .string text _ =>
    return Code.pushIf keep (.text (Token.unquote text))
| _, keep, .variable name _ =>
    return Code.named .load name ++ Code.dropUnless keep
| start, keep, .binary operator a b place =>
    match operator.binaryOp? with
    | none => throw (.unknownOperator "binary" operator place)
    | some op => do
        let left ← a.emit start true
        let right ← b.emit (start + left.length) true
        return left ++ right ++ Code.bare op ++ Code.dropUnless keep
| start, keep, .logical operator a b place =>
    match operator with
    | .and => do
        let left ← a.emit start true
        let right ← b.emit (start + left.length + 2) true
        return Code.both start left right ++ Code.dropUnless keep
    | .or => do
        let left ← a.emit start true
        let right ← b.emit (start + left.length + 6) true
        return Code.either start left right ++ Code.dropUnless keep
    | _ => throw (.unknownOperator "logical" operator place)
| start, keep, .unary operator a place =>
    if operator = .plus then a.emit start keep
    else if operator.isStep then do
      let name ← a.updateTarget operator
      return Code.step operator name ++ Code.loadIf keep name
    else
      match operator.unaryOp? with
      | none => throw (.unknownOperator "unary" operator place)
      | some op => do
          let argument ← a.emit start true
          return argument ++ Code.bare op ++ Code.dropUnless keep
| _, keep, .post operator a place => do
    if operator.isStep then
      let name ← a.updateTarget operator
      if keep then
        let hidden ← Emit.temporary
        return Code.stepKeepingOld operator name hidden
      else return Code.step operator name
    else throw (.unknownOperator "postfix" operator place)
| start, keep, .assignment name value _ => do
    let code ← value.emit start true
    return code ++ Code.named .store name ++ Code.loadIf keep name
| start, keep, .call name arguments _ => do
    let code ← Expr.emitAll start arguments
    return code ++ Code.called name arguments.length
      ++ Code.dropUnless keep

/- The code of some kept expressions, one after the other. -/
def Expr.emitAll :
    Nat → List Expr → Emit Code
| _, [] => return []
| start, e :: es => do
    let first ← e.emit start true
    let others ← Expr.emitAll (start + first.length) es
    return first ++ others

end

------------------------------------------------------------
-- Sizes
------------------------------------------------------------

/- How many words an optional value needs. -/
def sizeOr
    {α : Type}
    (missing : Nat)
    (size : α → Nat) :
    Option α → Nat
| none => missing
| some a => size a

mutual

/-
  How many words the code of a statement has, where `opened`
  scopes are open inside the innermost loop.
-/
def Stmt.size :
    Nat → Stmt → Nat
| _, .expr e => e.size false
| _, .declare .. => 2
| _, .define _ value _ => value.size true + 4
| _, .function .. => 6
| _, .ret argument _ => sizeOr 2 (·.size true) argument + 1
| opened, .ifThen condition body _ =>
    condition.size true + 2 + (Stmt.sizes (opened + 1) body + 2)
| opened, .ifElse condition body otherwise _ =>
    condition.size true + 2 + (Stmt.sizes (opened + 1) body + 2)
      + 2 + (Stmt.sizes (opened + 1) otherwise + 2)
| _, .whileLoop condition body _ =>
    condition.size true + 2 + (Stmt.sizes 1 body + 2) + 2
| opened, .forLoop initial condition update body _ =>
    1 + initial.size (opened + 1)
      + sizeOr 0 (·.size true + 2) condition
      + (Stmt.sizes 1 body + 2)
      + sizeOr 0 (·.size false) update + 2 + 1
| opened, .breakLoop _ | opened, .continueLoop _ => opened + 2

/- How many words the code of some statements has. -/
def Stmt.sizes :
    Nat → List Stmt → Nat
| _, [] => 0
| opened, s :: ss => s.size opened + Stmt.sizes opened ss

end

------------------------------------------------------------
-- Statements
------------------------------------------------------------

/- What a statement knows of the innermost loop around it. -/
structure Loop where
  /- Where `break` jumps. -/
  leave : Nat
  /- Where `continue` jumps. -/
  next : Nat
  /- How many scopes have been opened inside the loop. -/
  opened : Nat
deriving DecidableEq, Repr

/- The same loop, one scope further in. -/
def Loop.enter (l : Loop) : Loop :=
  { l with opened := l.opened + 1 }

/- Close the scopes opened inside a loop and jump. -/
def Code.exit
    (l : Loop)
    (target : Nat) : Code :=
  (List.replicate l.opened (Code.bare .popScope)).flatten
    ++ Code.jump .jmp target

/- Code in a scope of its own. -/
def Code.scoped (body : Code) : Code :=
  Code.bare .pushScope ++ body ++ Code.bare .popScope

/- The code of an optional expression. -/
def emitOption
    (missing : Code)
    (emit : Expr → Emit Code) :
    Option Expr → Emit Code
| none => return missing
| some e => emit e

mutual

/-
  The code of a statement, to stand at a position inside a
  loop or outside all.
-/
def Stmt.emit :
    Nat → Option Loop → Stmt → Emit Code
| start, _, .expr e => e.emit start false
| _, _, .declare name _ => return Code.named .alloc name
| start, _, .define name value _ => do
    let code ← value.emit (start + 2) true
    return Code.named .alloc name ++ code ++ Code.named .store name
| _, _, .function name parameters body _ => do
    let code ← Stmt.emitAll 0 none body
    let code := code ++ Code.pushed .null ++ Code.bare .ret
    let mark ← Emit.mark
    return Code.named .alloc name
      ++ Code.pushed (.routine ⟨mark, name, parameters, code⟩)
      ++ Code.named .store name
| start, _, .ret argument _ => do
    let code ←
      emitOption (Code.pushed .null) (·.emit start true) argument
    return code ++ Code.bare .ret
| start, loop, .ifThen condition body _ => do
    let test ← condition.emit start true
    let start := start + test.length + 2
    let body ← Stmt.emitAll (start + 1) (loop.map .enter) body
    return test ++ Code.jump .jz (start + body.length + 2)
      ++ Code.scoped body
| start, loop, .ifElse condition body otherwise _ => do
    let test ← condition.emit start true
    let start := start + test.length + 2
    let body ← Stmt.emitAll (start + 1) (loop.map .enter) body
    let second := start + body.length + 4
    let other ←
      Stmt.emitAll (second + 1) (loop.map .enter) otherwise
    return test ++ Code.jump .jz second ++ Code.scoped body
      ++ Code.jump .jmp (second + other.length + 2)
      ++ Code.scoped other
| start, _, .whileLoop condition body _ => do
    let test ← condition.emit start true
    let inner := start + test.length + 2
    let leave := inner + (Stmt.sizes 1 body + 2) + 2
    let body ←
      Stmt.emitAll (inner + 1) (some ⟨leave, start, 1⟩) body
    return test ++ Code.jump .jz leave ++ Code.scoped body
      ++ Code.jump .jmp start
| start, loop, .forLoop initial condition update body _ => do
    let first ← initial.emit (start + 1) (loop.map .enter)
    let again := start + 1 + first.length
    let inner := again + sizeOr 0 (·.size true + 2) condition
    let next := inner + (Stmt.sizes 1 body + 2)
    let leave := next + sizeOr 0 (·.size false) update + 2
    let test ←
      emitOption []
        (fun e => do
          let code ← e.emit again true
          return code ++ Code.jump .jz leave)
        condition
    let body ←
      Stmt.emitAll (inner + 1) (some ⟨leave, next, 1⟩) body
    let last ← emitOption [] (·.emit next false) update
    return Code.bare .pushScope ++ first ++ test
      ++ Code.scoped body ++ last ++ Code.jump .jmp again
      ++ Code.bare .popScope
| _, loop, .breakLoop place =>
    match loop with
    | none => throw (.breakOutsideLoop place)
    | some l => return Code.exit l l.leave
| _, loop, .continueLoop place =>
    match loop with
    | none => throw (.continueOutsideLoop place)
    | some l => return Code.exit l l.next

/- The code of some statements, one after the other. -/
def Stmt.emitAll :
    Nat → Option Loop → List Stmt → Emit Code
| _, _, [] => return []
| start, loop, s :: ss => do
    let first ← s.emit start loop
    let others ← Stmt.emitAll (start + first.length) loop ss
    return first ++ others

end

end StackScript
