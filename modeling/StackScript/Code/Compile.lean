import StackScript.Code.Draft
import StackScript.Parse.Statement

/-
  Making code from programs.

  Expressions and statements are written to a draft from the
  left to the right. An expression that is kept leaves its
  value on the stack; one that is not leaves nothing.

  Key definitions include:
    * `Expr.draft`
    * `Stmt.draft`
    * `Program.compile`
    * `build`
-/

namespace StackScript

open Drafting

------------------------------------------------------------
-- Expressions
------------------------------------------------------------

namespace Drafting

/-
  One if two conditions hold, else zero; the second is
  skipped when the first fails.
-/
def both (left right : Drafting Unit) : Drafting Unit := do
  left
  let leftFails ← jump .jz
  right
  let rightFails ← jump .jz
  write (Code.pushed (.number .one))
  let done ← jump .jmp
  patchHere leftFails
  patchHere rightFails
  write (Code.pushed (.number (.zero false)))
  patchHere done

/-
  One if one of two conditions holds, else zero; the second
  is skipped when the first holds.
-/
def either (left right : Drafting Unit) : Drafting Unit := do
  left
  let leftFails ← jump .jz
  write (Code.pushed (.number .one))
  let leftHolds ← jump .jmp
  patchHere leftFails
  right
  let rightFails ← jump .jz
  write (Code.pushed (.number .one))
  let rightHolds ← jump .jmp
  patchHere rightFails
  write (Code.pushed (.number (.zero false)))
  patchHere leftHolds
  patchHere rightHolds

end Drafting

mutual

/- Write an expression, whose value is kept or not. -/
def Expr.draft :
    Bool → Expr → Drafting Unit
| keep, .literal text place =>
    match Constant.ofText? text with
    | none => throw (.invalidLiteral text place)
    | some c => write (Code.pushIf keep c)
| keep, .string text _ =>
    write (Code.pushIf keep (.text (Token.unquote text)))
| keep, .variable name _ => do
    write (Code.named .load name)
    write (Code.dropUnless keep)
| keep, .binary operator a b place =>
    match operator.binaryOp? with
    | none => throw (.unknownOperator "binary" operator place)
    | some op => do
        a.draft true
        b.draft true
        write (Code.bare op)
        write (Code.dropUnless keep)
| keep, .logical operator a b place =>
    match operator with
    | .and => do
        both (a.draft true) (b.draft true)
        write (Code.dropUnless keep)
    | .or => do
        either (a.draft true) (b.draft true)
        write (Code.dropUnless keep)
    | _ => throw (.unknownOperator "logical" operator place)
| keep, .unary operator a place =>
    if operator = .plus then a.draft keep
    else if operator.isStep then do
      let name ← a.updateTarget operator
      write (Code.step operator name)
      write (Code.loadIf keep name)
    else
      match operator.unaryOp? with
      | none => throw (.unknownOperator "unary" operator place)
      | some op => do
          a.draft true
          write (Code.bare op)
          write (Code.dropUnless keep)
| keep, .post operator a place =>
    if operator.isStep then do
      let name ← a.updateTarget operator
      if keep then
        -- The old value waits in a scope of its own, so that no
        -- second evaluation finds its variable declared.
        let hidden ← Emit.temporary
        inScope do
          write (Code.named .alloc hidden)
          write (Code.named .load name)
          write (Code.named .store hidden)
          write (Code.step operator name)
          write (Code.named .load hidden)
      else write (Code.step operator name)
    else throw (.unknownOperator "postfix" operator place)
| keep, .assignment name value _ => do
    value.draft true
    write (Code.named .store name)
    write (Code.loadIf keep name)
| keep, .call name arguments _ => do
    Expr.draftAll arguments
    write (Code.called name arguments.length)
    write (Code.dropUnless keep)

/- Write some expressions whose values are kept. -/
def Expr.draftAll :
    List Expr → Drafting Unit
| [] => return
| e :: es => do
    e.draft true
    Expr.draftAll es

end

------------------------------------------------------------
-- Statements
------------------------------------------------------------

/- Write the result of a function, which is null if none is given. -/
def Expr.draftResult : Option Expr → Drafting Unit
| none => write (Code.pushed .null)
| some e => e.draft true

/- Write the update of a loop, if there is one. -/
def Expr.draftUpdate : Option Expr → Drafting Unit
| none => return
| some e => e.draft false

/- Write the test of a loop, if there is one, and the exit behind it. -/
def Expr.draftTest : Option Expr → Drafting (Option Nat)
| none => return none
| some e => do
    e.draft true
    return some (← jump .jz)

/- Let the exit of a loop, if there is one, lead to a position. -/
def Drafting.patchExit : Option Nat → Nat → Drafting Unit
| none, _ => return
| some exit, target => patch exit target

mutual

/- Write a statement. -/
def Stmt.draft : Stmt → Drafting Unit
| .expr e => e.draft false
| .declare name _ => write (Code.named .alloc name)
| .define name value _ => do
    write (Code.named .alloc name)
    value.draft true
    write (Code.named .store name)
| .function name parameters body _ => do
    let code ← separately do
      Stmt.draftAll body
      write (Code.pushed .null)
      write (Code.bare .ret)
    let mark ← Emit.mark
    write (Code.named .alloc name)
    write (Code.pushed (.routine ⟨mark, name, parameters, code⟩))
    write (Code.named .store name)
| .ret argument _ => do
    Expr.draftResult argument
    write (Code.bare .ret)
| .ifThen condition body _ => do
    condition.draft true
    let toElse ← jump .jz
    inScope (Stmt.draftAll body)
    patchHere toElse
| .ifElse condition body otherwise _ => do
    condition.draft true
    let toElse ← jump .jz
    inScope (Stmt.draftAll body)
    let toEnd ← jump .jmp
    patchHere toElse
    inScope (Stmt.draftAll otherwise)
    patchHere toEnd
| .whileLoop condition body _ => do
    let start ← here
    condition.draft true
    let exit ← jump .jz
    openLoop
    inScope (Stmt.draftAll body)
    jumpTo .jmp start
    let leave ← here
    closeLoop start leave
    patch exit leave
| .forLoop initial condition update body _ => do
    pushScope
    initial.draft
    let start ← here
    let exit ← Expr.draftTest condition
    openLoop
    inScope (Stmt.draftAll body)
    let next ← here
    Expr.draftUpdate update
    jumpTo .jmp start
    let leave ← here
    closeLoop next leave
    patchExit exit leave
    popScope
| .breakLoop place => do
    match (← get).loops with
    | [] => throw (.breakOutsideLoop place)
    | c :: _ =>
        modify (·.unwindTo c.depth)
        let site ← jump .jmp
        modify (·.addBreak site)
| .continueLoop place => do
    match (← get).loops with
    | [] => throw (.continueOutsideLoop place)
    | c :: _ =>
        modify (·.unwindTo c.depth)
        let site ← jump .jmp
        modify (·.addContinue site)

/- Write some statements, one after the other. -/
def Stmt.draftAll : List Stmt → Drafting Unit
| [] => return
| s :: ss => do
    s.draft
    Stmt.draftAll ss

end

------------------------------------------------------------
-- Programs
------------------------------------------------------------

/- The code of a program. -/
def Program.compile (p : Program) : Emit Code :=
  separately do
    Stmt.draftAll p
    write (Code.bare .halt)

/- Why a source text does not become code. -/
inductive BuildError where
| parse (error : ParseError)
| compile (error : CompileError)
deriving DecidableEq, Repr

/- The text of an error. -/
def BuildError.message : BuildError → String
| .parse e => e.message
| .compile e => e.message

/-
  The code of a source text, whose functions are marked by
  numbers from `routines` on, and the next such number.
-/
def build
    (routines : Nat)
    (source : String) : Except BuildError Code × Nat :=
  match Program.parse (Token.scan source) with
  | .error e => (.error (.parse e), routines)
  | .ok program =>
      match program.compile ⟨0, routines⟩ with
      | .ok code fresh => (.ok code, fresh.routines)
      | .error e fresh => (.error (.compile e), fresh.routines)

end StackScript
