import StackScript.Parse.Expression

/-
  Reading statements and programs.

  Key definitions include:
    * `Parser.statement`
    * `Parser.items`
    * `Program.parse`
-/

namespace StackScript
namespace Parser

------------------------------------------------------------
-- Simple Statements
------------------------------------------------------------

/- Read `new name` or `new name = value`. -/
def declaration (bound : Nat) : Parser Stmt := do
  let place ← here
  advance
  let name ← expectIdentifier "new"
  match ← peek with
  | some t =>
      if t.isOperator "=" then
        advance
        requireOperand t
        let value ← expression bound 0
        return .define name value place
      else return .declare name place
  | none => return .declare name place

/- Read `return` with its optional value and its semicolon. -/
def returnStatement (bound : Nat) : Parser Stmt := do
  let place ← here
  advance
  if ← peekIs (·.isSeparator ";") then
    expectSemicolon
    return .ret none place
  else
    let argument ← expression bound 0
    expectSemicolon
    return .ret (some argument) place

/- Read an expression unless the next token has a property. -/
def expressionUnless
    (bound : Nat)
    (stop : Token → Bool) : Parser (Option Expr) := do
  if ← peekIs stop then return none
  else
    let e ← expression bound 0
    return some e

/- Read an expression in parentheses. -/
def parenthesized (bound : Nat) : Parser Expr := do
  expectOperator "("
  let e ← expression bound 0
  expectOperator ")"
  return e

------------------------------------------------------------
-- Parameters
------------------------------------------------------------

/-
  Read the parameters of a function, the first of which has
  to come next, given those already read.
-/
def parameterList
    (function : String) :
    Nat → List String → Parser (List String)
| 0, _ => failHere .unexpectedEnd
| bound + 1, known => do
    match ← peek with
    | none => failHere (.missingToken ")")
    | some t =>
        if t.kind ≠ .identifier then
          if t.isOperator ")" && !known.isEmpty then
            throw (.trailingComma function t.location)
          else throw (.expectedParameter function t.text t.location)
        else if t.text ∈ known then
          throw (.duplicateParameter t.text function t.location)
        else
          advance
          let known := known ++ [t.text]
          if ← peekIs (·.isSeparator ",") then
            advance
            parameterList function bound known
          else return known

/- Read the parameters of a function in parentheses. -/
def parameters
    (bound : Nat)
    (function : String) : Parser (List String) := do
  expectOperator "("
  if ← peekIs (·.isOperator ")") then
    expectOperator ")"
    return []
  else
    let names ← parameterList function bound []
    expectOperator ")"
    return names

------------------------------------------------------------
-- Statements
------------------------------------------------------------

mutual

/- Read a statement; an empty one gives `none`. -/
def statement :
    Nat → Parser (Option Stmt)
| 0 => failHere .unexpectedEnd
| bound + 1 => do
    match ← peek with
    | none => return none
    | some t =>
        if t.isSeparator ";" then
          advance
          return none
        else if t.isKeyword "new" then
          return some (← declaration bound)
        else if t.isKeyword "if" then
          return some (← ifStatement bound)
        else if t.isKeyword "while" then
          advance
          let condition ← parenthesized bound
          let body ← block bound
          return some (.whileLoop condition body t.location)
        else if t.isKeyword "for" then
          return some (← forStatement bound)
        else if t.isKeyword "function" then
          advance
          let name ← expectIdentifier "function"
          let names ← parameters bound name
          let body ← block bound
          return some (.function name names body t.location)
        else if t.isKeyword "return" then
          return some (← returnStatement bound)
        else if t.isKeyword "break" then
          advance
          return some (.breakLoop t.location)
        else if t.isKeyword "continue" then
          advance
          return some (.continueLoop t.location)
        else
          let e ← expression bound 0
          return some (.expr e)

/- Read a statement that starts with `if`. -/
def ifStatement :
    Nat → Parser Stmt
| 0 => failHere .unexpectedEnd
| bound + 1 => do
    let place ← here
    advance
    let condition ← parenthesized bound
    let body ← block bound
    if ← peekIs (·.isKeyword "else") then
      advance
      if ← peekIs (·.isKeyword "if") then
        let inner ← ifStatement bound
        return .ifElse condition body [inner] place
      else
        let otherwise ← block bound
        return .ifElse condition body otherwise place
    else return .ifThen condition body place

/- Read a statement that starts with `for`. -/
def forStatement :
    Nat → Parser Stmt
| 0 => failHere .unexpectedEnd
| bound + 1 => do
    let place ← here
    advance
    expectOperator "("
    match ← statement bound with
    | none => failHere .invalidForInitializer
    | some initial =>
        expectSemicolon
        let condition ← expressionUnless bound (·.isSeparator ";")
        expectSemicolon
        let update ← expressionUnless bound (·.isOperator ")")
        expectOperator ")"
        let body ← block bound
        return .forLoop initial condition update body place

/- Read statements in braces. -/
def block :
    Nat → Parser (List Stmt)
| 0 => failHere .unexpectedEnd
| bound + 1 => do
    expectOperator "\x7b"
    items bound

/- Read statements up to the closing brace. -/
def items :
    Nat → Parser (List Stmt)
| 0 => failHere .unexpectedEnd
| bound + 1 => do
    match ← peek with
    | none => failHere (.missingToken "\x7d")
    | some t =>
        if t.isOperator "\x7d" then
          advance
          return []
        else
          let first ← statement bound
          let others ← items bound
          return first.toList ++ others

end

------------------------------------------------------------
-- Programs
------------------------------------------------------------

/- Read statements up to the end of the tokens. -/
def statements :
    Nat → Parser (List Stmt)
| 0 => failHere .unexpectedEnd
| bound + 1 => do
    match ← peek with
    | none => return []
    | some _ =>
        let first ← statement bound
        let others ← statements bound
        return first.toList ++ others

end Parser

/-
  A bound on the nesting of calls for a number of tokens:
  between two tokens there are at most eight.
-/
def Program.parseBound (tokens : List Token) : Nat :=
  8 * (tokens.length + 1)

/- The program that a list of tokens is. -/
def Program.parse (tokens : List Token) : Except ParseError Program := do
  let (program, _) ←
    (Parser.statements (Program.parseBound tokens)).run
      (.start tokens)
  return program

end StackScript
