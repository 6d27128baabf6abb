import StackScript.Parse.Statement

/-
  Reading by positions, with every step checked.

  A walk reads a list of tokens by counting how many of them
  it has passed, and keeps the count when it fails. It makes
  the moves, and uses the stacks, that the readers of
  programs do, and looks at what these take for granted: a
  move starts in front of a token, an expression has one
  more operand than operators wait, and the bound on nested
  calls is not reached.

  Key definitions include:
    * `Walk.Stop`
    * `Walk`
    * `Walk.advance`
    * `Walk.expression`
    * `Walk.statement`
    * `Walk.statements`
-/

namespace StackScript

/- Why a walk stops. -/
inductive Walk.Stop where
/- The tokens are not a program. -/
| refused (error : ParseError)
/- A move would lead behind the last token. -/
| overrun
/- Operands and waiting operators do not go together. -/
| unbalanced
/- Calls are nested deeper than the bound allows. -/
| spent
deriving DecidableEq, Repr

/- A function that moves a position, or stops there. -/
abbrev Walk :=
  EStateM Walk.Stop Nat

namespace Walk

open StackScript.Parser (Pending reduceFor reduceAll sign? step? assigned)

variable {α : Type}

------------------------------------------------------------
-- Looking and Moving
------------------------------------------------------------

/- Stop because the tokens are not a program. -/
def refuse (error : ParseError) : Walk α :=
  throw (.refused error)

section

variable (tokens : List Token)

/- The next token, not consumed. -/
def peek : Walk (Option Token) := do
  return tokens[← get]?

/- The token in front of the position. -/
def before : Walk (Option Token) := do
  match ← get with
  | 0 => return none
  | position + 1 => return tokens[position]?

/- Consume the next token, which has to be there. -/
def advance : Walk Unit := do
  let position ← get
  if position < tokens.length then set (position + 1)
  else throw .overrun

/- Where the next token starts, or at the end the last one. -/
def here : Walk Location := do
  let next := (← peek tokens).or tokens.getLast?
  return (next.map (·.location)).getD .start

/- The next token has a property. -/
def peekIs (p : Token → Bool) : Walk Bool := do
  return (← peek tokens).any p

/- Refuse the tokens with an error that points at the next one. -/
def failHere (error : Location → ParseError) : Walk α := do
  refuse (error (← here tokens))

/- Consume the operator `text`, which has to come next. -/
def expectOperator (text : String) : Walk Unit := do
  if ← peekIs tokens (·.isOperator text) then advance tokens
  else failHere tokens (.missingToken text)

/- Consume a semicolon, which has to come next. -/
def expectSemicolon : Walk Unit := do
  if ← peekIs tokens (·.isSeparator ";") then advance tokens
  else failHere tokens (.missingToken ";")

/- Consume an identifier, which has to follow a keyword. -/
def expectIdentifier (keyword : String) : Walk String := do
  match ← peek tokens with
  | some t =>
      if t.kind = .identifier then
        advance tokens
        return t.text
      else failHere tokens (.expectedIdentifier keyword)
  | none => failHere tokens (.expectedIdentifier keyword)

/- Some token has to follow the operator `t`. -/
def requireOperand (t : Token) : Walk Unit := do
  if (← peek tokens).isNone then
    refuse (.missingRightSide t.text t.location)

------------------------------------------------------------
-- Stacks
------------------------------------------------------------

/- There is one more operand than operators wait. -/
def Balanced
    (output : List Expr)
    (pending : Pending) : Prop :=
  output.length = pending.length + 1

instance
    (output : List Expr)
    (pending : Pending) :
    Decidable (Balanced output pending) :=
  inferInstanceAs (Decidable (output.length = pending.length + 1))

/- The stacks have to go together. -/
def checkStacks
    (output : List Expr)
    (pending : Pending) : Walk Unit := do
  if Balanced output pending then return
  else throw .unbalanced

/- What is left of the stacks, if they hold enough. -/
def reduced (result : Except ParseError α) : Walk α :=
  match result with
  | .ok left => return left
  | .error _ => throw .unbalanced

/- The one expression that is left when all operators are done. -/
def conclude
    (output : List Expr)
    (pending : Pending) : Walk Expr := do
  let place ← here tokens
  match ← reduced (reduceAll place pending output) with
  | [e] => return e
  | _ => throw .unbalanced

------------------------------------------------------------
-- Increments, Decrements and Calls
------------------------------------------------------------

/- No increment or decrement may follow. -/
def refuseStep : Walk Unit := do
  match ← peek tokens with
  | some t =>
      if (step? t).isSome then refuse (.chainedStep t.location)
  | none => return

/- Read an increment or decrement after an operand, if there is one. -/
def stepped (e : Expr) : Walk Expr := do
  match ← peek tokens with
  | none => return e
  | some t =>
      match step? t, e with
      | none, e => return e
      | some _, .post .. => refuse (.chainedStep t.location)
      | some operator, .variable .. =>
          advance tokens
          refuseStep tokens
          return .post operator e t.location
      | some operator, e =>
          refuse (.invalidPost operator e.kind e.location)

/- A call, which no second argument list may follow. -/
def called
    (name : Token)
    (arguments : List Expr) : Walk Expr := do
  if ← peekIs tokens (·.isOperator "(") then
    failHere tokens (.chainedFunctionCall name.text)
  else return .call name.text arguments name.location

------------------------------------------------------------
-- Expressions
------------------------------------------------------------

mutual

/-
  Read an expression whose operators bind at least as tight
  as `least`.
-/
def expression :
    Nat → Nat → Walk Expr
| 0, _ => throw .spent
| bound + 1, least => do
    let first ← operand bound
    connectives bound least [first] []

/-
  Read operators and operands while they bind tight enough.
  The stacks are looked at each time an operand was read.
-/
def connectives :
    Nat → Nat → List Expr → Pending → Walk Expr
| 0, _, _, _ => throw .spent
| bound + 1, least, output, pending => do
    checkStacks output pending
    match ← peek tokens with
    | none => conclude tokens output pending
    | some t =>
        match Connective.of? t with
        | none => conclude tokens output pending
        | some c =>
            if c.precedence < least then
              conclude tokens output pending
            else
              advance tokens
              let (output, pending) ←
                reduced (reduceFor c t.location pending output)
              if c.kind = .assignment then
                match output with
                | [] => throw .unbalanced
                | target :: output =>
                    match target.name? with
                    | none => refuse (.assignment c.operator t.location)
                    | some name =>
                        requireOperand tokens t
                        let right ← expression bound c.precedence
                        let value :=
                          assigned c.operator target right t.location
                        conclude tokens
                          (.assignment name value t.location :: output)
                          pending
              else
                requireOperand tokens t
                let next ← operand bound
                connectives bound least
                  (next :: output) ((c, t.location) :: pending)

/- Read an operand with what stands before and after it. -/
def operand :
    Nat → Walk Expr
| 0 => throw .spent
| bound + 1 => do
    let last ← before tokens
    match ← peek tokens with
    | none => failHere tokens .unexpectedEnd
    | some t =>
        advance tokens
        let e ← primary bound last t
        stepped tokens e

/- Read an operand whose first token `t` has been consumed. -/
def primary :
    Nat → Option Token → Token → Walk Expr
| 0, _, _ => throw .spent
| bound + 1, last, t =>
    match t.kind with
    | .literal => return .literal t.text t.location
    | .stringLiteral => return .string t.text t.location
    | .identifier => do
        if ← peekIs tokens (·.isOperator "(") then
          advance tokens
          if ← peekIs tokens (·.isOperator ")") then
            advance tokens
            called tokens t []
          else
            let arguments ← argumentList bound t
            called tokens t arguments
        else return .variable t.text t.location
    | .operator => do
        if t.text = "(" then
          let inner ← expression bound 0
          expectOperator tokens ")"
          return inner
        else
          match sign? last t.text with
          | none => refuse (.unexpectedToken t.text t.location)
          | some operator =>
              requireOperand tokens t
              let argument ←
                expression bound Connective.signPrecedence
              if operator.isStep && argument.name?.isNone then
                refuse
                  (.invalidPre operator argument.kind t.location)
              else return .unary operator argument t.location
    | _ => refuse (.unexpectedToken t.text t.location)

/- Read the arguments of a call, up to the closing parenthesis. -/
def argumentList :
    Nat → Token → Walk (List Expr)
| 0, _ => throw .spent
| bound + 1, name => do
    let first ← expression bound 0
    if ← peekIs tokens (·.isSeparator ",") then
      advance tokens
      let others ← argumentList bound name
      return first :: others
    else if ← peekIs tokens (·.isOperator ")") then
      advance tokens
      return [first]
    else failHere tokens (.functionCall name.text)

end

------------------------------------------------------------
-- Parts of Statements
------------------------------------------------------------

/- Read `new name` or `new name = value`. -/
def declaration (bound : Nat) : Walk Stmt := do
  let place ← here tokens
  advance tokens
  let name ← expectIdentifier tokens "new"
  match ← peek tokens with
  | some t =>
      if t.isOperator "=" then
        advance tokens
        requireOperand tokens t
        let value ← expression tokens bound 0
        return .define name value place
      else return .declare name place
  | none => return .declare name place

/- Read `return` with its optional value and its semicolon. -/
def returnStatement (bound : Nat) : Walk Stmt := do
  let place ← here tokens
  advance tokens
  if ← peekIs tokens (·.isSeparator ";") then
    expectSemicolon tokens
    return .ret none place
  else
    let argument ← expression tokens bound 0
    expectSemicolon tokens
    return .ret (some argument) place

/- Read an expression unless the next token has a property. -/
def expressionUnless
    (bound : Nat)
    (stop : Token → Bool) : Walk (Option Expr) := do
  if ← peekIs tokens stop then return none
  else
    let e ← expression tokens bound 0
    return some e

/- Read an expression in parentheses. -/
def parenthesized (bound : Nat) : Walk Expr := do
  expectOperator tokens "("
  let e ← expression tokens bound 0
  expectOperator tokens ")"
  return e

/-
  Read the parameters of a function, the first of which has
  to come next, given those already read.
-/
def parameterList
    (function : String) :
    Nat → List String → Walk (List String)
| 0, _ => throw .spent
| bound + 1, known => do
    match ← peek tokens with
    | none => failHere tokens (.missingToken ")")
    | some t =>
        if t.kind ≠ .identifier then
          if t.isOperator ")" && !known.isEmpty then
            refuse (.trailingComma function t.location)
          else refuse (.expectedParameter function t.text t.location)
        else if t.text ∈ known then
          refuse (.duplicateParameter t.text function t.location)
        else
          advance tokens
          let known := known ++ [t.text]
          if ← peekIs tokens (·.isSeparator ",") then
            advance tokens
            parameterList function bound known
          else return known

/- Read the parameters of a function in parentheses. -/
def parameters
    (bound : Nat)
    (function : String) : Walk (List String) := do
  expectOperator tokens "("
  if ← peekIs tokens (·.isOperator ")") then
    expectOperator tokens ")"
    return []
  else
    let names ← parameterList tokens function bound []
    expectOperator tokens ")"
    return names

------------------------------------------------------------
-- Statements
------------------------------------------------------------

mutual

/- Read a statement; an empty one gives `none`. -/
def statement :
    Nat → Walk (Option Stmt)
| 0 => throw .spent
| bound + 1 => do
    match ← peek tokens with
    | none => return none
    | some t =>
        if t.isSeparator ";" then
          advance tokens
          return none
        else if t.isKeyword "new" then
          return some (← declaration tokens bound)
        else if t.isKeyword "if" then
          return some (← ifStatement bound)
        else if t.isKeyword "while" then
          advance tokens
          let condition ← parenthesized tokens bound
          let body ← block bound
          return some (.whileLoop condition body t.location)
        else if t.isKeyword "for" then
          return some (← forStatement bound)
        else if t.isKeyword "function" then
          advance tokens
          let name ← expectIdentifier tokens "function"
          let names ← parameters tokens bound name
          let body ← block bound
          return some (.function name names body t.location)
        else if t.isKeyword "return" then
          return some (← returnStatement tokens bound)
        else if t.isKeyword "break" then
          advance tokens
          return some (.breakLoop t.location)
        else if t.isKeyword "continue" then
          advance tokens
          return some (.continueLoop t.location)
        else
          let e ← expression tokens bound 0
          return some (.expr e)

/- Read a statement that starts with `if`. -/
def ifStatement :
    Nat → Walk Stmt
| 0 => throw .spent
| bound + 1 => do
    let place ← here tokens
    advance tokens
    let condition ← parenthesized tokens bound
    let body ← block bound
    if ← peekIs tokens (·.isKeyword "else") then
      advance tokens
      if ← peekIs tokens (·.isKeyword "if") then
        let inner ← ifStatement bound
        return .ifElse condition body [inner] place
      else
        let otherwise ← block bound
        return .ifElse condition body otherwise place
    else return .ifThen condition body place

/- Read a statement that starts with `for`. -/
def forStatement :
    Nat → Walk Stmt
| 0 => throw .spent
| bound + 1 => do
    let place ← here tokens
    advance tokens
    expectOperator tokens "("
    match ← statement bound with
    | none => failHere tokens .invalidForInitializer
    | some initial =>
        expectSemicolon tokens
        let condition ←
          expressionUnless tokens bound (·.isSeparator ";")
        expectSemicolon tokens
        let update ← expressionUnless tokens bound (·.isOperator ")")
        expectOperator tokens ")"
        let body ← block bound
        return .forLoop initial condition update body place

/- Read statements in braces. -/
def block :
    Nat → Walk (List Stmt)
| 0 => throw .spent
| bound + 1 => do
    expectOperator tokens "\x7b"
    items bound

/- Read statements up to the closing brace. -/
def items :
    Nat → Walk (List Stmt)
| 0 => throw .spent
| bound + 1 => do
    match ← peek tokens with
    | none => failHere tokens (.missingToken "\x7d")
    | some t =>
        if t.isOperator "\x7d" then
          advance tokens
          return []
        else
          let first ← statement bound
          let others ← items bound
          return first.toList ++ others

end

/- Read statements up to the end of the tokens. -/
def statements :
    Nat → Walk (List Stmt)
| 0 => throw .spent
| bound + 1 => do
    match ← peek tokens with
    | none => return []
    | some _ =>
        let first ← statement tokens bound
        let others ← statements bound
        return first.toList ++ others

end

end Walk
end StackScript
