import StackScript.Parse.Cursor

/-
  Reading expressions.

  Operators between operands wait on a stack until an
  operator that binds no tighter arrives; then they take
  their two operands from the output. Operands, signs and
  calls included, are read by `operand`.

  The readers call each other, so they share a bound on the
  nesting of calls; `Program.parse` supplies one that no
  list of tokens exhausts.

  Key definitions include:
    * `Connective`
    * `Connective.of?`
    * `Parser.reduce`
    * `Parser.expression`
    * `Parser.operand`
-/

namespace StackScript

------------------------------------------------------------
-- Operators Between Operands
------------------------------------------------------------

/- What an operator between two operands makes of them. -/
inductive Connective.Kind where
| binary
| logical
| assignment
deriving DecidableEq, Repr

/- An operator between two operands, and how it binds. -/
structure Connective where
  operator : Operator
  precedence : Nat
  rightward : Bool
  kind : Connective.Kind
deriving DecidableEq, Repr

namespace Connective

/- The table of the operators between operands. -/
def table : List (String × Connective) :=
  [("=", ⟨.assign, 1, true, .assignment⟩),
   ("+=", ⟨.addAssign, 1, true, .assignment⟩),
   ("-=", ⟨.subAssign, 1, true, .assignment⟩),
   ("*=", ⟨.mulAssign, 1, true, .assignment⟩),
   ("/=", ⟨.divAssign, 1, true, .assignment⟩),
   ("&&", ⟨.and, 2, true, .logical⟩),
   ("||", ⟨.or, 3, true, .logical⟩),
   ("==", ⟨.eq, 7, false, .binary⟩),
   ("!=", ⟨.ne, 7, false, .binary⟩),
   ("<", ⟨.lt, 8, false, .binary⟩),
   (">", ⟨.gt, 8, false, .binary⟩),
   ("<=", ⟨.le, 8, false, .binary⟩),
   (">=", ⟨.ge, 8, false, .binary⟩),
   ("+", ⟨.add, 10, false, .binary⟩),
   ("-", ⟨.sub, 10, false, .binary⟩),
   ("*", ⟨.mul, 20, false, .binary⟩),
   ("/", ⟨.div, 20, false, .binary⟩),
   ("%", ⟨.mod, 20, false, .binary⟩)]

/- The precedence with which a sign takes its argument. -/
def signPrecedence : Nat :=
  30

/- The connective that a token is. -/
def of? (t : Token) : Option Connective :=
  if t.kind = .operator then table.lookup t.text else none

/- A waiting operator takes its operands before this one waits. -/
def yieldsTo
    (c waiting : Connective) : Bool :=
  if c.rightward then decide (c.precedence < waiting.precedence)
  else decide (c.precedence ≤ waiting.precedence)

/- The node that a connective makes of two operands. -/
def apply
    (c : Connective)
    (left right : Expr)
    (place : Location) : Expr :=
  match c.kind with
  | .logical => .logical c.operator left right place
  | _ => .binary c.operator left right place

end Connective

namespace Parser

------------------------------------------------------------
-- The Operator Stack
------------------------------------------------------------

/- Operators that wait, the latest first, with their places. -/
abbrev Pending :=
  List (Connective × Location)

/-
  Let the latest waiting operator take two operands from the
  output, the latest of which stands first.
-/
def reduce
    (place : Location) :
    List Expr → Pending → Except ParseError (List Expr × Pending)
| right :: left :: output, (c, l) :: pending =>
    .ok (c.apply left right l :: output, pending)
| _, _ => .error (.unexpectedEnd place)

/- Reduce while `c` yields to the latest waiting operator. -/
def reduceFor
    (c : Connective)
    (place : Location) :
    Pending → List Expr → Except ParseError (List Expr × Pending)
| [], output => .ok (output, [])
| (waiting, l) :: pending, output =>
    if c.yieldsTo waiting then do
      let (output, _) ← reduce place output ((waiting, l) :: pending)
      reduceFor c place pending output
    else .ok (output, (waiting, l) :: pending)

/- Reduce until no operator waits. -/
def reduceAll
    (place : Location) :
    Pending → List Expr → Except ParseError (List Expr)
| [], output => .ok output
| top :: pending, output => do
    let (output, _) ← reduce place output (top :: pending)
    reduceAll place pending output

/- The one expression that is left when all operators are done. -/
def conclude
    (output : List Expr)
    (pending : Pending) : Parser Expr := do
  let place ← here
  match ← reduceAll place pending output with
  | [e] => return e
  | _ => throw (.unexpectedEnd place)

------------------------------------------------------------
-- Signs, Increments and Decrements
------------------------------------------------------------

/- After this token, `+` and `-` are signs. -/
def signMayFollow : Option Token → Bool
| none => true
| some t =>
    match t.kind with
    | .operator => t.text != ")" && t.text != "++" && t.text != "--"
    | .separator | .keyword => true
    | _ => false

/- The operator that a token is in front of its argument. -/
def sign?
    (before : Option Token)
    (text : String) : Option Operator :=
  if text = "+" ∧ signMayFollow before then some .plus
  else if text = "-" ∧ signMayFollow before then some .minus
  else if text = "!" then some .not
  else if text = "~" then some .bitNot
  else if text = "++" then some .increment
  else if text = "--" then some .decrement
  else none

/- The increment or decrement that a token is. -/
def step? (t : Token) : Option Operator :=
  if t.isOperator "++" then some .increment
  else if t.isOperator "--" then some .decrement
  else none

/- No increment or decrement may follow. -/
def refuseStep : Parser Unit := do
  match ← peek with
  | some t =>
      if (step? t).isSome then throw (.chainedStep t.location)
  | none => return

/- Read an increment or decrement after an operand, if there is one. -/
def stepped (e : Expr) : Parser Expr := do
  match ← peek with
  | none => return e
  | some t =>
      match step? t, e with
      | none, e => return e
      | some _, .post .. => throw (.chainedStep t.location)
      | some operator, .variable .. =>
          advance
          refuseStep
          return .post operator e t.location
      | some operator, e =>
          throw (.invalidPost operator e.kind e.location)

/- The value that an assignment stores. -/
def assigned
    (operator : Operator)
    (target right : Expr)
    (place : Location) : Expr :=
  match operator.base? with
  | some base => .binary base target right place
  | none => right

/- A call, which no second argument list may follow. -/
def called
    (name : Token)
    (arguments : List Expr) : Parser Expr := do
  if ← peekIs (·.isOperator "(") then
    failHere (.chainedFunctionCall name.text)
  else return .call name.text arguments name.location

------------------------------------------------------------
-- Expressions
------------------------------------------------------------

mutual

/-
  Read an expression whose operators bind at least as tight
  as `least`.
-/
def expression :
    Nat → Nat → Parser Expr
| 0, _ => failHere .unexpectedEnd
| bound + 1, least => do
    let first ← operand bound
    connectives bound least [first] []

/-
  Read operators and operands while they bind tight enough.
  There is one more operand in the output than operators
  wait.
-/
def connectives :
    Nat → Nat → List Expr → Pending → Parser Expr
| 0, _, _, _ => failHere .unexpectedEnd
| bound + 1, least, output, pending => do
    match ← peek with
    | none => conclude output pending
    | some t =>
        match Connective.of? t with
        | none => conclude output pending
        | some c =>
            if c.precedence < least then conclude output pending
            else
              advance
              let (output, pending) ←
                reduceFor c t.location pending output
              if c.kind = .assignment then
                match output with
                | [] => throw (.unexpectedEnd t.location)
                | target :: output =>
                    match target.name? with
                    | none => throw (.assignment c.operator t.location)
                    | some name =>
                        requireOperand t
                        let right ← expression bound c.precedence
                        let value :=
                          assigned c.operator target right t.location
                        conclude
                          (.assignment name value t.location :: output)
                          pending
              else
                requireOperand t
                let next ← operand bound
                connectives bound least
                  (next :: output) ((c, t.location) :: pending)

/- Read an operand with what stands before and after it. -/
def operand :
    Nat → Parser Expr
| 0 => failHere .unexpectedEnd
| bound + 1 => do
    let before := (← get).before
    match ← peek with
    | none => failHere .unexpectedEnd
    | some t =>
        advance
        let e ← primary bound before t
        stepped e

/- Read an operand whose first token `t` has been consumed. -/
def primary :
    Nat → Option Token → Token → Parser Expr
| 0, _, _ => failHere .unexpectedEnd
| bound + 1, before, t =>
    match t.kind with
    | .literal => return .literal t.text t.location
    | .stringLiteral => return .string t.text t.location
    | .identifier => do
        if ← peekIs (·.isOperator "(") then
          advance
          if ← peekIs (·.isOperator ")") then
            advance
            called t []
          else
            let arguments ← argumentList bound t
            called t arguments
        else return .variable t.text t.location
    | .operator => do
        if t.text = "(" then
          let inner ← expression bound 0
          expectOperator ")"
          return inner
        else
          match sign? before t.text with
          | none => throw (.unexpectedToken t.text t.location)
          | some operator =>
              requireOperand t
              let argument ←
                expression bound Connective.signPrecedence
              if operator.isStep && argument.name?.isNone then
                throw
                  (.invalidPre operator argument.kind t.location)
              else return .unary operator argument t.location
    | _ => throw (.unexpectedToken t.text t.location)

/- Read the arguments of a call, up to the closing parenthesis. -/
def argumentList :
    Nat → Token → Parser (List Expr)
| 0, _ => failHere .unexpectedEnd
| bound + 1, name => do
    let first ← expression bound 0
    if ← peekIs (·.isSeparator ",") then
      advance
      let others ← argumentList bound name
      return first :: others
    else if ← peekIs (·.isOperator ")") then
      advance
      return [first]
    else failHere (.functionCall name.text)

end

end Parser
end StackScript
