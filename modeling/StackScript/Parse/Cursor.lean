import StackScript.Parse.Error
import StackScript.Token.Basic

/-
  A reading position in a list of tokens, and the parsers
  that move it.

  Key definitions include:
    * `Cursor`
    * `Cursor.here`
    * `Parser`
    * `Parser.peek`
    * `Parser.advance`
    * `Parser.expectOperator`
-/

namespace StackScript

------------------------------------------------------------
-- Cursors
------------------------------------------------------------

/- The token just read, and the tokens still to read. -/
structure Cursor where
  before : Option Token
  rest : List Token
deriving DecidableEq, Repr

namespace Cursor

/- The position in front of every token. -/
def start (tokens : List Token) : Cursor :=
  ⟨none, tokens⟩

/- The next token. -/
def peek? (c : Cursor) : Option Token :=
  c.rest.head?

/- The position behind the next token. -/
def advance (c : Cursor) : Cursor :=
  match c.rest with
  | [] => c
  | t :: rest => ⟨some t, rest⟩

/- Where the next token starts, or at the end the last one. -/
def here (c : Cursor) : Location :=
  match c.peek?, c.before with
  | some t, _ => t.location
  | none, some t => t.location
  | none, none => .start

end Cursor

------------------------------------------------------------
-- Parsers
------------------------------------------------------------

/- A function that reads from a cursor and moves it, or fails. -/
abbrev Parser :=
  StateT Cursor (Except ParseError)

namespace Parser

/- The next token, not consumed. -/
def peek : Parser (Option Token) := do
  return (← get).peek?

/- Consume the next token. -/
def advance : Parser Unit :=
  modify Cursor.advance

/- Where the next token starts. -/
def here : Parser Location := do
  return (← get).here

/- The next token has a property. -/
def peekIs (p : Token → Bool) : Parser Bool := do
  return (← peek).any p

/- Fail with an error that points at the next token. -/
def failHere
    {α : Type}
    (error : Location → ParseError) : Parser α := do
  throw (error (← here))

/- Consume the operator `text`, which has to come next. -/
def expectOperator (text : String) : Parser Unit := do
  if ← peekIs (·.isOperator text) then advance
  else failHere (.missingToken text)

/- Consume a semicolon, which has to come next. -/
def expectSemicolon : Parser Unit := do
  if ← peekIs (·.isSeparator ";") then advance
  else failHere (.missingToken ";")

/- Consume an identifier, which has to follow a keyword. -/
def expectIdentifier (keyword : String) : Parser String := do
  match ← peek with
  | some t =>
      if t.kind = .identifier then
        advance
        return t.text
      else failHere (.expectedIdentifier keyword)
  | none => failHere (.expectedIdentifier keyword)

/- Some token has to follow the operator `t`. -/
def requireOperand (t : Token) : Parser Unit := do
  if (← peek).isNone then
    throw (.missingRightSide t.text t.location)

end Parser
end StackScript
