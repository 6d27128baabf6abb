import StackScript.Tree.Basic

/-
  Why a list of tokens is not a program.

  Key definitions include:
    * `ParseError`
    * `ParseError.location`
    * `ParseError.message`
-/

namespace StackScript

/- A reason to refuse a list of tokens, and where it arose. -/
inductive ParseError where
| unexpectedToken (text : String) (place : Location)
| unexpectedEnd (place : Location)
| missingToken (expected : String) (place : Location)
| missingRightSide (after : String) (place : Location)
| assignment (operator : Operator) (place : Location)
| functionCall (name : String) (place : Location)
| chainedFunctionCall (name : String) (place : Location)
| chainedStep (place : Location)
| invalidPost
    (operator : Operator)
    (kind : String)
    (place : Location)
| invalidPre
    (operator : Operator)
    (kind : String)
    (place : Location)
| expectedIdentifier (after : String) (place : Location)
| invalidForInitializer (place : Location)
| expectedParameter
    (function text : String)
    (place : Location)
| duplicateParameter
    (name function : String)
    (place : Location)
| trailingComma (function : String) (place : Location)
deriving DecidableEq, Repr

namespace ParseError

/- The place that an error points at. -/
def location : ParseError → Location
| .unexpectedToken _ l | .unexpectedEnd l => l
| .missingToken _ l | .missingRightSide _ l => l
| .assignment _ l | .functionCall _ l => l
| .chainedFunctionCall _ l | .chainedStep l => l
| .invalidPost _ _ l | .invalidPre _ _ l => l
| .expectedIdentifier _ l | .invalidForInitializer l => l
| .expectedParameter _ _ l | .duplicateParameter _ _ l => l
| .trailingComma _ l => l

/- What is wrong, without the place. -/
def complaint : ParseError → String
| .unexpectedToken text _ => s!"Unexpected token \"{text}\""
| .unexpectedEnd _ => "Unexpected end of input"
| .missingToken expected _ => s!"Expected \"{expected}\""
| .missingRightSide after _ =>
    s!"Expected an expression or value after \"{after}\""
| .assignment operator _ =>
    s!"Left side of \"{operator.symbol}\" must be a variable"
| .functionCall name _ =>
    s!"Missing \")\" in function call for name \"{name}\""
| .chainedFunctionCall name _ =>
    s!"Chained function calls are not allowed: \"{name}(...)()\""
| .chainedStep _ =>
    "Chained increment/decrement operators are not allowed"
| .invalidPost operator kind _ =>
    s!"Cannot apply \"{operator.symbol}\" to {kind}"
| .invalidPre operator kind _ =>
    s!"Cannot apply prefix \"{operator.symbol}\" to {kind}"
| .expectedIdentifier after _ =>
    s!"Expected an identifier after keyword \"{after}\""
| .invalidForInitializer _ => "Invalid for-loop initializer"
| .expectedParameter function text _ =>
    s!"Expected parameter in function \"{function}\" but got \"{text}\""
| .duplicateParameter name function _ =>
    s!"Duplicate parameter \"{name}\" in function \"{function}\""
| .trailingComma function _ =>
    s!"Trailing comma in parameters of function \"{function}\""

/- The text of an error. -/
def message (e : ParseError) : String :=
  s!"{e.complaint} at {e.location.describe}"

end ParseError
end StackScript
