import StackScript.Value.Convert

/-
  Why a built-in function fails.

  Key definitions include:
    * `BuiltinError`
    * `BuiltinError.message`
-/

namespace StackScript

/- The most significant digits that a program may ask for. -/
def maxPrecision : Nat :=
  10000

/- A reason for a built-in function to fail. -/
inductive BuiltinError where
| tooManyArguments (function : String) (most : Nat)
| missingArguments (function : String) (least : Nat)
| invalidArgument (index : Nat) (error : ConversionError)
| negativeExponent (exponent : Int)
| exponentTooLarge (exponent : Int)
| zeroToZero
| domain (function : String) (value : Value)
| invalidPrecision (value : Value)
/- The line that was read is not text. -/
| illFormedInput

namespace BuiltinError

/- The text of an error. -/
def message : BuiltinError → String
| .tooManyArguments function most =>
    s!"FunctionArgumentError: Function \"{function}\" only takes {most} argument(s)"
| .missingArguments function least =>
    s!"FunctionArgumentError: Function \"{function}\" needs at least {least} argument(s)"
| .invalidArgument index error =>
    s!"while converting argument {index}: {error.message}"
| .negativeExponent exponent =>
    s!"Exponent \"{exponent}\" must not be negative when raising an integer"
| .exponentTooLarge exponent =>
    s!"Exponent \"{exponent}\" is too large"
| .zeroToZero => "0 raised to 0 can't be evaluated"
| .domain function value =>
    s!"{function} is undefined for {value.display}"
| .invalidPrecision value =>
    s!"Decimal precision must be an integer from 1 to {maxPrecision}, got {value.display}"
| .illFormedInput =>
    "I/O error: stream did not contain valid UTF-8"

end BuiltinError
end StackScript
