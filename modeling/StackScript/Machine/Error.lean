import StackScript.Builtin.Error
import StackScript.Code.Fetch

/-
  Why a running program fails.

  Key definitions include:
    * `EvalError`
    * `EvalError.message`
-/

namespace StackScript

/- A reason for a running program to fail. -/
inductive EvalError where
| emptyStack
| stackUnderflow (needed found : Nat)
| undefinedVariable (name : String)
| redeclaration (name : String)
| constantAssignment (name : String)
| popGlobalScope
| undefinedFunction (name : String)
| notCallable (name : String) (kind : Value.Kind)
| divisionByZero (left right : Value)
| typeMismatch (op : Op) (left right : Value.Kind)
| invalidOperand (op : Op) (kind : Value.Kind)
| notFinite (value : Value)
| stackOverflow (depth : Nat)
| invalidJumpTarget (target length : Nat)
| decode (error : DecodeError)
| builtin (name : String) (error : BuiltinError)

namespace EvalError

/- The text of an error. -/
def message : EvalError → String
| .emptyStack => "POP on empty stack"
| .stackUnderflow needed found =>
    s!"stack underflow: needed {needed} values, found {found}"
| .undefinedVariable name => s!"{name} is not defined"
| .redeclaration name =>
    s!"Identifier \"{name}\" already declared in this scope"
| .constantAssignment name =>
    s!"Assignment to a constant \"{name}\""
| .popGlobalScope => "Cannot pop global scope"
| .undefinedFunction name => s!"Function \"{name}\" does not exist"
| .notCallable name kind =>
    s!"\"{name}\" is a {kind.label}, not a function"
| .divisionByZero left right =>
    s!"Operands must not divide by 0: {left.display}/{right.display}"
| .typeMismatch op left right =>
    s!"cannot apply {op.name} to {left.label} and {right.label}"
| .invalidOperand op kind =>
    s!"cannot apply {op.name} to {kind.label}"
| .notFinite value => s!"{value.display} is not a finite number"
| .stackOverflow depth => s!"maximum call depth of {depth} exceeded"
| .invalidJumpTarget target length =>
    s!"jump target {target} is outside the instruction stream (length {length})"
| .decode error => error.message
| .builtin _ error => error.message

end EvalError
end StackScript
