import StackScript.Machine.Error

/-
  The operand stack.

  Key definitions include:
    * `Stack`
    * `Stack.pop`
    * `Stack.popMany`
    * `Stack.checkSize`
-/

namespace StackScript

/- Operands, the topmost first. -/
abbrev Stack :=
  List Value

namespace Stack

/- The topmost operand and the rest. -/
def pop (s : Stack) : Except EvalError (Value × Stack) :=
  match s with
  | [] => .error .emptyStack
  | v :: rest => .ok (v, rest)

/- There are at least `n` operands. -/
def checkSize
    (s : Stack)
    (n : Nat) : Except EvalError Unit :=
  if s.length < n then .error (.stackUnderflow n s.length)
  else .ok ()

/- The topmost `n` operands, the lowest first, and the rest. -/
def popMany
    (s : Stack)
    (n : Nat) : Except EvalError (List Value × Stack) := do
  s.checkSize n
  return ((s.take n).reverse, s.drop n)

end Stack
end StackScript
