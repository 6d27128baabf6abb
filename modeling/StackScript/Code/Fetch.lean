import StackScript.Code.Basic

/-
  Decoding one instruction of a stream.

  Key definitions include:
    * `DecodeError`
    * `Instruction`
    * `Code.fetch`
-/

namespace StackScript

------------------------------------------------------------
-- Errors
------------------------------------------------------------

/- Why no instruction stands at a position. -/
inductive DecodeError where
| unknownOpcode (code : UInt8) (pc : Nat)
| expectedOpcode (pc : Nat)
| truncated (op : Op) (pc : Nat)
| wrongOperand (op : Op) (pc : Nat) (expected : String)
deriving DecidableEq, Repr

/- The text of an error. -/
def DecodeError.message : DecodeError → String
| .unknownOpcode code pc =>
    s!"Unknown operator code: \"{code}\" at {pc}"
| .expectedOpcode pc => s!"expected an opcode at {pc}"
| .truncated op pc =>
    s!"{op.name} at {pc} is missing its operands"
| .wrongOperand op pc expected =>
    s!"{op.name} at {pc} expects a {expected} operand"

------------------------------------------------------------
-- Instructions
------------------------------------------------------------

/- An operation, where it stands, and its operand words. -/
structure Instruction where
  op : Op
  pc : Nat
  operands : List Word

namespace Instruction

/- The position behind an instruction. -/
def next (i : Instruction) : Nat :=
  i.pc + 1 + i.operands.length

/- The complaint that an operand is of another kind. -/
def wrong
    (i : Instruction)
    (expected : String) : DecodeError :=
  .wrongOperand i.op i.pc expected

/- An operand that is a constant. -/
def constant
    (i : Instruction)
    (k : Nat) : Except DecodeError Constant :=
  match i.operands[k]? with
  | some (.const c) => .ok c
  | _ => .error (i.wrong "constant")

/- An operand that is a name. -/
def name
    (i : Instruction)
    (k : Nat) : Except DecodeError String :=
  match i.operands[k]? with
  | some (.name n) => .ok n
  | _ => .error (i.wrong "name")

/- An operand that is a jump target. -/
def target
    (i : Instruction)
    (k : Nat) : Except DecodeError Nat :=
  match i.operands[k]? with
  | some (.target t) => .ok t
  | _ => .error (i.wrong "jump target")

/- An operand that is a count. -/
def count
    (i : Instruction)
    (k : Nat) : Except DecodeError Nat :=
  match i.operands[k]? with
  | some (.count n) => .ok n
  | _ => .error (i.wrong "count")

end Instruction

/- The instruction that starts at a position. -/
def Code.fetch
    (code : Code)
    (pc : Nat) : Except DecodeError Instruction :=
  match code.drop pc with
  | .op c :: rest =>
      match Op.ofCode? c with
      | none => .error (.unknownOpcode c pc)
      | some op =>
          let operands := rest.take op.arity
          if operands.length < op.arity then
            .error (.truncated op pc)
          else .ok ⟨op, pc, operands⟩
  | _ => .error (.expectedOpcode pc)

end StackScript
