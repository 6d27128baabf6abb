import StackScript.Number.Decimal

/-
  Instruction streams of the stack machine.

  A stream is a list of words. An opcode word is followed by
  its operand words, and jump targets are positions in the
  stream. Nothing in the types makes a stream well formed:
  streams that were stored and read back may hold anything.

  Key definitions include:
    * `Op`
    * `Word`, `Constant`, `Routine`
    * `Code`
-/

namespace StackScript

------------------------------------------------------------
-- Opcodes
------------------------------------------------------------

/- The operations of the machine. -/
inductive Op where
| push
| load
| store
| alloc
| add
| sub
| mul
| div
| mod
| call
| neg
| not
| bitNot
| jmp
| jz
| eq
| ne
| gt
| lt
| gte
| lte
| pop
| pushScope
| popScope
| ret
| halt
deriving DecidableEq, Repr

namespace Op

/- Every operation, in the order of the codes. -/
def all : List Op :=
  [.push, .load, .store, .alloc, .add, .sub, .mul, .div, .mod,
   .call, .neg, .not, .bitNot, .jmp, .jz, .eq, .ne, .gt, .lt,
   .gte, .lte, .pop, .pushScope, .popScope, .ret, .halt]

/- The number that stands for an operation. -/
def code : Op → UInt8
| .push => 1
| .load => 2
| .store => 3
| .alloc => 4
| .add => 5
| .sub => 6
| .mul => 7
| .div => 8
| .mod => 9
| .call => 10
| .neg => 11
| .not => 12
| .bitNot => 13
| .jmp => 14
| .jz => 15
| .eq => 16
| .ne => 17
| .gt => 18
| .lt => 19
| .gte => 20
| .lte => 21
| .pop => 22
| .pushScope => 23
| .popScope => 24
| .ret => 25
| .halt => 26

/- The name of an operation. -/
def name : Op → String
| .push => "PUSH"
| .load => "LOAD"
| .store => "STORE"
| .alloc => "ALLOC"
| .add => "ADD"
| .sub => "SUB"
| .mul => "MUL"
| .div => "DIV"
| .mod => "MOD"
| .call => "CALL"
| .neg => "NEG"
| .not => "NOT"
| .bitNot => "BITNOT"
| .jmp => "JMP"
| .jz => "JZ"
| .eq => "EQ"
| .ne => "NE"
| .gt => "GT"
| .lt => "LT"
| .gte => "GTE"
| .lte => "LTE"
| .pop => "POP"
| .pushScope => "PUSHSCP"
| .popScope => "POPSCP"
| .ret => "RETURN"
| .halt => "HALT"

/- How many operand words follow an operation. -/
def arity : Op → Nat
| .push | .load | .store | .alloc | .jmp | .jz => 1
| .call => 2
| _ => 0

/- The operation that a number stands for. -/
def ofCode? (c : UInt8) : Option Op :=
  all.find? (·.code == c)

/- Every operation is found by its number. -/
@[simp]
theorem ofCode?_code (o : Op) :
    ofCode? o.code = some o := by
  cases o <;> rfl

end Op

------------------------------------------------------------
-- Words
------------------------------------------------------------

mutual

/- One cell of an instruction stream. -/
inductive Word where
| op (code : UInt8)
| const (value : Constant)
| name (text : String)
| target (position : Nat)
| count (n : Nat)

/- A value that code can push. -/
inductive Constant where
| null
| number (n : Binary64)
| integer (i : Int)
| decimal (d : Decimal)
| text (s : String)
| routine (r : Routine)

/-
  A function of a program. The mark tells apart functions
  that are alike in all else.
-/
structure Routine where
  mark : Nat
  name : String
  parameters : List String
  code : List Word

end

/- An instruction stream. -/
abbrev Code :=
  List Word

/- The word of an operation. -/
def Word.ofOp (o : Op) : Word :=
  .op o.code

namespace Constant

/- The largest integer up to which all have a number of their own. -/
def maxSafe : Int :=
  9007199254740991

/- An integer as a number if it is exact there, else as itself. -/
def ofInt (i : Int) : Constant :=
  if -maxSafe ≤ i ∧ i ≤ maxSafe then .number (.ofInt i)
  else .integer i

end Constant
end StackScript
