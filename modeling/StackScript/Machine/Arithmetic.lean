import StackScript.Machine.Error

/-
  Arithmetic and comparison of values.

  Two numbers are first brought to one representation: both
  become decimals when one of them is a decimal or has a
  fraction, and integers otherwise.

  Key definitions include:
    * `Operands`
    * `Value.promote`
    * `Value.arithmetic`
    * `Value.compare`
    * `Value.negate`, `Value.bitNot`
-/

namespace StackScript

------------------------------------------------------------
-- Promotion
------------------------------------------------------------

/- Two numbers in one representation. -/
inductive Operands where
| integers (a b : Int)
| decimals (a b : Decimal)
deriving DecidableEq, Repr

namespace Value

/- The value makes both operands decimals. -/
def wantsDecimal : Value → Bool
| .decimal _ => true
| .number n => n.isFinite && !n.isIntegral
| _ => false

/-
  The value as an integer, its fraction dropped. The
  infinities stand for the largest integers that a number
  holds exactly.
-/
def asInteger (v : Value) : Except EvalError Int :=
  match v with
  | .number (.infinite s) =>
      .ok (if s then -Constant.maxSafe else Constant.maxSafe)
  | .number n =>
      match n.truncate? with
      | some i => .ok i
      | none => .error (.notFinite v)
  | .integer i => .ok i
  | .decimal d => .ok d.truncate
  | _ => .error (.notFinite v)

/- The value as a decimal. -/
def asDecimal (v : Value) : Except EvalError Decimal :=
  match v.toDecimal? with
  | some d => .ok d
  | none => .error (.notFinite v)

/- Both operands in one representation, if both are numbers. -/
def promote
    (left right : Value) : Except EvalError (Option Operands) :=
  if !(left.isNumeric && right.isNumeric) then .ok none
  else if left.wantsDecimal || right.wantsDecimal then do
    let a ← left.asDecimal
    let b ← right.asDecimal
    return some (.decimals a b)
  else do
    let a ← left.asInteger
    let b ← right.asInteger
    return some (.integers a b)

------------------------------------------------------------
-- Arithmetic
------------------------------------------------------------

/- The value is text. -/
def isText : Value → Bool
| .text _ => true
| _ => false

/- An operation on integers; quotients go toward zero. -/
def integerOp? : Op → Option (Int → Int → Int)
| .add => some (· + ·)
| .sub => some (· - ·)
| .mul => some (· * ·)
| .div => some Int.tdiv
| .mod => some Int.tmod
| _ => none

/- An operation on decimals. -/
def decimalOp? : Op → Option (Decimal → Decimal → Decimal)
| .add => some .add
| .sub => some .sub
| .mul => some .mul
| .div => some .div
| .mod => some .rem
| _ => none

/- The operation divides by its second operand. -/
def divides : Op → Bool
| .div | .mod => true
| _ => false

/-
  `ADD`, `SUB`, `MUL`, `DIV` and `MOD`. Adding to text joins
  texts; decimals are kept to a precision.
-/
def arithmetic
    (op : Op)
    (left right : Value)
    (precision : Nat) : Except EvalError Value :=
  let mismatch := EvalError.typeMismatch op left.kind right.kind
  if op = .add ∧ (left.isText || right.isText) then
    .ok (.text (left.display ++ right.display))
  else do
    match ← promote left right with
    | none => throw mismatch
    | some (.integers a b) =>
        if divides op && b == 0 then
          throw (.divisionByZero left right)
        else
          match integerOp? op with
          | none => throw mismatch
          | some f => return .integer (f a b)
    | some (.decimals a b) =>
        if divides op && b.isZero then
          throw (.divisionByZero left right)
        else
          match decimalOp? op with
          | none => throw mismatch
          | some f => return .decimal ((f a b).round precision)

------------------------------------------------------------
-- Comparison
------------------------------------------------------------

/- What a comparison makes of an order. -/
def orderTest? : Op → Option (Ordering → Bool)
| .eq => some (· == .eq)
| .ne => some (· != .eq)
| .gt => some (· == .gt)
| .lt => some (· == .lt)
| .gte => some (· != .lt)
| .lte => some (· != .gt)
| _ => none

/- `EQ`, `NE`, `GT`, `LT`, `GTE` and `LTE`. -/
def compare
    (op : Op)
    (left right : Value) : Except EvalError Bool := do
  let mismatch := EvalError.typeMismatch op left.kind right.kind
  let test (o : Ordering) : Except EvalError Bool :=
    match orderTest? op with
    | some f => .ok (f o)
    | none => .error mismatch
  match ← promote left right with
  | some (.integers a b) => test (Ord.compare a b)
  | some (.decimals a b) => test (a.compare b)
  | none =>
      if op = .eq then return left.same right
      else if op = .ne then return !left.same right
      else
        match left, right with
        | .text a, .text b => test (Ord.compare a b)
        | _, _ => throw mismatch

------------------------------------------------------------
-- Unary Operations
------------------------------------------------------------

/- `NEG`. -/
def negate : Value → Except EvalError Value
| .number n => .ok (.number n.neg)
| .integer i => .ok (.integer (-i))
| .decimal d => .ok (.decimal d.neg)
| v => .error (.invalidOperand .neg v.kind)

/- `BITNOT`, on the integer part. -/
def bitNot (v : Value) : Except EvalError Value :=
  match v with
  | .number n =>
      match n.truncate? with
      | some i => .ok (.integer (-i - 1))
      | none => .error (.notFinite v)
  | .integer i => .ok (.integer (-i - 1))
  | .decimal d => .ok (.integer (-d.truncate - 1))
  | _ => .error (.invalidOperand .bitNot v.kind)

end Value
end StackScript
