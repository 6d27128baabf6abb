import StackScript.Code.Listing
import StackScript.Code.Literal

/-
  The values that programs compute with.

  Key definitions include:
    * `Value`
    * `Value.Kind`
    * `Value.display`
    * `Value.isTruthy`
    * `Value.same`
    * `Value.ofText`
-/

namespace StackScript

/- A value of a running program. -/
inductive Value where
| null
/- The value of a parameter that the caller left out. -/
| undefined
| number (n : Binary64)
| integer (i : Int)
| decimal (d : Decimal)
| text (s : String)
| routine (r : Routine)

/- What sort of value a value is. -/
inductive Value.Kind where
| null
| undefined
| number
| integer
| decimal
| text
| routine
deriving DecidableEq, Repr

namespace Value

/- The name of a sort of values. -/
def Kind.label : Kind → String
| .null => "null"
| .undefined => "undefined"
| .number => "number"
| .integer => "bigint"
| .decimal => "decimal"
| .text => "string"
| .routine => "function"

/- The sort of a value. -/
def kind : Value → Kind
| .null => .null
| .undefined => .undefined
| .number _ => .number
| .integer _ => .integer
| .decimal _ => .decimal
| .text _ => .text
| .routine _ => .routine

/- The text of a value that programs print. -/
def display : Value → String
| .null => "null"
| .undefined => "undefined"
| .number n => n.display
| .integer i => String.ofList (Digits.writeInt i)
| .decimal d => String.ofList d.display
| .text s => s
| .routine r => s!"[function {r.name}]"

/- The texts of some values, joined. -/
def displayAll (values : List Value) : String :=
  String.join (values.map display)

------------------------------------------------------------
-- Tests
------------------------------------------------------------

/- The value is a number of some sort. -/
def isNumeric : Value → Bool
| .number _ | .integer _ | .decimal _ => true
| _ => false

/- The value is zero of some sort. -/
def isZero : Value → Bool
| .number n => n.isZero
| .integer i => i == 0
| .decimal d => d.isZero
| _ => false

/- The value is neither zero nor missing. -/
def isTruthy : Value → Bool
| .null | .undefined => false
| v => !v.isZero

/- Equality of values that are not both numbers. -/
def same : Value → Value → Bool
| .null, .null => true
| .undefined, .undefined => true
| .text a, .text b => a == b
| .routine f, .routine g => f.mark == g.mark
| _, _ => false

------------------------------------------------------------
-- Construction
------------------------------------------------------------

/- One for true, zero for false. -/
def ofBool (b : Bool) : Value :=
  .number (if b then .one else .zero false)

/- The value of a constant. -/
def ofConstant : Constant → Value
| .null => .null
| .number n => .number n
| .integer i => .integer i
| .decimal d => .decimal d
| .text s => .text s
| .routine r => .routine r

/- Numeric text gives a number, any other text itself. -/
def ofText (text : String) : Value :=
  match Constant.ofText? text with
  | some c => .ofConstant c
  | none => .text text

end Value
end StackScript
