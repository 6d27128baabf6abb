import StackScript.Value.Basic

/-
  Conversions between the sorts of numbers.

  Key definitions include:
    * `Decimal.ofShortest?`
    * `Value.toNumber?`
    * `Value.toInteger?`
    * `Value.toDecimal?`
    * `ConversionError`
-/

namespace StackScript

/- The shortest decimal that reads back as a finite number. -/
def Decimal.ofShortest? : Binary64 → Option Decimal
| .finite s m e _ =>
    let (digits, p) := Binary64.shortest .up m e
    let n : Int := (digits * Digits.tens p.toNat : Nat)
    some ⟨if s then -n else n, max 0 (-p)⟩
| _ => none

namespace Value

/- The value as a floating-point number. -/
def toNumber? : Value → Option Binary64
| .number n => some n
| .integer i => some (.ofInt i)
| .decimal d => some d.toBinary64
| _ => none

/- The value as an integer, if it is one. -/
def toInteger? : Value → Option Int
| .number n => if n.isIntegral then n.truncate? else none
| .integer i => some i
| .decimal d => if d.isIntegral then some d.truncate else none
| _ => none

/- The value as a decimal. -/
def toDecimal? : Value → Option Decimal
| .number n => Decimal.ofShortest? n
| .integer i => some (.ofInt i)
| .decimal d => some d
| _ => none

end Value

/- A value that could not become one of another sort. -/
structure ConversionError where
  value : Value
  kind : Value.Kind

/- The text of an error. -/
def ConversionError.message (e : ConversionError) : String :=
  s!"could not convert to {e.kind.label}: {e.value.display}"

namespace Value

/- The value as a floating-point number, or why not. -/
def toNumber (v : Value) : Except ConversionError Binary64 :=
  match v.toNumber? with
  | some n => .ok n
  | none => .error ⟨v, .number⟩

/- The value as an integer, or why not. -/
def toInteger (v : Value) : Except ConversionError Int :=
  match v.toInteger? with
  | some i => .ok i
  | none => .error ⟨v, .integer⟩

/- The value as a decimal, or why not. -/
def toDecimal (v : Value) : Except ConversionError Decimal :=
  match v.toDecimal? with
  | some d => .ok d
  | none => .error ⟨v, .decimal⟩

end Value
end StackScript
