import StackScript.Value.Basic

/-
  Values as they appear in a dump of the stack: every part
  of a value by name, on one line.

  Key definitions include:
    * `Word.dump`, `Constant.dump`, `Routine.dump`
    * `Value.dump`
-/

namespace StackScript

/- The digits of a number in a base, the lowest first. -/
def limbs
    (base : Nat) :
    Nat → Nat → List Nat
| 0, _ => []
| _ + 1, 0 => []
| steps + 1, n + 1 =>
    (n + 1) % base :: limbs base steps ((n + 1) / base)

/- All digits of a number in base `2 ^ bits`, the lowest first. -/
def limbsOf
    (bits n : Nat) : List Nat :=
  limbs (Nat.pow 2 bits) (n.log2 + 1) n

/- Texts in brackets. -/
def listed (parts : List String) : String :=
  "[" ++ ", ".intercalate parts ++ "]"

/- The name of the sign of an integer. -/
def signName (i : Int) : String :=
  if i < 0 then "Minus" else if i = 0 then "NoSign" else "Plus"

/- A decimal by its parts. -/
def Decimal.dump (d : Decimal) : String :=
  let digits := listed ((limbsOf 64 d.digits.natAbs).map toString)
  s!"BigDecimal(sign={signName d.digits}, scale={d.scale}, digits={digits})"

/- A number by its parts. -/
def Binary64.dump (n : Binary64) : String :=
  String.ofList (n.render .dump)

mutual

/- A word by its parts. -/
def Word.dump : Word → String
| .op code => s!"Op({code})"
| .const c => "Const(" ++ c.dump ++ ")"
| .name n => s!"Name({Text.quoted n})"
| .target t => s!"Target({t})"
| .count n => s!"Count({n})"

/- A constant by its parts. -/
def Constant.dump : Constant → String
| .null => "Null"
| .number n => s!"Number({n.dump})"
| .integer i => s!"Integer({i})"
| .decimal d => s!"Decimal({d.dump})"
| .text s => s!"String({Text.quoted s})"
| .routine r => "Function(" ++ r.dump ++ ")"

/- A function by its parts. -/
def Routine.dump : Routine → String
| ⟨_, name, parameters, code⟩ =>
    "Function \x7b name: " ++ Text.quoted name
      ++ ", parameters: " ++ listed (parameters.map Text.quoted)
      ++ ", code: Code \x7b words: " ++ listed (Word.dumps code)
      ++ " \x7d \x7d"

/- Some words by their parts. -/
def Word.dumps : List Word → List String
| [] => []
| w :: ws => w.dump :: Word.dumps ws

end

/- A value by its parts, on one line. -/
def Value.dump : Value → String
| .null => "Null"
| .undefined => "Undefined"
| .number n => s!"Number({n.dump})"
| .integer i => s!"Integer({i})"
| .decimal d => s!"Decimal({d.dump})"
| .text s => s!"String({Text.quoted s})"
| .routine r => "Function(" ++ r.dump ++ ")"

end StackScript
