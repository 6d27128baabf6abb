import StackScript.Json.Basic
import StackScript.Json.Escape
import StackScript.Number.DecimalText
import StackScript.Value.Dump

/-
  Code as structured text.

  Integers are a sign and digits in base `2 ^ 32`, decimals
  are text, and a number that is not finite has no text of
  its own and becomes `null`.

  Key definitions include:
    * `Code.toJson`
    * `Entry`
    * `Entry.toJson`
-/

namespace StackScript

------------------------------------------------------------
-- Leaves
------------------------------------------------------------

namespace Json

/- A text. -/
def ofText (text : String) : Json :=
  .string (escape text.toList)

/- A natural number. -/
def ofNat (n : Nat) : Json :=
  .number (Digits.write n)

/- An integer. -/
def ofInt (i : Int) : Json :=
  .number (Digits.writeInt i)

/- A floating-point number, if it is finite. -/
def ofBinary64 (n : Binary64) : Json :=
  if n.isFinite then .number (n.render .stored) else .null

/- An object with one member. -/
def tagged
    (tag : String)
    (value : Json) : Json :=
  .object [(tag.toList, value)]

/- An integer of any size: its sign and its magnitude. -/
def ofBigInt (i : Int) : Json :=
  .list [.ofInt i.sign, .list ((limbsOf 32 i.natAbs).map .ofNat)]

end Json

------------------------------------------------------------
-- Code
------------------------------------------------------------

mutual

/- A word as structured text. -/
def Word.toJson : Word → Json
| .op code => .tagged "Op" (.ofNat code.toNat)
| .const c => .tagged "Const" c.toJson
| .name n => .tagged "Name" (.ofText n)
| .target t => .tagged "Target" (.ofNat t)
| .count n => .tagged "Count" (.ofNat n)

/- A constant as structured text. -/
def Constant.toJson : Constant → Json
| .null => .ofText "Null"
| .number n => .tagged "Number" (.ofBinary64 n)
| .integer i => .tagged "Integer" (.ofBigInt i)
| .decimal d =>
    .tagged "Decimal" (.ofText (String.ofList d.stored))
| .text s => .tagged "String" (.ofText s)
| .routine r => .tagged "Function" r.toJson

/- A function as structured text. -/
def Routine.toJson : Routine → Json
| ⟨_, name, parameters, code⟩ =>
    .object
      [("name".toList, .ofText name),
       ("parameters".toList, .list (parameters.map .ofText)),
       ("code".toList, .tagged "words" (.list (Word.toJsons code)))]

/- Some words as structured text. -/
def Word.toJsons : List Word → List Json
| [] => []
| w :: ws => w.toJson :: Word.toJsons ws

end

/- Code as structured text. -/
def Code.toJson (code : Code) : Json :=
  .tagged "words" (.list (Word.toJsons code))

------------------------------------------------------------
-- Entries
------------------------------------------------------------

/- What is stored for a script. -/
structure Entry where
  version : Nat
  source : String
  bytecode : Code
  mtime : Nat

/- The version of entries that is written and understood. -/
def Entry.current : Nat :=
  1

/- An entry as structured text. -/
def Entry.toJson (e : Entry) : Json :=
  .object
    [("version".toList, .ofNat e.version),
     ("source".toList, .ofText e.source),
     ("bytecode".toList, e.bytecode.toJson),
     ("mtime".toList, .ofNat e.mtime)]

/- The text of an entry. -/
def Entry.write (e : Entry) : String :=
  e.toJson.write

end StackScript
