import StackScript.Cache.Encode
import StackScript.Json.Reader

/-
  Code from structured text.

  An object may have members that nothing asks for, but no
  member that is asked for twice; a list of the members'
  values in order stands for the object as well. Nesting is
  limited, except in what nothing asks for.

  Key definitions include:
    * `Decode`
    * `Code.ofJson`
    * `Entry.ofJson`
    * `Code.read?`
    * `Entry.read?`
-/

namespace StackScript

------------------------------------------------------------
-- Leaves
------------------------------------------------------------

/- How many levels of objects and lists are looked into. -/
def maxNesting : Nat :=
  127

namespace Json

/- The text of a string. -/
def text? : Json → Option String
| .string raw => (unescape? raw).map String.ofList
| _ => none

/-
  What a number denotes: an integer of at most sixty-four
  bits that is written as one, or a floating-point number.
-/
inductive Numeral where
| integer (i : Int)
| binary (n : Binary64)

/- The text of a number is that of an integer. -/
def isPlain (cs : List Char) : Bool :=
  cs.all fun c => c.isDigit || c == '-'

/- The floating-point number that a text denotes, if in range. -/
def binary? (cs : List Char) : Option Binary64 :=
  (Binary64.read? (String.ofList cs)).filter Binary64.isFinite

/- What the text of a number denotes. -/
def numeral? : Json → Option Numeral
| .number cs =>
    let n : Nat := Digits.read 10 (cs.filter Char.isDigit)
    if isPlain cs then
      if cs.head? = some '-' then
        if 0 < n ∧ n ≤ Nat.pow 2 63 then some (.integer (-(n : Int)))
        else (binary? cs).map .binary
      else if n < Nat.pow 2 64 then some (.integer n)
      else (binary? cs).map .binary
    else (binary? cs).map .binary
| _ => none

/- A natural number up to a bound. -/
def nat?
    (most : Nat)
    (j : Json) : Option Nat :=
  match j.numeral? with
  | some (.integer i) =>
      if 0 ≤ i ∧ i ≤ most then some i.toNat else none
  | _ => none

/- A floating-point number, also one written as an integer. -/
def number? (j : Json) : Option Binary64 :=
  match j.numeral? with
  | some (.integer i) => some (.ofInt i)
  | some (.binary n) => some n
  | none => none

/- A decimal as text or as a number. -/
def decimal? (j : Json) : Option Decimal :=
  match j with
  | .string raw => (unescape? raw).bind Decimal.read?
  | _ =>
      match j.numeral? with
      | some (.integer i) => some (.ofInt i)
      | some (.binary n) => Decimal.ofBinary64? n
      | none => none

/- The integer with a sign and the digits of its magnitude. -/
def assemble
    (sign : Int)
    (digits : List Nat) : Int :=
  sign * (digits.foldr (fun d n => d + Nat.pow 2 32 * n) 0 : Nat)

/- A sign: minus one, zero or one. -/
def sign? (j : Json) : Option Int :=
  match j.numeral? with
  | some (.integer i) => if -1 ≤ i ∧ i ≤ 1 then some i else none
  | _ => none

/- An integer of any size, in at most `depth` levels. -/
def bigInt?
    (depth : Nat) :
    Json → Option Int
| .list [sign, .list digits] => do
    if depth < 2 then none
    let s ← sign? sign
    let ds ← digits.mapM (nat? (Nat.pow 2 32 - 1))
    return assemble s ds
| _ => none

------------------------------------------------------------
-- Objects
------------------------------------------------------------

/- The values under a key. -/
def valuesOf
    (key : String)
    (members : List (String × Json)) : List Json :=
  members.filterMap fun (k, v) => if k = key then some v else none

/- The one value under a key. -/
def valueOf?
    (members : List (String × Json))
    (key : String) : Option Json :=
  match valuesOf key members with
  | [v] => some v
  | _ => none

/-
  The values of the given keys, from an object that has each
  of them once or from a list of just these values.
-/
def fields?
    (keys : List String) :
    Json → Option (List Json)
| .object members => do
    let named ← members.mapM fun (raw, v) => do
      let key ← unescape? raw
      return (String.ofList key, v)
    keys.mapM (valueOf? named)
| .list values =>
    if values.length = keys.length then some values else none
| _ => none

/- The tag and the value of an object with one member. -/
def tag? : Json → Option (String × Json)
| .object [(raw, value)] => do
    let tag ← unescape? raw
    return (String.ofList tag, value)
| _ => none

/- The items of a list. -/
def list? : Json → Option (List Json)
| .list items => some items
| _ => none

/- The value is `null`. -/
def isNull : Json → Bool
| .null => true
| _ => false

end Json

------------------------------------------------------------
-- Code
------------------------------------------------------------

/- Decoding marks each function by a number of its own. -/
abbrev Decode :=
  StateT Nat Option

/- A mark that no other function has. -/
def Decode.mark : Decode Nat :=
  modifyGet fun n => (n, n + 1)

/- The largest target, count and time. -/
def maxWord : Nat :=
  Nat.pow 2 64 - 1

/- A constant that holds no function, in at most `depth` levels. -/
def Constant.ofTagged?
    (depth : Nat)
    (tag : String)
    (value : Json) : Option Constant :=
  match tag with
  | "Null" => if value.isNull then some .null else none
  | "Number" => value.number?.map .number
  | "Integer" => (value.bigInt? depth).map .integer
  | "Decimal" => value.decimal?.map .decimal
  | "String" => value.text?.map .text
  | _ => none

/- A word that holds no constant. -/
def Word.ofTagged?
    (tag : String)
    (value : Json) : Option Word :=
  match tag with
  | "Op" => (value.nat? 255).map fun n => .op (UInt8.ofNat n)
  | "Name" => value.text?.map .name
  | "Target" => (value.nat? maxWord).map .target
  | "Count" => (value.nat? maxWord).map .count
  | _ => none

mutual

/- Code, in at most `depth` levels. -/
def Code.ofJson :
    Nat → Json → Decode Code
| 0, _ => failure
| depth + 1, j => do
    match j.fields? ["words"] with
    | some [words] =>
        match words.list? with
        | some items => Word.ofJsons depth items
        | none => failure
    | _ => failure

/- The words of a list, in at most `depth` levels. -/
def Word.ofJsons :
    Nat → List Json → Decode (List Word)
| 0, _ => failure
| depth + 1, items => items.mapM (Word.ofJson depth)

/- A word, in at most `depth` levels. -/
def Word.ofJson :
    Nat → Json → Decode Word
| 0, _ => failure
| depth + 1, j => do
    let (tag, value) ← liftM j.tag?
    if tag = "Const" then
      let c ← Constant.ofJson depth value
      return .const c
    else liftM (Word.ofTagged? tag value)

/- A constant, in at most `depth` levels. -/
def Constant.ofJson :
    Nat → Json → Decode Constant
| _, .string raw => do
    if Json.unescape? raw = some "Null".toList then return .null
    else failure
| 0, _ => failure
| depth + 1, j => do
    let (tag, value) ← liftM j.tag?
    if tag = "Function" then
      let r ← Routine.ofJson depth value
      return .routine r
    else liftM (Constant.ofTagged? depth tag value)

/- A function, in at most `depth` levels. -/
def Routine.ofJson :
    Nat → Json → Decode Routine
| 0, _ => failure
| depth + 1, j => do
    match j.fields? ["name", "parameters", "code"] with
    | some [name, parameters, code] =>
        let name ← liftM name.text?
        let items ← liftM parameters.list?
        if depth = 0 then failure
        let names ← liftM (items.mapM Json.text?)
        let code ← Code.ofJson depth code
        let mark ← Decode.mark
        return ⟨mark, name, names, code⟩
    | _ => failure

end

------------------------------------------------------------
-- Entries
------------------------------------------------------------

/- An entry. -/
def Entry.ofJson (j : Json) : Decode Entry := do
  match j.fields? ["version", "source", "bytecode", "mtime"] with
  | some [version, source, bytecode, mtime] =>
      let version ← liftM (version.nat? (Nat.pow 2 32 - 1))
      let source ← liftM source.text?
      let bytecode ← Code.ofJson (maxNesting - 1) bytecode
      let mtime ← liftM (mtime.nat? maxWord)
      return ⟨version, source, bytecode, mtime⟩
  | _ => failure

/-
  The code that a text holds, functions marked from a number
  on, and the next such number.
-/
def Code.read?
    (mark : Nat)
    (text : String) : Option (Code × Nat) := do
  let j ← Json.read? text
  (Code.ofJson maxNesting j).run mark

/- The entry that a text holds. -/
def Entry.read?
    (mark : Nat)
    (text : String) : Option (Entry × Nat) := do
  let j ← Json.read? text
  (Entry.ofJson j).run mark

end StackScript
