import StackScript.Code.Fetch
import StackScript.Number.DecimalText
import StackScript.Text.Quoted

/-
  Instruction streams as readable listings.

  A listing has one line for each instruction, up to the
  first that cannot be decoded. The functions that a stream
  pushes follow it, indented by two spaces.

  Key definitions include:
    * `Binary64.display`
    * `Constant.display`
    * `Code.listing`
-/

namespace StackScript

------------------------------------------------------------
-- Operands
------------------------------------------------------------

/- The text of a number that programs see. -/
def Binary64.display : Binary64 → String
| .nan => "NaN"
| .infinite false => "Infinity"
| .infinite true => "-Infinity"
| .finite s m e h =>
    if m = 0 then "0"
    else String.ofList (Binary64.render .plain (.finite s m e h))

/- The text of a constant in a listing. -/
def Constant.display : Constant → String
| .null => "null"
| .number n => n.display
| .integer i => String.ofList (Digits.writeInt i)
| .decimal d => String.ofList d.display
| .text s => Text.quoted s
| .routine r => s!"<function {r.name}>"

/- The text of an operand word. -/
def Word.display : Word → String
| .op code => s!"<op {code}>"
| .const c => c.display
| .name n => n
| .target t => s!"@{t}"
| .count n => toString n

------------------------------------------------------------
-- Lines
------------------------------------------------------------

/- Text filled up with zeros on the left. -/
def padLeft
    (width : Nat)
    (text : String) : String :=
  String.ofList (Digits.zeros (width - text.length)) ++ text

/- Text filled up with blanks on the right. -/
def padRight
    (width : Nat)
    (text : String) : String :=
  text ++ String.ofList (List.replicate (width - text.length) ' ')

/- A line for an instruction. -/
def Instruction.line
    (i : Instruction)
    (margin : String) : String :=
  let operands := " ".intercalate (i.operands.map Word.display)
  margin ++ padLeft 4 (toString i.pc) ++ " "
    ++ padRight 8 i.op.name ++ operands ++ "\n"

namespace Code

/-
  Lines for the instructions from a position on, at most
  `steps` of them, and whether all could be decoded.
-/
def lines
    (margin : String)
    (code : Code) :
    Nat → Nat → List String × Bool
| 0, _ => ([], true)
| steps + 1, pc =>
    if code.length ≤ pc then ([], true)
    else
      match code.fetch pc with
      | .error e => ([margin ++ "!! " ++ e.message ++ "\n"], false)
      | .ok i =>
          let (others, complete) := lines margin code steps i.next
          (i.line margin :: others, complete)

/- The blanks at the front of a line. -/
def margin (indent : Nat) : String :=
  String.ofList (List.replicate indent ' ')

/- The listing of a stream, given that of the functions in it. -/
def listingWith
    (indent : Nat)
    (code : Code)
    (nested : String) : String :=
  let (found, complete) :=
    lines (margin indent) code code.length 0
  if complete then String.join found ++ nested
  else String.join found

mutual

/- The listing of a function, after an empty line. -/
def routineListing
    (indent : Nat) :
    Routine → String
| ⟨_, name, parameters, code⟩ =>
    "\n" ++ margin indent ++ "function " ++ name
      ++ "(" ++ ", ".intercalate parameters ++ "):\n"
      ++ listingWith (indent + 2) code
        (nestedListings (indent + 2) code)

/- The listing of the function in a constant, if it is one. -/
def constantListing
    (indent : Nat) :
    Constant → String
| .routine r => routineListing indent r
| _ => ""

/- The listing of the function in a word, if it holds one. -/
def wordListing
    (indent : Nat) :
    Word → String
| .const c => constantListing indent c
| _ => ""

/- The listings of the functions in some words. -/
def nestedListings
    (indent : Nat) :
    List Word → String
| [] => ""
| w :: ws => wordListing indent w ++ nestedListings indent ws

end

/- The listing of a stream. -/
def listing (code : Code) : String :=
  listingWith 0 code (nestedListings 0 code)

end Code
end StackScript
