import StackScript.Machine.Scopes

/-
  What a running program shares with the world around it.

  The input is a list of bytes, since what is read need not
  be text; the output is the text written so far.

  Key definitions include:
    * `Host`
    * `Host.write`
    * `Host.readLine`
-/

namespace StackScript

/- The world around a running program. -/
structure Host where
  /- The bytes still to read. -/
  input : List UInt8
  /- The text written so far. -/
  output : String
  /- How many significant digits decimals are kept to. -/
  precision : Nat
  /- Milliseconds since the program started. -/
  clock : Nat

/- What a built-in function does to the world, or why it fails. -/
abbrev Hosted :=
  EStateM BuiltinError Host

namespace Host

/- Append text to the output. -/
def write (text : String) : Hosted Unit :=
  modify fun h => { h with output := h.output ++ text }

/- Whether a byte ends a line. -/
def isLineFeed (b : UInt8) : Bool :=
  b == 10

/- The first line of some bytes with its end, and the rest. -/
def splitLine : List UInt8 → List UInt8 × List UInt8
| [] => ([], [])
| b :: bs =>
    if isLineFeed b then ([b], bs)
    else
      let (line, rest) := splitLine bs
      (b :: line, rest)

/- Text without the line ends at its end. -/
def dropLineEnd (text : String) : String :=
  String.ofList
    (text.toList.reverse.dropWhile
      fun c => c == '\n' || c == '\r').reverse

/-
  Read a line, without its end; `none` when nothing is left.
  A line that is not text is consumed and refused.
-/
def readLine : Hosted (Option String) := do
  let h ← get
  let (line, rest) := splitLine h.input
  if line.isEmpty then return none
  else
    set { h with input := rest }
    match String.fromUTF8? (ByteArray.mk line.toArray) with
    | none => throw .illFormedInput
    | some text => return some (dropLineEnd text)

end Host
end StackScript
