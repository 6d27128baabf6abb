import StackScript.Number.Digits
import StackScript.Token.Basic

/-
  From source text to tokens.

  Scanning never fails: a character that starts nothing
  else is an unknown token by itself, and so is a quote that
  is never closed. Blanks and comments separate tokens and
  are dropped.

  Key definitions include:
    * `Token.Lexeme`
    * `Token.lexeme`
    * `Token.scan`
    * `Token.unquote`
-/

namespace StackScript
namespace Token

------------------------------------------------------------
-- Character Classes
------------------------------------------------------------

/- The words that are keywords. -/
def keywords : List String :=
  ["new", "if", "else", "while", "continue", "break", "for",
   "function", "return"]

/- The operators of two characters. -/
def longOperators : List (Char × Char) :=
  [('&', '&'), ('|', '|'), ('!', '='), ('<', '='),
   ('>', '='), ('=', '='), ('-', '-'), ('+', '+'),
   ('-', '='), ('+', '='), ('/', '='), ('*', '=')]

/- The operators of one character. -/
def shortOperators : List Char :=
  ['+', '-', '*', '/', '=', '(', ')', '&', '^', '%', '$',
   '@', '!', '<', '>', '?', ':', '~', '\x7b', '\x7d']

/- The characters that open and close a string literal. -/
def quotes : List Char :=
  ['"', '\'', '\x60']

/- The characters that separate tokens and are dropped. -/
def spaces : List Char :=
  [' ', '\t', '\r', '\n']

/- A character that can start an identifier. -/
def isLetter (c : Char) : Bool :=
  c.isAlpha || c == '_'

/- A character that can continue an identifier. -/
def isWord (c : Char) : Bool :=
  c.isAlphanum || c == '_'

------------------------------------------------------------
-- Lexemes
------------------------------------------------------------

/-
  The front of a text: how many characters it has, and the
  kind of token that they make, if any.
-/
structure Lexeme where
  kind? : Option Kind
  size : Nat
deriving DecidableEq, Repr

/-
  How many characters a string literal has after its
  opening quote, or `none` when it is never closed. A
  backslash takes the character after it along.
-/
def quotedSize?
    (quote : Char) :
    List Char → Option Nat
| [] => none
| '\\' :: [] => none
| '\\' :: _ :: cs => (quotedSize? quote cs).map (· + 2)
| c :: cs =>
    if c = quote then some 1
    else (quotedSize? quote cs).map (· + 1)

/-
  How many characters continue an identifier. A point
  belongs to it when a letter follows.
-/
def identifierSize : List Char → Nat
| [] => 0
| '.' :: c :: cs =>
    if isLetter c then identifierSize (c :: cs) + 1 else 0
| c :: cs =>
    if isWord c then identifierSize cs + 1 else 0

/- How many digits below the base a text starts with. -/
def digitRun
    (base : Nat)
    (cs : List Char) : Nat :=
  (cs.takeWhile (Digits.isDigit base)).length

/- How many characters a decimal literal has. -/
def decimalSize (cs : List Char) : Nat :=
  let whole := digitRun 10 cs
  match cs.drop whole with
  | '.' :: rest =>
      let fraction := digitRun 10 rest
      if fraction = 0 then whole else whole + 1 + fraction
  | _ => whole

/- How many characters a numeric literal has. -/
def numberSize (cs : List Char) : Nat :=
  let based (base : Nat) (rest : List Char) :=
    let run := digitRun base rest
    if run = 0 then decimalSize cs else run + 2
  match cs with
  | '0' :: 'b' :: rest => based 2 rest
  | '0' :: 'x' :: rest => based 16 rest
  | _ => decimalSize cs

/- The operator or the unknown character at the front. -/
def symbol
    (c : Char)
    (cs : List Char) : Lexeme :=
  match cs with
  | d :: _ =>
      if (c, d) ∈ longOperators then ⟨some .operator, 2⟩
      else if c ∈ shortOperators then ⟨some .operator, 1⟩
      else ⟨some .unknown, 1⟩
  | [] =>
      if c ∈ shortOperators then ⟨some .operator, 1⟩
      else ⟨some .unknown, 1⟩

/- The lexeme at the front of the text `c :: cs`. -/
def lexeme
    (c : Char)
    (cs : List Char) : Lexeme :=
  if c ∈ spaces then ⟨none, 1⟩
  else if c = '#' then
    ⟨none, (cs.takeWhile (· ≠ '\n')).length + 1⟩
  else if c = ',' ∨ c = ';' then ⟨some .separator, 1⟩
  else if c ∈ quotes then
    match quotedSize? c cs with
    | some n => ⟨some .stringLiteral, n + 1⟩
    | none => ⟨some .unknown, 1⟩
  else if c.isDigit then
    ⟨some .literal, numberSize (c :: cs)⟩
  else if isLetter c then
    let size := identifierSize cs + 1
    let word := String.ofList ((c :: cs).take size)
    ⟨some (if word ∈ keywords then .keyword else .identifier), size⟩
  else symbol c cs

------------------------------------------------------------
-- Scanning
------------------------------------------------------------

/-
  The tokens of a text that starts at `place`, looking at no
  more than `steps` lexemes.
-/
def scanFrom :
    Nat → Location → List Char → List Token
| 0, _, _ => []
| _ + 1, _, [] => []
| steps + 1, place, c :: cs =>
    let found := lexeme c cs
    let text := (c :: cs).take found.size
    let rest :=
      scanFrom steps (place.after text) ((c :: cs).drop found.size)
    match found.kind? with
    | none => rest
    | some kind => ⟨kind, String.ofList text, place⟩ :: rest

/- The tokens of a source text. -/
def scan (source : String) : List Token :=
  let cs := source.toList
  scanFrom cs.length .start cs

------------------------------------------------------------
-- String Literals
------------------------------------------------------------

/- The character that stands for a backslash and `c`. -/
def escaped (c : Char) : Char :=
  if c = 'n' then '\n'
  else if c = 't' then '\t'
  else if c = 'r' then '\r'
  else if c = '0' then '\x00'
  else c

/- Resolve the backslashes of a text, from the left. -/
def unescape : List Char → List Char
| [] => []
| '\\' :: [] => ['\\']
| '\\' :: c :: cs => escaped c :: unescape cs
| c :: cs => c :: unescape cs

/- The text between the first and the last character, resolved. -/
def unquote (text : String) : String :=
  String.ofList (unescape (text.toList.drop 1).dropLast)

end Token
end StackScript
