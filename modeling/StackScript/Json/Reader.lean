import StackScript.Json.Basic

/-
  Reading structured text.

  Numbers and strings are taken as they are written, once
  they have the right form. The readers share a bound on
  the nesting of calls, which the length of a text supplies.

  Key definitions include:
    * `Json.scanString?`
    * `Json.scanNumber?`
    * `Json.value?`
    * `Json.read?`
-/

namespace StackScript
namespace Json

------------------------------------------------------------
-- Blanks
------------------------------------------------------------

/- A blank between the parts of a structured text. -/
def isSpace (c : Char) : Bool :=
  c == ' ' || c == '\n' || c == '\t' || c == '\r'

/- Drop the blanks at the front. -/
def skip (cs : List Char) : List Char :=
  cs.dropWhile isSpace

------------------------------------------------------------
-- Strings
------------------------------------------------------------

/- The letters that may follow a backslash by themselves. -/
def escapeLetters : List Char :=
  ['"', '\\', '/', 'b', 'f', 'n', 'r', 't']

/- A string after its opening quote, and what follows it. -/
def scanString? : List Char → Option (List Char × List Char)
| [] => none
| '"' :: cs => some ([], cs)
| '\\' :: 'u' :: a :: b :: c :: d :: cs =>
    if [a, b, c, d].all (Digits.isDigit 16) then
      (scanString? cs).map fun (raw, rest) =>
        ('\\' :: 'u' :: a :: b :: c :: d :: raw, rest)
    else none
| '\\' :: c :: cs =>
    if c ∈ escapeLetters then
      (scanString? cs).map fun (raw, rest) => ('\\' :: c :: raw, rest)
    else none
| c :: cs =>
    if c.toNat < 0x20 ∨ c = '\\' then none
    else (scanString? cs).map fun (raw, rest) => (c :: raw, rest)

------------------------------------------------------------
-- Numbers
------------------------------------------------------------

/- The digits at the front, and what follows them. -/
def digits (cs : List Char) : List Char × List Char :=
  (cs.takeWhile Char.isDigit, cs.dropWhile Char.isDigit)

/- Digits at the front, at least one, and what follows them. -/
def digits? (cs : List Char) : Option (List Char × List Char) :=
  let (ds, rest) := digits cs
  if ds.isEmpty then none else some (ds, rest)

/- An integer without a sign: a zero alone, or no leading zero. -/
def whole? (cs : List Char) : Option (List Char × List Char) :=
  match cs with
  | '0' :: rest => some (['0'], rest)
  | cs => digits? cs

/- A point and digits after it, if a point comes next. -/
def places? (cs : List Char) : Option (List Char × List Char) :=
  match cs with
  | '.' :: rest =>
      (digits? rest).map fun (ds, rest) => ('.' :: ds, rest)
  | cs => some ([], cs)

/- A sign, if one comes next. -/
def sign (cs : List Char) : List Char × List Char :=
  match cs with
  | '+' :: rest => (['+'], rest)
  | '-' :: rest => (['-'], rest)
  | cs => ([], cs)

/- An exponent, if one comes next. -/
def exponent? (cs : List Char) : Option (List Char × List Char) :=
  match cs with
  | [] => some ([], [])
  | c :: rest =>
      if c = 'e' ∨ c = 'E' then
        let (s, rest) := sign rest
        (digits? rest).map fun (ds, rest) => (c :: s ++ ds, rest)
      else some ([], c :: rest)

/- A number at the front, and what follows it. -/
def scanNumber? (cs : List Char) : Option (List Char × List Char) := do
  let (minus, cs) :=
    match cs with
    | '-' :: rest => (['-'], rest)
    | cs => ([], cs)
  let (w, cs) ← whole? cs
  let (p, cs) ← places? cs
  let (e, cs) ← exponent? cs
  return (minus ++ w ++ p ++ e, cs)

------------------------------------------------------------
-- Trees
------------------------------------------------------------

mutual

/- A tree at the front, blanks before it dropped, and the rest. -/
def value? :
    Nat → List Char → Option (Json × List Char)
| 0, _ => none
| bound + 1, cs =>
    match skip cs with
    | [] => none
    | 'n' :: 'u' :: 'l' :: 'l' :: rest => some (.null, rest)
    | 't' :: 'r' :: 'u' :: 'e' :: rest => some (.bool true, rest)
    | 'f' :: 'a' :: 'l' :: 's' :: 'e' :: rest =>
        some (.bool false, rest)
    | '"' :: rest =>
        (scanString? rest).map fun (raw, rest) => (.string raw, rest)
    | '[' :: rest =>
        match skip rest with
        | ']' :: rest => some (.list [], rest)
        | rest =>
            (items? bound rest).map fun (items, rest) =>
              (.list items, rest)
    | '\x7b' :: rest =>
        match skip rest with
        | '\x7d' :: rest => some (.object [], rest)
        | rest =>
            (members? bound rest).map fun (members, rest) =>
              (.object members, rest)
    | cs =>
        (scanNumber? cs).map fun (text, rest) => (.number text, rest)

/- The items of a list up to its closing, at least one. -/
def items? :
    Nat → List Char → Option (List Json × List Char)
| 0, _ => none
| bound + 1, cs => do
    let (item, cs) ← value? bound cs
    match skip cs with
    | ']' :: rest => some ([item], rest)
    | ',' :: rest =>
        let (items, rest) ← items? bound rest
        some (item :: items, rest)
    | _ => none

/- The members of an object up to its closing, at least one. -/
def members? :
    Nat → List Char → Option (List (List Char × Json) × List Char)
| 0, _ => none
| bound + 1, cs =>
    match skip cs with
    | '"' :: rest => do
        let (key, rest) ← scanString? rest
        match skip rest with
        | ':' :: rest =>
            let (value, rest) ← value? bound rest
            match skip rest with
            | '\x7d' :: rest => some ([(key, value)], rest)
            | ',' :: rest =>
                let (members, rest) ← members? bound rest
                some ((key, value) :: members, rest)
            | _ => none
        | _ => none
    | _ => none

end

/- The tree that a whole text is. -/
def read? (text : String) : Option Json := do
  let cs := text.toList
  let (j, rest) ← value? (cs.length + 1) cs
  if (skip rest).isEmpty then some j else none

end Json
end StackScript
