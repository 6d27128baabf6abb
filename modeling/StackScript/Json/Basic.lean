import StackScript.Number.Digits

/-
  Structured text: objects, lists, strings and numbers.

  A tree keeps numbers and strings as they are written, so
  that what a number or a string means, and whether it means
  anything, is for the reader of the tree to say.

  Key definitions include:
    * `Json`
    * `Json.render`
-/

namespace StackScript

/- Structured text, numbers and strings as written. -/
inductive Json where
| null
| bool (b : Bool)
| number (text : List Char)
/- The characters between the quotes, escapes included. -/
| string (raw : List Char)
| list (items : List Json)
| object (members : List (List Char × Json))

namespace Json

------------------------------------------------------------
-- Writing
------------------------------------------------------------

/- The blanks at the front of a line. -/
def margin (depth : Nat) : List Char :=
  List.replicate (2 * depth) ' '

/- A string between its quotes, in front of some text. -/
def quote
    (raw rest : List Char) : List Char :=
  '"' :: (raw ++ '"' :: rest)

/- A new line at a depth, in front of some text. -/
def newLine
    (depth : Nat)
    (rest : List Char) : List Char :=
  '\n' :: (margin depth ++ rest)

mutual

/-
  The text of a tree whose first line stands at a depth,
  every part on a line of its own, in front of some text.
-/
def render
    (depth : Nat) :
    Json → List Char → List Char
| .null, rest => ['n', 'u', 'l', 'l'] ++ rest
| .bool true, rest => ['t', 'r', 'u', 'e'] ++ rest
| .bool false, rest => ['f', 'a', 'l', 's', 'e'] ++ rest
| .number text, rest => text ++ rest
| .string raw, rest => quote raw rest
| .list [], rest => '[' :: ']' :: rest
| .list (item :: items), rest =>
    '[' :: newLine (depth + 1)
      (render (depth + 1) item
        (renderItems (depth + 1) items
          (newLine depth (']' :: rest))))
| .object [], rest => '\x7b' :: '\x7d' :: rest
| .object ((key, value) :: members), rest =>
    '\x7b' :: newLine (depth + 1)
      (quote key
        (':' :: ' ' :: render (depth + 1) value
          (renderMembers (depth + 1) members
            (newLine depth ('\x7d' :: rest)))))

/- The texts of items that follow another. -/
def renderItems
    (depth : Nat) :
    List Json → List Char → List Char
| [], rest => rest
| item :: items, rest =>
    ',' :: newLine depth
      (render depth item (renderItems depth items rest))

/- The texts of members that follow another. -/
def renderMembers
    (depth : Nat) :
    List (List Char × Json) → List Char → List Char
| [], rest => rest
| (key, value) :: members, rest =>
    ',' :: newLine depth
      (quote key
        (':' :: ' ' :: render depth value
          (renderMembers depth members rest)))

end

/- The text of a tree. -/
def write (j : Json) : String :=
  String.ofList (j.render 0 [])

end Json
end StackScript
