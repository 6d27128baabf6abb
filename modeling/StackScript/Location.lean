/-
  Places in a source text.

  Rows and columns count from one, and a column counts
  characters.

  Key definitions include:
    * `Location`
    * `Location.after`
    * `Location.describe`
-/

namespace StackScript

/- The row and column where something starts. -/
structure Location where
  row : Nat
  column : Nat
deriving DecidableEq, Repr, Inhabited

namespace Location

/- The place where every text starts. -/
def start : Location :=
  ⟨1, 1⟩

/- The place just after one character. -/
def next
    (l : Location)
    (c : Char) : Location :=
  if c = '\n' then ⟨l.row + 1, 1⟩ else ⟨l.row, l.column + 1⟩

/- The place just after some text. -/
def after
    (l : Location)
    (cs : List Char) : Location :=
  cs.foldl next l

/- A place as error messages name it. -/
def describe (l : Location) : String :=
  s!"row {l.row}, char {l.column}"

/- Text in two pieces moves the place twice. -/
theorem after_append
    (l : Location)
    (cs ds : List Char) :
    l.after (cs ++ ds) = (l.after cs).after ds := by
  simp [after]

end Location
end StackScript
