/-
  Paths of files.

  A path is text whose parts are divided by slashes. Empty
  parts and the part `.` say nothing, and the part `..` is
  the name of no file.

  Key definitions include:
    * `Path.parts`
    * `Path.fileName`
    * `Path.stem`
    * `Path.extension?`
    * `Path.join`
-/

namespace StackScript

/- The path of a file. -/
abbrev Path :=
  String

namespace Path

------------------------------------------------------------
-- Parts
------------------------------------------------------------

/- Split characters at every occurrence of one. -/
def splitAt
    (mark : Char) :
    List Char → List (List Char)
| [] => [[]]
| c :: cs =>
    if c = mark then [] :: splitAt mark cs
    else
      match splitAt mark cs with
      | [] => [[c]]
      | part :: parts => (c :: part) :: parts

/- All parts of a path between slashes. -/
def allParts (p : Path) : List String :=
  (splitAt '/' p.toList).map String.ofList

/- The parts of a path that say something. -/
def parts (p : Path) : List String :=
  p.allParts.filter fun part => part ≠ "" ∧ part ≠ "."

/- The path starts at the root of all files. -/
def isAbsolute (p : Path) : Bool :=
  p.toList.head? = some '/'

/-
  The path can only name a directory: it ends in a slash, or
  in a part that names one.
-/
def namesDirectory (p : Path) : Bool :=
  match p.allParts.getLast? with
  | some part => part = "" || part = "." || part = ".."
  | none => true

------------------------------------------------------------
-- Names
------------------------------------------------------------

/- The name of the file, or nothing. -/
def fileName (p : Path) : String :=
  match p.parts.getLast? with
  | some part => if part = ".." then "" else part
  | none => ""

/-
  A name in front of its last point and behind it. A point
  that comes first divides nothing.
-/
def splitName (name : String) : String × Option String :=
  let reversed := name.toList.reverse
  let behind := reversed.takeWhile (· ≠ '.')
  match reversed.drop behind.length with
  | [] => (name, none)
  | _ :: front =>
      if front.isEmpty then (name, none)
      else
        (String.ofList front.reverse,
         some (String.ofList behind.reverse))

/- The name of the file without its extension. -/
def stem (p : Path) : String :=
  (splitName p.fileName).1

/- The extension of the file. -/
def extension? (p : Path) : Option String :=
  (splitName p.fileName).2

------------------------------------------------------------
-- Joining
------------------------------------------------------------

/- A path below another, divided by a slash where one is missing. -/
def join
    (dir name : Path) : Path :=
  if dir = "" ∨ dir.toList.getLast? = some '/' then dir ++ name
  else dir ++ "/" ++ name

end Path
end StackScript
