import StackScript.Files.Path

/-
  A tree of files and directories.

  Paths are followed part by part, from the root of the tree
  or from the current directory.

  Key definitions include:
    * `OsError`
    * `Node`
    * `Files`
    * `Files.read`
    * `Files.write`
    * `Files.makeDirectories`
-/

namespace StackScript

------------------------------------------------------------
-- Errors
------------------------------------------------------------

/- Why the operating system refuses. -/
inductive OsError where
| noEntry
| exists
| notDirectory
| isDirectory
deriving DecidableEq, Repr

/- The text of an error. -/
def OsError.message : OsError → String
| .noEntry => "No such file or directory (os error 2)"
| .exists => "File exists (os error 17)"
| .notDirectory => "Not a directory (os error 20)"
| .isDirectory => "Is a directory (os error 21)"

------------------------------------------------------------
-- Trees
------------------------------------------------------------

/- A file with its text and the time of its last change. -/
inductive Node where
| directory
| file (text : String) (modified : Nat)
deriving DecidableEq, Repr

/- The current directory, and the nodes below the root by place. -/
structure Files where
  current : List String
  nodes : List (List String × Node)
deriving Repr

namespace Files

/- Nothing but the current directory. -/
def empty : Files :=
  ⟨["work"], [(["work"], .directory)]⟩

/- The node at a place in the tree. -/
def node?
    (fs : Files)
    (place : List String) : Option Node :=
  if place.isEmpty then some .directory else fs.nodes.lookup place

/- Put a node at a place in the tree. -/
def put
    (fs : Files)
    (place : List String)
    (node : Node) : Files :=
  { fs with
    nodes := (place, node) :: fs.nodes.filter (·.1 ≠ place) }

/- The directory that a path starts from. -/
def base
    (fs : Files)
    (p : Path) : List String :=
  if p.isAbsolute then [] else fs.current

------------------------------------------------------------
-- Looking Up
------------------------------------------------------------

/-
  Follow parts from a directory, up to the place of the
  last, which need not be there.
-/
def follow
    (fs : Files) :
    List String → List String → Except OsError (List String)
| place, [] => .ok place
| place, part :: parts =>
    if part = ".." then follow fs place.dropLast parts
    else
      let next := place ++ [part]
      match parts, fs.node? next with
      | [], _ => .ok next
      | _ :: _, some .directory => follow fs next parts
      | _ :: _, some (.file ..) => .error .notDirectory
      | _ :: _, none => .error .noEntry

/- The place in the tree that a path leads to. -/
def locate
    (fs : Files)
    (p : Path) : Except OsError (List String) :=
  if p = "" then .error .noEntry
  else fs.follow (fs.base p) p.parts

/- The node that a path leads to. -/
def find
    (fs : Files)
    (p : Path) : Except OsError Node := do
  let place ← fs.locate p
  match fs.node? place with
  | none => throw .noEntry
  | some .directory => return .directory
  | some (.file text modified) =>
      if p.namesDirectory then throw .notDirectory
      else return .file text modified

/- The text and the time of the last change of a file. -/
def read
    (fs : Files)
    (p : Path) : Except OsError (String × Nat) := do
  match ← fs.find p with
  | .directory => throw .isDirectory
  | .file text modified => return (text, modified)

------------------------------------------------------------
-- Changing
------------------------------------------------------------

/- The directory that a place lies in is there. -/
def checkParent
    (fs : Files)
    (place : List String) : Except OsError Unit :=
  match fs.node? place.dropLast with
  | some .directory => .ok ()
  | some (.file ..) => .error .notDirectory
  | none => .error .noEntry

/- Write a file, in a directory that is there. -/
def write
    (fs : Files)
    (p : Path)
    (text : String)
    (modified : Nat) : Except OsError Files := do
  let place ← fs.locate p
  fs.checkParent place
  match fs.node? place with
  | some .directory => throw .isDirectory
  | some (.file ..) =>
      if p.namesDirectory then throw .notDirectory
      else return fs.put place (.file text modified)
  | none =>
      if p.namesDirectory then throw .isDirectory
      else return fs.put place (.file text modified)

/- Follow parts from a directory, making those not there. -/
def makeBelow
    (fs : Files) :
    List String → List String → Except OsError Files
| _, [] => .ok fs
| place, part :: parts =>
    if part = ".." then makeBelow fs place.dropLast parts
    else
      let next := place ++ [part]
      match fs.node? next with
      | some .directory => makeBelow fs next parts
      | some (.file ..) =>
          .error (if parts.isEmpty then .exists else .notDirectory)
      | none => makeBelow (fs.put next .directory) next parts

/- Make a directory and those that it lies in. -/
def makeDirectories
    (fs : Files)
    (p : Path) : Except OsError Files :=
  fs.makeBelow (fs.base p) p.parts

/- Put a directory at a place, and above it. -/
def putDirectory
    (fs : Files)
    (place : List String) : Files :=
  (List.range place.length).foldl
    (fun fs n => fs.put (place.take (n + 1)) .directory) fs

/- Put a file at a path, in directories that are put there too. -/
def install
    (fs : Files)
    (p : Path)
    (text : String)
    (modified : Nat) : Files :=
  let place := fs.base p ++ p.parts
  (fs.putDirectory place.dropLast).put place (.file text modified)

/- Put a directory at a path, and above it. -/
def installDirectory
    (fs : Files)
    (p : Path) : Files :=
  fs.putDirectory (fs.base p ++ p.parts)

end Files
end StackScript
