import StackScript.Command.Perform

/-
  The command-line tool.

  The files that a command may look at are read first, the
  command is performed on them, and what it changed is
  written back.

  Key definitions include:
    * `Command.paths`
    * `Tool.snapshot`
    * `Tool.writeBack`
    * `main`
-/

namespace StackScript

------------------------------------------------------------
-- Paths
------------------------------------------------------------

/- The paths that a command may look at. -/
def Command.paths
    (env : Environment) :
    Command → List Path
| .run file options =>
    match options.cache? env with
    | some cache => [file, cache.pathFor ⟨file, "", 0⟩]
    | none => [file]
| .compile file out => file :: out.toList
| .listing file | .tokens file | .tree file => [file]

/- The paths that some arguments may look at. -/
def pathsOf
    (env : Environment)
    (arguments : List String) : List Path :=
  match Command.parse env arguments with
  | .ok command => command.paths env
  | .error _ => []

/- The places that following parts leads through. -/
def placesThrough :
    List String → List String → List (List String)
| _, [] => []
| place, part :: parts =>
    let next :=
      if part = ".." then place.dropLast else place ++ [part]
    next :: placesThrough next parts

/- The absolute path of a place. -/
def placePath (place : List String) : Path :=
  "/" ++ "/".intercalate place

namespace Tool

------------------------------------------------------------
-- Files
------------------------------------------------------------

/- More nested steps than any run takes. -/
def bound : Nat :=
  Nat.pow 2 60

/- The time of a file in milliseconds. -/
def milliseconds (t : IO.FS.SystemTime) : Nat :=
  (t.sec * 1000).toNat + t.nsec.toNat / 1000000

/- What stands at a place. -/
def nodeAt (place : List String) : IO (Option Node) := do
  let path := placePath place
  try
    let data ← ((← IO.currentDir) / path).metadata
    match data.type with
    | .dir => return some .directory
    | _ =>
        let text ← IO.FS.readFile path
        return some (.file text (milliseconds data.modified))
  catch _ => return none

/- The files that some paths lead through. -/
def snapshot (paths : List Path) : IO Files := do
  let current := Path.parts (← IO.currentDir).toString
  let mut files : Files := ⟨current, []⟩
  for path in paths do
    let start := files.base path
    let places :=
      placesThrough [] start ++ placesThrough start path.parts
    for place in places do
      if let some node ← nodeAt place then
        files := files.put place node
  return files

/- Write what is new in a tree of files, the oldest first. -/
def writeBack (old new : Files) : IO Unit :=
  for (place, node) in new.nodes.reverse do
    if (place, node) ∉ old.nodes then
      match node with
      | .directory => IO.FS.createDir (placePath place)
      | .file text _ => IO.FS.writeFile (placePath place) text

------------------------------------------------------------
-- Input
------------------------------------------------------------

/- Everything that is left to read. -/
partial def readAll
    (stream : IO.FS.Stream)
    (bytes : ByteArray) : IO ByteArray := do
  let more ← stream.read 65536
  if more.isEmpty then return bytes
  else readAll stream (bytes ++ more)

/- The input of a command; only a run has one. -/
def readInput (arguments : List String) : IO (List UInt8) := do
  if "run" ∈ arguments then
    let bytes ← readAll (← IO.getStdin) .empty
    return bytes.toList
  else return []

end Tool
end StackScript

open StackScript in
/- Perform the command that the arguments make. -/
def main (arguments : List String) : IO UInt32 := do
  let env : Environment :=
    ⟨← IO.getEnv "DANGO_CACHE_DIR", ← IO.getEnv "LOCALAPPDATA"⟩
  let files ← Tool.snapshot (pathsOf env arguments)
  let input ← Tool.readInput arguments
  match invoke Tool.bound env input files arguments with
  | none => return 1
  | some (report, changed) =>
      Tool.writeBack files changed
      IO.print report.stdout
      IO.eprint report.stderr
      return report.code.toUInt32
