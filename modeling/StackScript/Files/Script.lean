import StackScript.Files.Tree
import StackScript.Text.Quoted

/-
  Scripts: source files with their path and time.

  Key definitions include:
    * `Script`
    * `Script.load`
    * `LoadError`
-/

namespace StackScript

/- A source file. -/
structure Script where
  path : Path
  source : String
  /- The time of the last change, in milliseconds. -/
  modified : Nat
deriving Repr

/- Why a script cannot be loaded. -/
inductive LoadError where
| wrongExtension (path : Path)
| io (path : Path) (error : OsError)
deriving DecidableEq, Repr

/- The text of an error. -/
def LoadError.message : LoadError → String
| .wrongExtension path =>
    s!"file {Text.quoted path} is not a (.pds) dango script file"
| .io path error =>
    s!"could not read {Text.quoted path}: {error.message}"

namespace Script

/- The extension of scripts. -/
def extension : String :=
  "pds"

/- The name of a script. -/
def name (s : Script) : String :=
  s.path.fileName

/- The name of a script without its extension. -/
def stem (s : Script) : String :=
  s.path.stem

/- Load a script; the extension is looked at first. -/
def load
    (fs : Files)
    (path : Path) : Except LoadError Script :=
  if path.extension? ≠ some extension then
    .error (.wrongExtension path)
  else
    match fs.read path with
    | .error e => .error (.io path e)
    | .ok (source, modified) => .ok ⟨path, source, modified⟩

end Script
end StackScript
