import StackScript.Cache.Decode
import StackScript.Files.Script

/-
  A directory of compiled scripts.

  There is one file for each stem of a script's name. An
  entry counts when it has the current version and the time
  of the script; a missing, stale or unreadable one is a
  miss.

  Key definitions include:
    * `Cache`
    * `Cache.pathFor`
    * `Cache.load`
    * `Cache.store`
    * `CacheError`
-/

namespace StackScript

/- Why the directory cannot be used. -/
inductive CacheError where
| read (path : Path) (error : OsError)
| createDirectory (path : Path) (error : OsError)
| write (path : Path) (error : OsError)
deriving DecidableEq, Repr

namespace CacheError

/- The text of an error. -/
def message : CacheError → String
| .read path error =>
    s!"could not read cache file {Text.quoted path}: {error.message}"
| .createDirectory path error =>
    s!"could not create cache directory {Text.quoted path}: {error.message}"
| .write path error =>
    s!"could not write cache file {Text.quoted path}: {error.message}"

/- The error of the operating system behind an error. -/
def cause : CacheError → OsError
| .read _ e | .createDirectory _ e | .write _ e => e

end CacheError

/- A directory of compiled scripts. -/
structure Cache where
  dir : Path
deriving DecidableEq, Repr

namespace Cache

/- The extension of compiled scripts. -/
def extension : String :=
  "pdbc"

/- The entry for the code of a script. -/
def entryFor
    (script : Script)
    (code : Code) : Entry where
  version := Entry.current
  source := script.name
  bytecode := code
  mtime := script.modified

/- The text that is stored for the code of a script. -/
def encode
    (script : Script)
    (code : Code) : String :=
  (entryFor script code).write

/- The file in which the code of a script is stored. -/
def pathFor
    (cache : Cache)
    (script : Script) : Path :=
  cache.dir.join (script.stem ++ "." ++ extension)

/- The code of an entry that counts for a script. -/
def accept
    (script : Script)
    (e : Entry) : Option Code :=
  if e.version = Entry.current ∧ e.mtime = script.modified then
    some e.bytecode
  else none

/- The code in the text of an entry, if it counts for a script. -/
def decode?
    (script : Script)
    (text : String) : Option Code := do
  let (e, _) ← Entry.read? 0 text
  accept script e

/- The stored code of a script, if there is any that counts. -/
def load
    (cache : Cache)
    (fs : Files)
    (script : Script) : Except CacheError (Option Code) :=
  let path := cache.pathFor script
  match fs.read path with
  | .error .noEntry => .ok none
  | .error e => .error (.read path e)
  | .ok (text, _) => .ok (decode? script text)

/- Store the code of a script. -/
def store
    (cache : Cache)
    (fs : Files)
    (script : Script)
    (code : Code) : Except CacheError Files :=
  match fs.makeDirectories cache.dir with
  | .error e => .error (.createDirectory cache.dir e)
  | .ok fs =>
      let path := cache.pathFor script
      match fs.write path (encode script code) 0 with
      | .error e => .error (.write path e)
      | .ok fs => .ok fs

end Cache
end StackScript
