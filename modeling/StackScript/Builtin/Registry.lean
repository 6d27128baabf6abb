import StackScript.Builtin.Library

/-
  The names under which programs find built-in functions.

  A function is registered as prompt or as waiting for the
  host; of two under one name the prompt one is found.

  Key definitions include:
    * `Mode`
    * `Registry`
    * `Registry.lookup`
    * `Registry.standard`
-/

namespace StackScript

/- Whether a function may wait for the host. -/
inductive Mode where
| sync
| blocking
deriving DecidableEq, Repr

/- The name of a mode. -/
def Mode.label : Mode → String
| .sync => "Sync"
| .blocking => "Blocking"

/- Functions by mode and name, the latest first. -/
structure Registry where
  sync : List (String × Builtin)
  blocking : List (String × Builtin)

namespace Registry

/- No functions. -/
def empty : Registry :=
  ⟨[], []⟩

/- Register a function under a name. -/
def register
    (r : Registry)
    (mode : Mode)
    (name : String)
    (f : Builtin) : Registry :=
  match mode with
  | .sync => { r with sync := (name, f) :: r.sync }
  | .blocking => { r with blocking := (name, f) :: r.blocking }

/- The function under a name; one that does not wait comes first. -/
def lookup
    (r : Registry)
    (name : String) : Option (Mode × Builtin) :=
  match r.sync.lookup name with
  | some f => some (.sync, f)
  | none => (r.blocking.lookup name).map fun f => (.blocking, f)

/- The functions that every program can call. -/
def standard : Registry where
  sync :=
    [("print", .print), ("concat", .concat), ("now", .now),
     ("root", .root), ("setPrecision", .setPrecision),
     ("sine", .sine), ("cosine", .cosine), ("raise", .raise)]
  blocking := [("input", .input)]

end Registry
end StackScript
