import StackScript.Machine.Error

/-
  Nested scopes of variables.

  There is always an innermost scope; the outermost is the
  global one and is never dropped. Names are looked up and
  assigned in the innermost scope that has them, and
  declared in the innermost scope of all.

  Key definitions include:
    * `Scope`
    * `Scopes`
    * `Scopes.get?`
    * `Scopes.declare`
    * `Scopes.assign`
    * `Scopes.truncate`

  Key theorems include:
    * `Scopes.depth_truncate`
-/

namespace StackScript

------------------------------------------------------------
-- One Scope
------------------------------------------------------------

/- The variables of one scope, with their values. -/
abbrev Scope :=
  List (String × Value)

namespace Scope

/- The value of a name. -/
def get?
    (s : Scope)
    (name : String) : Option Value :=
  s.lookup name

/- The scope has a name. -/
def has
    (s : Scope)
    (name : String) : Bool :=
  (s.get? name).isSome

/- Give a name that the scope has another value. -/
def set
    (name : String)
    (value : Value) :
    Scope → Scope
| [] => []
| (n, v) :: s =>
    if n = name then (n, value) :: s else (n, v) :: set name value s

end Scope

------------------------------------------------------------
-- Nested Scopes
------------------------------------------------------------

/- The innermost scope, and those around it, from the inside. -/
structure Scopes where
  top : Scope
  outer : List Scope

namespace Scopes

/- The names of the global scope that no program can assign. -/
def constants : List String :=
  ["true", "false", "null"]

/- The global scope alone, with the constants. -/
def initial : Scopes :=
  ⟨[("true", .ofBool true), ("false", .ofBool false),
    ("null", .null)], []⟩

/- All scopes, from the inside. -/
def toList (s : Scopes) : List Scope :=
  s.top :: s.outer

/- How many scopes there are. -/
def depth (s : Scopes) : Nat :=
  s.outer.length + 1

/- Open a scope. -/
def push (s : Scopes) : Scopes :=
  ⟨[], s.top :: s.outer⟩

/- Close the innermost scope, which must not be the global one. -/
def pop (s : Scopes) : Except EvalError Scopes :=
  match s.outer with
  | [] => .error .popGlobalScope
  | scope :: outer => .ok ⟨scope, outer⟩

/- Close a number of scopes, as far as there are some. -/
def close : Nat → Scopes → Scopes
| n + 1, ⟨_, scope :: outer⟩ => close n ⟨scope, outer⟩
| _, s => s

/- Close every scope above a depth. -/
def truncate
    (depth : Nat)
    (s : Scopes) : Scopes :=
  s.close (s.depth - depth)

/- The value of a name in the innermost scope that has it. -/
def find?
    (name : String) :
    List Scope → Option Value
| [] => none
| scope :: scopes => (scope.get? name).or (find? name scopes)

/- The value of a name. -/
def get?
    (s : Scopes)
    (name : String) : Option Value :=
  find? name s.toList

/- The value of a name, which has to be declared. -/
def lookup
    (s : Scopes)
    (name : String) : Except EvalError Value :=
  match s.get? name with
  | some v => .ok v
  | none => .error (.undefinedVariable name)

/- Declare a name in the innermost scope. -/
def declare
    (s : Scopes)
    (name : String)
    (value : Value) : Except EvalError Scopes :=
  if s.top.has name then .error (.redeclaration name)
  else .ok { s with top := (name, value) :: s.top }

/- Set a name in the innermost of some scopes that has it. -/
def setIn?
    (name : String)
    (value : Value) :
    List Scope → Option (List Scope)
| [] => none
| scope :: scopes =>
    if scope.has name then some (scope.set name value :: scopes)
    else (setIn? name value scopes).map (scope :: ·)

/- Assign a declared name. -/
def assign
    (s : Scopes)
    (name : String)
    (value : Value) : Except EvalError Scopes :=
  if name ∈ constants then .error (.constantAssignment name)
  else if s.top.has name then
    .ok { s with top := s.top.set name value }
  else
    match setIn? name value s.outer with
    | some outer => .ok { s with outer }
    | none => .error (.undefinedVariable name)

------------------------------------------------------------
-- Depth
------------------------------------------------------------

/- Opening a scope adds one to the depth. -/
@[simp]
theorem depth_push (s : Scopes) :
    s.push.depth = s.depth + 1 := by
  simp [push, depth]

/- Closing scopes stops at the global one. -/
theorem depth_close
    (n : Nat)
    (s : Scopes) :
    (s.close n).depth = max 1 (s.depth - n) := by
  induction n generalizing s with
  | zero => simp [close, depth]
  | succ n ih =>
      rcases s with ⟨top, outer⟩
      cases outer with
      | nil => simp [close, depth]
      | cons scope outer =>
          rw [close, ih]
          simp [depth]

/- Scopes above a depth are closed, the global one never. -/
theorem depth_truncate
    (n : Nat)
    (s : Scopes) :
    (s.truncate n).depth = max 1 (min n s.depth) := by
  rw [truncate, depth_close]
  omega

end Scopes
end StackScript
