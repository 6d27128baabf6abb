import StackScript.Proofs.Machine.Shape
import StackScript.Proofs.Emission.Derivation

/-
  Hidden variables.

  An increment that keeps the old value holds it in a hidden
  variable, in a scope of its own. Programs whose names are
  all plain never name a hidden variable, so the hidden
  scope is invisible to them.

  Key definitions include:
    * `Expr.identifiers`, `Stmt.identifiers`
    * `Plain`
    * `Scopes.hide`

  Key theorems include:
    * `Scopes.lookup_hide`
    * `Scopes.assign_hide`
-/

namespace StackScript

------------------------------------------------------------
-- Plain Names
------------------------------------------------------------

mutual

/- The names in an expression. -/
def Expr.identifiers : Expr → List String
| .literal .. | .string .. => []
| .variable name _ => [name]
| .binary _ a b _ | .logical _ a b _ =>
    a.identifiers ++ b.identifiers
| .unary _ a _ | .post _ a _ => a.identifiers
| .assignment name value _ => name :: value.identifiers
| .call name arguments _ =>
    name :: Expr.identifiersAll arguments

/- The names in some expressions. -/
def Expr.identifiersAll : List Expr → List String
| [] => []
| e :: es => e.identifiers ++ Expr.identifiersAll es

end

/- The names in an optional expression. -/
def Expr.identifiersIn (e? : Option Expr) : List String :=
  e?.elim [] Expr.identifiers

mutual

/- The names in a statement. -/
def Stmt.identifiers : Stmt → List String
| .expr e => e.identifiers
| .declare name _ => [name]
| .define name value _ => name :: value.identifiers
| .function name parameters body _ =>
    name :: parameters ++ Stmt.identifiersAll body
| .ret argument _ => Expr.identifiersIn argument
| .ifThen condition body _ | .whileLoop condition body _ =>
    condition.identifiers ++ Stmt.identifiersAll body
| .ifElse condition body otherwise _ =>
    condition.identifiers ++ Stmt.identifiersAll body
      ++ Stmt.identifiersAll otherwise
| .forLoop initial condition update body _ =>
    initial.identifiers ++ Expr.identifiersIn condition
      ++ Expr.identifiersIn update ++ Stmt.identifiersAll body
| .breakLoop _ | .continueLoop _ => []

/- The names in some statements. -/
def Stmt.identifiersAll : List Stmt → List String
| [] => []
| s :: ss => s.identifiers ++ Stmt.identifiersAll ss

end

/- How every hidden name starts. -/
def hiddenStart : List Char :=
  "__$temp".toList

/- No name of some starts like a hidden one. -/
def Plain (names : List String) : Prop :=
  ∀ name ∈ names, ¬ hiddenStart <+: name.toList

instance (names : List String) : Decidable (Plain names) :=
  inferInstanceAs (Decidable (∀ name ∈ names, _))

theorem plain_append
    {names others : List String} :
    Plain (names ++ others) ↔ Plain names ∧ Plain others := by
  unfold Plain
  exact List.forall_mem_append

theorem plain_cons
    {name : String}
    {names : List String} :
    Plain (name :: names) ↔
      ¬ hiddenStart <+: name.toList ∧ Plain names := by
  unfold Plain
  exact List.forall_mem_cons

/- A hidden name starts like one. -/
theorem hiddenStart_hiddenName (number : Nat) :
    hiddenStart <+: (hiddenName number).toList := by
  refine ⟨(toString number).toList, ?_⟩
  unfold hiddenStart hiddenName
  rw [← String.toList_append]
  rfl

/- A plain name is no hidden one. -/
theorem ne_hiddenName
    {name : String}
    (h : ¬ hiddenStart <+: name.toList)
    (number : Nat) :
    name ≠ hiddenName number := by
  rintro rfl
  exact h (hiddenStart_hiddenName number)

/- A hidden name is no constant. -/
theorem hiddenName_not_mem_constants (number : Nat) :
    hiddenName number ∉ Scopes.constants := by
  have hPlain : Plain Scopes.constants := by decide
  intro h
  exact hPlain _ h (hiddenStart_hiddenName number)

------------------------------------------------------------
-- Hidden Scopes
------------------------------------------------------------

namespace Scopes

variable {s t : Scopes}
variable {number : Nat}
variable {name : String}
variable {v w : Value}

/- Scopes inside which a hidden variable stands. -/
def hide
    (s : Scopes)
    (number : Nat)
    (v : Value) : Scopes :=
  ⟨[(hiddenName number, v)], s.toList⟩

theorem over_hide : Over 1 s (s.hide number v) :=
  ⟨[[hiddenName number]], [], rfl, rfl⟩

/- A hidden scope is one that was opened. -/
theorem Over.hide
    {opened : Nat}
    {t : Scopes}
    (h : Over opened s t) :
    Over (opened + 1) s (t.hide number v) := by
  rcases h with ⟨inner, more, hLength, hShape⟩
  refine ⟨[hiddenName number] :: inner, more, by simp [hLength], ?_⟩
  have hHide :
      (t.hide number v).shape = [hiddenName number] :: t.shape := rfl
  rw [hHide, hShape, List.cons_append]

theorem All.hide
    {P : Routine → Prop}
    (hAll : s.All P)
    (hValue : v.All P) :
    (s.hide number v).All P := by
  rw [all_iff]
  refine ⟨?_, hAll⟩
  intro entry hEntry
  cases List.mem_singleton.1 hEntry
  exact hValue

/- The hidden variable is found first. -/
theorem lookup_hidden :
    (s.hide number v).lookup (hiddenName number) = .ok v := by
  simp [lookup, Scopes.get?, hide, toList, find?, Scope.get?]

/- The hidden scope has no other name. -/
theorem get?_hidden (hName : name ≠ hiddenName number) :
    Scope.get? [(hiddenName number, v)] name = none := by
  unfold Scope.get?
  rw [List.lookup_cons, beq_eq_false_iff_ne.2 hName]
  rfl

/- Any other name is found as if nothing were hidden. -/
theorem get?_hide (hName : name ≠ hiddenName number) :
    (s.hide number v).get? name = s.get? name := by
  change
    (Scope.get? [(hiddenName number, v)] name).or _ = _
  rw [get?_hidden hName]
  rfl

theorem lookup_hide (hName : name ≠ hiddenName number) :
    (s.hide number v).lookup name = s.lookup name := by
  unfold lookup
  rw [get?_hide hName]

/- The hidden variable is set in its own scope. -/
theorem assign_hidden :
    (s.hide number v).assign (hiddenName number) w =
      .ok (s.hide number w) := by
  unfold assign
  rw [if_neg (hiddenName_not_mem_constants number)]
  simp [hide, Scope.has, Scope.get?, Scope.set]

/- Any other name is assigned as if nothing were hidden. -/
theorem assign_hide (hName : name ≠ hiddenName number) :
    (s.hide number v).assign name w =
      (s.assign name w).map (·.hide number v) := by
  have hNone : Scope.has [(hiddenName number, v)] name = false := by
    unfold Scope.has
    rw [get?_hidden hName]
    rfl
  unfold assign
  by_cases hConstant : name ∈ constants
  · rw [if_pos hConstant, if_pos hConstant]
    rfl
  · rw [if_neg hConstant, if_neg hConstant, hide]
    dsimp only
    rw [hNone, toList, setIn?]
    by_cases hTop : s.top.has name = true
    · rw [if_pos hTop, if_pos hTop]
      rfl
    · rw [if_neg hTop, if_neg hTop]
      cases setIn? name w s.outer with
      | none => rfl
      | some outer => rfl

end Scopes
end StackScript
