import Mathlib.Data.List.Infix
import Mathlib.Data.List.Induction
import StackScript.Proofs.Machine.Closing

/-
  What becomes of single bindings.

  A binding is found at a level, counted from the global
  scope, under a name. An operation on nested scopes changes
  one binding at most: an assignment the innermost one of
  its name, a declaration a new one in the innermost scope.
  So of what is done while a scope is open nothing but such
  assignments can be seen when it is closed.

  Key definitions include:
    * `Scopes.binding?`
    * `Scopes.Innermost`, `Scopes.Sets`
    * `Scopes.Step`
    * `Scopes.Assigned`

  Key theorems include:
    * `Scopes.sets_assign`, `Scopes.sets_declare`
    * `Scopes.kept_or_assigned_step`
    * `Scopes.kept_or_assigned`
    * `Scopes.frame_laws`
-/

namespace StackScript
namespace Scopes

variable {s t : Scopes}
variable {scope : Scope}
variable {scopes after : List Scope}
variable {level : Nat}
variable {name other : String}
variable {v : Value}

------------------------------------------------------------
-- Bindings
------------------------------------------------------------

/- The value of a name at a level, where scopes are listed from the inside. -/
def bindingIn?
    (scopes : List Scope)
    (level : Nat)
    (name : String) : Option Value :=
  scopes.reverse[level]?.bind (·.get? name)

/- The value of a name at a level; the global scope has level zero. -/
def binding?
    (s : Scopes)
    (level : Nat)
    (name : String) : Option Value :=
  bindingIn? s.toList level name

/- The innermost scope that has a name is the one at a level. -/
def Innermost
    (s : Scopes)
    (level : Nat)
    (name : String) : Prop :=
  (s.binding? level name).isSome = true ∧
    ∀ inner, level < inner → s.binding? inner name = none

/- One binding is set, and all else stays as it is. -/
structure Sets
    (s t : Scopes)
    (level : Nat)
    (name : String)
    (v : Value) : Prop where
  depth : t.depth = s.depth
  value : t.binding? level name = some v
  others :
    ∀ i other, i ≠ level ∨ other ≠ name →
      t.binding? i other = s.binding? i other

theorem length_toList (s : Scopes) : s.toList.length = s.depth :=
  rfl

theorem bindingIn?_of_le (h : scopes.length ≤ level) :
    bindingIn? scopes level name = none := by
  unfold bindingIn?
  rw [List.getElem?_eq_none (by simpa using h)]
  rfl

/- The scopes further out have the levels that they had alone. -/
theorem bindingIn?_cons :
    bindingIn? (scope :: scopes) level name =
      if level = scopes.length then scope.get? name
      else bindingIn? scopes level name := by
  rcases Nat.lt_trichotomy level scopes.length with
    hLess | rfl | hMore
  · rw [if_neg (Nat.ne_of_lt hLess)]
    unfold bindingIn?
    rw [List.reverse_cons, List.getElem?_append_left (by simpa using hLess)]
  · rw [if_pos rfl]
    unfold bindingIn?
    rw [List.reverse_cons, List.getElem?_append_right (by simp)]
    simp
  · rw [if_neg (Nat.ne_of_gt hMore), bindingIn?_of_le hMore,
      bindingIn?_of_le (Nat.le_of_lt hMore)]

/- Opening a scope adds no binding. -/
theorem binding?_push :
    s.push.binding? level name = s.binding? level name := by
  change bindingIn? ([] :: s.toList) level name = _
  rw [bindingIn?_cons]
  split
  · rename_i hLevel
    exact (bindingIn?_of_le (Nat.le_of_eq hLevel.symm)).symm
  · rfl

/- Closing scopes keeps the bindings of those that remain. -/
theorem binding?_close
    {n : Nat}
    (h : level < (s.close n).depth) :
    (s.close n).binding? level name = s.binding? level name := by
  induction n generalizing s with
  | zero => rfl
  | succ n ih =>
      rcases s with ⟨top, outer⟩
      cases outer with
      | nil => rfl
      | cons scope outer =>
          have hDepth := depth_close n ⟨scope, outer⟩
          have hInside : level < (close n ⟨scope, outer⟩).depth := h
          have hLevel : level ≠ (scope :: outer).length := by
            simp only [depth] at hDepth hInside
            simp only [List.length_cons]
            omega
          have hOuter :
              binding? ⟨top, scope :: outer⟩ level name =
                binding? ⟨scope, outer⟩ level name :=
            bindingIn?_cons.trans (if_neg hLevel)
          rw [hOuter]
          exact ih hInside

theorem binding?_truncate
    {n : Nat}
    (h : level < (s.truncate n).depth) :
    (s.truncate n).binding? level name = s.binding? level name :=
  binding?_close h

/- Closing the innermost scope leaves the others. -/
theorem pop_eq_ok (h : s.pop = .ok t) :
    s.toList = s.top :: t.toList := by
  rcases s with ⟨top, outer⟩
  cases outer with
  | nil => cases h
  | cons scope outer =>
      cases h
      rfl

theorem binding?_pop
    (hPop : s.pop = .ok t)
    (h : level < t.depth) :
    t.binding? level name = s.binding? level name := by
  unfold binding?
  rw [pop_eq_ok hPop, bindingIn?_cons, length_toList,
    if_neg (Nat.ne_of_lt h)]

------------------------------------------------------------
-- Declarations
------------------------------------------------------------

theorem get?_declared :
    Scope.get? ((name, v) :: scope) other =
      if other = name then some v else scope.get? other := by
  unfold Scope.get?
  rw [List.lookup_cons]
  by_cases hName : other = name
  · rw [if_pos hName, beq_iff_eq.2 hName]
  · rw [if_neg hName, beq_eq_false_iff_ne.2 hName]

/- A name that is declared was new in the innermost scope. -/
theorem sets_declare (h : s.declare name v = .ok t) :
    s.binding? (s.depth - 1) name = none ∧
      Sets s t (s.depth - 1) name v := by
  rcases s with ⟨top, outer⟩
  unfold declare at h
  split at h
  · cases h
  rename_i hNew
  cases h
  have hNone : top.get? name = none := by
    simpa [Scope.has] using hNew
  refine ⟨?_, rfl, ?_, ?_⟩
  · exact bindingIn?_cons.trans ((if_pos rfl).trans hNone)
  · exact bindingIn?_cons.trans
      ((if_pos rfl).trans (get?_declared.trans (if_pos rfl)))
  · intro i other hOther
    change bindingIn? (_ :: outer) i other =
      bindingIn? (top :: outer) i other
    rw [bindingIn?_cons, bindingIn?_cons]
    by_cases hLevel : i = outer.length
    · have hName : other ≠ name :=
        hOther.resolve_left (not_not.2 hLevel)
      rw [if_pos hLevel, if_pos hLevel, get?_declared, if_neg hName]
    · rw [if_neg hLevel, if_neg hLevel]

------------------------------------------------------------
-- Assignments
------------------------------------------------------------

/- What is assigned is set in the innermost scope that has it. -/
theorem setIn?_sets (h : setIn? name v scopes = some after) :
    ∃ level,
      level < scopes.length ∧
        (bindingIn? scopes level name).isSome = true ∧
        (∀ inner, level < inner → bindingIn? scopes inner name = none) ∧
        bindingIn? after level name = some v ∧
        ∀ i other, i ≠ level ∨ other ≠ name →
          bindingIn? after i other = bindingIn? scopes i other := by
  induction scopes generalizing after with
  | nil => cases h
  | cons scope scopes ih =>
      unfold setIn? at h
      split at h
      · rename_i hHas
        cases h
        refine ⟨scopes.length, by simp, ?_, ?_, ?_, ?_⟩
        · rw [bindingIn?_cons, if_pos rfl]
          exact hHas
        · intro inner hInner
          exact bindingIn?_of_le hInner
        · rw [bindingIn?_cons, if_pos rfl]
          exact Scope.get?_set hHas
        · intro i other hOther
          rw [bindingIn?_cons, bindingIn?_cons]
          by_cases hLevel : i = scopes.length
          · have hName : other ≠ name :=
              hOther.resolve_left (not_not.2 hLevel)
            rw [if_pos hLevel, if_pos hLevel,
              Scope.get?_set_of_ne hName]
          · rw [if_neg hLevel, if_neg hLevel]
      · rename_i hHas
        rcases Option.map_eq_some_iff.1 h with ⟨rest, hRest, rfl⟩
        rcases ih hRest with
          ⟨level, hLevel, hHeld, hInner, hValue, hOthers⟩
        have hOut : level ≠ scopes.length := Nat.ne_of_lt hLevel
        have hNone : scope.get? name = none := by
          simpa [Scope.has] using hHas
        refine ⟨level, Nat.lt_succ_of_lt hLevel, ?_, ?_, ?_, ?_⟩
        · rw [bindingIn?_cons, if_neg hOut]
          exact hHeld
        · intro inner hMore
          rw [bindingIn?_cons, hNone, hInner inner hMore, ite_self]
        · rw [bindingIn?_cons, length_of_setIn? hRest, if_neg hOut]
          exact hValue
        · intro i other hOther
          rw [bindingIn?_cons, bindingIn?_cons,
            length_of_setIn? hRest, hOthers i other hOther]

/- Assigning looks through all scopes alike. -/
theorem assign_eq_ok (h : s.assign name v = .ok t) :
    setIn? name v s.toList = some t.toList := by
  unfold assign at h
  unfold toList setIn?
  split at h
  · cases h
  split at h
  · rename_i hTop
    cases h
    rw [if_pos hTop]
  · rename_i hTop
    rw [if_neg hTop]
    split at h
    · rename_i outer hOuter
      cases h
      rw [hOuter]
      rfl
    · cases h

/- An assignment sets the innermost binding of its name. -/
theorem sets_assign (h : s.assign name v = .ok t) :
    ∃ level, s.Innermost level name ∧ Sets s t level name v := by
  have hSet := assign_eq_ok h
  rcases setIn?_sets hSet with
    ⟨level, _, hHeld, hInner, hValue, hOthers⟩
  exact ⟨level, ⟨hHeld, hInner⟩, length_of_setIn? hSet, hValue, hOthers⟩

/- A name has the value that was assigned. -/
theorem get?_assign (h : s.assign name v = .ok t) :
    t.get? name = some v :=
  find?_setIn? (assign_eq_ok h)

------------------------------------------------------------
-- Steps
------------------------------------------------------------

/- An operation on nested scopes. -/
inductive Step where
| push
| pop
| truncate (depth : Nat)
| declare (name : String) (value : Value)
| assign (name : String) (value : Value)

/- What an operation does to scopes, if it succeeds. -/
def Step.run : Step → Scopes → Except EvalError Scopes
| .push, s => .ok s.push
| .pop, s => s.pop
| .truncate depth, s => .ok (s.truncate depth)
| .declare name value, s => s.declare name value
| .assign name value, s => s.assign name value

/- The scopes after an operation, failed or not. -/
def step
    (s : Scopes)
    (o : Step) : Scopes :=
  match o.run s with
  | .ok t => t
  | .error _ => s

/- The scopes after some operations, whether they fail or not. -/
def steps
    (s : Scopes)
    (os : List Step) : Scopes :=
  os.foldl step s

theorem step_of_ok
    {o : Step}
    (h : o.run s = .ok t) :
    s.step o = t := by
  unfold step
  rw [h]

theorem step_of_error
    {o : Step}
    {e : EvalError}
    (h : o.run s = .error e) :
    s.step o = s := by
  unfold step
  rw [h]

theorem steps_concat
    (s : Scopes)
    (os : List Step)
    (o : Step) :
    s.steps (os ++ [o]) = (s.steps os).step o := by
  unfold steps
  rw [List.foldl_append, List.foldl_cons, List.foldl_nil]

/- The machine does the same with its scopes, and nothing else. -/
theorem onScopes_run
    (m : Machine)
    (o : Step) :
    Action.onScopes o.run m =
      match o.run m.scopes with
      | .ok t => .ok () { m with scopes := t }
      | .error e => .error e m := by
  change EStateM.bind (Action.lift (o.run m.scopes)) _ m = _
  cases o.run m.scopes with
  | ok t => rfl
  | error e => rfl

------------------------------------------------------------
-- While a Scope Is Open
------------------------------------------------------------

/-
  Among some operations a name was assigned a value while no
  scope inside a level had it.
-/
def Assigned
    (s : Scopes)
    (os : List Step)
    (level : Nat)
    (name : String)
    (v : Value) : Prop :=
  ∃ before behind,
    os = before ++ .assign name v :: behind ∧
      (∃ t, (s.steps before).assign name v = .ok t) ∧
      (s.steps before).Innermost level name

theorem Assigned.concat
    {os : List Step}
    (h : s.Assigned os level name v)
    (o : Step) :
    s.Assigned (os ++ [o]) level name v := by
  rcases h with ⟨before, behind, rfl, hRun, hInner⟩
  exact ⟨before, behind ++ [o], by simp, hRun, hInner⟩

/- A binding is the old one, or it was assigned since. -/
def KeptOrAssigned
    (s t : Scopes)
    (level : Nat)
    (name : String)
    (assigned : Value → Prop) : Prop :=
  (t.binding? level name).isSome = (s.binding? level name).isSome ∧
    (t.binding? level name = s.binding? level name ∨
      ∃ v, assigned v ∧ t.binding? level name = some v)

theorem kept
    {assigned : Value → Prop}
    (h : t.binding? level name = s.binding? level name) :
    s.KeptOrAssigned t level name assigned :=
  ⟨by rw [h], .inl h⟩

/-
  One operation keeps a binding outside of the innermost
  scope, or else assigns its name.
-/
theorem kept_or_assigned_step
    (o : Step)
    (hBefore : level + 1 < s.depth)
    (hAfter : level < (s.step o).depth) :
    s.KeptOrAssigned (s.step o) level name fun v =>
      o = .assign name v ∧
        (∃ t, s.assign name v = .ok t) ∧
        s.Innermost level name := by
  cases hRun : o.run s with
  | error e =>
      rw [step_of_error hRun]
      exact kept rfl
  | ok t =>
      rw [step_of_ok hRun] at hAfter ⊢
      cases o with
      | push =>
          cases hRun
          exact kept binding?_push
      | pop => exact kept (binding?_pop hRun hAfter)
      | truncate depth =>
          cases hRun
          exact kept (binding?_truncate hAfter)
      | declare declared w =>
          have hSets := (sets_declare hRun).2
          exact kept (hSets.others level name (.inl (by omega)))
      | assign assigned w =>
          rcases sets_assign hRun with ⟨at', hInner, hSets⟩
          by_cases hSame : level = at' ∧ name = assigned
          · rcases hSame with ⟨rfl, rfl⟩
            refine ⟨?_, .inr ⟨w, ⟨rfl, ⟨t, hRun⟩, hInner⟩, hSets.value⟩⟩
            rw [hSets.value, hInner.1]
            rfl
          · exact kept
              (hSets.others level name (not_and_or.1 hSame))

/-
  The same for all that is done while a scope inside the
  level stays open, by induction on the operations, where
  the last assignment counts.
-/
theorem kept_or_assigned
    {os : List Step}
    (hOpen : ∀ before, before <+: os → level + 1 < (s.steps before).depth) :
    s.KeptOrAssigned (s.steps os) level name
      (s.Assigned os level name) := by
  induction os using List.reverseRecOn with
  | nil => exact kept rfl
  | append_singleton os o ih =>
      have hFirst :=
        ih fun before hPrefix =>
          hOpen before (hPrefix.trans (List.prefix_append os [o]))
      have hBefore := hOpen os (List.prefix_append os [o])
      have hAfter := hOpen (os ++ [o]) List.prefix_rfl
      rw [steps_concat] at hAfter ⊢
      have hStep :
          (s.steps os).KeptOrAssigned ((s.steps os).step o) level name _ :=
        kept_or_assigned_step o hBefore (by omega)
      rcases hStep with
        ⟨hNames, hSame | ⟨v, ⟨rfl, hRun, hInner⟩, hValue⟩⟩
      · rcases hFirst with ⟨hOld, hKept | ⟨v, hAssigned, hValue⟩⟩
        · exact kept (hSame.trans hKept)
        · exact ⟨hNames.trans hOld,
            .inr ⟨v, hAssigned.concat o, hSame.trans hValue⟩⟩
      · exact ⟨hNames.trans hFirst.1,
          .inr ⟨v, ⟨os, [], rfl, hRun, hInner⟩, hValue⟩⟩

/-
  An operation that closes a scope on some others: closing
  one, if it is the innermost, or closing all down to them.
-/
def Closes
    (s t : Scopes)
    (o : Step) : Prop :=
  o = .pop ∧ t.depth = s.depth + 1 ∨ o = .truncate s.depth

theorem Closes.depth
    {o : Step}
    (h : s.Closes t o)
    (hOpen : s.depth < t.depth) :
    (t.step o).depth = s.depth := by
  have hPositive : 0 < s.depth := Nat.succ_pos _
  rcases h with ⟨rfl, hInner⟩ | rfl
  · rcases t with ⟨top, outer⟩
    cases outer with
    | nil =>
        simp only [Scopes.depth, List.length_nil] at hOpen
        omega
    | cons scope outer => exact Nat.succ.inj hInner
  · change (t.truncate s.depth).depth = s.depth
    rw [depth_truncate]
    omega

/- Closing keeps what is bound outside. -/
theorem Closes.binding?_eq
    {o : Step}
    (h : s.Closes t o)
    (hOpen : s.depth < t.depth)
    (hLevel : level < s.depth) :
    (t.step o).binding? level name = t.binding? level name := by
  have hDepth := h.depth hOpen
  have hAfter : level < (t.step o).depth := by omega
  rcases h with ⟨rfl, hInner⟩ | rfl
  · cases hRun : t.pop with
    | error e =>
        rw [step_of_error (o := .pop) hRun]
    | ok u =>
        rw [step_of_ok (o := .pop) hRun] at hAfter ⊢
        exact binding?_pop hRun hAfter
  · exact binding?_truncate hAfter

------------------------------------------------------------
-- The Laws
------------------------------------------------------------

/-
  Whatever scopes there are. An operation that fails changes
  nothing, neither them nor the machine that has them. An
  assignment sets the innermost binding of its name, and a
  declaration a new one in the innermost scope, and all else
  stays as it is. Hence of all that is done between opening
  a scope and closing it the scopes around it keep their
  names, and a binding that is not the old one has the value
  that was last assigned to its name while no scope inside
  had it.
-/
theorem frame_laws (s : Scopes) :
    (∀ o e, Step.run o s = .error e →
      s.step o = s ∧
        ∀ m : Machine, m.scopes = s →
          Action.onScopes (Step.run o) m = .error e m) ∧
    (∀ name v t, s.assign name v = .ok t →
      t.get? name = some v ∧
        ∃ level, s.Innermost level name ∧ Sets s t level name v) ∧
    (∀ name v t, s.declare name v = .ok t →
      s.binding? (s.depth - 1) name = none ∧
        Sets s t (s.depth - 1) name v) ∧
    ∀ os o,
      (∀ before, before <+: os →
        s.depth < (s.push.steps before).depth) →
      s.Closes (s.push.steps os) o →
      ((s.push.steps os).step o).depth = s.depth ∧
        ∀ level < s.depth, ∀ name,
          s.KeptOrAssigned ((s.push.steps os).step o) level name
            (s.push.Assigned os level name) := by
  refine ⟨?_, ?_, ?_, ?_⟩
  · intro o e hRun
    refine ⟨step_of_error hRun, ?_⟩
    rintro m rfl
    rw [onScopes_run, hRun]
  · intro name v t hRun
    exact ⟨get?_assign hRun, sets_assign hRun⟩
  · intro name v t hRun
    exact sets_declare hRun
  · intro os o hOpen hCloses
    have hEnd := hOpen os List.prefix_rfl
    refine ⟨hCloses.depth hEnd, ?_⟩
    intro level hLevel name
    have hInside :
        s.push.KeptOrAssigned (s.push.steps os) level name
          (s.push.Assigned os level name) := by
      apply kept_or_assigned
      intro before hPrefix
      have hBefore := hOpen before hPrefix
      omega
    unfold KeptOrAssigned at hInside ⊢
    rw [binding?_push] at hInside
    rw [hCloses.binding?_eq hEnd hLevel]
    exact hInside

/- The global scope with one variable. -/
def counting : Scopes :=
  ⟨("n", .text "a") :: initial.top, []⟩

/-
  Assignments before and behind a shadowing declaration, of
  which one is refused.
-/
def shadowing : List Step :=
  [.assign "n" (.text "b"), .declare "n" .null,
    .assign "n" (.text "c"), .push, .assign "true" .null,
    .assign "n" (.text "d")]

/-
  What is assigned before the name is declared inside can be
  seen outside, and nothing that is assigned behind it.
-/
theorem frame_laws_shadowing :
    (counting.push.steps shadowing).depth = 3 ∧
      (∀ before, before <+: shadowing →
        counting.depth < (counting.push.steps before).depth) ∧
      (((counting.push.steps shadowing).step
          (.truncate counting.depth)).binding? 0 "n" =
        some (.text "b")) ∧
      counting.KeptOrAssigned
        ((counting.push.steps shadowing).step (.truncate counting.depth))
        0 "n" (counting.push.Assigned shadowing 0 "n") := by
  have hOpen :
      ∀ before, before <+: shadowing →
        counting.depth < (counting.push.steps before).depth := by
    intro before hPrefix
    rw [← List.mem_inits] at hPrefix
    revert before
    decide
  have hLaw :=
    (frame_laws counting).2.2.2 shadowing (.truncate counting.depth) hOpen
      (.inr rfl)
  exact ⟨by decide, hOpen, rfl, hLaw.2 0 (by decide) "n"⟩

end Scopes
end StackScript
