import StackScript.Machine.Run

/-
  What happens to scopes in a run.

  Names are only ever added to the innermost scope, and
  values only ever come from other values, so the names and
  the function values of nested scopes can be followed
  through every operation on them.

  Key definitions include:
    * `Value.All`, `Scopes.All`
    * `Scopes.Over`

  Key theorems include:
    * `Scopes.Over.trans`
    * `Scopes.Over.of_push`
    * `Scopes.Over.close`
    * `Scopes.Over.truncate`
-/

namespace StackScript

------------------------------------------------------------
-- Function Values
------------------------------------------------------------

/- The value is no function unless one with a property. -/
def Value.All
    (P : Routine → Prop)
    (v : Value) : Prop :=
  ∀ r, v = .routine r → P r

/- Every function in a scope has a property. -/
def Scope.All
    (P : Routine → Prop)
    (s : Scope) : Prop :=
  ∀ entry ∈ s, entry.2.All P

/- Every function in nested scopes has a property. -/
def Scopes.All
    (P : Routine → Prop)
    (s : Scopes) : Prop :=
  ∀ scope ∈ s.toList, Scope.All P scope

/- The names of a scope. -/
def Scope.names (s : Scope) : List String :=
  s.map Prod.fst

/- The names of nested scopes, from the inside. -/
def Scopes.shape (s : Scopes) : List (List String) :=
  s.toList.map Scope.names

/-
  Scopes that began as others: the same but for the values,
  for more names in the innermost, and for a number of
  scopes opened inside.
-/
def Scopes.Over
    (opened : Nat)
    (s t : Scopes) : Prop :=
  ∃ inner more,
    inner.length = opened ∧
      t.shape =
        inner ++ (more ++ s.top.names) :: s.outer.map Scope.names

variable {P : Routine → Prop}

theorem Value.all_routine
    {r : Routine}
    (h : P r) :
    (Value.routine r).All P := by
  rintro r' hSame
  rw [← Value.routine.inj hSame]
  exact h

------------------------------------------------------------
-- One Scope
------------------------------------------------------------

namespace Scope

variable {s : Scope}
variable {name : String}
variable {v : Value}

/- A value that is found is one of the scope. -/
theorem All.get?
    (hAll : Scope.All P s)
    (h : s.get? name = some v) :
    v.All P := by
  induction s with
  | nil => cases h
  | cons entry s ih =>
      rcases entry with ⟨n, w⟩
      unfold Scope.get? at h
      rw [List.lookup_cons] at h
      split at h
      · cases h
        exact hAll (n, v) List.mem_cons_self
      · apply ih _ h
        intro e he
        exact hAll e (List.mem_cons_of_mem _ he)

/- Setting a name keeps the names. -/
@[simp]
theorem names_set :
    (Scope.set name v s).names = s.names := by
  induction s with
  | nil => rfl
  | cons entry s ih =>
      rcases entry with ⟨n, w⟩
      unfold Scope.set
      split
      · rfl
      · unfold Scope.names at ih ⊢
        rw [List.map_cons, List.map_cons, ih]

/- Setting a name adds no value but the new one. -/
theorem All.set
    (hAll : Scope.All P s)
    (hValue : v.All P) :
    Scope.All P (Scope.set name v s) := by
  induction s with
  | nil => exact hAll
  | cons entry s ih =>
      rcases entry with ⟨n, w⟩
      have hRest : Scope.All P s :=
        fun e he => hAll e (List.mem_cons_of_mem _ he)
      unfold Scope.set
      split
      · intro e he
        rcases List.mem_cons.1 he with rfl | he
        · exact hValue
        · exact hRest e he
      · intro e he
        rcases List.mem_cons.1 he with rfl | he
        · exact hAll _ List.mem_cons_self
        · exact ih hRest e he

/- A name that the scope has is found after it is set. -/
theorem get?_set (h : s.has name = true) :
    Scope.get? (Scope.set name v s) name = some v := by
  induction s with
  | nil => cases h
  | cons entry s ih =>
      rcases entry with ⟨n, w⟩
      unfold Scope.set
      unfold Scope.has Scope.get? at h
      unfold Scope.get? at ih ⊢
      by_cases hName : n = name
      · rw [if_pos hName, List.lookup_cons, hName, beq_self_eq_true]
      · have hOther : (name == n) = false :=
          beq_eq_false_iff_ne.2 (Ne.symm hName)
        rw [List.lookup_cons, hOther] at h
        rw [if_neg hName, List.lookup_cons, hOther]
        exact ih h

end Scope

------------------------------------------------------------
-- Values of Nested Scopes
------------------------------------------------------------

namespace Scopes

variable {s t u : Scopes}
variable {name : String}
variable {v : Value}
variable {opened : Nat}

/- Being of the innermost scope and of those around it. -/
theorem all_iff :
    s.All P ↔
      Scope.All P s.top ∧ ∀ scope ∈ s.outer, Scope.All P scope := by
  unfold All toList
  rw [List.forall_mem_cons]

/- The first scopes hold constants alone. -/
theorem all_initial : initial.All P := by
  intro scope hScope entry hEntry r hValue
  cases List.mem_singleton.1 hScope
  simp only [initial, List.mem_cons, List.not_mem_nil, or_false]
    at hEntry
  rcases hEntry with rfl | rfl | rfl <;> cases hValue

/- A weaker property holds, too. -/
theorem All.mono
    {Q : Routine → Prop}
    (h : s.All P)
    (hWeaker : ∀ r, P r → Q r) :
    s.All Q := by
  intro scope hScope entry hEntry r hValue
  exact hWeaker r (h scope hScope entry hEntry r hValue)

theorem All.push (h : s.All P) :
    s.push.All P := by
  intro scope hScope
  rcases List.mem_cons.1 hScope with rfl | hScope
  · intro entry hEntry
    cases hEntry
  · exact h scope hScope

theorem All.close
    {n : Nat}
    (h : s.All P) :
    (s.close n).All P := by
  induction n generalizing s with
  | zero => exact h
  | succ n ih =>
      rcases s with ⟨top, outer⟩
      cases outer with
      | nil => exact h
      | cons scope outer =>
          apply ih
          intro inner hInner
          exact h inner (List.mem_cons_of_mem _ hInner)

/- A value that is found is one of the scopes. -/
theorem All.get?
    (hAll : s.All P)
    (h : s.get? name = some v) :
    v.All P := by
  have hFind :
      ∀ scopes : List Scope,
        (∀ scope ∈ scopes, Scope.All P scope) →
        find? name scopes = some v → v.All P := by
    intro scopes hScopes hFound
    induction scopes with
    | nil => cases hFound
    | cons scope scopes ih =>
        unfold find? at hFound
        rcases Option.or_eq_some_iff.1 hFound with hHere | hThere
        · exact (hScopes scope List.mem_cons_self).get? hHere
        · apply ih _ hThere.2
          intro inner hInner
          exact hScopes inner (List.mem_cons_of_mem _ hInner)
  exact hFind s.toList hAll h

theorem All.lookup
    (hAll : s.All P)
    (h : s.lookup name = .ok v) :
    v.All P := by
  unfold Scopes.lookup at h
  cases hGet : s.get? name with
  | none =>
      rw [hGet] at h
      cases h
  | some w =>
      rw [hGet] at h
      cases h
      exact hAll.get? hGet

/- What a declaration that succeeds does. -/
theorem declare_eq_ok
    (h : s.declare name v = .ok t) :
    t = { s with top := (name, v) :: s.top } := by
  unfold declare at h
  split at h
  · cases h
  · cases h
    rfl

theorem All.declare
    (hAll : s.All P)
    (hValue : v.All P)
    (h : s.declare name v = .ok t) :
    t.All P := by
  rw [declare_eq_ok h]
  rw [all_iff] at hAll ⊢
  refine ⟨?_, hAll.2⟩
  intro entry hEntry
  rcases List.mem_cons.1 hEntry with rfl | hEntry
  · exact hValue
  · exact hAll.1 entry hEntry

/- Setting a name in outer scopes keeps names and values. -/
theorem setIn?_keeps
    {scopes after : List Scope}
    (hScopes : ∀ scope ∈ scopes, Scope.All P scope)
    (hValue : v.All P)
    (h : setIn? name v scopes = some after) :
    (∀ scope ∈ after, Scope.All P scope) ∧
      after.map Scope.names = scopes.map Scope.names := by
  induction scopes generalizing after with
  | nil => cases h
  | cons scope scopes ih =>
      have hFirst := hScopes scope List.mem_cons_self
      have hOthers : ∀ inner ∈ scopes, Scope.All P inner :=
        fun inner hInner =>
          hScopes inner (List.mem_cons_of_mem _ hInner)
      unfold setIn? at h
      split at h
      · cases h
        refine ⟨?_, by simp⟩
        intro inner hInner
        rcases List.mem_cons.1 hInner with rfl | hInner
        · exact hFirst.set hValue
        · exact hOthers inner hInner
      · rcases Option.map_eq_some_iff.1 h with ⟨rest, hRest, rfl⟩
        rcases ih hOthers hRest with ⟨hAll, hNames⟩
        refine ⟨?_, by simp [hNames]⟩
        intro inner hInner
        rcases List.mem_cons.1 hInner with rfl | hInner
        · exact hFirst
        · exact hAll inner hInner

/- What an assignment that succeeds keeps. -/
theorem assign_keeps
    (hAll : s.All P)
    (hValue : v.All P)
    (h : s.assign name v = .ok t) :
    t.All P ∧ t.shape = s.shape := by
  rw [all_iff] at hAll
  unfold assign at h
  split at h
  · cases h
  · split at h
    · cases h
      refine ⟨all_iff.2 ⟨hAll.1.set hValue, hAll.2⟩, ?_⟩
      simp [shape, toList]
    · split at h
      · rename_i outer hOuter
        cases h
        rcases setIn?_keeps hAll.2 hValue hOuter with
          ⟨hAfter, hNames⟩
        refine ⟨all_iff.2 ⟨hAll.1, hAfter⟩, ?_⟩
        simp [shape, toList, hNames]
      · cases h

/- A name is found where it was set. -/
theorem find?_setIn?
    {scopes after : List Scope}
    (h : setIn? name v scopes = some after) :
    find? name after = some v := by
  induction scopes generalizing after with
  | nil => cases h
  | cons scope scopes ih =>
      unfold setIn? at h
      split at h
      · rename_i hHas
        cases h
        unfold find?
        rw [Scope.get?_set hHas]
        rfl
      · rename_i hHas
        rcases Option.map_eq_some_iff.1 h with ⟨rest, hRest, rfl⟩
        have hNone : scope.get? name = none := by
          simpa [Scope.has] using hHas
        unfold find?
        rw [hNone, ih hRest]
        rfl

/- A variable has the value that was assigned. -/
theorem lookup_assign (h : s.assign name v = .ok t) :
    t.lookup name = .ok v := by
  have hGet : t.get? name = some v := by
    unfold assign at h
    split at h
    · cases h
    · split at h
      · rename_i hTop
        cases h
        change (Scope.get? _ name).or _ = _
        rw [Scope.get?_set hTop]
        rfl
      · rename_i hTop
        have hNone : s.top.get? name = none := by
          simpa [Scope.has] using hTop
        split at h
        · rename_i outer hOuter
          cases h
          change (s.top.get? name).or (find? name outer) = _
          rw [hNone, find?_setIn? hOuter]
          rfl
        · cases h
  unfold lookup
  rw [hGet]

------------------------------------------------------------
-- Names of Nested Scopes
------------------------------------------------------------

theorem length_shape :
    s.shape.length = s.depth := by
  simp [shape, toList, depth]

/- Closing scopes drops their names. -/
theorem shape_close
    {n : Nat}
    (h : n < s.depth) :
    (s.close n).shape = s.shape.drop n := by
  induction n generalizing s with
  | zero => rfl
  | succ n ih =>
      rcases s with ⟨top, outer⟩
      cases outer with
      | nil => simp [depth] at h
      | cons scope outer =>
          unfold close
          rw [ih (by simpa [depth] using h)]
          rfl

/- Scopes of the same names began as one another. -/
theorem over_of_shape_eq
    (h : t.shape = s.shape) :
    Over 0 s t :=
  ⟨[], [], rfl, h⟩

@[refl]
theorem Over.refl : Over 0 s s :=
  over_of_shape_eq rfl

theorem Over.depth (h : Over opened s t) :
    t.depth = s.depth + opened := by
  rcases h with ⟨inner, more, hLength, hShape⟩
  have hDepth := congrArg List.length hShape
  rw [length_shape] at hDepth
  simp only [List.length_append, List.length_cons,
    List.length_map, hLength] at hDepth
  rw [hDepth]
  unfold Scopes.depth
  omega

theorem Over.trans
    (hFirst : Over 0 s t)
    (hThen : Over opened t u) :
    Over opened s u := by
  rcases hFirst with ⟨inner, more, hNone, hShape⟩
  rcases hThen with ⟨inside, further, hLength, hAfter⟩
  cases List.length_eq_zero_iff.1 hNone
  injection hShape with hTop hOuter
  refine ⟨inside, further ++ more, hLength, ?_⟩
  rw [hAfter, hTop, hOuter, List.append_assoc]

/- What begins in a new scope begins one scope further out. -/
theorem Over.of_push (h : Over opened s.push t) :
    Over (opened + 1) s t := by
  rcases h with ⟨inner, more, hLength, hShape⟩
  refine ⟨inner ++ [more], [], by simp [hLength], ?_⟩
  rw [hShape]
  simp [push, Scope.names]

/- Opened scopes can be closed. -/
theorem Over.close
    {n : Nat}
    (h : Over opened s t)
    (hLe : n ≤ opened) :
    Over (opened - n) s (t.close n) := by
  have hDepth := h.depth
  rcases h with ⟨inner, more, hLength, hShape⟩
  refine ⟨inner.drop n, more, by simp [hLength], ?_⟩
  have hPos : 0 < s.depth := by simp [Scopes.depth]
  rw [shape_close (by omega), hShape,
    List.drop_append_of_le_length (by omega)]

/- Closing what is above the old depth leaves nothing opened. -/
theorem Over.truncate (h : Over opened s t) :
    Over 0 s (t.truncate s.depth) := by
  have hDepth := h.depth
  have hClose := h.close (n := t.depth - s.depth) (by omega)
  rw [show opened - (t.depth - s.depth) = 0 by omega] at hClose
  exact hClose

theorem over_declare (h : s.declare name v = .ok t) :
    Over 0 s t := by
  rw [declare_eq_ok h]
  exact ⟨[], [name], rfl, rfl⟩

/- Declaring parameters keeps to the innermost scope. -/
theorem bindParameters_keeps
    {parameters : List String}
    {arguments : List Value}
    (hAll : s.All P)
    (hArguments : ∀ v ∈ arguments, v.All P)
    (h : Machine.bindParameters parameters arguments s = .ok t) :
    t.All P ∧ Over 0 s t := by
  induction parameters generalizing s arguments with
  | nil =>
      cases h
      exact ⟨hAll, .refl⟩
  | cons p ps ih =>
      unfold Machine.bindParameters at h
      cases hDeclare :
          s.declare p (arguments.head?.getD .undefined) with
      | error e =>
          rw [hDeclare] at h
          cases h
      | ok s' =>
          rw [hDeclare] at h
          have hValue :
              (arguments.head?.getD .undefined).All P := by
            cases arguments with
            | nil =>
                intro r hr
                cases hr
            | cons v vs => exact hArguments v List.mem_cons_self
          rcases ih (hAll.declare hValue hDeclare)
              (fun v hv => hArguments v (List.mem_of_mem_tail hv)) h with
            ⟨hAfter, hOver⟩
          exact ⟨hAfter, (over_declare hDeclare).trans hOver⟩

end Scopes
end StackScript
