import StackScript.Proofs.Twin.Machine

/-
  One stream on two machines.

  Twin machines step alike in one stream when the functions
  in it are related to themselves. A machine is its own twin
  under the relation that keeps functions with a property,
  so no step makes up functions without it.

  Key definitions include:
    * `Machine.All`
    * `Routine.Only`
    * `Code.SelfRelated`

  Key theorems include:
    * `Machine.pairs_step`
    * `Machine.All.step`
-/

namespace StackScript

------------------------------------------------------------
-- Functions of a Machine
------------------------------------------------------------

/- Every function in the scopes and operands has a property. -/
structure Machine.All
    (P : Routine → Prop)
    (m : Machine) : Prop where
  scopes : m.scopes.All P
  stack : ∀ v ∈ m.stack, v.All P

theorem Machine.All.mono
    {P Q : Routine → Prop}
    {m : Machine}
    (h : m.All P)
    (hWeaker : ∀ r, P r → Q r) :
    m.All Q :=
  ⟨h.scopes.mono hWeaker, fun v hv r hr =>
    hWeaker r (h.stack v hv r hr)⟩

/- A function is related to itself only, if it has a property. -/
def Routine.Only
    (P : Routine → Prop)
    (r r' : Routine) : Prop :=
  r' = r ∧ P r

theorem Routine.tagged_only (P : Routine → Prop) :
    Routine.Tagged (Routine.Only P) := by
  rintro r _ ⟨rfl, _⟩
  exact ⟨rfl, rfl, rfl⟩

variable {P : Routine → Prop}

/- What is its own twin has functions with the property only. -/
theorem Value.twin_only_iff {v v' : Value} :
    v.Twin (Routine.Only P) v' ↔ v' = v ∧ v.All P := by
  constructor
  · intro h
    cases h with
    | same h => exact ⟨rfl, fun r hr => absurd hr (h r)⟩
    | routine h =>
        rcases h with ⟨rfl, h⟩
        exact ⟨rfl, Value.all_routine h⟩
  · rintro ⟨rfl, h⟩
    cases v' with
    | routine r => exact .routine ⟨rfl, h r rfl⟩
    | _ => exact .same (by simp)

/- Lists whose members are related to themselves only. -/
theorem forall₂_only_iff
    {α : Type}
    {T : α → α → Prop}
    {A : α → Prop}
    (h : ∀ a b, T a b ↔ b = a ∧ A a)
    {xs ys : List α} :
    List.Forall₂ T xs ys ↔ ys = xs ∧ ∀ a ∈ xs, A a := by
  constructor
  · intro hRelated
    induction hRelated with
    | nil => exact ⟨rfl, by simp⟩
    | cons hFirst _ ih =>
        rcases (h _ _).1 hFirst with ⟨rfl, hHere⟩
        rcases ih with ⟨rfl, hOthers⟩
        exact ⟨rfl, List.forall_mem_cons.2 ⟨hHere, hOthers⟩⟩
  · rintro ⟨rfl, hAll⟩
    exact List.forall₂_same.2 fun a ha => (h a a).2 ⟨rfl, hAll a ha⟩

theorem Value.twins_only_iff {vs vs' : List Value} :
    Value.Twins (Routine.Only P) vs vs' ↔
      vs' = vs ∧ ∀ v ∈ vs, v.All P :=
  forall₂_only_iff fun _ _ => Value.twin_only_iff

theorem Scope.twin_only_iff {s s' : Scope} :
    Scope.Twin (Routine.Only P) s s' ↔ s' = s ∧ Scope.All P s := by
  apply forall₂_only_iff
  rintro ⟨n, v⟩ ⟨n', v'⟩
  constructor
  · rintro ⟨hName, hValue⟩
    rcases Value.twin_only_iff.1 hValue with ⟨hSame, hAll⟩
    cases hName
    cases hSame
    exact ⟨rfl, hAll⟩
  · rintro ⟨hSame, hAll⟩
    cases hSame
    exact ⟨rfl, Value.twin_only_iff.2 ⟨rfl, hAll⟩⟩

theorem Scopes.twin_only_iff {s s' : Scopes} :
    s.Twin (Routine.Only P) s' ↔ s' = s ∧ s.All P := by
  constructor
  · intro h
    rcases s with ⟨top, outer⟩
    rcases s' with ⟨top', outer'⟩
    rcases Scope.twin_only_iff.1 h.top with ⟨hTop, hFirst⟩
    have hOuter :=
      (forall₂_only_iff fun _ _ => Scope.twin_only_iff).1 h.outer
    cases hTop
    cases hOuter.1
    exact ⟨rfl, List.forall_mem_cons.2 ⟨hFirst, hOuter.2⟩⟩
  · rintro ⟨rfl, h⟩
    constructor
    · exact Scope.twin_only_iff.2 ⟨rfl, h _ List.mem_cons_self⟩
    · exact List.forall₂_same.2 fun scope hScope =>
        Scope.twin_only_iff.2
          ⟨rfl, h scope (List.mem_cons_of_mem _ hScope)⟩

namespace Machine

variable {code stream : Code}
variable {m after last : Machine}

theorem twin_only_iff {m' : Machine} :
    m.Twin (Routine.Only P) Eq 0 m' ↔ m' = m ∧ m.All P := by
  constructor
  · intro h
    rcases m with ⟨stack, scopes, pc, calls, maxCalls, host⟩
    rcases m' with ⟨stack', scopes', pc', calls', maxCalls', host'⟩
    rcases Value.twins_only_iff.1 h.stack with ⟨hStack, hValues⟩
    rcases Scopes.twin_only_iff.1 h.scopes with ⟨hScopes, hAll⟩
    cases hStack
    cases hScopes
    cases h.pc
    cases h.counts
    cases h.host
    exact ⟨rfl, hAll, hValues⟩
  · rintro ⟨rfl, h⟩
    exact ⟨Value.twins_only_iff.2 ⟨rfl, h.stack⟩,
      Scopes.twin_only_iff.2 ⟨rfl, h.scopes⟩, rfl, rfl, rfl⟩

end Machine

------------------------------------------------------------
-- The Same Code
------------------------------------------------------------

variable {R : Routine → Routine → Prop}
variable {L : Nat × Nat → Nat × Nat → Prop}
variable {F : Flow → Flow → Prop}

/- Every function in a stream is related to itself. -/
def Code.SelfRelated
    (R : Routine → Routine → Prop)
    (code : Code) : Prop :=
  ∀ r ∈ code.routines, R r r

/- Such a stream is its own twin. -/
theorem Code.SelfRelated.words
    {code : Code}
    (h : code.SelfRelated R) :
    ∀ w ∈ code, Word.Twin R 0 w w := by
  intro w hw
  cases w with
  | op c => exact .op c
  | const c =>
      apply Word.Twin.const
      cases c with
      | routine r => exact .routine (h r (Code.mem_routines.2 hw))
      | _ => exact .same (by simp [Value.ofConstant])
  | name text => exact .name text
  | target position => exact .target position
  | count n => exact .count n

/- What is fetched from a stream are words of it. -/
theorem Code.mem_of_fetch
    {code : Code}
    {pc : Nat}
    {i : Instruction}
    (h : code.fetch pc = .ok i) :
    ∀ w ∈ i.operands, w ∈ code := by
  unfold Code.fetch at h
  split at h
  · rename_i c rest hDrop
    split at h
    · cases h
    · rename_i op hOp
      dsimp only at h
      split at h
      · cases h
      · cases h
        intro w hw
        have hRest : w ∈ code.drop pc := by
          rw [hDrop]
          exact List.mem_cons_of_mem _ (List.mem_of_mem_take hw)
        exact List.mem_of_mem_drop hRest
  · cases h

/- What is fetched from such a stream is its own twin. -/
theorem Code.SelfRelated.agree_fetch
    {code : Code}
    (h : code.SelfRelated R)
    (pc : Nat) :
    Agree (fun _ _ => True) (Instruction.Twin R 0) (code.fetch pc)
      (code.fetch pc) := by
  cases hResult : code.fetch pc with
  | error e => exact trivial
  | ok i =>
      refine ⟨rfl, rfl, List.forall₂_same.2 fun w hw => ?_⟩
      exact h.words w (Code.mem_of_fetch hResult w hw)

namespace Machine

variable {code : Code}

/- Twin machines step alike in one stream. -/
theorem pairs_step
    (hTags : Routine.Tagged R)
    (hCode : code.SelfRelated R)
    (hNext : F .next .next)
    (hStop : ∀ ending, F (.stop ending) (.stop ending))
    (hCall :
      ∀ name arguments,
        Action.Pairs R L 0 F (call name arguments)
          (call name arguments)) :
    Action.Pairs R L 0 F (step code) (step code) := by
  apply pairs_get.bind
  intro m m' hTwin
  have hPlace : m'.pc = m.pc := hTwin.pc
  rw [hPlace]
  apply (Action.pairs_decoded (hCode.agree_fetch m.pc)).bind
  intro i i' hInstruction
  have hGoTo :
      Action.Pairs R L 0 (fun _ _ => True) (Action.goTo i.next)
        (Action.goTo (i.next + 0)) :=
    Action.pairs_goTo i.next
  rw [← hInstruction.next] at hGoTo
  apply hGoTo.bind
  intro _ _ _
  exact pairs_perform hTags (fun _ _ => Iff.rfl) hInstruction hNext hStop
    fun name arguments _ => hCall name arguments

/- Every function that a result leaves has a property. -/
def AllLeft (P : Routine → Prop) :
    EStateM.Result EvalError Machine Flow → Prop
| .ok (.enter r arguments) m =>
    m.All P ∧ P r ∧ ∀ v ∈ arguments, v.All P
| .ok _ m => m.All P
| .error _ m => m.All P

/- A step makes up no functions. -/
theorem All.step
    (h : m.All P)
    (hCode : ∀ r ∈ code.routines, P r) :
    AllLeft P (step code m) := by
  have hTags := Routine.tagged_only P
  have hSelf : code.SelfRelated (Routine.Only P) :=
    fun r hr => ⟨rfl, hCode r hr⟩
  have hCall (name : String) (arguments : Nat) :
      Action.Pairs (Routine.Only P) Eq 0
        (Flow.Twin (Routine.Only P)) (call name arguments)
        (call name arguments) :=
    pairs_call hTags (fun _ _ hSame => hSame.symm) name arguments
  have hStep :=
    pairs_step hTags hSelf .next .stop hCall m m
      (twin_only_iff.2 ⟨rfl, h⟩)
  cases hResult : Machine.step code m with
  | error e after =>
      rw [hResult] at hStep
      exact (twin_only_iff.1 hStep.2).2
  | ok flow after =>
      rw [hResult] at hStep
      rcases hStep with ⟨hFlow, hAfter⟩
      have hAll := (twin_only_iff.1 hAfter).2
      cases hFlow with
      | next => exact hAll
      | stop ending => exact hAll
      | enter hRoutine hArguments =>
          exact ⟨hAll, hRoutine.2,
            (Value.twins_only_iff.1 hArguments).2⟩

end Machine
end StackScript
