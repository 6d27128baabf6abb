import StackScript.Proofs.Machine.Reuse

/-
  The scopes that a call leaves.

  Behind a call the scopes above those of the caller are
  closed, whatever the code of the function is, and as many
  calls are open as before. But scopes are only closed there
  and never opened: code that closes more scopes than it has
  opened closes those of its caller, too. In no other way
  does a call leave fewer scopes than there were.

  Key definitions include:
    * `Machine.Underflows`

  Key theorems include:
    * `Machine.depth_run`
    * `Machine.depth_call`
-/

namespace StackScript
namespace Scopes

variable {s t : Scopes}
variable {op : Op}

theorem length_of_setIn?
    {name : String}
    {v : Value}
    {scopes after : List Scope}
    (h : setIn? name v scopes = some after) :
    after.length = scopes.length := by
  induction scopes generalizing after with
  | nil => cases h
  | cons scope scopes ih =>
      unfold setIn? at h
      split at h
      · cases h
        rfl
      · rcases Option.map_eq_some_iff.1 h with ⟨rest, hRest, rfl⟩
        rw [List.length_cons, List.length_cons, ih hRest]

/- Only `POPSCP` leaves fewer scopes, and one at a time. -/
theorem Change.depth (h : s.Change op t) :
    s.depth ≤ t.depth ∨ op = .popScope ∧ s.depth = t.depth + 1 := by
  rcases s with ⟨top, outer⟩
  cases h with
  | same => exact .inl (Nat.le_refl _)
  | push => exact .inl (Nat.le_succ _)
  | pop hPop =>
      cases outer with
      | nil => cases hPop
      | cons scope outer =>
          cases hPop
          exact .inr ⟨rfl, rfl⟩
  | declare hDeclare =>
      unfold Scopes.declare at hDeclare
      split at hDeclare
      · cases hDeclare
      · cases hDeclare
        exact .inl (Nat.le_refl _)
  | assign hAssign =>
      unfold Scopes.assign at hAssign
      split at hAssign
      · cases hAssign
      · split at hAssign
        · cases hAssign
          exact .inl (Nat.le_refl _)
        · split at hAssign
          · rename_i after hOuter
            cases hAssign
            unfold Scopes.depth
            rw [length_of_setIn? hOuter]
            exact .inl (Nat.le_refl _)
          · cases hAssign

/- Parameters are declared in the scope that is there. -/
theorem depth_bindParameters
    {parameters : List String}
    {arguments : List Value}
    (h : Machine.bindParameters parameters arguments s = .ok t) :
    t.depth = s.depth := by
  induction parameters generalizing arguments s with
  | nil =>
      cases h
      rfl
  | cons p ps ih =>
      unfold Machine.bindParameters at h
      cases hDeclare :
          s.declare p (arguments.head?.getD .undefined) with
      | error e =>
          rw [hDeclare] at h
          cases h
      | ok middle =>
          rw [hDeclare] at h
          have hDepth := (over_declare hDeclare).depth
          rw [ih h, hDepth]
          rfl

end Scopes

namespace Machine

variable {code stream : Code}
variable {m middle after left : Machine}
variable {bound depth : Nat}
variable {r : Routine}
variable {arguments : List Value}
variable {scopes : Scopes}

------------------------------------------------------------
-- Scopes That Are Not One's Own
------------------------------------------------------------

/-
  A run comes to a `POPSCP` while there are just as many
  scopes as it must leave.
-/
def Underflows
    (depth : Nat)
    (code : Code)
    (m : Machine) : Prop :=
  ∃ stream last i,
    Visits code m stream last ∧ stream.fetch last.pc = .ok i ∧
      i.op = .popScope ∧ last.scopes.depth = depth

theorem Underflows.past
    (hPass : pass bound code m = .goesOn after)
    (h : Underflows depth code after) :
    Underflows depth code m := by
  rcases h with ⟨stream, last, i, hVisits, hAt⟩
  exact ⟨stream, last, i, .past hPass hVisits, hAt⟩

theorem Underflows.inside
    (hStep : step code m = .ok (.enter r arguments) middle)
    (hBind :
      bindParameters r.parameters arguments middle.scopes.push =
        .ok scopes)
    (h : Underflows depth r.code (middle.entered scopes)) :
    Underflows depth code m := by
  rcases h with ⟨stream, last, i, hVisits, hAt⟩
  exact ⟨stream, last, i, .inside hStep hBind hVisits, hAt⟩

/- A function starts with a scope of its own. -/
theorem depth_entered
    (hBind :
      bindParameters r.parameters arguments middle.scopes.push =
        .ok scopes) :
    (middle.entered scopes).scopes.depth =
      middle.scopes.depth + 1 := by
  change scopes.depth = _
  rw [Scopes.depth_bindParameters hBind, Scopes.depth_push]

/- A caller has the scopes that are left, but no more than it had. -/
theorem depth_resumed :
    (middle.resumed left).scopes.depth =
      min middle.scopes.depth left.scopes.depth := by
  change (left.scopes.truncate middle.scopes.depth).depth = _
  rw [Scopes.depth_truncate]
  unfold Scopes.depth
  omega

@[simp]
theorem scopes_withResult (ending : Ending) :
    (m.withResult ending).scopes = m.scopes := by
  cases ending <;> rfl

theorem depth_step
    (hOwn : ¬ Underflows depth code m)
    (hDepth : depth ≤ m.scopes.depth) :
    StackScript.Leaving (fun after => depth ≤ after.scopes.depth)
      (step code m) := by
  apply (moves_step code m).mono
  intro after hMoves
  rcases hMoves.scopes with hSame | ⟨i, hFetch, hChange⟩
  · rw [hSame]
    exact hDepth
  · rcases hChange.depth with hMore | ⟨hOp, hOne⟩
    · exact Nat.le_trans hDepth hMore
    · have hOther : m.scopes.depth ≠ depth := by
        intro hHere
        exact hOwn ⟨code, m, i, .here, hFetch, hOp, hHere⟩
      omega

theorem depth_pass
    (hRuns :
      ∀ (r : Routine) m, ¬ Underflows depth r.code m →
        depth ≤ m.scopes.depth →
          (run bound r.code m).Leaving fun after =>
            depth ≤ after.scopes.depth)
    (hOwn : ¬ Underflows depth code m)
    (hDepth : depth ≤ m.scopes.depth) :
    (pass bound code m).Leaving fun after =>
      depth ≤ after.scopes.depth := by
  have hStep := depth_step hOwn hDepth
  apply leaving_pass hStep
  intro r arguments middle scopes hEnter hBind
  rw [hEnter] at hStep
  have hMiddle : depth ≤ middle.scopes.depth := hStep
  have hEntered : depth ≤ (middle.entered scopes).scopes.depth := by
    rw [depth_entered hBind]
    omega
  have hInside : ¬ Underflows depth r.code (middle.entered scopes) :=
    fun h => hOwn (h.inside hEnter hBind)
  apply (hRuns r _ hInside hEntered).mono
  intro left hLeft ending
  rw [depth_resumed, scopes_withResult]
  exact Nat.le_min.2 ⟨hMiddle, hLeft⟩

/- A run that closes only its own scopes leaves the others. -/
theorem depth_run
    (hOwn : ¬ Underflows depth code m)
    (hDepth : depth ≤ m.scopes.depth)
    (bound : Nat) :
    (run bound code m).Leaving fun after =>
      depth ≤ after.scopes.depth := by
  induction bound generalizing code m with
  | zero => exact trivial
  | succ bound ih =>
      apply leaving_run_succ hDepth
      · exact depth_pass (fun r m hOwn hDepth => ih hOwn hDepth) hOwn
          hDepth
      · intro after hPass hAfter
        exact ih (fun h => hOwn (h.past hPass)) hAfter

------------------------------------------------------------
-- Calls
------------------------------------------------------------

/- The instruction of a call does nothing to the scopes itself. -/
theorem stays_step_of_call
    {i : Instruction}
    (hFetch : code.fetch m.pc = .ok i)
    (hCall : i.op = .call) :
    StackScript.Leaving m.Stays (step code m) := by
  apply (moves_step code m).mono
  intro after hMoves
  refine ⟨hMoves.calls, hMoves.maxCalls, hMoves.precise, ?_⟩
  rcases hMoves.scopes with hSame | ⟨i', hFetch', hChange⟩
  · exact hSame.symm
  · rw [hFetch] at hFetch'
    cases hFetch'
    rw [hCall] at hChange
    generalize m.scopes = before at hChange ⊢
    generalize after.scopes = behind at hChange ⊢
    cases hChange
    rfl

/- A function that was entered closes scopes of its caller. -/
def Overcloses
    (stream : Code)
    (m : Machine) : Prop :=
  ∃ r arguments middle scopes,
    step stream m = .ok (.enter r arguments) middle ∧
      bindParameters r.parameters arguments middle.scopes.push =
        .ok scopes ∧
      Underflows m.scopes.depth r.code (middle.entered scopes)

/-
  Behind a call, failed or not, as many calls are open as in
  front of it, and there are as many scopes, unless the
  function closed scopes that were there before it.
-/
theorem depth_call
    {i : Instruction}
    (hFetch : stream.fetch m.pc = .ok i)
    (hCall : i.op = .call)
    (bound : Nat) :
    (pass bound stream m).Leaving fun after =>
      after.calls = m.calls ∧
        after.scopes.depth ≤ m.scopes.depth ∧
        (after.scopes.depth = m.scopes.depth ∨
          Overcloses stream m) := by
  have hStep := stays_step_of_call hFetch hCall
  apply leaving_pass
  · apply hStep.mono
    intro after hStays
    rw [← hStays.scopes]
    exact ⟨hStays.calls, Nat.le_refl _, .inl rfl⟩
  · intro r arguments middle scopes hEnter hBind
    rw [hEnter] at hStep
    have hMiddle : m.Stays middle := hStep
    have hEntered :
        m.scopes.depth ≤ (middle.entered scopes).scopes.depth := by
      rw [depth_entered hBind, hMiddle.scopes]
      exact Nat.le_succ _
    by_cases hUnder :
        Underflows m.scopes.depth r.code (middle.entered scopes)
    · have hOver : Overcloses stream m :=
        ⟨r, arguments, middle, scopes, hEnter, hBind, hUnder⟩
      apply (evolves_run bound r.code (middle.entered scopes)).mono
      intro left _ ending
      rw [depth_resumed, ← hMiddle.scopes]
      exact ⟨hMiddle.calls, Nat.min_le_left _ _, .inr hOver⟩
    · apply (depth_run hUnder hEntered bound).mono
      intro left hLeft ending
      rw [depth_resumed, scopes_withResult, ← hMiddle.scopes,
        Nat.min_eq_left hLeft]
      exact ⟨hMiddle.calls, Nat.le_refl _, .inl rfl⟩

end Machine

/- A call in a block of a function that closes two scopes. -/
def Code.overclosing : Code :=
  Code.named .alloc "f" ++
    Code.pushed
      (.routine
        ⟨0, "f", [], Code.bare .popScope ++ Code.bare .popScope⟩) ++
    Code.named .store "f" ++ Code.bare .pushScope ++ Code.called "f" 0

/- The scope of the block is there before the call only. -/
theorem Machine.depth_call_overclosing :
    ∃ m i after,
      Visits Code.overclosing (Machine.new {} []) Code.overclosing m ∧
        Code.overclosing.fetch m.pc = .ok i ∧ i.op = .call ∧
        pass 3 Code.overclosing m = .goesOn after ∧
        m.scopes.depth = 2 ∧ after.scopes.depth = 1 ∧
        after.calls = m.calls ∧ Overcloses Code.overclosing m := by
  have hRun :
      ∃ m i after,
        Visits Code.overclosing (Machine.new {} []) Code.overclosing
            m ∧
          Code.overclosing.fetch m.pc = .ok i ∧ i.op = .call ∧
          pass 3 Code.overclosing m = .goesOn after ∧
          m.scopes.depth = 2 ∧ after.scopes.depth = 1 :=
    ⟨_, _, _,
      .next rfl (.next rfl (.next rfl (.next rfl .here))),
      rfl, rfl, rfl, rfl, rfl⟩
  rcases hRun with
    ⟨m, i, after, hVisits, hFetch, hCall, hPass, hBefore, hBehind⟩
  have hLeaves := Machine.depth_call hFetch hCall 3
  rw [hPass] at hLeaves
  rcases hLeaves with ⟨hCalls, _, hSame | hOver⟩
  · omega
  · exact ⟨m, i, after, hVisits, hFetch, hCall, hPass, hBefore,
      hBehind, hCalls, hOver⟩

end StackScript
