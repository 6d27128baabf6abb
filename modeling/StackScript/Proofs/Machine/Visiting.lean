import StackScript.Proofs.Machine.Reaching
import StackScript.Proofs.Twin.Same

/-
  What a run passes and which machines it visits.

  A run passes one instruction after the other, a call with
  all that happens in it. The machines that it visits are
  those before each instruction, also before the ones inside
  of calls. No machine that is visited has functions but
  those of the first machine and of the code.

  Key definitions include:
    * `Passage`
    * `Machine.pass`
    * `Machine.Visits`

  Key theorems include:
    * `Machine.run_succ`
    * `Machine.All.run`
    * `Machine.Visits.all`
-/

namespace StackScript

------------------------------------------------------------
-- Passing One Instruction
------------------------------------------------------------

/- What comes of one instruction, or of a call with its end. -/
inductive Passage where
| goesOn (m : Machine)
| ends (ending : Ending) (m : Machine)
| fails (error : EvalError) (m : Machine)
/- The bound was too small for a call. -/
| unfinished

/- What a run of a stream is after an instruction was passed. -/
def Passage.outcome
    (bound : Nat)
    (code : Code) :
    Passage → Outcome
| .goesOn m => m.run bound code
| .ends ending m => .done ending m
| .fails e m => .failed e m
| .unfinished => .unfinished

namespace Machine

/- Pass the next instruction; a call is bounded like a run. -/
def pass
    (bound : Nat)
    (code : Code)
    (m : Machine) : Passage :=
  match step code m with
  | .error e m => .fails e m
  | .ok .next m => .goesOn m
  | .ok (.stop ending) m => .ends ending m
  | .ok (.enter routine arguments) m =>
      match
        bindParameters routine.parameters arguments m.scopes.push
      with
      | .error e => .fails e m
      | .ok scopes =>
          match run bound routine.code (m.entered scopes) with
          | .unfinished => .unfinished
          | .failed e after => .fails e (m.resumed after)
          | .done ending after =>
              .goesOn (m.resumed (after.withResult ending))

/- A run passes the next instruction, if there is one. -/
theorem run_succ
    (bound : Nat)
    (code : Code)
    (m : Machine) :
    run (bound + 1) code m =
      if (code.drop m.pc).isEmpty then .done .finished m
      else (pass bound code m).outcome bound code := by
  unfold run pass
  split
  · rfl
  · cases step code m with
    | error e after => rfl
    | ok flow after =>
        cases flow with
        | next => rfl
        | stop ending => rfl
        | enter r arguments =>
            dsimp only
            cases bindParameters r.parameters arguments
                after.scopes.push with
            | error e => rfl
            | ok scopes =>
                dsimp only
                cases run bound r.code (after.entered scopes) <;> rfl

/- Behind the last word there is nothing to pass. -/
theorem isEmpty_of_pass
    {bound : Nat}
    {code : Code}
    {m after : Machine}
    (h : pass bound code m = .goesOn after) :
    (code.drop m.pc).isEmpty = false := by
  unfold pass at h
  cases hStep : step code m with
  | ok flow middle => exact isEmpty_of_step hStep
  | error e middle =>
      rw [hStep] at h
      cases h

/- What is passed lies on the way of a run. -/
theorem Reaches.of_pass
    {bound : Nat}
    {code : Code}
    {m after : Machine}
    (h : pass bound code m = .goesOn after) :
    Reaches code m after := by
  unfold pass at h
  cases hStep : step code m with
  | error e middle =>
      rw [hStep] at h
      cases h
  | ok flow middle =>
      rw [hStep] at h
      cases flow with
      | next =>
          cases h
          exact .of_next hStep
      | stop ending => cases h
      | enter r arguments =>
          dsimp only at h
          cases hBind :
              bindParameters r.parameters arguments
                middle.scopes.push with
          | error e =>
              rw [hBind] at h
              cases h
          | ok scopes =>
              rw [hBind] at h
              dsimp only at h
              cases hRun : run bound r.code (middle.entered scopes) with
              | unfinished =>
                  rw [hRun] at h
                  cases h
              | failed e left =>
                  rw [hRun] at h
                  cases h
              | done ending left =>
                  rw [hRun] at h
                  cases h
                  exact .of_call hStep hBind hRun

------------------------------------------------------------
-- Visits
------------------------------------------------------------

/-
  A run of one stream from a machine visits another machine
  in another stream: the same, one after an instruction that
  it passed, or one inside of a call.
-/
inductive Visits : Code → Machine → Code → Machine → Prop
| here
    {code : Code}
    {m : Machine} :
    Visits code m code m
| past
    {code stream : Code}
    {m after last : Machine}
    {bound : Nat}
    (hPass : pass bound code m = .goesOn after)
    (h : Visits code after stream last) :
    Visits code m stream last
| inside
    {code stream : Code}
    {m middle last : Machine}
    {r : Routine}
    {arguments : List Value}
    {scopes : Scopes}
    (hStep : step code m = .ok (.enter r arguments) middle)
    (hBind :
      bindParameters r.parameters arguments middle.scopes.push =
        .ok scopes)
    (h : Visits r.code (middle.entered scopes) stream last) :
    Visits code m stream last

/- An instruction that is no call leads to the next visit. -/
theorem Visits.next
    {code stream : Code}
    {m after last : Machine}
    (hStep : step code m = .ok .next after)
    (h : Visits code after stream last) :
    Visits code m stream last := by
  have hPass : pass 0 code m = .goesOn after := by
    unfold pass
    rw [hStep]
  exact .past hPass h

end Machine

------------------------------------------------------------
-- Functions of Runs
------------------------------------------------------------

/- Every function that the code of one with a property has. -/
def Routine.Closed (P : Routine → Prop) : Prop :=
  ∀ r, P r → ∀ q ∈ Code.routines r.code, P q

variable {P : Routine → Prop}

namespace Machine

variable {code stream : Code}
variable {m after last : Machine}
variable {bound : Nat}

/- Every function that a call enters with has a property. -/
theorem All.entered
    {r : Routine}
    {arguments : List Value}
    {scopes : Scopes}
    (h : m.All P)
    (hArguments : ∀ v ∈ arguments, v.All P)
    (hBind :
      bindParameters r.parameters arguments m.scopes.push =
        .ok scopes) :
    (m.entered scopes).All P :=
  ⟨(Scopes.bindParameters_keeps h.scopes.push hArguments hBind).1,
    h.stack⟩

theorem All.resumed
    (h : after.All P) :
    (m.resumed after).All P :=
  ⟨h.scopes.close, h.stack⟩

theorem All.withResult
    {ending : Ending}
    (h : m.All P) :
    (m.withResult ending).All P := by
  cases ending with
  | returned => exact h
  | finished =>
      refine ⟨h.scopes, List.forall_mem_cons.2 ⟨?_, h.stack⟩⟩
      intro r hr
      cases hr

end Machine

/- Every function that a run leaves has a property. -/
def Outcome.All (P : Routine → Prop) : Outcome → Prop
| .done _ m => m.All P
| .failed _ m => m.All P
| .unfinished => True

/- Every function that a passage leaves has a property. -/
def Passage.All (P : Routine → Prop) : Passage → Prop
| .goesOn m => m.All P
| .ends _ m => m.All P
| .fails _ m => m.All P
| .unfinished => True

namespace Machine

/- Passing an instruction makes up no functions if runs do not. -/
theorem All.pass
    (h : m.All P)
    (hCode : ∀ r ∈ code.routines, P r)
    (hRuns :
      ∀ r m, P r → m.All P → (run bound r.code m).All P) :
    (pass bound code m).All P := by
  have hStep := h.step hCode
  unfold Machine.pass
  cases hResult : Machine.step code m with
  | error e middle =>
      rw [hResult] at hStep
      exact hStep
  | ok flow middle =>
      rw [hResult] at hStep
      cases flow with
      | next => exact hStep
      | stop ending => exact hStep
      | enter r arguments =>
          rcases hStep with ⟨hMiddle, hRoutine, hArguments⟩
          dsimp only
          cases hBind :
              bindParameters r.parameters arguments
                middle.scopes.push with
          | error e => exact hMiddle
          | ok scopes =>
              have hBody :=
                hRuns r _ hRoutine (hMiddle.entered hArguments hBind)
              dsimp only
              cases hRun : run bound r.code (middle.entered scopes) with
              | unfinished => exact trivial
              | failed e left =>
                  rw [hRun] at hBody
                  exact All.resumed hBody
              | done ending left =>
                  rw [hRun] at hBody
                  exact All.resumed (All.withResult hBody)

/- A run makes up no functions. -/
theorem All.run
    (hClosed : Routine.Closed P)
    (h : m.All P)
    (hCode : ∀ r ∈ code.routines, P r)
    (bound : Nat) :
    (run bound code m).All P := by
  induction bound generalizing code m with
  | zero => exact trivial
  | succ bound ih =>
      rw [run_succ]
      split
      · exact h
      · have hPass : (Machine.pass bound code m).All P :=
          h.pass hCode fun r m hRoutine hAll =>
            ih hAll (hClosed r hRoutine)
        cases hResult : Machine.pass bound code m with
        | goesOn after =>
            rw [hResult] at hPass
            exact ih hPass hCode
        | ends ending after =>
            rw [hResult] at hPass
            exact hPass
        | fails e after =>
            rw [hResult] at hPass
            exact hPass
        | unfinished => exact trivial

/- No machine that is visited has other functions. -/
theorem Visits.all
    (hVisits : Visits code m stream last)
    (hClosed : Routine.Closed P)
    (h : m.All P)
    (hCode : ∀ r ∈ code.routines, P r) :
    last.All P := by
  induction hVisits with
  | here => exact h
  | @past code stream m after last bound hPass _ ih =>
      have hAfter : (Machine.pass bound code m).All P :=
        h.pass hCode fun r m hRoutine hAll =>
          hAll.run hClosed (hClosed r hRoutine) bound
      rw [hPass] at hAfter
      exact ih hAfter hCode
  | inside hStep hBind _ ih =>
      have hMiddle := h.step hCode
      rw [hStep] at hMiddle
      rcases hMiddle with ⟨hAll, hRoutine, hArguments⟩
      exact ih (hAll.entered hArguments hBind)
        (hClosed _ hRoutine)

end Machine
end StackScript
