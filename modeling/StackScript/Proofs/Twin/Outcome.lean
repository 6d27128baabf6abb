import StackScript.Proofs.Machine.Visiting
import StackScript.Proofs.Meaning.Call
import StackScript.Proofs.Twin.Same

/-
  Twin machines at the ends of two runs.

  Two runs end alike when both come to an end in twin
  machines or both fail for twin reasons. A run that fails
  inside a step that keeps the old value leaves the scope of
  a hidden variable, whose number may differ in the other.
  A call is passed alike when its functions run alike.

  Key definitions include:
    * `Scopes.LeftTwin`
    * `Outcome.Twin`
    * `Passage.Twin`

  Key theorems include:
    * `Machine.twin_pass`
-/

namespace StackScript

variable {R : Routine → Routine → Prop}
variable {shift : Nat}

------------------------------------------------------------
-- Scopes
------------------------------------------------------------

/-
  Twin scopes, or twin scopes around hidden variables with
  twin values, whose numbers may differ.
-/
inductive Scopes.LeftTwin (R : Routine → Routine → Prop) :
    Scopes → Scopes → Prop
| same
    {s s' : Scopes}
    (h : s.Twin R s') :
    LeftTwin R s s'
| hidden
    {s s' : Scopes}
    {number number' : Nat}
    {v v' : Value}
    (h : s.Twin R s')
    (hValue : v.Twin R v') :
    LeftTwin R (s.hide number v) (s'.hide number' v')

/- Closing a hidden scope closes some of those around it. -/
theorem Scopes.close_hide
    {s : Scopes}
    {number : Nat}
    {v : Value}
    (n : Nat) :
    (s.hide number v).close (n + 1) = s.close n :=
  rfl

/- Closing the same scopes of both leaves twins again. -/
theorem Scopes.LeftTwin.truncate
    {s s' : Scopes}
    (h : s.LeftTwin R s')
    (depth : Nat) :
    (s.truncate depth).LeftTwin R (s'.truncate depth) := by
  cases h with
  | same h => exact .same (h.truncate depth)
  | @hidden s s' number number' v v' h hValue =>
      have hLeft : (s.hide number v).depth = s.depth + 1 :=
        Scopes.over_hide.depth
      have hRight : (s'.hide number' v').depth = s.depth + 1 := by
        rw [← h.depth]
        exact Scopes.over_hide.depth
      unfold Scopes.truncate
      rw [hLeft, hRight]
      cases s.depth + 1 - depth with
      | zero => exact .hidden h hValue
      | succ n =>
          rw [Scopes.close_hide, Scopes.close_hide]
          exact .same (h.close n)

------------------------------------------------------------
-- Machines
------------------------------------------------------------

/- Two machines that a failure left, at positions a distance apart. -/
structure Machine.LeftTwin
    (R : Routine → Routine → Prop)
    (shift : Nat)
    (m m' : Machine) : Prop where
  stack : Value.Twins R m.stack m'.stack
  scopes : m.scopes.LeftTwin R m'.scopes
  pc : m'.pc = m.pc + shift
  counts : (m.calls, m.maxCalls) = (m'.calls, m'.maxCalls)
  host : m'.host = m.host

namespace Machine

variable {m m' after after' : Machine}

theorem Twin.left (h : m.Twin R Eq shift m') :
    m.LeftTwin R shift m' :=
  ⟨h.stack, .same h.scopes, h.pc, h.counts, h.host⟩

/- Functions start alike, at the start of their streams. -/
theorem Twin.entered
    {scopes scopes' : Scopes}
    (h : m.Twin R Eq shift m')
    (hScopes : scopes.Twin R scopes') :
    (m.entered scopes).Twin R Eq 0 (m'.entered scopes') := by
  rcases Prod.mk.inj h.counts with ⟨hCalls, hMax⟩
  refine ⟨h.stack, hScopes, rfl, ?_, h.host⟩
  change (m.calls + 1, m.maxCalls) = (m'.calls + 1, m'.maxCalls)
  rw [hCalls, hMax]

/- Callers go on alike after twins came back. -/
theorem Twin.resumed
    (h : m.Twin R Eq shift m')
    (hAfter : after.Twin R Eq 0 after') :
    (m.resumed after).Twin R Eq shift (m'.resumed after') := by
  refine ⟨hAfter.stack, ?_, h.pc, ?_, hAfter.host⟩
  · change
      (after.scopes.truncate m.scopes.depth).Twin R
        (after'.scopes.truncate m'.scopes.depth)
    rw [h.scopes.depth]
    exact hAfter.scopes.truncate _
  · change (m.calls, after.maxCalls) = (m'.calls, after'.maxCalls)
    rw [(Prod.mk.inj h.counts).1, (Prod.mk.inj hAfter.counts).2]

/- Callers are left alike by failures that left twins. -/
theorem LeftTwin.resumed
    (hAfter : after.LeftTwin R 0 after')
    (h : m.Twin R Eq shift m') :
    (m.resumed after).LeftTwin R shift (m'.resumed after') := by
  refine ⟨hAfter.stack, ?_, h.pc, ?_, hAfter.host⟩
  · change
      (after.scopes.truncate m.scopes.depth).LeftTwin R
        (after'.scopes.truncate m'.scopes.depth)
    rw [h.scopes.depth]
    exact hAfter.scopes.truncate _
  · change (m.calls, after.maxCalls) = (m'.calls, after'.maxCalls)
    rw [(Prod.mk.inj h.counts).1, (Prod.mk.inj hAfter.counts).2]

theorem Twin.withResult
    {ending : Ending}
    (h : m.Twin R Eq shift m') :
    (m.withResult ending).Twin R Eq shift
      (m'.withResult ending) := by
  cases ending with
  | returned => exact h
  | finished => exact { h with stack := .cons .null h.stack }

end Machine

------------------------------------------------------------
-- Weaker Relations
------------------------------------------------------------

section Weaker

variable {Q : Routine → Routine → Prop}
variable (hWeaker : ∀ r r', Q r r' → R r r')

include hWeaker

theorem Value.Twin.mono
    {v v' : Value}
    (h : v.Twin Q v') :
    v.Twin R v' := by
  cases h with
  | same hNone => exact .same hNone
  | routine h => exact .routine (hWeaker _ _ h)

theorem Value.twins_mono
    {vs vs' : List Value}
    (h : Value.Twins Q vs vs') :
    Value.Twins R vs vs' :=
  h.imp fun _ _ hValue => hValue.mono hWeaker

theorem Scope.Twin.mono
    {s s' : Scope}
    (h : Scope.Twin Q s s') :
    Scope.Twin R s s' :=
  h.imp fun _ _ hEntry => ⟨hEntry.1, hEntry.2.mono hWeaker⟩

theorem Scopes.Twin.mono
    {s s' : Scopes}
    (h : s.Twin Q s') :
    s.Twin R s' :=
  ⟨Scope.Twin.mono hWeaker h.top,
    h.outer.imp fun _ _ => Scope.Twin.mono hWeaker⟩

theorem Scopes.LeftTwin.mono
    {s s' : Scopes}
    (h : s.LeftTwin Q s') :
    s.LeftTwin R s' := by
  cases h with
  | same h => exact .same (h.mono hWeaker)
  | hidden h hValue =>
      exact .hidden (h.mono hWeaker) (hValue.mono hWeaker)

theorem BuiltinError.Twin.mono
    {e e' : BuiltinError}
    (h : e.Twin Q e') :
    e.Twin R e' := by
  cases h with
  | same => exact .same _
  | invalidArgument h => exact .invalidArgument (h.mono hWeaker)
  | domain h => exact .domain (h.mono hWeaker)
  | invalidPrecision h => exact .invalidPrecision (h.mono hWeaker)

theorem EvalError.Twin.mono
    {e e' : EvalError}
    (h : e.Twin Q e') :
    e.Twin R e' := by
  cases h with
  | same => exact .same _
  | builtin h => exact .builtin (h.mono hWeaker)

namespace Machine

variable {m m' : Machine}

theorem Twin.mono
    (h : m.Twin Q Eq shift m') :
    m.Twin R Eq shift m' :=
  ⟨Value.twins_mono hWeaker h.stack, h.scopes.mono hWeaker, h.pc,
    h.counts, h.host⟩

theorem LeftTwin.mono
    (h : m.LeftTwin Q shift m') :
    m.LeftTwin R shift m' :=
  ⟨Value.twins_mono hWeaker h.stack, h.scopes.mono hWeaker, h.pc,
    h.counts, h.host⟩

end Machine

end Weaker

------------------------------------------------------------
-- Outcomes
------------------------------------------------------------

/- Two runs end alike, or none has ended. -/
inductive Outcome.Twin
    (R : Routine → Routine → Prop)
    (shift : Nat) :
    Outcome → Outcome → Prop
| done
    {ending : Ending}
    {m m' : Machine}
    (h : m.Twin R Eq shift m') :
    Twin R shift (.done ending m) (.done ending m')
| failed
    {e e' : EvalError}
    {m m' : Machine}
    (hError : e.Alike R e')
    (h : m.LeftTwin R shift m') :
    Twin R shift (.failed e m) (.failed e' m')
| unfinished :
    Twin R shift .unfinished .unfinished

/- What is passed in one instruction is alike. -/
inductive Passage.Twin
    (R : Routine → Routine → Prop)
    (shift : Nat) :
    Passage → Passage → Prop
| goesOn
    {m m' : Machine}
    (h : m.Twin R Eq shift m') :
    Twin R shift (.goesOn m) (.goesOn m')
| ends
    {ending : Ending}
    {m m' : Machine}
    (h : m.Twin R Eq shift m') :
    Twin R shift (.ends ending m) (.ends ending m')
| fails
    {e e' : EvalError}
    {m m' : Machine}
    (hError : e.Alike R e')
    (h : m.LeftTwin R shift m') :
    Twin R shift (.fails e m) (.fails e' m')
| unfinished :
    Twin R shift .unfinished .unfinished

namespace Machine

variable {code code' : Code}
variable {m m' : Machine}
variable {bound : Nat}

/- Related functions run alike from their starts. -/
def RunsAlike
    (R : Routine → Routine → Prop)
    (bound : Nat) : Prop :=
  ∀ {r r' : Routine} {m m' : Machine},
    R r r' → m.pc = 0 → m.Twin R Eq 0 m' →
      (run bound r.code m).Twin R 0 (run bound r'.code m')

/- An instruction is passed alike if its step and its call are. -/
theorem twin_pass
    (hTags : Routine.Tagged R)
    (hRuns : RunsAlike R bound)
    (hStep :
      Paired (Machine.Twin R Eq shift) (EvalError.Alike R)
        (Flow.Twin R) (step code m) (step code' m')) :
    (pass bound code m).Twin R shift (pass bound code' m') := by
  unfold pass
  generalize step code m = left at hStep
  generalize step code' m' = right at hStep
  cases left with
  | error e middle =>
      cases right with
      | ok => exact hStep.elim
      | error e' middle' => exact .fails hStep.1 hStep.2.left
  | ok flow middle =>
      cases right with
      | error => exact hStep.elim
      | ok flow' middle' =>
          rcases hStep with ⟨hFlow, hMiddle⟩
          cases hFlow with
          | next => exact .goesOn hMiddle
          | stop ending => exact .ends hMiddle
          | @enter r r' arguments arguments' hRoutine hArguments =>
              have hBind :=
                hMiddle.scopes.push.bindParameters hArguments
                  r.parameters
              dsimp only
              rw [(hTags r r' hRoutine).2.2]
              generalize
                bindParameters r.parameters arguments
                  middle.scopes.push = bound at hBind ⊢
              generalize
                bindParameters r.parameters arguments'
                  middle'.scopes.push = bound' at hBind ⊢
              cases bound with
              | error e =>
                  cases bound' with
                  | ok => exact hBind.elim
                  | error e' =>
                      cases hBind
                      exact .fails (.inl (.same e)) hMiddle.left
              | ok scopes =>
                  cases bound' with
                  | error => exact hBind.elim
                  | ok scopes' =>
                      have hBody :=
                        hRuns hRoutine rfl (hMiddle.entered hBind)
                      dsimp only
                      generalize run _ r.code _ = outcome at hBody ⊢
                      generalize run _ r'.code _ = outcome'
                        at hBody ⊢
                      cases hBody with
                      | done hAfter =>
                          exact .goesOn
                            (hMiddle.resumed hAfter.withResult)
                      | failed hError hAfter =>
                          exact .fails hError (hAfter.resumed hMiddle)
                      | unfinished => exact .unfinished

/- Runs of one stream end alike where functions run alike. -/
theorem twin_run_succ
    (hTags : Routine.Tagged R)
    (hRuns : RunsAlike R bound)
    (hCode : code.SelfRelated R)
    (h : m.Twin R Eq 0 m')
    (hLess :
      ∀ {after after' : Machine}, after.Twin R Eq 0 after' →
        (run bound code after).Twin R 0 (run bound code after')) :
    (run (bound + 1) code m).Twin R 0
      (run (bound + 1) code m') := by
  have hPlace : m'.pc = m.pc := h.pc
  have hCall (name : String) (arguments : Nat) :
      Action.Pairs R Eq 0 (Flow.Twin R) (call name arguments)
        (call name arguments) :=
    pairs_call hTags (fun _ _ hSame => hSame.symm) name arguments
  have hPass :=
    twin_pass hTags hRuns
      (pairs_step hTags hCode .next .stop hCall m m' h)
  rw [run_succ, run_succ, hPlace]
  split
  · exact .done h
  · generalize pass bound code m = left at hPass ⊢
    generalize pass bound code m' = right at hPass ⊢
    cases hPass with
    | goesOn hAfter => exact hLess hAfter
    | ends hAfter => exact .done hAfter
    | fails hError hAfter => exact .failed hError hAfter
    | unfinished => exact .unfinished

end Machine
end StackScript
