import StackScript.Proofs.Machine.Stepping

/-
  States that a run comes to.

  A machine reaches another, in one stream, when a run from
  the one is a run from the other: it ends in the same way
  if it ends at all, and it is unfinished where the other
  is. Completed calls lie between the two like single steps.

  Key definitions include:
    * `Machine.Reaches`

  Key theorems include:
    * `Machine.Reaches.trans`
    * `Machine.Reaches.of_next`
    * `Machine.Reaches.of_call`
    * `Machine.Reaches.load`, `Machine.Reaches.store`
-/

namespace StackScript
namespace Machine

variable {code : Code}
variable {m middle after : Machine}
variable {bound more : Nat}

/- A smaller bound is too small where a larger one is. -/
theorem unfinished_of_le
    (hLe : bound ≤ more)
    (h : run more code m = .unfinished) :
    run bound code m = .unfinished := by
  by_cases hEnds : run bound code m = .unfinished
  · exact hEnds
  · have hSame := run_mono hLe hEnds
    exact hSame.symm.trans h

/- A run from the one machine is a run from the other. -/
def Reaches
    (code : Code)
    (m after : Machine) : Prop :=
  (∀ bound, run bound code after = .unfinished →
      run bound code m = .unfinished) ∧
    ∀ bound, run bound code after ≠ .unfinished →
      ∃ more, run more code m = run bound code after

namespace Reaches

@[refl]
theorem refl : Reaches code m m :=
  ⟨fun _ h => h, fun bound _ => ⟨bound, rfl⟩⟩

theorem trans
    (hFirst : Reaches code m middle)
    (hThen : Reaches code middle after) :
    Reaches code m after := by
  constructor
  · intro bound h
    exact hFirst.1 bound (hThen.1 bound h)
  · intro bound h
    rcases hThen.2 bound h with ⟨more, hMore⟩
    rw [← hMore] at h ⊢
    exact hFirst.2 more h

/- A run that fails fails from where it came from. -/
theorem failed
    {e : EvalError}
    {left : Machine}
    (hReach : Reaches code m after)
    (h : run bound code after = .failed e left) :
    ∃ more, run more code m = .failed e left := by
  rcases hReach.2 bound (by simp [h]) with ⟨more, hMore⟩
  exact ⟨more, hMore.trans h⟩

/- A run that ends ends from where it came from. -/
theorem done
    {ending : Ending}
    {left : Machine}
    (hReach : Reaches code m after)
    (h : run bound code after = .done ending left) :
    ∃ more, run more code m = .done ending left := by
  rcases hReach.2 bound (by simp [h]) with ⟨more, hMore⟩
  exact ⟨more, hMore.trans h⟩

/- A run that comes to an instruction that stops it ends there. -/
theorem stops
    {ending : Ending}
    {left : Machine}
    (hReach : Reaches code m after)
    (h : step code after = .ok (.stop ending) left) :
    ∃ more, run more code m = .done ending left := by
  have hRun : run (0 + 1) code after = .done ending left :=
    run_stop h
  exact hReach.done hRun

/- Where a run has one step more than from another machine. -/
theorem of_run
    (h :
      ∀ bound, run (bound + 1) code m = run bound code after) :
    Reaches code m after := by
  constructor
  · intro bound hAfter
    cases bound with
    | zero => rfl
    | succ bound =>
        rw [h]
        exact unfinished_of_le (Nat.le_succ bound) hAfter
  · intro bound _
    exact ⟨bound + 1, h bound⟩

theorem of_next (h : step code m = .ok .next after) :
    Reaches code m after :=
  of_run fun _ => run_next h

/- A call that is completed reaches the state after it. -/
theorem of_call
    {r : Routine}
    {arguments : List Value}
    {scopes : Scopes}
    {ending : Ending}
    {left : Machine}
    (hStep : step code m = .ok (.enter r arguments) middle)
    (hBind :
      bindParameters r.parameters arguments middle.scopes.push =
        .ok scopes)
    (hRun :
      run bound r.code (middle.entered scopes) =
        .done ending left) :
    Reaches code m (middle.resumed (left.withResult ending)) := by
  constructor
  · intro small hAfter
    cases small with
    | zero => rfl
    | succ small =>
        rw [run_enter hStep hBind]
        by_cases hSmall :
            run small r.code (middle.entered scopes) = .unfinished
        · rw [hSmall]
        · have hSame :
              run small r.code (middle.entered scopes) =
                .done ending left := by
            have hLarge := run_mono (Nat.le_max_left small bound) hSmall
            rw [← hLarge, ← hRun]
            exact run_mono (Nat.le_max_right small bound)
              (by simp [hRun])
          rw [hSame]
          exact unfinished_of_le (Nat.le_succ small) hAfter
  · intro large hAfter
    refine ⟨max large bound + 1, ?_⟩
    have hBody :
        run (max large bound) r.code (middle.entered scopes) =
          .done ending left := by
      rw [← hRun]
      exact run_mono (Nat.le_max_right large bound) (by simp [hRun])
    rw [run_enter hStep hBind, hBody]
    exact run_mono (Nat.le_max_left large bound) hAfter

------------------------------------------------------------
-- Variables
------------------------------------------------------------

variable {pc : Nat}
variable {stack : Stack}
variable {σ : State}
variable {name : String}
variable {v : Value}

theorem load
    (hAt : code.Holds pc (Code.named .load name))
    (hValue : σ.scopes.lookup name = .ok v) :
    Reaches code (σ.at pc stack) (σ.at (pc + 2) (v :: stack)) := by
  have hStep : step code (σ.at pc stack) = _ := step_load hAt
  rw [hValue] at hStep
  exact .of_next hStep

theorem store
    {scopes : Scopes}
    (hAt : code.Holds pc (Code.named .store name))
    (hAssign : σ.scopes.assign name v = .ok scopes) :
    Reaches code (σ.at pc (v :: stack))
      ((σ.inScopes scopes).at (pc + 2) stack) := by
  have hStep : step code (σ.at pc (v :: stack)) = _ :=
    step_store hAt
  rw [hAssign] at hStep
  exact .of_next hStep

end Reaches
end Machine
end StackScript
