import StackScript.Proofs.Meaning.Library

/-
  The code of programs does what they mean.

  A program is compiled and run on a machine whose function
  values come from programs compiled before. The run ends as
  the evaluation of the tree ends, in the same state and with
  the operands that were there; it fails with the same error,
  and it ends if and only if the evaluation does.

  Key definitions include:
    * `Outcome.Realizes`

  Correctness is proven by:
    * `Program.follows_eval`
    * `Program.run_realizes_eval`
-/

namespace StackScript

variable {lib : Library}
variable {p : Program}
variable {code : Code}
variable {f g : Fresh}
variable {σ : State}

------------------------------------------------------------
-- Programs
------------------------------------------------------------

/- The functions of a compiled program are known. -/
theorem Program.sound_extend
    (hCode : p.compile f = .ok code g)
    (hSound : lib.Sound f.routines) :
    (lib.extend f.routines p code).Sound g.routines := by
  rcases Program.emits_of_compile hCode with ⟨body, hEmits, rfl⟩
  apply (Library.sound_extend hSound hEmits _).1
  rw [Word.functionsAll_append]
  exact List.append_nil _

/- They are plain if the program is. -/
theorem Program.isPlain_extend
    (hCode : p.compile f = .ok code g)
    (hPlain : lib.IsPlain f.routines)
    (hNames : Plain (Stmt.identifiersAll p)) :
    (lib.extend f.routines p code).IsPlain g.routines := by
  rcases Program.emits_of_compile hCode with ⟨body, hEmits, _⟩
  exact Library.isPlain_extend hPlain hEmits hNames

/- Functions known before a program is compiled stay known. -/
theorem Program.all_extend
    {scopes : Scopes}
    (hCode : p.compile f = .ok code g)
    (hAll : scopes.All (lib.Has f.routines)) :
    scopes.All ((lib.extend f.routines p code).Has g.routines) := by
  rcases Program.emits_of_compile hCode with ⟨body, hEmits, _⟩
  have hNumbers := hEmits.numbers
  refine hAll.mono ?_
  intro r hr
  exact hr.extend (by omega)

/- What a program does keeps the scopes of its start. -/
theorem Program.frames_eval
    (hCode : p.compile f = .ok code g)
    (hSound : lib.Sound g.routines)
    (bound : Nat) :
    Eval.Frames (lib.Has g.routines) (Signal.Fits (lib.Has g.routines))
      (p.eval lib bound f.routines) := by
  rcases Program.emits_of_compile hCode with ⟨body, hEmits, _⟩
  have hNumbers := hEmits.numbers
  apply Stmt.frames_evalAll (Library.steady_call hSound.closed bound)
  exact lib.offers_has (by omega)

/- The run of a compiled program follows its evaluation. -/
theorem Program.follows_eval
    (clash : Prop)
    (hCode : p.compile f = .ok code g)
    (hSound : lib.Sound f.routines)
    (hPlain :
      ¬ clash →
        lib.IsPlain f.routines ∧ Plain (Stmt.identifiersAll p))
    (hAll : σ.scopes.All (lib.Has f.routines))
    (bound : Nat)
    (stack : Stack) :
    ∃ body,
      code = body ++ Code.bare .halt ∧
        Follows clash
          ((lib.extend f.routines p code).Has g.routines) code
          bound stack σ (σ.at 0 stack)
          (Signal.Arrives code body.length none stack)
          (p.eval (lib.extend f.routines p code) bound
            f.routines σ) := by
  have hSound' := Program.sound_extend hCode hSound
  have hAll' := Program.all_extend hCode hAll
  rcases Program.emits_of_compile hCode with ⟨body, hEmits, hBody⟩
  have hNumbers := hEmits.numbers
  have hPlain' (hc : ¬ clash) :
      (lib.extend f.routines p code).IsPlain g.routines :=
    Program.isPlain_extend hCode (hPlain hc).1 (hPlain hc).2
  have hKnows : (lib.extend f.routines p code).Knows body := by
    apply (Library.sound_extend hSound hEmits _).2
    rw [hBody, Word.functionsAll_append]
    exact List.append_nil _
  have hWithin : Loop.Within code σ.scopes.depth none := by
    intro l hl
    cases hl
  have hHolds : Code.Holds code 0 body :=
    ⟨Code.bare .halt, by rw [hBody]; simp⟩
  have hEnd : 0 + body.length < code.length := by
    rw [hBody]
    simp
  have hFollows :=
    hEmits.follows (Library.steady_call hSound'.closed bound)
      (Library.callsFollow hSound' hPlain' bound)
      (fun hc => (hPlain hc).2) (Library.offers_has _ (by omega)) hKnows
      hWithin hHolds hEnd hAll' stack
  rw [Nat.zero_add] at hFollows
  exact ⟨body, hBody, hFollows⟩

------------------------------------------------------------
-- Outcomes
------------------------------------------------------------

/-
  A run ends as an evaluation does: with the state that the
  evaluation left, and with the operands of its start, below
  the value that a return gives. A failed run may have more
  operands and the scope of a hidden variable left.
-/
inductive Outcome.Realizes (stack : Stack) :
    Outcome → EStateM.Result Stop State Signal → Prop
| finished
    {m : Machine}
    (hStack : m.stack = stack) :
    Realizes stack (.done .finished m) (.ok .next m.state)
| returned
    {m : Machine}
    {v : Value}
    (hStack : m.stack = v :: stack) :
    Realizes stack (.done .returned m) (.ok (.ret v) m.state)
| failed
    {m : Machine}
    {e : EvalError}
    {τ : State}
    (hLeaves : m.Leaves τ stack) :
    Realizes stack (.failed e m) (.error (.failed e) τ)

/- An evaluation that its bound did not cut off. -/
def Eval.Ends
    {α : Type} :
    EStateM.Result Stop State α → Prop
| .error .unfinished _ => False
| _ => True

/- A run that arrives where a program ends has an outcome. -/
theorem realizes_of_arrives
    {body : Code}
    {signal : Signal}
    {stack : Stack}
    {τ : State}
    {m after : Machine}
    (hCode : code = body ++ Code.bare .halt)
    (hReach : Machine.Reaches code m after)
    (hArrive :
      Signal.Arrives code body.length none stack signal τ after) :
    ∃ n, (Machine.run n code m).Realizes stack (.ok signal τ) := by
  cases signal with
  | next =>
      cases hArrive
      have hHalt : code.Holds body.length (Code.bare .halt) := by
        rw [hCode]
        exact Code.holds_of_eq (List.append_nil _).symm
      rcases hReach.stops (Machine.step_halt hHalt) with ⟨n, hRun⟩
      refine ⟨n, ?_⟩
      rw [hRun]
      exact .finished rfl
  | breakLoop =>
      rcases hArrive with ⟨l, hl, _⟩
      cases hl
  | continueLoop =>
      rcases hArrive with ⟨l, hl, _⟩
      cases hl
  | ret v =>
      rcases hArrive with ⟨pc, hAt, rfl⟩
      rcases hReach.stops (Machine.step_ret hAt) with ⟨n, hRun⟩
      refine ⟨n, ?_⟩
      rw [hRun]
      exact .returned rfl

/- A run that follows the evaluation of a program realizes it. -/
theorem realizes_of_follows
    {P : Routine → Prop}
    {body : Code}
    {bound : Nat}
    {stack : Stack}
    {m : Machine}
    {result : EStateM.Result Stop State Signal}
    (hCode : code = body ++ Code.bare .halt)
    (h :
      Follows False P code bound stack σ m
        (Signal.Arrives code body.length none stack) result)
    (hEnds : Eval.Ends result) :
    ∃ n, (Machine.run n code m).Realizes stack result := by
  rcases h with h | ⟨hFalse, _⟩
  · cases result with
    | ok signal τ =>
        rcases h with ⟨after, hReach, hArrive⟩
        exact realizes_of_arrives hCode hReach hArrive
    | error stop τ =>
        cases stop with
        | failed e =>
            rcases h with ⟨n, left, hRun, hLeaves⟩
            refine ⟨n, ?_⟩
            rw [hRun]
            exact .failed hLeaves
        | unfinished => exact hEnds.elim
        | meaningless => exact h.elim
  · exact hFalse.elim

/- An unfinished evaluation leaves its run unfinished. -/
theorem unfinished_of_follows
    {P : Routine → Prop}
    {bound : Nat}
    {stack : Stack}
    {m : Machine}
    {arrive : Signal → State → Machine → Prop}
    {result : EStateM.Result Stop State Signal}
    (h : Follows False P code bound stack σ m arrive result)
    (hEnds : ¬ Eval.Ends result) :
    Machine.run bound code m = .unfinished := by
  rcases h with h | ⟨hFalse, _⟩
  · cases result with
    | ok signal τ => exact absurd trivial hEnds
    | error stop τ =>
        cases stop with
        | failed e => exact absurd trivial hEnds
        | unfinished => exact h
        | meaningless => exact h.elim
  · exact hFalse.elim

/- Runs that end with different bounds end alike. -/
theorem Machine.run_unique
    {n k : Nat}
    {m : Machine}
    (hFirst : run n code m ≠ .unfinished)
    (hSecond : run k code m ≠ .unfinished) :
    run n code m = run k code m := by
  rcases Nat.le_total n k with hLe | hLe
  · exact (run_mono hLe hFirst).symm
  · exact run_mono hLe hSecond

/- What one run of a machine comes to, each that ends comes to. -/
theorem Machine.eq_of_run
    {n k : Nat}
    {m : Machine}
    {outcome outcome' : Outcome}
    (hFirst : run n code m = outcome)
    (hSecond : run k code m = outcome')
    (hEnds : outcome ≠ .unfinished)
    (hEnds' : outcome' ≠ .unfinished) :
    outcome = outcome' := by
  subst hFirst hSecond
  exact run_unique hEnds hEnds'

/- A run that ends realizes the evaluation that it follows. -/
theorem realizes_of_run
    {P : Routine → Prop}
    {body : Code}
    {bound : Nat}
    {stack : Stack}
    {m : Machine}
    {result : EStateM.Result Stop State Signal}
    (hCode : code = body ++ Code.bare .halt)
    (h :
      Follows False P code bound stack σ m
        (Signal.Arrives code body.length none stack) result)
    (hRun : Machine.run bound code m ≠ .unfinished) :
    (Machine.run bound code m).Realizes stack result := by
  by_cases hEnds : Eval.Ends result
  · rcases realizes_of_follows hCode h hEnds with ⟨n, hRealizes⟩
    have hFinished : Machine.run n code m ≠ .unfinished := by
      intro hNone
      rw [hNone] at hRealizes
      cases hRealizes
    rw [Machine.run_unique hRun hFinished]
    exact hRealizes
  · exact absurd (unfinished_of_follows h hEnds) hRun

/-
  A compiled program is run on a machine with functions of
  programs compiled before. If the evaluation of the program
  ends, a long enough run realizes it; if a run ends, it
  realizes the evaluation with the same bound.
-/
theorem Program.run_realizes_eval
    (m : Machine)
    (hCode : p.compile f = .ok code g)
    (hNames : Plain (Stmt.identifiersAll p))
    (hSound : lib.Sound f.routines)
    (hPlain : lib.IsPlain f.routines)
    (hAll : m.scopes.All (lib.Has f.routines))
    (bound : Nat) :
    let result :=
      p.eval (lib.extend f.routines p code) bound f.routines m.state
    (Eval.Ends result →
      ∃ n, (m.execute n code).Realizes m.stack result) ∧
    (m.execute bound code ≠ .unfinished →
      (m.execute bound code).Realizes m.stack result) := by
  intro result
  have hStart : m.state.scopes.All (lib.Has f.routines) := hAll
  rcases
      Program.follows_eval False hCode hSound
        (fun _ => ⟨hPlain, hNames⟩) hStart bound m.stack with
    ⟨body, hBody, hFollows⟩
  constructor
  · intro hEnds
    exact realizes_of_follows hBody hFollows hEnds
  · intro hRun
    exact realizes_of_run hBody hFollows hRun

/- A function that gives the old value of what it increments. -/
def Program.defining : Program :=
  [.function "f" ["x"]
    [.ret (some (.post .increment (.variable "x" ⟨1, 1⟩) ⟨1, 1⟩))
      ⟨1, 1⟩] ⟨1, 1⟩]

/- A program that calls a function and returns its result. -/
def Program.calling : Program :=
  [.ret (some (.call "f" [.variable "true" ⟨1, 1⟩] ⟨1, 1⟩))
    ⟨1, 1⟩]

/- A machine with a function that was defined before. -/
def Machine.holding (r : Routine) : Machine :=
  { Machine.new {} [] with
    scopes := ⟨("f", .routine r) :: Scopes.initial.top, []⟩ }

/- The function of an earlier program is called. -/
theorem Program.run_realizes_eval_calling :
    ∃ earlier code n left,
      let lib := Library.empty.extend 0 Program.defining earlier
      Program.defining.compile ⟨0, 0⟩ = .ok earlier ⟨1, 1⟩ ∧
        Program.calling.compile ⟨1, 1⟩ = .ok code ⟨1, 1⟩ ∧
        earlier.routines = [lib.routine 0] ∧
        (Machine.holding (lib.routine 0)).execute n code =
          .done .returned left ∧
        left.stack = [.ofBool true] := by
  have hResult :
      ∃ earlier code τ,
        let lib := Library.empty.extend 0 Program.defining earlier
        Program.defining.compile ⟨0, 0⟩ = .ok earlier ⟨1, 1⟩ ∧
          Program.calling.compile ⟨1, 1⟩ = .ok code ⟨1, 1⟩ ∧
          earlier.routines = [lib.routine 0] ∧
          Program.calling.eval (lib.extend 1 Program.calling code) 3
              1 (Machine.holding (lib.routine 0)).state =
            .ok (.ret (.ofBool true)) τ := ⟨_, _, _, rfl, rfl, rfl, rfl⟩
  rcases hResult with ⟨earlier, code, τ, hEarlier, hCode, hPushed, hResult⟩
  have hSound := Program.sound_extend hEarlier Library.sound_empty
  have hPlain :=
    Program.isPlain_extend hEarlier Library.isPlain_empty (by decide)
  let lib := Library.empty.extend 0 Program.defining earlier
  have hOffers : lib.Offers (lib.Has 1) 0 1 :=
    lib.offers_has (Nat.le_refl 1)
  have hHas := hOffers 0 (Nat.le_refl 0) Nat.zero_lt_one
  have hDeclare :
      Scopes.initial.declare "f" (.routine (lib.routine 0)) =
        .ok (Machine.holding (lib.routine 0)).scopes := rfl
  have hAll :=
    Scopes.all_initial.declare (Value.all_routine hHas) hDeclare
  have hRuns :=
    (Program.run_realizes_eval _ hCode (by decide) hSound hPlain
      hAll 3).1
  rw [hResult] at hRuns
  rcases hRuns trivial with ⟨n, hRun⟩
  generalize hOutcome : (Machine.holding _).execute n code = outcome
    at hRun
  cases hRun with
  | returned hStack =>
      exact ⟨earlier, code, n, _, hEarlier, hCode, hPushed, hOutcome,
        hStack⟩

end StackScript
