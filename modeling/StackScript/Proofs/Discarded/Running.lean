import StackScript.Proofs.Discarded.Making
import StackScript.Proofs.Joined.Running

/-
  Running code that does not keep a value.

  It ends if and only if the code that keeps the value does,
  with a pop behind it, and both end alike: in machines that
  differ in nothing but the position, or with the same error
  and the same host. A failure may leave the scope of a
  hidden variable open in the one and not in the other.

  Where the two kinds of code differ, each is followed from
  the same operands up to its end. An assignment has code of
  any expression in front of what differs. It runs abreast
  with itself, and whatever stack it leaves, even an empty
  one, the rest of both ends alike.

  Key definitions include:
    * `Outcome.Alike`
    * `Machine.EndsAlike`
    * `Machine.IsSafe`
    * `Machine.Settles`

  Key theorems include:
    * `Machine.endsAlike_again`
    * `Machine.endsAlike_behind`
    * `Code.Discards.endsAlike`
    * `Session.Covered.endsAlike_discarded`
-/

namespace StackScript

variable {P : Routine → Prop}
variable {code code' code'' : Code}
variable {m m' m'' : Machine}
variable {n k : Nat}

------------------------------------------------------------
-- Ends That Are Alike
------------------------------------------------------------

/-
  Two ends of one kind in machines that differ in nothing but
  the position, or failures with one error and one host.
-/
inductive Outcome.Alike : Outcome → Outcome → Prop
| done
    {ending : Ending}
    {m : Machine}
    (pc : Nat) :
    Alike (.done ending m) (.done ending { m with pc })
| failed
    {e : EvalError}
    {m m' : Machine}
    (h : m'.host = m.host) :
    Alike (.failed e m) (.failed e m')

/-
  Two runs end alike, or none ends, however large the bound
  on its steps is.
-/
structure Machine.EndsAlike
    (code : Code)
    (m : Machine)
    (code' : Code)
    (m' : Machine) : Prop where
  forth :
    ∀ n, run n code m ≠ .unfinished →
      ∃ k, (run n code m).Alike (run k code' m')
  back :
    ∀ k, run k code' m' ≠ .unfinished →
      ∃ n, (run n code m).Alike (run k code' m')

namespace Outcome.Alike

variable {outcome outcome' outcome'' : Outcome}

theorem refl (h : outcome ≠ .unfinished) : outcome.Alike outcome := by
  cases outcome with
  | done ending m => exact .done m.pc
  | failed e m => exact .failed rfl
  | unfinished => exact absurd rfl h

theorem symm (h : outcome.Alike outcome') : outcome'.Alike outcome := by
  cases h with
  | @done ending m pc => exact .done m.pc
  | failed h => exact .failed h.symm

theorem trans
    (h : outcome.Alike outcome')
    (h' : outcome'.Alike outcome'') :
    outcome.Alike outcome'' := by
  cases h with
  | done =>
      cases h' with
      | done pc => exact .done pc
  | failed h =>
      cases h' with
      | failed h' => exact .failed (h'.trans h)

theorem ends (h : outcome.Alike outcome') :
    outcome ≠ .unfinished ∧ outcome' ≠ .unfinished := by
  cases h with
  | done | failed => exact ⟨nofun, nofun⟩

end Outcome.Alike

namespace Machine.EndsAlike

theorem refl : EndsAlike code m code m :=
  ⟨fun n h => ⟨n, .refl h⟩, fun k h => ⟨k, .refl h⟩⟩

theorem symm (h : EndsAlike code m code' m') :
    EndsAlike code' m' code m := by
  constructor
  · intro k hEnds
    rcases h.back k hEnds with ⟨n, hAlike⟩
    exact ⟨n, hAlike.symm⟩
  · intro n hEnds
    rcases h.forth n hEnds with ⟨k, hAlike⟩
    exact ⟨k, hAlike.symm⟩

theorem trans
    (h : EndsAlike code m code' m')
    (h' : EndsAlike code' m' code'' m'') :
    EndsAlike code m code'' m'' := by
  constructor
  · intro n hEnds
    rcases h.forth n hEnds with ⟨k, hAlike⟩
    rcases h'.forth k hAlike.ends.2 with ⟨l, hAlike'⟩
    exact ⟨l, hAlike.trans hAlike'⟩
  · intro l hEnds
    rcases h'.back l hEnds with ⟨k, hAlike'⟩
    rcases h.back k hAlike'.ends.1 with ⟨n, hAlike⟩
    exact ⟨n, hAlike.trans hAlike'⟩

/- A run from a machine is one from a machine that it reaches. -/
theorem of_reaches (h : Reaches code m m') :
    EndsAlike code m code m' := by
  constructor
  · intro n hEnds
    have hAfter : run n code m' ≠ .unfinished :=
      mt (h.1 n) hEnds
    rcases h.2 n hAfter with ⟨k, hSame⟩
    have hUnique : run n code m = run k code m :=
      run_unique hEnds (hSame ▸ hAfter)
    refine ⟨n, ?_⟩
    rw [hUnique, hSame]
    exact .refl hAfter
  · intro k hEnds
    rcases h.2 k hEnds with ⟨n, hSame⟩
    refine ⟨n, ?_⟩
    rw [hSame]
    exact .refl hEnds

/- Two runs that end alike with some bounds do with any. -/
theorem of_runs (h : (run n code m).Alike (run k code' m')) :
    EndsAlike code m code' m' := by
  constructor
  · intro l hEnds
    refine ⟨k, ?_⟩
    rw [run_unique hEnds h.ends.1]
    exact h
  · intro l hEnds
    refine ⟨n, ?_⟩
    rw [run_unique hEnds h.ends.2]
    exact h

/- A run that is known to fail fails in the other stream. -/
theorem failed
    {e : EvalError}
    (h : EndsAlike code m code' m')
    (hRun : run n code m = .failed e m'') :
    ∃ k left, run k code' m' = .failed e left := by
  rcases h.forth n (by rw [hRun]; nofun) with ⟨k, hAlike⟩
  rw [hRun] at hAlike
  generalize hOther : run k code' m' = outcome at hAlike
  cases hAlike with
  | failed => exact ⟨k, _, hOther⟩

end Machine.EndsAlike

------------------------------------------------------------
-- The Same Code Elsewhere
------------------------------------------------------------

/- No run of a stream fails by misuse. -/
def Machine.IsSafe
    (code : Code)
    (m : Machine) : Prop :=
  ∀ n e left, run n code m = .failed e left → e.isMisuse = false

theorem Machine.EndsAlike.isSafe
    (h : EndsAlike code m code' m')
    (hSafe : IsSafe code m) :
    IsSafe code' m' := by
  intro n e left hRun
  rcases h.symm.failed hRun with ⟨k, left, hOther⟩
  exact hSafe k e left hOther

/- A machine is its own twin at any distance. -/
theorem Machine.twin_itself
    (m : Machine)
    (pc shift : Nat) :
    Machine.Twin Routine.Itself Eq shift { m with pc }
      { m with pc := pc + shift } := by
  have hAll : m.All fun _ => True :=
    ⟨fun _ _ _ _ _ _ => trivial, fun _ _ _ _ => trivial⟩
  have hSelf := Machine.twin_only_iff.2 ⟨rfl, hAll⟩
  exact ⟨hSelf.stack, hSelf.scopes, rfl, rfl, rfl⟩

/- A twin machine differs in the position alone. -/
theorem Machine.Twin.eq_of_itself
    {shift : Nat}
    (h : m.Twin Routine.Itself Eq shift m') :
    m' = { m with pc := m'.pc } := by
  have hZero :
      Machine.Twin Routine.Itself Eq 0 { m with pc := 0 }
        { m' with pc := 0 } :=
    ⟨h.stack, h.scopes, rfl, h.counts, h.host⟩
  have hSame := (Machine.twin_only_iff.1 hZero).1
  cases m
  cases m'
  cases hSame
  rfl

theorem Value.Twin.eq_of_itself
    {v v' : Value}
    (h : v.Twin Routine.Itself v') :
    v' = v :=
  (Value.twin_only_iff.1 h).1

/- Twin errors are one error. -/
theorem EvalError.Twin.eq_of_itself
    {e e' : EvalError}
    (h : e.Twin Routine.Itself e') :
    e' = e := by
  cases h with
  | same => rfl
  | builtin h =>
      cases h with
      | same => rfl
      | invalidArgument h | domain h | invalidPrecision h =>
          rw [h.eq_of_itself]

/- Twin outcomes are alike, if the first is no misuse. -/
theorem Outcome.Twin.alike
    {shift : Nat}
    {outcome outcome' : Outcome}
    (h : outcome.Twin Routine.Itself shift outcome')
    (hEnds : outcome ≠ .unfinished)
    (hMisuse : ∀ e m, outcome = .failed e m → e.isMisuse = false) :
    outcome.Alike outcome' := by
  cases h with
  | @done ending m m' h =>
      rw [h.eq_of_itself]
      exact .done m'.pc
  | unfinished => exact absurd rfl hEnds
  | @failed e e' m m' hError h =>
      rcases hError with hTwin | ⟨hLeft, -⟩
      · rw [hTwin.eq_of_itself]
        exact .failed h.host
      · rw [hMisuse e m rfl] at hLeft
        cases hLeft

/- Streams of the same pieces run abreast. -/
theorem Machine.abreast_itself
    {shift stop : Nat}
    {opened : Prop}
    {cut : Nat → Prop}
    (hParallel :
      Code.Parallel Numbering.free Routine.Itself shift opened stop cut
        code code')
    (hCut : cut m.pc)
    (hTwin : m.Twin Routine.Itself Eq shift m')
    (bound : Nat) :
    Machine.Abreast Routine.Itself shift opened stop bound code code' m
      m' := by
  refine Machine.abreast_run (Routine.tagged_only _)
    (fun name number hPlain => ne_hiddenName hPlain number) ?_ hParallel
    hCut hTwin bound
  rintro r _ ⟨rfl, -⟩
  exact .inl ⟨rfl, fun q _ => ⟨rfl, trivial⟩⟩

/- Runs that are twins at every bound end alike. -/
theorem Machine.endsAlike_of_twins
    {shift : Nat}
    (h :
      ∀ n,
        (run n code m).Twin Routine.Itself shift (run n code' m'))
    (hSafe : IsSafe code m) :
    EndsAlike code m code' m' := by
  constructor
  · intro n hEnds
    exact ⟨n, (h n).alike hEnds (hSafe n)⟩
  · intro k hEnds
    have hLeft := mt (h k).unfinished_iff.1 hEnds
    exact ⟨k, (h k).alike hLeft (hSafe k)⟩

/- Code runs alike with other code in front. -/
theorem Machine.endsAlike_again
    {c c' front : Code}
    (h : Code.Again front.length 0 c c')
    (hSafe : IsSafe c { m with pc := 0 }) :
    EndsAlike c { m with pc := 0 } (front ++ c')
      { m with pc := front.length } := by
  have hParallel :
      Code.Parallel Numbering.free Routine.Itself front.length False
        c.length _ (c ++ []) (front ++ (c' ++ [])) :=
    h.parallel rfl (.inl ⟨rfl, rfl⟩)
  rw [List.append_nil, List.append_nil] at hParallel
  have hTwin := m.twin_itself 0 front.length
  rw [Nat.zero_add] at hTwin
  have hBoth (n : Nat) :
      (run n c { m with pc := 0 }).Twin Routine.Itself front.length
        (run n (front ++ c') { m with pc := front.length }) := by
    cases
      abreast_itself hParallel (Code.cut_zero h.row) hTwin n with
    | ends hOutcome _ => exact hOutcome
    | arrives hOpened => exact hOpened.elim
  exact endsAlike_of_twins hBoth hSafe

/-
  Code that is followed by the one or by the other runs alike
  if that does, from wherever the first comes to its end.
-/
theorem Machine.endsAlike_behind
    {c rest rest' : Code}
    (h : Code.Again 0 0 c c)
    (hRest : rest ≠ [])
    (hRest' : rest' ≠ [])
    (hPlace : m.pc = 0)
    (hSafe : IsSafe (c ++ rest) m)
    (hBehind :
      ∀ (τ : State) (operands : Stack),
        EndsAlike (c ++ rest) (τ.at c.length operands) (c ++ rest')
          (τ.at c.length operands)) :
    EndsAlike (c ++ rest) m (c ++ rest') m := by
  have hParallel :
      Code.Parallel Numbering.free Routine.Itself 0 True c.length _
        (c ++ rest) ([] ++ (c ++ rest')) :=
    h.parallel rfl (.inr ⟨trivial, hRest, hRest'⟩)
  have hCut : Code.Cut Numbering.free Routine.Itself 0 m.pc c c := by
    rw [hPlace]
    exact Code.cut_zero h.row
  have hTwin : m.Twin Routine.Itself Eq 0 m := m.twin_itself m.pc 0
  by_cases hAlike : EndsAlike (c ++ rest) m (c ++ rest') m
  · exact hAlike
  -- Otherwise the runs never come to the end of the first.
  have hBoth (n : Nat) :
      (run n (c ++ rest) m).Twin Routine.Itself 0
        (run n (c ++ rest') m) := by
    cases abreast_itself hParallel hCut hTwin n with
    | ends hOutcome _ => exact hOutcome
    | @arrives after after' _ hLeft hRight hTwin hAt =>
        have hSame : after' = after := by
          rw [hTwin.eq_of_itself, hTwin.pc]
          rfl
        rw [hSame] at hRight
        have hThere := hBehind after.state after.stack
        rw [← hAt] at hThere
        have hWhole := (EndsAlike.of_reaches hLeft).trans
          (hThere.trans (EndsAlike.of_reaches hRight).symm)
        exact absurd hWhole hAlike
  exact endsAlike_of_twins hBoth hSafe

------------------------------------------------------------
-- Runs That Settle an Evaluation
------------------------------------------------------------

variable {α : Type}
variable {stack : Stack}
variable {σ : State}
variable {result : EStateM.Result Stop State α}

/-
  A run that comes to its end in the state that an evaluation
  gives, with some operands, or fails as the evaluation does.
-/
inductive Machine.Settles
    (code : Code)
    (m : Machine)
    (stack : Stack) :
    EStateM.Result Stop State α → Prop
| done
    {a : α}
    {τ : State}
    {n pc : Nat}
    (h : run n code m = .done .finished (τ.at pc stack)) :
    Settles code m stack (.ok a τ)
| failed
    {e : EvalError}
    {τ : State}
    {n : Nat}
    {left : Machine}
    (h : run n code m = .failed e left)
    (hHost : left.host = τ.host) :
    Settles code m stack (.error (.failed e) τ)

/- Runs that settle one evaluation end alike. -/
theorem Machine.Settles.endsAlike
    (h : Settles code m stack result)
    (h' : Settles code' m' stack result) :
    EndsAlike code m code' m' := by
  cases h with
  | @done a τ n pc hRun =>
      cases h' with
      | @done _ _ k pc' hRun' =>
          apply EndsAlike.of_runs
          rw [hRun, hRun']
          exact .done pc'
  | failed hRun hHost =>
      cases h' with
      | failed hRun' hHost' =>
          apply EndsAlike.of_runs
          rw [hRun, hRun']
          exact .failed (hHost'.trans hHost.symm)

/- A run that comes behind the last word has come to its end. -/
theorem Machine.Reaches.finishes
    {after : Machine}
    (h : Reaches code m after)
    (hEnd : code.length ≤ after.pc) :
    ∃ n, run n code m = .done .finished after := by
  have hRun : run 1 code after = .done .finished after := by
    rw [run_succ, List.drop_eq_nil_of_le hEnd]
    rfl
  exact h.done hRun

/- A run that follows an evaluation to the end settles it. -/
theorem Follows.settles
    {arrive : α → State → Machine → Prop}
    (h : Follows False P code n stack σ m arrive result)
    (hEnds : ∀ τ, result ≠ .error .unfinished τ)
    (hArrive :
      ∀ a τ after, result = .ok a τ → arrive a τ after →
        ∃ pc, Machine.Reaches code after (τ.at pc stack) ∧
          code.length ≤ pc) :
    Machine.Settles code m stack result := by
  rcases h with h | ⟨hFalse, -⟩
  · cases result with
    | ok a τ =>
        rcases h with ⟨after, hReach, hAfter⟩
        rcases hArrive a τ after rfl hAfter with ⟨pc, hLast, hEnd⟩
        rcases (hReach.trans hLast).finishes hEnd with ⟨k, hRun⟩
        exact .done hRun
    | error stop τ =>
        cases stop with
        | failed e =>
            rcases h with ⟨k, left, hRun, -, hLeaves⟩
            refine .failed hRun ?_
            rcases hLeaves with hState | ⟨number, v, -, hState⟩
            · exact congrArg State.host hState
            · exact congrArg State.host hState
        | unfinished => exact absurd rfl (hEnds τ)
        | meaningless => exact h.elim
  · exact hFalse.elim

/- A step of a variable always comes to something. -/
theorem Eval.update_ne_unfinished
    (f : Combination)
    (name : String)
    (τ : State) :
    Eval.update f name σ ≠ .error .unfinished τ := by
  rw [Eval.update_eq]
  split
  · exact nofun
  · split
    · exact nofun
    · split <;> exact nofun

------------------------------------------------------------
-- Values That Are Not Kept
------------------------------------------------------------

variable {operator : Operator}
variable {name : String}

theorem Scopes.all_true (s : Scopes) : s.All fun _ => True :=
  fun _ _ _ _ _ _ => trivial

/- A stream stands at its own start. -/
theorem Code.holds_self (code : Code) : code.Holds 0 code :=
  ⟨[], (List.append_nil _).symm⟩

/- A step of a variable, and nothing behind it. -/
theorem Machine.settles_step :
    Settles (Code.step operator name) (σ.at 0 stack) stack
      (Eval.update (Code.stepOp operator).combine name σ) := by
  have hFollows :
      Follows False (fun _ => True) (Code.step operator name) 0 stack σ
        (σ.at 0 stack) (Arrives 7 fun _ => stack)
        (Eval.update (Code.stepOp operator).combine name σ) :=
    follows_update σ.scopes.all_true (Code.holds_self _)
  apply hFollows.settles (Eval.update_ne_unfinished _ name)
  rintro w τ _ - rfl
  exact ⟨7, .refl, Nat.le_refl 7⟩

/- A variable that is loaded and popped leaves all as it is. -/
theorem Machine.Reaches.load_pop
    {pc : Nat}
    {v : Value}
    (hAt :
      code.Holds pc (Code.named .load name ++ Code.bare .pop))
    (hValue : σ.scopes.lookup name = .ok v) :
    Reaches code (σ.at pc stack) (σ.at (pc + 3) stack) := by
  have hLoad :
      Reaches code (σ.at pc stack) (σ.at (pc + 2) (v :: stack)) :=
    .load hAt.left hValue
  exact hLoad.trans (.of_next (step_pop (hAt.right rfl)))

/- A step that loads the variable again, and a pop. -/
theorem Machine.settles_step_load_pop :
    Settles
      (Code.step operator name
        ++ (Code.named .load name ++ Code.bare .pop))
      (σ.at 0 stack) stack (Eval.update (Code.stepOp operator).combine name σ) := by
  let whole : Code :=
    Code.step operator name ++ (Code.named .load name ++ Code.bare .pop)
  have hAt : whole.Holds 0 whole := whole.holds_self
  have hFollows :
      Follows False (fun _ => True) whole 0 stack σ (σ.at 0 stack)
        (Arrives 7 fun _ => stack) (Eval.update (Code.stepOp operator).combine name σ) :=
    follows_update σ.scopes.all_true hAt.left
  apply hFollows.settles (Eval.update_ne_unfinished _ name)
  rintro w τ _ hUpdate rfl
  have hPopped : Reaches whole (τ.at 7 stack) (τ.at 10 stack) :=
    .load_pop (hAt.right rfl) (Eval.lookup_of_update hUpdate)
  exact ⟨10, hPopped, Nat.le_refl 10⟩

/- A step that keeps the old value, and a pop. -/
theorem Machine.settles_stepKeepingOld_pop
    {number : Nat}
    (h : name ≠ hiddenName number) :
    Settles
      (Code.stepKeepingOld operator name (hiddenName number)
        ++ Code.bare .pop)
      (σ.at 0 stack) stack (Eval.update (Code.stepOp operator).combine name σ) := by
  let whole : Code :=
    Code.stepKeepingOld operator name (hiddenName number)
      ++ Code.bare .pop
  have hAt : whole.Holds 0 whole := whole.holds_self
  have hPop : whole.Holds 17 (Code.bare .pop) := hAt.right rfl
  have hFollows :
      Follows False (fun _ => True) whole 0 stack σ (σ.at 0 stack)
        (Arrives 17 (·.1 :: stack)) (Eval.update (Code.stepOp operator).combine name σ) :=
    (holdsOld_of_holds hAt.left).follows h
  apply hFollows.settles (Eval.update_ne_unfinished _ name)
  rintro w τ _ - rfl
  exact ⟨18, .of_next (step_pop hPop), Nat.le_refl 18⟩

/- Storing a variable always comes to something. -/
theorem Eval.store_ne_unfinished
    (name : String)
    (v : Value)
    (τ : State) :
    Eval.store name v σ ≠ .error .unfinished τ := by
  change
    EStateM.bind (Eval.lift (σ.scopes.assign name v)) _ σ ≠ _
  cases σ.scopes.assign name v with
  | ok scopes => exact nofun
  | error e => exact nofun

/- Nothing is stored from an empty stack. -/
theorem Machine.run_store_empty
    {pc : Nat}
    (hAt : code.Holds pc (Code.named .store name)) :
    run 1 code (σ.at pc []) =
      .failed .emptyStack (σ.at (pc + 2) []) := by
  have hStep :
      step code (σ.at pc []) =
        .error .emptyStack (σ.at (pc + 2) []) := by
    rw [step_of_fetch (Code.fetch_of_holds hAt rfl)]
    rfl
  have hHere :
      code.Holds (σ.at pc []).pc (Code.named .store name) :=
    hAt
  exact run_error hHere (by simp [Code.named]) hStep

/- A variable that is stored, with or without loading it again. -/
theorem Machine.endsAlike_store
    (c : Code)
    (name : String) :
    EndsAlike
      (c
        ++ (Code.named .store name
          ++ (Code.named .load name ++ Code.bare .pop)))
      (σ.at c.length stack) (c ++ Code.named .store name)
      (σ.at c.length stack) := by
  let loads : Code :=
    c
      ++ (Code.named .store name
        ++ (Code.named .load name ++ Code.bare .pop))
  let stores : Code := c ++ Code.named .store name
  have hLoads :
      loads.Holds c.length
        (Code.named .store name
          ++ (Code.named .load name ++ Code.bare .pop)) :=
    Code.holds_of_eq (List.append_nil _).symm
  have hStores : stores.Holds c.length (Code.named .store name) :=
    Code.holds_of_eq (List.append_nil _).symm
  cases stack with
  | nil =>
      have hRun := run_store_empty (σ := σ) hLoads.left
      have hRun' := run_store_empty (σ := σ) hStores
      apply EndsAlike.of_runs
      rw [hRun, hRun']
      exact .failed rfl
  | cons v stack =>
      have hFollows
          {code : Code}
          (hStore : code.Holds c.length (Code.named .store name)) :
          Follows False (fun _ => True) code 0 stack σ
            (σ.at c.length (v :: stack))
            (Arrives (c.length + 2) fun _ => stack)
            (Eval.store name v σ) :=
        follows_store hStore
      have hNone := @Eval.store_ne_unfinished σ name v
      apply Settles.endsAlike
      · apply (hFollows hLoads.left).settles hNone
        rintro _ τ _ hStore rfl
        have hPopped :
            Reaches loads (τ.at (c.length + 2) stack)
              (τ.at (c.length + 5) stack) :=
          .load_pop (hLoads.right rfl) (Eval.lookup_of_store hStore)
        exact ⟨c.length + 5, hPopped, by simp [loads]⟩
      · apply (hFollows hStores).settles hNone
        rintro _ τ _ - rfl
        exact ⟨c.length + 2, .refl, by simp [stores]⟩

/- A constant that is pushed, and popped. -/
theorem Machine.endsAlike_pushed (value : Constant) :
    EndsAlike [] (σ.at 0 stack)
      (Code.pushed value ++ Code.bare .pop) (σ.at 0 stack) := by
  let whole : Code := Code.pushed value ++ Code.bare .pop
  have hAt : whole.Holds 0 whole := whole.holds_self
  have hPop : whole.Holds 2 (Code.bare .pop) := hAt.right rfl
  have hReach : Reaches whole (σ.at 0 stack) (σ.at 3 stack) := by
    apply Reaches.trans (.of_next (step_pushed hAt.left))
    exact .of_next (step_pop hPop)
  rcases hReach.finishes (Nat.le_refl 3) with ⟨k, hRun⟩
  have hNone :
      run 1 [] (σ.at 0 stack) = .done .finished (σ.at 0 stack) :=
    rfl
  apply EndsAlike.of_runs
  rw [hNone, hRun]
  exact .done 3

/- Code that does not keep a value ends like code that pops it. -/
theorem Code.Discards.endsAlike
    {dropped kept : Code}
    (h : Code.Discards 0 dropped kept)
    (hSafe : Machine.IsSafe (kept ++ Code.bare .pop) (σ.at 0 stack)) :
    Machine.EndsAlike dropped (σ.at 0 stack) (kept ++ Code.bare .pop)
      (σ.at 0 stack) := by
  cases h with
  | @popped c =>
      have hSame :
          c ++ Code.dropUnless false =
            c ++ Code.dropUnless true ++ Code.bare .pop := by
        simp [Code.dropUnless]
      rw [hSame]
      exact .refl
  | @constant value => exact Machine.endsAlike_pushed value
  | @assigned c name hSelf =>
      have hDropped :
          c ++ Code.named .store name ++ Code.loadIf false name =
            c ++ Code.named .store name := by
        simp [Code.loadIf]
      have hKept :
          c ++ Code.named .store name ++ Code.loadIf true name
              ++ Code.bare .pop =
            c
              ++ (Code.named .store name
                ++ (Code.named .load name ++ Code.bare .pop)) := by
        simp [Code.loadIf]
      rw [hDropped, hKept]
      rw [hKept] at hSafe
      apply Machine.EndsAlike.symm
      exact Machine.endsAlike_behind hSelf (by simp [Code.named])
        (by simp [Code.named]) rfl hSafe fun _ _ =>
          Machine.endsAlike_store c name
  | @stepped operator name =>
      have hDropped :
          Code.step operator name ++ Code.loadIf false name =
            Code.step operator name := by
        simp [Code.loadIf]
      have hKept :
          Code.step operator name ++ Code.loadIf true name
              ++ Code.bare .pop =
            Code.step operator name
              ++ (Code.named .load name ++ Code.bare .pop) := by
        simp [Code.loadIf]
      rw [hDropped, hKept]
      exact Machine.settles_step.endsAlike Machine.settles_step_load_pop
  | keptOld hName =>
      exact Machine.settles_step.endsAlike
        (Machine.settles_stepKeepingOld_pop hName)

------------------------------------------------------------
-- Sessions
------------------------------------------------------------

variable {e : Expr}
variable {code : Code}
variable {f g : Fresh}

/- Code that keeps a value, and a pop, misuses nothing. -/
theorem Library.Sound.isSafe_emit
    {lib : Library}
    {count : Nat}
    (hSound : lib.Sound count)
    (hCode : e.emit 0 true f = .ok code g)
    (hAll : σ.scopes.All (lib.Has count)) :
    Machine.IsSafe (code ++ Code.bare .pop) (σ.at 0 stack) := by
  intro n error left hRun
  have hSteady := Library.steady_call hSound.closed n
  have hCalls :
      CallsFollow True (lib.Has count) n (lib.call n) :=
    Library.callsFollow hSound (fun hFalse => absurd trivial hFalse) n
  have hAt : (code ++ Code.bare .pop).Holds 0 code :=
    ⟨Code.bare .pop, rfl⟩
  have hPop :
      (code ++ Code.bare .pop).Holds code.length (Code.bare .pop) :=
    Code.holds_of_eq (List.append_nil _).symm
  have hKeeps := e.steady_eval hSteady σ hAll
  have hFollows :=
    (e.emits_of_emit hCode).follows hSteady hCalls
      (fun hFalse => absurd trivial hFalse) hAt (by simp) hAll stack
  rw [Nat.zero_add] at hFollows
  rcases hFollows with hFollows | ⟨-, k, other, after, hFails, hMore⟩
  · generalize e.eval (lib.call n) σ = result at hKeeps hFollows
    cases result with
    | ok v τ =>
        rcases hFollows with ⟨after, hReach, rfl⟩
        have hPopped := hReach.trans (.of_next (Machine.step_pop hPop))
        have hEnd :
            (code ++ Code.bare .pop).length ≤ code.length + 1 := by
          simp
        rcases hPopped.finishes hEnd with ⟨k, hDone⟩
        cases Machine.eq_of_run hRun hDone nofun nofun
    | error stop τ =>
        cases stop with
        | failed other =>
            rcases hFollows with ⟨k, after, hFails, -⟩
            cases Machine.eq_of_run hRun hFails nofun nofun
            exact hKeeps.1 error rfl
        | unfinished => cases hRun.symm.trans hFollows
        | meaningless => exact hFollows.elim
  · cases Machine.eq_of_run hRun hFails nofun nofun
    exact hMore.1

/-
  Code of both kinds, emitted for any position and whatever
  numbers are in use, ends alike.
-/
theorem Session.Covered.endsAlike_emit
    {s : Session}
    {start : Nat}
    {keep : Bool}
    (h : s.Covered)
    (hNames : Plain e.identifiers)
    (hCode : e.emit start keep f = .ok code g)
    (front front' : Code)
    (f₁ f₂ : Fresh) :
    ∃ dropped kept g₁ g₂,
      e.emit front.length false f₁ = .ok dropped g₁ ∧
        e.emit front'.length true f₂ = .ok kept g₂ ∧
        Machine.EndsAlike (front ++ dropped)
          { s.machine with pc := front.length }
          (front' ++ (kept ++ Code.bare .pop))
          { s.machine with pc := front'.length } := by
  rcases h with ⟨lib, hSound, hAll⟩
  rcases Expr.exists_emit_zero hNames hCode with ⟨c, _, hZero⟩
  rcases e.discardable hNames hZero with
    ⟨dropped, kept, _, _, hDropped, hKept, hDiscards⟩
  rcases Expr.again_emit hNames hDropped front.length f₁ with
    ⟨dropped', g₁, hDropped', hAgain⟩
  rcases Expr.again_emit hNames hKept front'.length f₂ with
    ⟨kept', g₂, hKept', hAgain'⟩
  rw [Nat.zero_add] at hDropped' hKept'
  refine ⟨dropped', kept', g₁, g₂, hDropped', hKept', ?_⟩
  have hSafe :
      Machine.IsSafe (kept ++ Code.bare .pop)
        (s.machine.state.at 0 s.machine.stack) :=
    hSound.isSafe_emit hKept hAll
  have hStart :
      Machine.EndsAlike dropped { s.machine with pc := 0 }
        (kept ++ Code.bare .pop) { s.machine with pc := 0 } :=
    hDiscards.endsAlike hSafe
  have hFront := Machine.endsAlike_again hAgain (hStart.symm.isSafe hSafe)
  have hFront' := Machine.endsAlike_again (hAgain'.thenBare rfl) hSafe
  exact hFront.symm.trans (hStart.trans hFront')

/-
  An expression that compiles has code of both kinds, written
  to any drafts and whatever numbers are in use. In a machine
  whose functions have the code of trees, the code that does
  not keep the value ends if and only if the code that keeps
  it and pops it does, and both end alike: in machines that
  differ in nothing but the position, or with the same error
  and the same host.
-/
theorem Session.Covered.endsAlike_discarded
    {s : Session}
    {keep : Bool}
    {d d' : Draft}
    (h : s.Covered)
    (hNames : Plain e.identifiers)
    (hCode : (e.draft keep).run d f = .ok ((), d') g)
    (front front' : Draft)
    (f₁ f₂ : Fresh) :
    ∃ dropped kept g₁ g₂,
      (e.draft false).run front f₁ =
          .ok ((), front.append dropped) g₁ ∧
        (e.draft true).run front' f₂ =
          .ok ((), front'.append kept) g₂ ∧
        Machine.EndsAlike (front.words ++ dropped)
          { s.machine with pc := front.words.length }
          (front'.words ++ (kept ++ Code.bare .pop))
          { s.machine with pc := front'.words.length } := by
  rcases Expr.run_draft_eq_ok.1 hCode with ⟨code, hEmit, _⟩
  rcases h.endsAlike_emit hNames hEmit front.words front'.words f₁ f₂ with
    ⟨dropped, kept, g₁, g₂, hDropped, hKept, hAlike⟩
  exact ⟨dropped, kept, g₁, g₂,
    Expr.run_draft_eq_ok.2 ⟨dropped, hDropped, rfl⟩,
    Expr.run_draft_eq_ok.2 ⟨kept, hKept, rfl⟩, hAlike⟩

/-
  After a program that declares a variable, the code that
  steps it comes to its end, and so does the longer one that
  keeps the old value and pops it.
-/
theorem Session.Covered.endsAlike_discarded_stepped :
    ∃ s dropped kept g₁ g₂ m pc k,
      Session.Reached s ∧
        ((Expr.post .increment (.variable "x" ⟨1, 1⟩) ⟨1, 2⟩).draft
            false).run .empty ⟨0, 0⟩ =
          .ok ((), Draft.empty.append dropped) g₁ ∧
        ((Expr.post .increment (.variable "x" ⟨1, 1⟩) ⟨1, 2⟩).draft
            true).run .empty ⟨0, 0⟩ =
          .ok ((), Draft.empty.append kept) g₂ ∧
        dropped.length = 7 ∧
        kept.length = 17 ∧
        Machine.run 9 dropped { s.machine with pc := 0 } =
          .done .finished m ∧
        m.stack = [] ∧
        m.scopes.depth = s.machine.scopes.depth ∧
        Machine.run k (kept ++ Code.bare .pop)
            { s.machine with pc := 0 } =
          .done .finished { m with pc } := by
  have hFirst :
      ∃ code g s dropped kept g₁ g₂ m,
        Program.compile
            [.define "x" (.variable "true" ⟨1, 1⟩) ⟨1, 1⟩] ⟨0, 0⟩ =
          .ok code g ∧
        Session.execute 9 ⟨(Session.new {} []).machine, g.routines⟩
            code =
          some (none, s) ∧
        ((Expr.post .increment (.variable "x" ⟨1, 1⟩) ⟨1, 2⟩).draft
            false).run .empty ⟨0, 0⟩ =
          .ok ((), Draft.empty.append dropped) g₁ ∧
        ((Expr.post .increment (.variable "x" ⟨1, 1⟩) ⟨1, 2⟩).draft
            true).run .empty ⟨0, 0⟩ =
          .ok ((), Draft.empty.append kept) g₂ ∧
        dropped.length = 7 ∧
        kept.length = 17 ∧
        Machine.run 9 dropped { s.machine with pc := 0 } =
          .done .finished m ∧
        m.stack = [] ∧
        m.scopes.depth = s.machine.scopes.depth :=
    ⟨_, _, _, _, _, _, _, _, rfl, rfl, rfl, rfl, rfl, rfl, rfl, rfl,
      rfl⟩
  rcases hFirst with
    ⟨code, g, s, dropped, kept, g₁, g₂, m, hCode, hRan, hDropped, hKept,
      hShort, hLong, hRun, hStack, hDepth⟩
  have hMark : (Session.new {} []).mark ≤ Fresh.routines ⟨0, 0⟩ :=
    Nat.le_refl 0
  have hReached : s.Reached := .ran (.new {} []) hMark hCode hRan
  have hNames :
      Plain
        (Expr.post .increment (.variable "x" ⟨1, 1⟩)
          ⟨1, 2⟩).identifiers := by
    decide
  rcases Session.Covered.endsAlike_discarded hReached.covered hNames
      hDropped .empty .empty ⟨0, 0⟩ ⟨0, 0⟩ with
    ⟨dropped', kept', _, _, hDropped', hKept', hAlike⟩
  cases hDropped'.symm.trans hDropped
  cases hKept'.symm.trans hKept
  have hEnds :
      Machine.run 9 dropped { s.machine with pc := 0 } ≠
        .unfinished := by
    simp [hRun]
  rcases hAlike.forth 9 hEnds with ⟨k, hBoth⟩
  have hSame :
      (Outcome.done .finished m).Alike
        (Machine.run k (kept ++ Code.bare .pop)
          { s.machine with pc := 0 }) := by
    rw [← hRun]
    exact hBoth
  generalize hOther :
      Machine.run k (kept ++ Code.bare .pop)
        { s.machine with pc := 0 } =
      outcome at hSame
  cases hSame with
  | done pc =>
      exact ⟨s, dropped, kept, g₁, g₂, m, pc, k, hReached, hDropped,
        hKept, hShort, hLong, hRun, hStack, hDepth, hOther⟩

end StackScript
