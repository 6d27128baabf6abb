import StackScript.Proofs.Meaning.Expression

/-
  The code of blocks, branches and loops does what it means.

  A statement may go on in four ways. The code behind `next`
  stands behind the statement; `break` and `continue` close
  the scopes opened inside the loop and jump; a return comes
  to an instruction that returns, with the scopes still open.
  What is said here is about evaluations, wherever the runs
  that follow them come from.

  Key definitions include:
    * `Signal.Arrives`
    * `Loop.Within`
    * `FollowsInside`

  Key theorems include:
    * `follows_inBlock`, `follows_define`
    * `follows_ifThen`, `follows_ifElse`
    * `follows_whileLoop`, `follows_forLoop`
-/

namespace StackScript

variable {clash : Prop}
variable {P : Routine → Prop}
variable {code : Code}
variable {bound pc : Nat}
variable {stack : Stack}
variable {σ τ : State}
variable {loop : Option Loop}

------------------------------------------------------------
-- Closing Scopes
------------------------------------------------------------

/- The same state with some scopes closed. -/
def State.close
    (σ : State)
    (n : Nat) : State :=
  σ.inScopes (σ.scopes.close n)

namespace Scopes

variable {s : Scopes}
variable {n : Nat}

/- A scope that is not the global one can be closed. -/
theorem pop_eq_close (h : 1 < s.depth) :
    s.pop = .ok (s.close 1) := by
  rcases s with ⟨top, outer⟩
  cases outer with
  | nil => simp [depth] at h
  | cons scope outer => rfl

/- Closing one scope and then others. -/
theorem close_close :
    (s.close 1).close n = s.close (n + 1) := by
  rcases s with ⟨top, outer⟩
  cases outer with
  | nil => cases n <;> rfl
  | cons scope outer => rfl

end Scopes

theorem State.close_close
    (σ : State)
    (n : Nat) :
    (σ.close 1).close n = σ.close (n + 1) :=
  congrArg σ.inScopes Scopes.close_close

/- Closing a scope that is not the global one. -/
theorem reaches_popScope
    (hAt : code.Holds pc (Code.bare .popScope))
    (hDepth : 1 < σ.scopes.depth) :
    Machine.Reaches code (σ.at pc stack)
      ((σ.close 1).at (pc + 1) stack) := by
  have hStep : Machine.step code (σ.at pc stack) = _ :=
    Machine.step_popScope hAt
  rw [Scopes.pop_eq_close hDepth] at hStep
  exact .of_next hStep

/- Closing the scopes opened inside a loop, and jumping. -/
theorem reaches_exit
    {l : Loop}
    {target : Nat}
    (hAt : code.Holds pc (Code.exit l target))
    (hDepth : l.opened < σ.scopes.depth)
    (hTarget : target < code.length) :
    Machine.Reaches code (σ.at pc stack)
      ((σ.close l.opened).at target stack) := by
  unfold Code.exit at hAt
  generalize l.opened = n at hAt hDepth
  induction n generalizing pc σ with
  | zero => exact .of_next (Machine.step_jmp hAt hTarget)
  | succ n ih =>
      rw [List.replicate_succ, List.flatten_cons,
        List.append_assoc] at hAt
      apply (reaches_popScope hAt.left (by omega)).trans
      rw [← State.close_close σ n]
      apply ih (hAt.right rfl)
      change n < (σ.scopes.close 1).depth
      rw [Scopes.depth_close]
      omega

------------------------------------------------------------
-- Signals
------------------------------------------------------------

/- Where a run goes on after a statement. -/
def Signal.Arrives
    (code : Code)
    (stop : Nat)
    (loop : Option Loop)
    (stack : Stack) :
    Signal → State → Machine → Prop
| .next, τ, m => m = τ.at stop stack
| .breakLoop, τ, m =>
    ∃ l, loop = some l ∧ m = (τ.close l.opened).at l.leave stack
| .continueLoop, τ, m =>
    ∃ l, loop = some l ∧ m = (τ.close l.opened).at l.next stack
| .ret v, τ, m =>
    ∃ pc, code.Holds pc (Code.bare .ret) ∧ m = τ.at pc (v :: stack)

/- The jumps out of a loop stay inside the stream and the scopes. -/
def Loop.Within
    (code : Code)
    (depth : Nat)
    (loop : Option Loop) : Prop :=
  ∀ l, loop = some l →
    l.leave < code.length ∧ l.next < code.length ∧ l.opened < depth

theorem Loop.Within.enter
    (h : Loop.Within code σ.scopes.depth loop) :
    Loop.Within code (σ.inScopes σ.scopes.push).scopes.depth
      (loop.map .enter) := by
  intro l hl
  rcases Option.map_eq_some_iff.1 hl with ⟨l', hl', rfl⟩
  rcases h l' hl' with ⟨hLeave, hNext, hOpened⟩
  exact ⟨hLeave, hNext, Nat.succ_lt_succ hOpened⟩

/- The scope of the body of a loop is open inside it. -/
theorem Loop.within_body
    {leave next : Nat}
    (hLeave : leave < code.length)
    (hNext : next < code.length) :
    Loop.Within code (σ.inScopes σ.scopes.push).scopes.depth
      (some ⟨leave, next, 1⟩) := by
  intro l hl
  cases hl
  refine ⟨hLeave, hNext, ?_⟩
  change 1 < σ.scopes.outer.length + 1 + 1
  omega

------------------------------------------------------------
-- Blocks
------------------------------------------------------------

/- A run from a position, in a scope of its own, follows. -/
def FollowsInside
    (clash : Prop)
    (P : Routine → Prop)
    (code : Code)
    (bound : Nat)
    (stack : Stack)
    (loop : Option Loop)
    (pc stop : Nat)
    (x : Eval Signal)
    (σ : State) : Prop :=
  Follows clash P code bound stack (σ.inScopes σ.scopes.push)
    ((σ.inScopes σ.scopes.push).at pc stack)
    (Signal.Arrives code stop loop stack)
    (x (σ.inScopes σ.scopes.push))

/- What a block makes of what its statements come to. -/
theorem Eval.inBlock_eq (x : Eval Signal) :
    Eval.inBlock x σ =
      match x (σ.inScopes σ.scopes.push) with
      | .ok (.ret v) τ => .ok (.ret v) τ
      | .ok signal τ => .ok signal (τ.close 1)
      | .error stop τ => .error stop τ := by
  change EStateM.bind x _ (σ.inScopes σ.scopes.push) = _
  unfold EStateM.bind
  cases x (σ.inScopes σ.scopes.push) with
  | error stop τ => rfl
  | ok signal τ =>
      cases signal with
      | _ => rfl

/- A clash inside a block is one of the block. -/
theorem Machine.Clashes.of_push
    {m : Machine}
    (h :
      Machine.Clashes P code stack (σ.inScopes σ.scopes.push) m) :
    Machine.Clashes P code stack σ m := by
  rcases h with ⟨n, e, left, hRun, hError, hStack, opened, hLeads⟩
  exact ⟨n, e, left, hRun, hError, hStack, opened + 1,
    Eval.leads_of_push hLeads⟩

/-
  A run of the statements of a block, behind the instruction
  that opens its scope, follows the block.
-/
theorem follows_inBlock
    {x : Eval Signal}
    {last stop : Nat}
    (hFrames : Eval.Frames P (Signal.Fits P) x)
    (hAll : σ.scopes.All P)
    (hPop : code.Holds last (Code.bare .popScope))
    (hStop : stop = last + 1)
    (hBody :
      FollowsInside clash P code bound stack (loop.map .enter) pc last
        x σ) :
    Follows clash P code bound stack σ
      ((σ.inScopes σ.scopes.push).at pc stack)
      (Signal.Arrives code stop loop stack)
      (Eval.inBlock x σ) := by
  have hKeeps := hFrames (σ.inScopes σ.scopes.push) hAll.push
  rw [Eval.inBlock_eq]
  rcases hBody with hBody | ⟨hClash, hClashes⟩
  · left
    cases hResult : x (σ.inScopes σ.scopes.push) with
    | error e τ =>
        rw [hResult] at hBody
        cases e with
        | failed e => exact hBody
        | unfinished => exact hBody
        | meaningless => exact hBody
    | ok signal τ =>
        rw [hResult] at hBody hKeeps
        rcases hBody with ⟨after, hReach, hArrive⟩
        rcases hKeeps with ⟨opened, hFits, hLeads⟩
        cases signal with
        | ret v => exact ⟨after, hReach, hArrive⟩
        | next =>
            cases hFits
            cases hArrive
            have hDepth : 1 < τ.scopes.depth := by
              have hOver := hLeads.reach.depth
              rw [hOver]
              change 1 < σ.scopes.push.depth + 0
              rw [Scopes.depth_push]
              unfold Scopes.depth
              omega
            refine ⟨_, hReach.trans (reaches_popScope hPop hDepth), ?_⟩
            subst hStop
            rfl
        | breakLoop =>
            rcases hArrive with ⟨l, hl, rfl⟩
            rcases Option.map_eq_some_iff.1 hl with ⟨l', hl', rfl⟩
            refine ⟨_, hReach, l', hl', ?_⟩
            rw [State.close_close]
            rfl
        | continueLoop =>
            rcases hArrive with ⟨l, hl, rfl⟩
            rcases Option.map_eq_some_iff.1 hl with ⟨l', hl', rfl⟩
            refine ⟨_, hReach, l', hl', ?_⟩
            rw [State.close_close]
            rfl
  · exact .inr ⟨hClash, hClashes.of_push⟩

/- A run of the code of a block follows the block. -/
theorem follows_scoped
    {x : Eval Signal}
    {body : Code}
    {stop : Nat}
    (hFrames : Eval.Frames P (Signal.Fits P) x)
    (hAll : σ.scopes.All P)
    (hAt : code.Holds pc (Code.scoped body))
    (hStop : stop = pc + (Code.scoped body).length)
    (hBody :
      FollowsInside clash P code bound stack (loop.map .enter) (pc + 1)
        (pc + 1 + body.length) x σ) :
    Follows clash P code bound stack σ (σ.at pc stack)
      (Signal.Arrives code stop loop stack)
      (Eval.inBlock x σ) := by
  apply Follows.of_next (Machine.step_pushScope hAt.left.left)
  apply follows_inBlock hFrames hAll (hAt.right _) _ hBody
  · simp
    omega
  · rw [hStop, Code.length_scoped]
    omega

------------------------------------------------------------
-- Definitions
------------------------------------------------------------

/- A variable is declared, and a value stored that is made later. -/
theorem follows_define
    {x : Eval Value}
    {name : String}
    {value : Code}
    (hAt :
      code.Holds pc
        (Code.named .alloc name ++ value ++ Code.named .store name))
    (hSteady : Eval.Steady P (Value.All P) x)
    (hAll : σ.scopes.All P)
    (hValue :
      ∀ τ : State, τ.scopes.All P →
        Follows clash P code bound stack τ (τ.at (pc + 2) stack)
          (Arrives (pc + 2 + value.length) (· :: stack)) (x τ)) :
    Follows clash P code bound stack σ (σ.at pc stack)
      (Signal.Arrives code (pc + value.length + 4) loop stack)
      ((do
        Eval.declare name
        let v ← x
        Eval.store name v
        return .next : Eval Signal) σ) := by
  have hStore :
      code.Holds (pc + 2 + value.length) (Code.named .store name) :=
    hAt.right (by simp; omega)
  apply (follows_declare hAt.left.left).bind
    (Eval.steady_declare name) hAll
  rintro _ τ _ _ _ hAll rfl
  apply (hValue τ hAll).bind hSteady hAll
  rintro v υ _ _ hv hAll rfl
  apply (follows_store hStore).bind (Eval.steady_store hv) hAll
  rintro _ ω _ _ _ _ rfl
  apply Follows.of_arrive
  change _ = _
  congr 1
  omega

------------------------------------------------------------
-- Branches
------------------------------------------------------------

variable {test body other : Code}

/- A condition is evaluated, and a block run if it holds. -/
theorem follows_ifThen
    {x : Eval Value}
    {y : Eval Signal}
    (hAt :
      code.Holds pc
        (test ++ Code.jump .jz (pc + test.length + body.length + 4)
          ++ Code.scoped body))
    (hEnd : pc + test.length + body.length + 4 < code.length)
    (hSteady : Eval.Steady P (Value.All P) x)
    (hFrames : Eval.Frames P (Signal.Fits P) y)
    (hAll : σ.scopes.All P)
    (hTest :
      Follows clash P code bound stack σ (σ.at pc stack)
        (Arrives (pc + test.length) (· :: stack)) (x σ))
    (hBody :
      ∀ τ, σ.Leads P 0 τ →
        FollowsInside clash P code bound stack (loop.map .enter)
          (pc + test.length + 3) (pc + test.length + 3 + body.length)
          y τ) :
    Follows clash P code bound stack σ (σ.at pc stack)
      (Signal.Arrives code (pc + test.length + body.length + 4) loop
        stack)
      ((do
        if (← x).isZero then return .next
        else Eval.inBlock y : Eval Signal) σ) := by
  have hScoped :
      code.Holds (pc + test.length + 2) (Code.scoped body) :=
    hAt.right (by simp; omega)
  apply hTest.andThen (hSteady σ hAll)
  rintro v τ _ _ _ ⟨rfl, _⟩ hLeads rfl
  apply Follows.of_leads hLeads
  apply Follows.of_reaches (reaches_jz (hAt.left.right rfl) hEnd)
  cases v.isZero with
  | true => exact .of_arrive rfl
  | false =>
      exact follows_scoped hFrames hLeads.all hScoped
        (by simp; omega) (hBody τ hLeads)

/- One of two blocks is run, as the condition says. -/
theorem follows_ifElse
    {x : Eval Value}
    {y z : Eval Signal}
    (hAt :
      code.Holds pc
        (test ++ Code.jump .jz (pc + test.length + body.length + 6)
          ++ Code.scoped body
          ++ Code.jump .jmp
            (pc + test.length + body.length + other.length + 8)
          ++ Code.scoped other))
    (hEnd :
      pc + test.length + body.length + other.length + 8 < code.length)
    (hSteady : Eval.Steady P (Value.All P) x)
    (hFrames : Eval.Frames P (Signal.Fits P) y)
    (hFrames' : Eval.Frames P (Signal.Fits P) z)
    (hAll : σ.scopes.All P)
    (hTest :
      Follows clash P code bound stack σ (σ.at pc stack)
        (Arrives (pc + test.length) (· :: stack)) (x σ))
    (hBody :
      ∀ τ, σ.Leads P 0 τ →
        FollowsInside clash P code bound stack (loop.map .enter)
          (pc + test.length + 3) (pc + test.length + 3 + body.length)
          y τ)
    (hOther :
      ∀ τ, σ.Leads P 0 τ →
        FollowsInside clash P code bound stack (loop.map .enter)
          (pc + test.length + body.length + 7)
          (pc + test.length + body.length + 7 + other.length)
          z τ) :
    Follows clash P code bound stack σ (σ.at pc stack)
      (Signal.Arrives code
        (pc + test.length + body.length + other.length + 8) loop stack)
      ((do
        if (← x).isZero then Eval.inBlock z
        else Eval.inBlock y : Eval Signal) σ) := by
  have hScoped :
      code.Holds (pc + test.length + 2) (Code.scoped body) :=
    hAt.left.left.right (by simp; omega)
  have hSkip :
      code.Holds (pc + test.length + 2 + (Code.scoped body).length)
        (Code.jump .jmp
          (pc + test.length + body.length + other.length + 8)) :=
    hAt.left.right (by simp; omega)
  have hElse :
      code.Holds (pc + test.length + body.length + 6)
        (Code.scoped other) :=
    hAt.right (by simp; omega)
  apply hTest.andThen (hSteady σ hAll)
  rintro v τ _ _ _ ⟨rfl, _⟩ hLeads rfl
  apply Follows.of_leads hLeads
  apply Follows.of_reaches
    (reaches_jz (hAt.left.left.left.right rfl) (by omega))
  cases v.isZero with
  | true =>
      exact follows_scoped hFrames' hLeads.all hElse
        (by simp; omega) (hOther τ hLeads)
  | false =>
      have hDone :=
        follows_scoped hFrames hLeads.all hScoped rfl (hBody τ hLeads)
      apply hDone.reach
      intro signal υ after hArrive
      cases signal with
      | next =>
          cases hArrive
          exact ⟨_, .of_next (Machine.step_jmp hSkip hEnd), rfl⟩
      | _ => exact ⟨after, .refl, hArrive⟩

------------------------------------------------------------
-- Loops
------------------------------------------------------------

/-
  A run of a loop follows its repetitions. Every repetition
  opens a scope, so a run that is bounded by the number of
  repetitions left is unfinished when none is.
-/
theorem follows_repeated
    {test : Eval Bool}
    {x : Eval Signal}
    {update : Eval Unit}
    {again inner last next leave : Nat}
    (hSteadyTest : Eval.Steady P (fun _ => True) test)
    (hFrames : Eval.Frames P (Signal.Fits P) x)
    (hSteadyUpdate : Eval.Steady P (fun _ => True) update)
    (hTest :
      ∀ σ : State, σ.scopes.All P →
        Follows clash P code bound stack σ (σ.at again stack)
          (fun b τ m =>
            m = τ.at (if b then inner else leave) stack)
          (test σ))
    (hPush : code.Holds inner (Code.bare .pushScope))
    (hBody :
      ∀ σ : State, σ.scopes.All P →
        Follows clash P code bound stack σ
          ((σ.inScopes σ.scopes.push).at (inner + 1) stack)
          (Signal.Arrives code last (some ⟨leave, next, 0⟩) stack)
          (Eval.inBlock x σ))
    (hNext :
      ∀ σ : State,
        Machine.Reaches code (σ.at last stack) (σ.at next stack))
    (hUpdate :
      ∀ σ : State, σ.scopes.All P →
        Follows clash P code bound stack σ (σ.at next stack)
          (Arrives again fun _ => stack) (update σ))
    {left : Nat}
    (hLeft : left ≤ bound)
    (hAll : σ.scopes.All P) :
    Follows clash P code left stack σ (σ.at again stack)
      (Signal.Arrives code leave loop stack)
      (Eval.repeated test (Eval.inBlock x) update left σ) := by
  induction left generalizing σ with
  | zero => exact .inl rfl
  | succ left ih =>
      have hAgain (υ : State) (hAll : υ.scopes.All P) :
          Follows clash P code left stack υ (υ.at next stack)
            (Signal.Arrives code leave loop stack)
            ((update >>= fun _ =>
              Eval.repeated test (Eval.inBlock x) update left) υ) := by
        apply ((hUpdate υ hAll).of_le (by omega)).bind
          hSteadyUpdate hAll
        rintro _ ω _ _ _ hAll rfl
        exact ih (by omega) hAll
      unfold Eval.repeated
      apply ((hTest σ hAll).of_le hLeft).bind hSteadyTest hAll
      rintro b τ _ _ _ hAll rfl
      cases b with
      | false => exact .of_arrive rfl
      | true =>
          apply Follows.of_next_succ (Machine.step_pushScope hPush)
          apply ((hBody τ hAll).of_le (by omega)).andThen
            (Eval.frames_inBlock hFrames τ hAll)
          intro signal υ opened after _ hFits hLeads hArrive
          cases signal with
          | ret v => exact .of_arrive hArrive
          | breakLoop =>
              rcases hArrive with ⟨l, hl, rfl⟩
              cases hl
              exact .of_arrive rfl
          | next =>
              cases hFits
              cases hArrive
              apply Follows.of_leads hLeads
              exact (hAgain υ hLeads.all).of_reaches (hNext υ)
          | continueLoop =>
              cases hFits
              rcases hArrive with ⟨l, hl, rfl⟩
              cases hl
              apply Follows.of_leads hLeads
              exact hAgain υ hLeads.all

/-
  A run of a loop follows its rounds, where the body of a
  round has a scope of its own and the update ends with a
  jump back to the test.
-/
theorem follows_rounds
    {holds : Eval Bool}
    {x : Eval Signal}
    {update : Eval Unit}
    {again inner next leave : Nat}
    (hScoped : code.Holds inner (Code.scoped body))
    (hSteadyTest : Eval.Steady P (fun _ => True) holds)
    (hFrames : Eval.Frames P (Signal.Fits P) x)
    (hSteadyUpdate : Eval.Steady P (fun _ => True) update)
    (hTest :
      ∀ σ : State, σ.scopes.All P →
        Follows clash P code bound stack σ (σ.at again stack)
          (fun b τ m =>
            m = τ.at (if b then inner else leave) stack)
          (holds σ))
    (hBody :
      ∀ σ : State, σ.scopes.All P →
        FollowsInside clash P code bound stack
          (some ⟨leave, next, 1⟩) (inner + 1)
          (inner + 1 + body.length) x σ)
    (hNext :
      ∀ σ : State,
        Machine.Reaches code (σ.at (inner + body.length + 2) stack)
          (σ.at next stack))
    (hUpdate :
      ∀ σ : State, σ.scopes.All P →
        Follows clash P code bound stack σ (σ.at next stack)
          (Arrives again fun _ => stack) (update σ))
    (hAll : σ.scopes.All P) :
    Follows clash P code bound stack σ (σ.at again stack)
      (Signal.Arrives code leave loop stack)
      (Eval.repeated holds (Eval.inBlock x) update bound σ) := by
  have hBlock (σ : State) (hAll : σ.scopes.All P) :
      Follows clash P code bound stack σ
        ((σ.inScopes σ.scopes.push).at (inner + 1) stack)
        (Signal.Arrives code (inner + body.length + 2)
          (some ⟨leave, next, 0⟩) stack)
        (Eval.inBlock x σ) :=
    follows_inBlock hFrames hAll (hScoped.right (by simp; omega))
      (by omega) (hBody σ hAll)
  exact follows_repeated hSteadyTest hFrames hSteadyUpdate hTest
    hScoped.left.left hBlock hNext hUpdate (Nat.le_refl bound) hAll

/- The code of a `while` loop tests, runs a block and jumps back. -/
theorem follows_whileLoop
    {holds : Eval Bool}
    {x : Eval Signal}
    {leave : Nat}
    (hAt :
      code.Holds pc
        (test ++ Code.jump .jz leave ++ Code.scoped body
          ++ Code.jump .jmp pc))
    (hEnd : pc < code.length)
    (hSteady : Eval.Steady P (fun _ => True) holds)
    (hFrames : Eval.Frames P (Signal.Fits P) x)
    (hTest :
      ∀ σ : State, σ.scopes.All P →
        Follows clash P code bound stack σ (σ.at pc stack)
          (fun b τ m =>
            m = τ.at (if b then pc + test.length + 2 else leave) stack)
          (holds σ))
    (hBody :
      ∀ σ : State, σ.scopes.All P →
        FollowsInside clash P code bound stack (some ⟨leave, pc, 1⟩)
          (pc + test.length + 3) (pc + test.length + 3 + body.length)
          x σ)
    (hAll : σ.scopes.All P) :
    Follows clash P code bound stack σ (σ.at pc stack)
      (Signal.Arrives code leave loop stack)
      (Eval.repeated holds (Eval.inBlock x) (return) bound σ) := by
  have hScoped :
      code.Holds (pc + test.length + 2) (Code.scoped body) :=
    hAt.left.right (by simp; omega)
  have hBack :
      code.Holds (pc + test.length + 2 + body.length + 2)
        (Code.jump .jmp pc) :=
    hAt.right (by simp; omega)
  exact follows_rounds hScoped hSteady hFrames
    (Eval.steady_pure trivial) hTest hBody
    (fun _ => .of_next (Machine.step_jmp hBack hEnd))
    (fun _ _ => .of_arrive rfl) hAll

/-
  The code of a `for` loop has a scope for its first
  statement around the rounds. A statement that does not go
  on leaves the loop before the first round.
-/
theorem follows_forLoop
    {holds : Eval Bool}
    {x y : Eval Signal}
    {update : Eval Unit}
    {first last : Code}
    {again next leave : Nat}
    (hAt :
      code.Holds pc
        (Code.bare .pushScope ++ first ++ test ++ Code.scoped body
          ++ last ++ Code.jump .jmp again ++ Code.bare .popScope))
    (hAgain : again = pc + first.length + 1)
    (hNext : next = again + test.length + body.length + 2)
    (hLeave : leave = next + last.length + 2)
    (hEnd : leave < code.length)
    (hFramesFirst : Eval.Frames P (Signal.Fits P) y)
    (hSteadyTest : Eval.Steady P (fun _ => True) holds)
    (hFrames : Eval.Frames P (Signal.Fits P) x)
    (hSteadyUpdate : Eval.Steady P (fun _ => True) update)
    (hAll : σ.scopes.All P)
    (hFirst :
      FollowsInside clash P code bound stack (loop.map .enter) (pc + 1)
        again y σ)
    (hTest :
      ∀ σ : State, σ.scopes.All P →
        Follows clash P code bound stack σ (σ.at again stack)
          (fun b τ m =>
            m = τ.at (if b then again + test.length else leave) stack)
          (holds σ))
    (hBody :
      ∀ σ : State, σ.scopes.All P →
        FollowsInside clash P code bound stack
          (some ⟨leave, next, 1⟩) (again + test.length + 1)
          (again + test.length + 1 + body.length) x σ)
    (hUpdate :
      ∀ σ : State, σ.scopes.All P →
        Follows clash P code bound stack σ (σ.at next stack)
          (Arrives (next + last.length) fun _ => stack) (update σ)) :
    Follows clash P code bound stack σ (σ.at pc stack)
      (Signal.Arrives code (leave + 1) loop stack)
      (Eval.inBlock
        (do
          match ← y with
          | .next =>
              Eval.repeated holds (Eval.inBlock x) update bound
          | signal => return signal) σ) := by
  have hScoped :
      code.Holds (again + test.length) (Code.scoped body) :=
    hAt.left.left.left.right (by simp; omega)
  have hBack :
      code.Holds (next + last.length) (Code.jump .jmp again) :=
    hAt.left.right (by simp; omega)
  have hPop : code.Holds leave (Code.bare .popScope) :=
    hAt.right (by simp; omega)
  have hFramesAll :
      Eval.Frames P (Signal.Fits P)
        (do
          match ← y with
          | .next =>
              Eval.repeated holds (Eval.inBlock x) update bound
          | signal => return signal) := by
    apply Eval.frames_andThen hFramesFirst
    · exact Eval.frames_repeated hSteadyTest
        (Eval.frames_inBlock hFrames) hSteadyUpdate bound
    · intro signal hSignal
      cases signal with
      | next => exact absurd rfl hSignal
      | _ => rfl
  apply Follows.of_next
    (Machine.step_pushScope hAt.left.left.left.left.left.left)
  refine follows_inBlock hFramesAll hAll hPop rfl ?_
  apply hFirst.andThen (hFramesFirst _ hAll.push)
  intro signal τ opened after _ hFits hLeads hArrive
  cases signal with
  | next =>
      cases hFits
      cases hArrive
      apply Follows.of_leads hLeads
      refine follows_rounds hScoped hSteadyTest hFrames hSteadyUpdate
        hTest hBody ?_ ?_ hLeads.all
      · intro υ
        rw [← hNext]
      · intro υ hAll
        apply (hUpdate υ hAll).reach
        rintro _ ω _ rfl
        exact ⟨_, .of_next (Machine.step_jmp hBack (by omega)), rfl⟩
  | _ => exact .of_arrive hArrive

end StackScript
