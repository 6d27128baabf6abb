import StackScript.Proofs.Emission.Standing

/-
  Targets that are filled in later are those known ahead.

  Writing a statement to a draft and emitting it for the
  position where it stands succeed alike, and what is
  written stands for what is emitted. At the end of a
  program no hole is left and no loop is open, so that the
  two streams are the same.

  Key definitions include:
    * `Emit.Alike`
    * `Drafting.Makes`

  Key theorems include:
    * `Stmt.makes_draft`
    * `Program.compile_eq`
-/

namespace StackScript

------------------------------------------------------------
-- Work That Ends Alike
------------------------------------------------------------

/-
  Two results are errors of one kind, or values that are
  related; the same fresh numbers are used up.
-/
inductive Emit.EndAlike
    {α β : Type}
    (R : α → β → Prop) :
    EStateM.Result CompileError Fresh α →
      EStateM.Result CompileError Fresh β → Prop where
| ok {a b} (f : Fresh) (h : R a b) : EndAlike R (.ok a f) (.ok b f)
| error (e : CompileError) (f : Fresh) :
    EndAlike R (.error e f) (.error e f)

/- Two pieces of work end alike, from all fresh numbers. -/
def Emit.Alike
    {α β : Type}
    (m : Emit α)
    (x : Emit β)
    (R : α → β → Prop) : Prop :=
  ∀ f, Emit.EndAlike R (m f) (x f)

namespace Emit.Alike

variable {α β γ δ : Type}
variable {m : Emit α}
variable {x : Emit β}
variable {R : α → β → Prop}
variable {S : γ → δ → Prop}

theorem pure
    {a : α}
    {b : β}
    (h : R a b) :
    Emit.Alike (Pure.pure a) (Pure.pure b) R :=
  fun f => .ok f h

theorem throw (e : CompileError) :
    Emit.Alike (MonadExcept.throw e) (MonadExcept.throw e) R :=
  fun f => .error e f

theorem refl (x : Emit α) : x.Alike x Eq := by
  intro f
  cases x f with
  | ok a g => exact .ok g rfl
  | error e g => exact .error e g

/- What is related becomes related in another way. -/
theorem mono
    {R' : α → β → Prop}
    (h : m.Alike x R)
    (hOther : ∀ a b, R a b → R' a b) :
    m.Alike x R' := by
  intro f
  have hEnds := h f
  generalize m f = r at hEnds ⊢
  generalize x f = r' at hEnds ⊢
  cases hEnds with
  | ok g hR => exact .ok g (hOther _ _ hR)
  | error e g => exact .error e g

/-
  One step after the other. What is done next may use that
  the step on the right has succeeded.
-/
theorem bind
    {k : α → Emit γ}
    {y : β → Emit δ}
    (h : m.Alike x R)
    (hNext :
      ∀ a b, (∃ f g, x f = .ok b g) → R a b → (k a).Alike (y b) S) :
    (m >>= k).Alike (x >>= y) S := by
  intro f
  change Emit.EndAlike S (EStateM.bind m k f) (EStateM.bind x y f)
  unfold EStateM.bind
  have hEnds := h f
  revert hEnds
  cases hx : x f with
  | ok b g =>
      intro hEnds
      generalize m f = r at hEnds
      cases hEnds with
      | ok _ hR => exact hNext _ b ⟨f, g, hx⟩ hR g
  | error e g =>
      intro hEnds
      generalize m f = r at hEnds
      cases hEnds
      exact .error e g

/- What holds for each index holds for all at once. -/
theorem all
    {ι : Type}
    [Inhabited ι]
    {R : ι → α → β → Prop}
    (h : ∀ i, m.Alike x (R i)) :
    m.Alike x fun a b => ∀ i, R i a b := by
  intro f
  have hEnds i := h i f
  generalize m f = r at hEnds
  generalize x f = r' at hEnds
  cases hEnds default with
  | ok g _ =>
      refine .ok g fun i => ?_
      cases hEnds i with
      | ok _ hR => exact hR
  | error e g => exact .error e g

/- What is computed from the same value. -/
theorem bind_pure_left
    {x : Emit β}
    {g : β → α}
    (h : ∀ b, R (g b) b) :
    (x >>= fun b => Pure.pure (g b)).Alike x R := by
  intro f
  change Emit.EndAlike R (EStateM.bind x _ f) (x f)
  unfold EStateM.bind
  cases x f with
  | ok b f' => exact .ok f' (h b)
  | error e f' => exact .error e f'

/- Where related values become equal, the work is the same. -/
theorem bind_pure_eq
    {g : α → β}
    (h : m.Alike x R)
    (hEq : ∀ a b, R a b → g a = b) :
    (m >>= fun a => Pure.pure (g a)) = x := by
  funext f
  change EStateM.bind m _ f = x f
  unfold EStateM.bind
  have hEnds := h f
  generalize m f = r at hEnds
  generalize x f = r' at hEnds
  cases hEnds with
  | ok _ hR =>
      rw [← hEq _ _ hR]
      rfl
  | error e g => rfl

end Emit.Alike

------------------------------------------------------------
-- Pieces with Open Targets
------------------------------------------------------------

namespace Drafting

variable {m k test body other update : Drafting Unit}
variable {t : Nat → Emit Code}
variable {x y : Nat → Option Loop → Emit Code}

/-
  Wherever a draft stands for some code, it does so again
  when a piece is written, for the code with the piece that
  is emitted there.
-/
def Makes
    (m : Drafting Unit)
    (x : Nat → Option Loop → Emit Code) : Prop :=
  ∀ ⦃d : Draft⦄ ⦃loop : Option Loop⦄ ⦃holes : List Nat⦄ ⦃code : Code⦄,
    d.Stands loop holes code →
    Emit.Alike (m.run d) (x code.length loop) fun p piece =>
      p.2.Stands loop holes (code ++ piece) ∧ d.Keeps p.2

/- Pieces without open targets are a case of this. -/
theorem Writes.makes (h : m.Writes t) :
    m.Makes fun start _ => t start := by
  intro d loop holes code hStands
  rw [h d, hStands.length]
  exact .bind_pure_left fun piece => ⟨hStands.append piece, rfl, rfl⟩

theorem Makes.congr
    (h : m.Makes x)
    (hSame : ∀ start loop, x start loop = y start loop) :
    m.Makes y := by
  intro d loop holes code hStands
  rw [← hSame]
  exact h hStands

/- One piece behind the other. -/
theorem Makes.join
    (hm : m.Makes x)
    (hk : k.Makes y) :
    (do m; k : Drafting Unit).Makes fun start loop => do
      let first ← x start loop
      let rest ← y (start + first.length) loop
      return first ++ rest := by
  intro d loop holes code hStands
  rw [StateT.run_bind]
  refine (hm hStands).bind fun p first _ ⟨hFirst, hKeeps⟩ => ?_
  rw [← bind_pure (k.run p.2), ← List.length_append]
  refine (hk hFirst).bind fun q rest _ ⟨hRest, hKeeps'⟩ => .pure ⟨?_, ?_⟩
  · rw [← List.append_assoc]
    exact hRest
  · exact hKeeps.trans hKeeps'

/- A scope around a piece is closed again. -/
theorem Makes.inScope (h : m.Makes x) :
    (inScope m).Makes fun start loop => do
      let body ← x (start + 1) (loop.map .enter)
      return Code.scoped body := by
  intro d loop holes code hStands
  have hRun :
      (Drafting.inScope m).run d =
        m.run d.pushScope >>= fun p => pure ((), p.2.popScope) := rfl
  rw [hRun]
  have hInside := h hStands.pushScope
  rw [List.length_append] at hInside
  refine hInside.bind fun p body _ ⟨hBody, hKeeps⟩ => ?_
  have hScoped :
      code ++ Code.scoped body =
        code ++ Code.bare .pushScope ++ body ++ Code.bare .popScope := by
    simp [Code.scoped]
  refine .pure ⟨?_, hKeeps.popScope⟩
  rw [hScoped]
  exact hBody.popScope

theorem run_here (d : Draft) :
    here.run d = pure (d.words.length, d) := rfl

theorem run_jumpTo
    (d : Draft)
    (o : Op)
    (target : Nat) :
    (jumpTo o target).run d =
      pure ((), d.append (Code.jump o target)) := rfl

theorem run_openLoop (d : Draft) :
    openLoop.run d = pure ((), d.openLoop) := rfl

theorem run_closeLoop
    (d : Draft)
    (next leave : Nat) :
    (closeLoop next leave).run d =
      pure ((), d.closeLoop next leave) := rfl

theorem run_patch
    (d : Draft)
    (site target : Nat) :
    (patch site target).run d = pure ((), d.patch site target) := rfl

theorem run_patchExit
    (d : Draft)
    (exit : Option Nat)
    (target : Nat) :
    (patchExit exit target).run d =
      pure ((), d.patchAll exit.toList target) := by
  cases exit <;> rfl

/- What is made where a draft ends. -/
theorem Makes.alike
    {d : Draft}
    {loop : Option Loop}
    {holes : List Nat}
    {code : Code}
    {start : Nat}
    (h : m.Makes x)
    (hStands : d.Stands loop holes code)
    (hStart : d.words.length = start) :
    Emit.Alike (m.run d) (x start loop) fun p piece =>
      p.2.Stands loop holes (code ++ piece) ∧ d.Keeps p.2 := by
  rw [← hStart, hStands.length]
  exact h hStands

/-
  A piece behind a jump. The target of the jump is open, so
  it is any.
-/
theorem Makes.behind_jump
    {d : Draft}
    {loop : Option Loop}
    {holes : List Nat}
    {code : Code}
    (h : m.Makes x)
    (hStands : d.Stands loop holes code)
    (o : Op) :
    Emit.Alike (m.run (d.append (Code.jump o Code.placeholder)))
      (x (d.words.length + 2) loop) fun p piece => ∀ target,
        p.2.Stands loop ((d.words.length + 1) :: holes)
            (code ++ Code.jump o target ++ piece) ∧
          d.Keeps p.2 := by
  refine Emit.Alike.all fun target => ?_
  refine (h.alike (hStands.jump o target) (d.length_append _)).mono ?_
  exact fun _ _ ⟨hPiece, hKeeps⟩ => ⟨hPiece, hKeeps.depth, hKeeps.outer⟩

/- A jump over a piece is filled in behind it. -/
theorem Makes.ifThen
    (hTest : test.Writes t)
    (hBody : body.Makes x) :
    (do
      test
      let toElse ← jump .jz
      body
      patchHere toElse : Drafting Unit).Makes fun start loop => do
      let test ← t start
      let inner := start + test.length + 2
      let body ← x inner loop
      return test ++ Code.jump .jz (inner + body.length) ++ body := by
  intro d loop holes code hStands
  simp only [StateT.run_bind, hTest d, run_jump, run_patchHere, bind_assoc,
    pure_bind]
  rw [hStands.length]
  refine (Emit.Alike.refl _).bind fun test _ _ hEq => ?_
  subst hEq
  have hTested := hStands.append test
  have hPlace :
      (d.append test).words.length = code.length + test.length := by
    rw [Draft.length_append, hStands.length]
  have hInside := hBody.behind_jump hTested .jz
  rw [hPlace] at hInside ⊢
  refine hInside.bind fun p body _ hMade => .pure ?_
  obtain ⟨hOpen, hKeeps⟩ :=
    hMade (code.length + test.length + 2 + body.length)
  have hHere :
      p.2.words.length = code.length + test.length + 2 + body.length := by
    simp [hOpen.length, Nat.add_assoc]
  have hTarget := hTested.target_jump .jz p.2.words.length
  rw [hPlace, hHere] at hTarget
  rw [hHere, ← List.append_assoc, ← List.append_assoc]
  exact ⟨hOpen.patch (Code.getElem?_append_of_eq body hTarget),
    hKeeps.depth, hKeeps.outer⟩

/- Likewise with a second piece, and a jump over that. -/
theorem Makes.ifElse
    (hTest : test.Writes t)
    (hBody : body.Makes x)
    (hOther : other.Makes y) :
    (do
      test
      let toElse ← jump .jz
      body
      let toEnd ← jump .jmp
      patchHere toElse
      other
      patchHere toEnd : Drafting Unit).Makes fun start loop => do
      let test ← t start
      let inner := start + test.length + 2
      let body ← x inner loop
      let second := inner + body.length + 2
      let other ← y second loop
      return test ++ Code.jump .jz second ++ body
        ++ Code.jump .jmp (second + other.length) ++ other := by
  intro d loop holes code hStands
  simp only [StateT.run_bind, hTest d, run_jump, run_patchHere, bind_assoc,
    pure_bind]
  rw [hStands.length]
  refine (Emit.Alike.refl _).bind fun test _ _ hEq => ?_
  subst hEq
  have hTested := hStands.append test
  have hPlace :
      (d.append test).words.length = code.length + test.length := by
    rw [Draft.length_append, hStands.length]
  have hInside := hBody.behind_jump hTested .jz
  rw [hPlace] at hInside ⊢
  refine hInside.bind fun p body _ hMade => ?_
  obtain ⟨hOpen, hKeeps⟩ :=
    hMade (code.length + test.length + 2 + body.length + 2)
  have hHere :
      (p.2.append (Code.jump .jmp Code.placeholder)).words.length =
        code.length + test.length + 2 + body.length + 2 := by
    simp [hOpen.length, Nat.add_assoc]
  have hTarget := hTested.target_jump .jz
    (code.length + test.length + 2 + body.length + 2)
  rw [hPlace] at hTarget
  rw [hHere]
  -- The first jump leads behind the second, which is open now.
  have hPatched target := (hOpen.jump .jmp target).swap.patch
    (Code.getElem?_append_of_eq _
      (Code.getElem?_append_of_eq body hTarget))
  have hBehind target := hOther.alike (hPatched target)
    ((Draft.length_patch _ _ _).trans hHere)
  refine (Emit.Alike.all hBehind).bind fun q other _ hEnd => .pure ?_
  obtain ⟨hOpen', hKeeps'⟩ :=
    hEnd (code.length + test.length + 2 + body.length + 2 + other.length)
  have hHere' :
      q.2.words.length =
        code.length + test.length + 2 + body.length + 2 + other.length := by
    simp [hOpen'.length, Nat.add_assoc]
  have hLanded := hOpen'.patch
    (Code.getElem?_append_of_eq other (hOpen.target_jump .jmp _))
  rw [hHere']
  simp only [← List.append_assoc]
  exact ⟨hLanded, hKeeps'.depth.trans hKeeps.depth,
    hKeeps'.outer.trans hKeeps.outer⟩

/-
  A loop ends where its size says, so all that leaves it is
  filled in with the target that the emitted code has.
-/
theorem Makes.whileLoop
    {size : Nat}
    (hTest : test.Writes t)
    (hBody : body.Makes x)
    (hSize :
      ∀ start leave next f piece g,
        x start (some ⟨leave, next, 0⟩) f = .ok piece g →
          piece.length = size) :
    (do
      let start ← here
      test
      let exit ← jump .jz
      openLoop
      body
      jumpTo .jmp start
      let leave ← here
      closeLoop start leave
      patch exit leave : Drafting Unit).Makes fun start _ => do
      let test ← t start
      let inner := start + test.length + 2
      let leave := inner + size + 2
      let body ← x inner (some ⟨leave, start, 0⟩)
      return test ++ Code.jump .jz leave ++ body
        ++ Code.jump .jmp start := by
  intro d loop holes code hStands
  simp only [StateT.run_bind, hTest d, run_here, run_jump, run_jumpTo,
    run_openLoop, run_closeLoop, run_patch, bind_assoc, pure_bind]
  rw [hStands.length]
  refine (Emit.Alike.refl _).bind fun test _ _ hEq => ?_
  subst hEq
  obtain ⟨leave, hLeave⟩ :
      ∃ leave, leave = code.length + test.length + 2 + size + 2 :=
    ⟨_, rfl⟩
  rw [← hLeave]
  have hTested := hStands.append test
  have hJumped := hTested.jump .jz leave
  have hInner :
      ((d.append test).append
          (Code.jump .jz Code.placeholder)).openLoop.words.length =
        code.length + test.length + 2 := by
    simp [hStands.length, Nat.add_assoc]
  refine (hBody.alike (hJumped.openLoop leave code.length) hInner).bind
    fun p body ⟨f, g, hMade⟩ ⟨hBodied, hKeeps⟩ => .pure ?_
  have hBack := hBodied.append (Code.jump .jmp code.length)
  have hHere :
      (p.2.append (Code.jump .jmp code.length)).words.length = leave := by
    have hLength := hSize _ _ _ _ _ _ hMade
    simp [hBack.length, hLeave, ← hLength, Nat.add_assoc]
  have hExit :=
    Code.getElem?_append_of_eq (body ++ Code.jump .jmp code.length)
      (hTested.target_jump .jz leave)
  rw [← List.append_assoc] at hExit
  rw [hHere, ← List.append_assoc, ← List.append_assoc, ← List.append_assoc]
  have hEnded := hBack.endLoop [(d.append test).words.length + 1]
    (hKeeps.append _) ((hJumped.waits.append body).append _)
    (List.forall_mem_singleton.2 hExit)
  exact ⟨hEnded.1, hEnded.2.depth, hEnded.2.outer⟩

/-
  A test may be missing, and then it has no exit. All code
  of a test has the size foretold.
-/
def Tests
    (test : Drafting (Option Nat))
    (t : Nat → Nat → Emit Code)
    (size : Nat) : Prop :=
  ∀ ⦃d : Draft⦄ ⦃loop : Option Loop⦄ ⦃holes : List Nat⦄ ⦃code : Code⦄,
    d.Stands loop holes code →
    ∀ leave,
      Emit.Alike (test.run d) (t code.length leave) fun p piece =>
        p.2.Stands loop (p.1.toList ++ holes) (code ++ piece) ∧
        d.Keeps p.2 ∧
        (∀ site ∈ p.1.toList,
          (code ++ piece)[site]? = some (.target leave)) ∧
        piece.length = size

/- The test of a loop that may have none. -/
theorem tests_draftTest (condition : Option Expr) :
    (Expr.draftTest condition).Tests
      (fun start leave =>
        emitOption []
          (fun e => do
            let code ← e.emit start true
            return code ++ Code.jump .jz leave)
          condition)
      (sizeOr 0 (·.size true + 2) condition) := by
  intro d loop holes code hStands leave
  cases condition with
  | none =>
      refine .pure ⟨?_, .refl d, fun _ hSite => ?_, rfl⟩
      · rw [List.append_nil]
        exact hStands
      · exact absurd hSite List.not_mem_nil
  | some e =>
      simp only [Expr.draftTest, emitOption, StateT.run_bind,
        e.writes_draft true d, run_jump, bind_assoc, pure_bind]
      rw [hStands.length]
      refine (Emit.Alike.refl _).bind fun piece _ hMade hEq => ?_
      subst hEq
      obtain ⟨f, g, hMade⟩ := hMade
      have hTested := hStands.append piece
      have hOpen := hTested.jump .jz leave
      rw [List.append_assoc] at hOpen
      refine .pure ⟨hOpen, ⟨rfl, rfl⟩, ?_, ?_⟩
      · rw [← List.append_assoc]
        exact List.forall_mem_singleton.2 (hTested.target_jump .jz leave)
      · simp [sizeOr, e.length_emit hMade]

/- A loop with an update, to which `continue` leads. -/
theorem Makes.forLoop
    {test : Drafting (Option Nat)}
    {t : Nat → Nat → Emit Code}
    {u : Nat → Emit Code}
    {testSize size updateSize : Nat}
    (hTest : test.Tests t testSize)
    (hBody : body.Makes x)
    (hUpdate : update.Writes u)
    (hSize :
      ∀ start leave next f piece g,
        x start (some ⟨leave, next, 0⟩) f = .ok piece g →
          piece.length = size)
    (hUpdateSize :
      ∀ start f piece g,
        u start f = .ok piece g → piece.length = updateSize) :
    (do
      let start ← here
      let exit ← test
      openLoop
      body
      let next ← here
      update
      jumpTo .jmp start
      let leave ← here
      closeLoop next leave
      patchExit exit leave : Drafting Unit).Makes fun start _ => do
      let inner := start + testSize
      let next := inner + size
      let leave := next + updateSize + 2
      let test ← t start leave
      let body ← x inner (some ⟨leave, next, 0⟩)
      let last ← u next
      return test ++ body ++ last ++ Code.jump .jmp start := by
  intro d loop holes code hStands
  simp only [StateT.run_bind, run_here, run_jumpTo, run_openLoop,
    run_closeLoop, run_patchExit, bind_assoc, pure_bind, hUpdate _]
  rw [hStands.length]
  obtain ⟨next, hNext⟩ : ∃ next, next = code.length + testSize + size :=
    ⟨_, rfl⟩
  obtain ⟨leave, hLeave⟩ : ∃ leave, leave = next + updateSize + 2 :=
    ⟨_, rfl⟩
  rw [← hNext, ← hLeave]
  refine (hTest hStands leave).bind
    fun p test _ ⟨hTested, hKept, hExits, hTestSize⟩ => ?_
  have hInner :
      p.2.openLoop.words.length = code.length + testSize := by
    simp [hTested.length, hTestSize]
  refine (hBody.alike (hTested.openLoop leave next) hInner).bind
    fun q body ⟨f, g, hMade⟩ ⟨hBodied, hKeeps⟩ => ?_
  have hThere : q.2.words.length = next := by
    simp [hBodied.length, hNext, hTestSize, hSize _ _ _ _ _ _ hMade,
      Nat.add_assoc]
  rw [hThere]
  refine (Emit.Alike.refl _).bind fun last _ ⟨f, g, hLast⟩ hEq => .pure ?_
  subst hEq
  have hBack := (hBodied.append last).append (Code.jump .jmp code.length)
  have hHere :
      ((q.2.append last).append
          (Code.jump .jmp code.length)).words.length = leave := by
    simp [hThere, hLeave, hUpdateSize _ _ _ _ hLast, Nat.add_assoc]
  have hWaits :=
    ((hTested.waits.append body).append last).append
      (Code.jump .jmp code.length)
  have hEnded := hBack.endLoop p.1.toList ((hKeeps.append _).append _)
    hWaits fun site hSite =>
      Code.getElem?_append_of_eq _ (Code.getElem?_append_of_eq last
        (Code.getElem?_append_of_eq body (hExits site hSite)))
  rw [hHere]
  simp only [← List.append_assoc]
  exact ⟨hEnded.1, hKept.trans hEnded.2⟩

/- A jump out of the innermost loop waits for its end. -/
theorem makes_exit
    {add : Draft → Nat → Draft}
    {target : Loop → Nat}
    (hAdd :
      ∀ {d : Draft} {l : Loop} {holes : List Nat} {code : Code} {site : Nat},
        d.Stands (some l) (site :: holes) code →
        code[site]? = some (.target (target l)) →
          (add d site).Stands (some l) holes code ∧ d.Keeps (add d site))
    (e : CompileError) :
    (do
      match (← get).loops with
      | [] => throw e
      | c :: _ =>
          modify (·.unwindTo c.depth)
          let site ← jump .jmp
          modify (add · site) : Drafting Unit).Makes fun _ loop =>
      match loop with
      | none => throw e
      | some l => return Code.exit l (target l) := by
  intro d loop holes code hStands
  simp only [StateT.run_bind, StateT.run_get, pure_bind]
  cases loop with
  | none =>
      have hLoops : d.loops = [] := hStands.waits
      rw [hLoops]
      exact .throw _
  | some l =>
      obtain ⟨c, loops, hLoops, hFits⟩ := hStands.waits
      rw [hLoops]
      simp only [StateT.run_bind, StateT.run_modify, run_jump, pure_bind]
      rw [hStands.unwindTo_eq hLoops]
      have hUnwound := hStands.append
        (List.replicate l.opened (Code.bare .popScope)).flatten
      have hAdded := hAdd (hUnwound.jump .jmp (target l))
        (hUnwound.target_jump .jmp (target l))
      rw [List.append_assoc] at hAdded
      exact .pure ⟨hAdded.1, hAdded.2.depth, hAdded.2.outer⟩

end Drafting

------------------------------------------------------------
-- Statements
------------------------------------------------------------

open Drafting

/- A result is written whole, and so is an update. -/
theorem Expr.writes_draftResult (argument : Option Expr) :
    (Expr.draftResult argument).Writes fun start =>
      emitOption (Code.pushed .null) (·.emit start true) argument := by
  cases argument with
  | none => exact writes_write _
  | some e => exact e.writes_draft true

theorem Expr.writes_draftUpdate (update : Option Expr) :
    (Expr.draftUpdate update).Writes fun start =>
      emitOption [] (·.emit start false) update := by
  cases update with
  | none => exact writes_return
  | some e => exact e.writes_draft false

theorem Expr.length_emitOption
    {update : Option Expr}
    {start : Nat}
    {code : Code}
    {s t : Fresh}
    (h : emitOption [] (·.emit start false) update s = .ok code t) :
    code.length = sizeOr 0 (·.size false) update := by
  cases update with
  | none =>
      rw [← (Emit.pure_eq_ok.1 h).1]
      rfl
  | some e => exact e.length_emit h

/- The body of a loop has the size foretold. -/
theorem Stmt.length_scoped_emitAll
    (body : List Stmt)
    {start leave next : Nat}
    {code : Code}
    {s t : Fresh}
    (h :
      (do
        let code ←
          Stmt.emitAll (start + 1)
            ((some (Loop.mk leave next 0)).map .enter) body
        return Code.scoped code : Emit Code) s = .ok code t) :
    code.length = Stmt.sizes 1 body + 2 := by
  rw [Emit.bind_eq_ok] at h
  obtain ⟨inner, u, hInner, hCode⟩ := h
  rw [← (Emit.pure_eq_ok.1 hCode).1, Code.length_scoped,
    Stmt.length_emitAll body (Loop.opens_some _) hInner]
  rfl

/- A draft of its own has the words that are emitted outside all loops. -/
theorem Drafting.Makes.separately_eq
    {m : Drafting Unit}
    {x : Nat → Option Loop → Emit Code}
    (h : m.Makes x) :
    separately m = x 0 none :=
  Emit.Alike.bind_pure_eq (h Draft.stands_empty) fun _ _ hStands =>
    hStands.1.words_eq

mutual

/- Every statement is made as it is emitted. -/
theorem Stmt.makes_draft (stmt : Stmt) :
    stmt.draft.Makes fun start loop => stmt.emit start loop := by
  match stmt with
  | .expr e =>
      simp only [Stmt.draft, Stmt.emit]
      exact (e.writes_draft false).makes
  | .declare name place => exact (writes_write _).makes
  | .define name value place =>
      simp only [Stmt.draft, Stmt.emit]
      have hValue :=
        (value.writes_draft true).thenWrite (Code.named .store name)
      exact ((writes_write (Code.named .alloc name)).join
        hValue).makes.congr fun start _ => by
          simp only [bind_assoc, pure_bind, List.append_assoc,
            Code.length_named]
  | .function name parameters body place =>
      have hBody :=
        (Stmt.makes_draftAll body).join
          ((writes_write (Code.pushed .null)).thenWrite
            (Code.bare .ret)).makes
      simp only [Stmt.draft, Stmt.emit, hBody.separately_eq]
      exact (Writes.after _ fun code => Writes.after _ fun mark =>
        (writes_write (Code.named .alloc name)).join
          ((writes_write (Code.pushed
            (.routine ⟨mark, name, parameters, code⟩))).thenWrite
              (Code.named .store name))).makes.congr fun start _ => by
        simp only [bind_assoc, pure_bind, List.append_assoc]
  | .ret argument place =>
      simp only [Stmt.draft, Stmt.emit]
      exact ((Expr.writes_draftResult argument).thenWrite _).makes
  | .ifThen condition body place =>
      simp only [Stmt.draft, Stmt.emit]
      have hBody := Makes.inScope (Stmt.makes_draftAll body)
      exact (Makes.ifThen (condition.writes_draft true) hBody).congr
        fun start loop => by
          simp only [bind_assoc, pure_bind, Code.length_scoped,
            ← Nat.add_assoc]
  | .ifElse condition body otherwise place =>
      simp only [Stmt.draft, Stmt.emit]
      have hBody := Makes.inScope (Stmt.makes_draftAll body)
      have hOther := Makes.inScope (Stmt.makes_draftAll otherwise)
      have hTwice (n : Nat) : n + 2 + 2 = n + 4 := rfl
      exact (Makes.ifElse (condition.writes_draft true) hBody hOther).congr
        fun start loop => by
          simp only [bind_assoc, pure_bind, Code.length_scoped,
            ← Nat.add_assoc, hTwice]
  | .whileLoop condition body place =>
      simp only [Stmt.draft, Stmt.emit]
      have hBody := Makes.inScope (Stmt.makes_draftAll body)
      exact (Makes.whileLoop (condition.writes_draft true) hBody
        fun _ _ _ _ _ _ h => Stmt.length_scoped_emitAll body h).congr
          fun start _ => by
            simp only [bind_assoc, pure_bind, Option.map_some, Loop.enter]
  | .forLoop initial condition update body place =>
      have hBody := Makes.inScope (Stmt.makes_draftAll body)
      have hLoop := Makes.forLoop (tests_draftTest condition) hBody
        (Expr.writes_draftUpdate update)
        (fun _ _ _ _ _ _ h => Stmt.length_scoped_emitAll body h)
        (fun _ _ _ _ h => Expr.length_emitOption h)
      have hWhole := (initial.makes_draft.join hLoop).inScope
      simp only [Drafting.inScope, bind_assoc] at hWhole
      simp only [Stmt.draft, Stmt.emit, Drafting.inScope, bind_assoc]
      exact hWhole.congr fun start loop => by
        simp only [pure_bind, Option.map_some, Loop.enter, Code.scoped,
          List.append_assoc]
  | .breakLoop place =>
      exact (makes_exit Draft.Stands.addBreak _).congr fun start loop => by
        cases loop <;> rfl
  | .continueLoop place =>
      exact (makes_exit Draft.Stands.addContinue _).congr fun start loop => by
        cases loop <;> rfl

/- Some statements are made one after the other. -/
theorem Stmt.makes_draftAll (stmts : List Stmt) :
    (Stmt.draftAll stmts).Makes fun start loop =>
      Stmt.emitAll start loop stmts := by
  match stmts with
  | [] => exact writes_return.makes
  | stmt :: stmts =>
      simp only [Stmt.draftAll, Stmt.emitAll]
      exact stmt.makes_draft.join (Stmt.makes_draftAll stmts)

end

------------------------------------------------------------
-- Programs
------------------------------------------------------------

/- A program is compiled to the code that is emitted for its start. -/
theorem Program.compile_eq (p : Program) :
    p.compile = do
      let code ← Stmt.emitAll 0 none p
      return code ++ Code.bare .halt := by
  have hWhole :=
    (Stmt.makes_draftAll p).join (writes_write (Code.bare .halt)).makes
  rw [Program.compile, hWhole.separately_eq]
  simp only [pure_bind]

end StackScript
