import StackScript.Proofs.Twin.Emission

/-
  The code of statements and of the same ones elsewhere.

  A loop and the same loop a distance away are left to
  positions that are the distance apart, and inside a loop
  the jumps out of it lead to its exits. Behind the loop
  these are cuts of its code.

  Key definitions include:
    * `Loop.shifted`, `Loop.Exits`
    * `Numbering.Admits`

  Key theorems include:
    * `Stmt.sizes_unplacedAll`
    * `Stmt.pairs_emitAll`
-/

namespace StackScript

variable {w : Numbering}
variable {R : Routine → Routine → Prop}
variable {shift start start' : Nat}
variable {exits : Nat → Prop}
variable {keep : Bool}

------------------------------------------------------------
-- Sizes
------------------------------------------------------------

mutual

/- Places do not matter to the size of code. -/
theorem Expr.size_unplaced
    (e : Expr)
    (keep : Bool) :
    e.unplaced.size keep = e.size keep := by
  match e with
  | .literal .. | .string .. | .variable .. | .post .. => rfl
  | .binary operator a b place | .logical operator a b place =>
      rw [Expr.unplaced, Expr.size, Expr.size, a.size_unplaced,
        b.size_unplaced]
  | .unary operator a place =>
      rw [Expr.unplaced, Expr.size, Expr.size, a.size_unplaced,
        a.size_unplaced]
  | .assignment name value place =>
      rw [Expr.unplaced, Expr.size, Expr.size, value.size_unplaced]
  | .call name arguments place =>
      rw [Expr.unplaced, Expr.size, Expr.size,
        Expr.sizes_unplacedAll arguments]

theorem Expr.sizes_unplacedAll (es : List Expr) :
    Expr.sizes (Expr.unplacedAll es) = Expr.sizes es := by
  match es with
  | [] => rfl
  | e :: es =>
      rw [Expr.unplacedAll, Expr.sizes, Expr.sizes, e.size_unplaced,
        Expr.sizes_unplacedAll es]

end

theorem Expr.sizeOr_unplaced
    (e? : Option Expr)
    (missing : Nat)
    {size : Expr → Nat}
    (h : ∀ e : Expr, size e.unplaced = size e) :
    sizeOr missing size (e?.map Expr.unplaced) =
      sizeOr missing size e? := by
  cases e? with
  | none => rfl
  | some e => exact h e

mutual

theorem Stmt.size_unplaced
    (s : Stmt)
    (opened : Nat) :
    s.unplaced.size opened = s.size opened := by
  match s with
  | .expr e => exact e.size_unplaced false
  | .declare .. | .function .. | .breakLoop .. | .continueLoop .. => rfl
  | .define name value place =>
      rw [Stmt.unplaced, Stmt.size, Stmt.size, value.size_unplaced]
  | .ret argument place =>
      rw [Stmt.unplaced, Stmt.size, Stmt.size,
        Expr.sizeOr_unplaced argument 2 fun e => e.size_unplaced true]
  | .ifThen condition body place =>
      rw [Stmt.unplaced, Stmt.size, Stmt.size, condition.size_unplaced,
        Stmt.sizes_unplacedAll body]
  | .ifElse condition body otherwise place =>
      rw [Stmt.unplaced, Stmt.size, Stmt.size, condition.size_unplaced,
        Stmt.sizes_unplacedAll body, Stmt.sizes_unplacedAll otherwise]
  | .whileLoop condition body place =>
      rw [Stmt.unplaced, Stmt.size, Stmt.size, condition.size_unplaced,
        Stmt.sizes_unplacedAll body]
  | .forLoop initial condition update body place =>
      rw [Stmt.unplaced, Stmt.size, Stmt.size, initial.size_unplaced,
        Stmt.sizes_unplacedAll body,
        Expr.sizeOr_unplaced condition 0 fun e => by
          rw [e.size_unplaced],
        Expr.sizeOr_unplaced update 0 fun e => e.size_unplaced false]

theorem Stmt.sizes_unplacedAll
    (ss : List Stmt)
    (opened : Nat) :
    Stmt.sizes opened (Stmt.unplacedAll ss) = Stmt.sizes opened ss := by
  match ss with
  | [] => rfl
  | s :: ss =>
      rw [Stmt.unplacedAll, Stmt.sizes, Stmt.sizes, s.size_unplaced,
        Stmt.sizes_unplacedAll ss]

end

------------------------------------------------------------
-- Parts of Statements
------------------------------------------------------------

/- The same loop a distance away. -/
def Loop.shifted
    (shift : Nat)
    (l : Loop) : Loop :=
  ⟨l.leave + shift, l.next + shift, l.opened⟩

/- The positions that a loop is left to. -/
def Loop.Exits
    (loop : Option Loop)
    (x : Nat) : Prop :=
  ∃ l, loop = some l ∧ (x = l.leave ∨ x = l.next)

theorem Loop.exits_of_enter
    {loop : Option Loop}
    {x : Nat}
    (h : Loop.Exits (loop.map .enter) x) :
    Loop.Exits loop x := by
  rcases h with ⟨_, hLoop, hExit⟩
  rcases Option.map_eq_some_iff.1 hLoop with ⟨l, hl, rfl⟩
  exact ⟨l, hl, hExit⟩

theorem Loop.map_enter_shifted (loop : Option Loop) :
    (loop.map (Loop.shifted shift)).map Loop.enter =
      (loop.map Loop.enter).map (Loop.shifted shift) := by
  cases loop <;> rfl

/- An expression with the size of its code. -/
theorem Expr.pairs_sized
    (e : Expr)
    (hNames : ∀ name ∈ e.identifiers, w.plain name)
    (hStart : start' = start + shift) :
    Emit.Pairs w
      (fun c c' =>
        Code.Aligned w R shift exits start c c' ∧
          c.length = e.size keep)
      (e.emit start keep) (e.unplaced.emit start' keep) := by
  apply (e.pairs_emit hNames hStart).recorded.mono
  · exact fun _ _ hSame => hSame
  · rintro c c' ⟨hAligned, s, _, _, _, _, hLeft, _⟩
    exact ⟨hAligned, e.length_emit hLeft⟩

/- The test of a loop is aligned, where its end is an exit. -/
theorem Expr.pairs_test
    {leave leave' : Nat}
    (condition : Option Expr)
    (hNames : ∀ name ∈ Expr.identifiersIn condition, w.plain name)
    (hStart : start' = start + shift)
    (hLeave : leave' = leave + shift)
    (hExit : exits leave) :
    Emit.Pairs w
      (fun c c' =>
        Code.Aligned w R shift exits start c c' ∧
          c.length = sizeOr 0 (fun e => e.size true + 2) condition)
      (emitOption []
        (fun e => do
          let code ← e.emit start true
          return code ++ Code.jump .jz leave)
        condition)
      (emitOption []
        (fun e => do
          let code ← e.emit start' true
          return code ++ Code.jump .jz leave')
        (condition.map Expr.unplaced)) := by
  cases condition with
  | none => exact pairs_pure ⟨Code.aligned_row .nil rfl, rfl⟩
  | some e =>
      apply (e.pairs_sized hNames hStart).bind
      rintro c c' ⟨hAligned, hLength⟩
      apply pairs_pure
      refine ⟨hAligned.thenJump rfl hLeave hExit, ?_⟩
      rw [List.length_append, hLength]
      rfl

/- The update of a loop is aligned. -/
theorem Expr.pairs_update
    (update : Option Expr)
    (hNames : ∀ name ∈ Expr.identifiersIn update, w.plain name)
    (hStart : start' = start + shift) :
    Emit.Pairs w
      (fun c c' =>
        Code.Aligned w R shift exits start c c' ∧
          c.length = sizeOr 0 (·.size false) update)
      (emitOption [] (·.emit start false) update)
      (emitOption [] (·.emit start' false)
        (update.map Expr.unplaced)) := by
  cases update with
  | none => exact pairs_pure ⟨Code.aligned_row .nil rfl, rfl⟩
  | some e => exact e.pairs_sized hNames hStart

namespace Code

variable {c c' : Code}

theorem aligned_scoped
    {inner : Nat}
    (h : Aligned w R shift exits inner c c')
    (hInner : inner = start + 1) :
    Aligned w R shift exits start (Code.scoped c)
      (Code.scoped c') :=
  ((aligned_bare rfl).join h hInner).thenBare rfl

/- The way out of a loop leads to an exit. -/
theorem aligned_exit
    {target : Nat}
    (l : Loop)
    (hExit : exits target) :
    Aligned w R shift exits start (exit l target)
      (exit (l.shifted shift) (target + shift)) := by
  have hPops :
      Beside w R shift
        (List.replicate l.opened (bare .popScope)).flatten
        (List.replicate l.opened (bare .popScope)).flatten := by
    induction l.opened with
    | zero => exact .nil
    | succ n ih =>
        rw [List.replicate_succ, List.flatten_cons]
        exact .cons (piece_bare rfl) ih
  refine ⟨hPops.join (.piece (piece_jump rfl rfl)), ?_⟩
  intro x hx
  rw [targets_exit, List.mem_singleton] at hx
  rw [hx]
  exact .inl hExit

end Code

namespace Code

variable {test test' body body' other other' : Code}

/- A choice jumps behind its body. -/
theorem aligned_ifThen
    (hStart : start' = start + shift)
    (hTest : Aligned w R shift exits start test test')
    (hBody :
      Aligned w R shift exits (start + test.length + 3) body body') :
    Aligned w R shift exits start
      (test ++ jump .jz (start + test.length + 2 + body.length + 2)
        ++ Code.scoped body)
      (test'
        ++ jump .jz (start' + test'.length + 2 + body'.length + 2)
        ++ Code.scoped body') := by
  have hFirst := hTest.row.length_eq
  have hSecond := hBody.row.length_eq
  generalize hStop :
    start + test.length + 2 + body.length + 2 = stop
  generalize hStop' :
    start' + test'.length + 2 + body'.length + 2 = stop'
  have hKnown : ∀ x, exits x → exits x ∨ x = stop :=
    fun _ => .inl
  have hFront :
      Aligned w R shift _ start (test ++ jump .jz stop)
        (test' ++ jump .jz stop') :=
    (hTest.mono hKnown).thenJump rfl (by omega) (.inr rfl)
  have hWhole :=
    hFront.join (aligned_scoped (hBody.mono hKnown) rfl)
      (by simp; omega)
  apply hWhole.settle
  rintro x (hExit | rfl)
  · exact .inl hExit
  · exact .inr (cutAt_end hWhole.row (by simp; omega))

/- A choice between two bodies jumps to the second and behind it. -/
theorem aligned_ifElse
    (hStart : start' = start + shift)
    (hTest : Aligned w R shift exits start test test')
    (hBody :
      Aligned w R shift exits (start + test.length + 3) body body')
    (hOther :
      Aligned w R shift exits
        (start + test.length + body.length + 7) other other') :
    Aligned w R shift exits start
      (test ++ jump .jz (start + test.length + 2 + body.length + 4)
        ++ Code.scoped body
        ++ jump .jmp
          (start + test.length + 2 + body.length + 4 + other.length
            + 2)
        ++ Code.scoped other)
      (test'
        ++ jump .jz (start' + test'.length + 2 + body'.length + 4)
        ++ Code.scoped body'
        ++ jump .jmp
          (start' + test'.length + 2 + body'.length + 4
            + other'.length + 2)
        ++ Code.scoped other') := by
  have hFirst := hTest.row.length_eq
  have hMiddle := hBody.row.length_eq
  have hLast := hOther.row.length_eq
  generalize hSecond :
    start + test.length + 2 + body.length + 4 = second
  generalize hSecond' :
    start' + test'.length + 2 + body'.length + 4 = second'
  generalize hStop : second + other.length + 2 = stop
  generalize hStop' : second' + other'.length + 2 = stop'
  have hKnown :
      ∀ x, exits x → exits x ∨ x = second ∨ x = stop :=
    fun _ => .inl
  have hChosen :
      Aligned w R shift _ start (test ++ jump .jz second)
        (test' ++ jump .jz second') :=
    (hTest.mono hKnown).thenJump rfl (by omega) (.inr (.inl rfl))
  have hFront :
      Aligned w R shift _ start
        (test ++ jump .jz second ++ Code.scoped body
          ++ jump .jmp stop)
        (test' ++ jump .jz second' ++ Code.scoped body'
          ++ jump .jmp stop') :=
    (hChosen.join (aligned_scoped (hBody.mono hKnown) rfl)
      (by simp; omega)).thenJump rfl (by omega) (.inr (.inr rfl))
  have hBack :
      Aligned w R shift _ second (Code.scoped other)
        (Code.scoped other') :=
    aligned_scoped (hOther.mono hKnown) (by omega)
  have hWhole := hFront.join hBack (by simp; omega)
  apply hWhole.settle
  rintro x (hExit | rfl | rfl)
  · exact .inl hExit
  · exact .inr (cutAt_front hFront.row hBack.row (by simp; omega))
  · exact .inr (cutAt_end hWhole.row (by simp; omega))

/- A loop jumps back to its start and behind its end. -/
theorem aligned_whileLoop
    {leave leave' : Nat}
    (hStart : start' = start + shift)
    (hTest : Aligned w R shift exits start test test')
    (hBody :
      Aligned w R shift (Loop.Exits (some ⟨leave, start, 1⟩))
        (start + test.length + 3) body body')
    (hLeave : leave = start + test.length + body.length + 6)
    (hShift : leave' = leave + shift) :
    Aligned w R shift exits start
      (test ++ jump .jz leave ++ Code.scoped body ++ jump .jmp start)
      (test' ++ jump .jz leave' ++ Code.scoped body'
        ++ jump .jmp start') := by
  have hKnown :
      ∀ x, exits x → exits x ∨ x = leave ∨ x = start :=
    fun _ => .inl
  have hInside :
      ∀ x, Loop.Exits (some ⟨leave, start, 1⟩) x →
        exits x ∨ x = leave ∨ x = start := by
    rintro x ⟨_, ⟨⟩, hExit⟩
    exact .inr hExit
  have hChosen :
      Aligned w R shift _ start (test ++ jump .jz leave)
        (test' ++ jump .jz leave') :=
    (hTest.mono hKnown).thenJump rfl hShift (.inr (.inl rfl))
  have hWhole :
      Aligned w R shift _ start
        (test ++ jump .jz leave ++ Code.scoped body
          ++ jump .jmp start)
        (test' ++ jump .jz leave' ++ Code.scoped body'
          ++ jump .jmp start') :=
    (hChosen.join (aligned_scoped (hBody.mono hInside) rfl)
      (by simp; omega)).thenJump rfl hStart (.inr (.inr rfl))
  apply hWhole.settle
  rintro x (hExit | rfl | rfl)
  · exact .inl hExit
  · exact .inr (cutAt_end hWhole.row (by simp; omega))
  · exact .inr (cutAt_start hWhole.row rfl)

/-
  A loop with an initial statement jumps back to its test,
  to its update and to its end, where its scope is closed.
-/
theorem aligned_forLoop
    {first first' update update' : Code}
    {again again' next leave : Nat}
    (hInitial :
      Aligned w R shift exits (start + 1) first first')
    (hTest :
      Aligned w R shift (fun x => exits x ∨ x = leave) again test
        test')
    (hBody :
      Aligned w R shift (Loop.Exits (some ⟨leave, next, 1⟩))
        (again + test.length + 1) body body')
    (hUpdate : Aligned w R shift exits next update update')
    (hAgain : again = start + first.length + 1)
    (hNext : next = again + test.length + body.length + 2)
    (hLeave : leave = next + update.length + 2)
    (hAgain' : again' = again + shift) :
    Aligned w R shift exits start
      (bare .pushScope ++ first ++ test ++ Code.scoped body ++ update
        ++ jump .jmp again ++ bare .popScope)
      (bare .pushScope ++ first' ++ test' ++ Code.scoped body'
        ++ update' ++ jump .jmp again' ++ bare .popScope) := by
  have hKnown :
      ∀ x, exits x →
        exits x ∨ x = leave ∨ x = next ∨ x = again :=
    fun _ => .inl
  have hLeaves :
      ∀ x, exits x ∨ x = leave →
        exits x ∨ x = leave ∨ x = next ∨ x = again := by
    rintro x (hExit | rfl)
    · exact .inl hExit
    · exact .inr (.inl rfl)
  have hInside :
      ∀ x, Loop.Exits (some ⟨leave, next, 1⟩) x →
        exits x ∨ x = leave ∨ x = next ∨ x = again := by
    rintro x ⟨_, ⟨⟩, hExit | hExit⟩
    · exact .inr (.inl hExit)
    · exact .inr (.inr (.inl hExit))
  have hOpen :
      Aligned w R shift (fun x => exits x ∨ x = leave ∨ x = next ∨
        x = again) start (bare .pushScope) (bare .pushScope) :=
    aligned_bare rfl
  have hFirst := hOpen.join (hInitial.mono hKnown) rfl
  have hTested :=
    hFirst.join (hTest.mono hLeaves) (by simp; omega)
  have hLooped :=
    hTested.join (aligned_scoped (hBody.mono hInside) rfl)
      (by simp; omega)
  have hUpdated :=
    hLooped.join (hUpdate.mono hKnown) (by simp; omega)
  have hClose : Beside w R shift (bare .popScope) (bare .popScope) :=
    .piece (piece_bare rfl)
  have hBack : Beside w R shift (jump .jmp again) (jump .jmp again') :=
    .piece (piece_jump rfl hAgain')
  have hFront :
      Aligned w R shift _ start
        (bare .pushScope ++ first ++ test ++ Code.scoped body
          ++ update ++ jump .jmp again)
        (bare .pushScope ++ first' ++ test' ++ Code.scoped body'
          ++ update' ++ jump .jmp again') :=
    hUpdated.thenJump rfl hAgain' (.inr (.inr (.inr rfl)))
  have hWhole := hFront.thenBare (o := .popScope) rfl
  have hScoped := aligned_scoped (hBody.mono hInside) rfl
  apply hWhole.settle
  rintro x (hExit | rfl | rfl | rfl)
  · exact .inl hExit
  · exact .inr (cutAt_front hFront.row hClose (by simp; omega))
  · exact .inr
      (((cutAt_front hLooped.row hUpdate.row (by simp; omega)).left
        hBack).left hClose)
  · exact .inr
      (((((cutAt_front hFirst.row hTest.row (by simp; omega)).left
        hScoped.row).left hUpdate.row).left hBack).left hClose)

end Code

------------------------------------------------------------
-- Statements
------------------------------------------------------------

/-
  Functions are related when their marks are and their codes
  are aligned, made from the same statements.
-/
def Numbering.Admits
    (w : Numbering)
    (R : Routine → Routine → Prop) : Prop :=
  ∀ {stmts mark mark' s s' t t' c c'} name parameters,
    (∀ x ∈ Stmt.identifiersAll stmts, w.plain x) →
    w.Links s s' →
    Stmt.emitAll 0 none stmts s = .ok c t →
    Stmt.emitAll 0 none (Stmt.unplacedAll stmts) s' = .ok c' t' →
    Code.Aligned w R 0 (fun _ => False) 0 c c' →
    w.mark mark mark' →
    R ⟨mark, name, parameters,
        c ++ Code.pushed .null ++ Code.bare .ret⟩
      ⟨mark', name, parameters,
        c' ++ Code.pushed .null ++ Code.bare .ret⟩

/- Outside all loops there is no exit. -/
theorem Code.Aligned.closed
    {c c' : Code}
    (h : Code.Aligned w R shift (Loop.Exits none) start c c') :
    Code.Aligned w R shift (fun _ => False) start c c' := by
  apply h.mono
  rintro x ⟨_, hLoop, _⟩
  cases hLoop

mutual

/- A statement and the same elsewhere have aligned code. -/
theorem Stmt.pairs_emit
    (hAdmits : w.Admits R)
    (s : Stmt)
    {shift start start' : Nat}
    {loop : Option Loop}
    (hNames : ∀ name ∈ s.identifiers, w.plain name)
    (hStart : start' = start + shift) :
    Emit.Pairs w (Code.Aligned w R shift (Loop.Exits loop) start)
      (s.emit start loop)
      (s.unplaced.emit start' (loop.map (.shifted shift))) := by
  match s with
  | .expr e => exact e.pairs_emit hNames hStart
  | .declare name place => exact pairs_pure (Code.aligned_named rfl)
  | .define name value place =>
      rw [Stmt.identifiers, List.forall_mem_cons] at hNames
      rw [Stmt.unplaced, Stmt.emit, Stmt.emit]
      apply (value.pairs_emit hNames.2
        (by omega : start' + 2 = start + 2 + shift)).bind
      intro code code' hValue
      exact pairs_pure
        (((Code.aligned_named rfl).join hValue rfl).thenNamed rfl)
  | .function name parameters body place =>
      rw [Stmt.identifiers, List.forall_mem_append] at hNames
      rw [Stmt.unplaced, Stmt.emit, Stmt.emit]
      apply (Stmt.pairs_emitAll hAdmits body hNames.2
        (Nat.add_zero 0).symm).recorded.bind
      rintro code code' ⟨hBody, s, s', _, _, hLinks, hLeft, hRight⟩
      apply Emit.pairs_mark.bind
      intro mark mark' hMark
      have hRoutine :=
        hAdmits name parameters hNames.2 hLinks hLeft hRight
          hBody.closed hMark
      exact pairs_pure
        (((Code.aligned_named rfl).join
          (Code.aligned_piece
            (Code.piece_pushed (.routine hRoutine)) rfl) rfl).thenNamed
          rfl)
  | .ret argument place =>
      rw [Stmt.unplaced, Stmt.emit, Stmt.emit]
      cases argument with
      | none =>
          have hNull : ∀ r, Constant.null ≠ .routine r := nofun
          exact pairs_pure ((Code.aligned_constant hNull).thenBare rfl)
      | some e =>
          apply (e.pairs_emit hNames hStart).bind
          intro code code' hValue
          exact pairs_pure (hValue.thenBare rfl)
  | .ifThen condition body place =>
      rw [Stmt.identifiers, List.forall_mem_append] at hNames
      rw [Stmt.unplaced, Stmt.emit, Stmt.emit, Loop.map_enter_shifted]
      apply (condition.pairs_emit hNames.1 hStart).bind
      intro test test'
        (hTest :
          Code.Aligned w R shift (Loop.Exits loop) start test test')
      have hLength := hTest.row.length_eq
      apply (Stmt.pairs_emitAll hAdmits body hNames.2
        (by omega :
          start' + test'.length + 2 + 1 =
            start + test.length + 2 + 1 + shift)).bind
      intro inner inner' hInner
      exact pairs_pure
        (Code.aligned_ifThen hStart hTest
          (hInner.mono fun _ => Loop.exits_of_enter))
  | .ifElse condition body otherwise place =>
      rw [Stmt.identifiers, List.forall_mem_append,
        List.forall_mem_append] at hNames
      rw [Stmt.unplaced, Stmt.emit, Stmt.emit, Loop.map_enter_shifted]
      apply (condition.pairs_emit hNames.1.1 hStart).bind
      intro test test'
        (hTest :
          Code.Aligned w R shift (Loop.Exits loop) start test test')
      have hLength := hTest.row.length_eq
      apply (Stmt.pairs_emitAll hAdmits body hNames.1.2
        (by omega :
          start' + test'.length + 2 + 1 =
            start + test.length + 2 + 1 + shift)).bind
      intro inner inner' hInner
      have hLength' := hInner.row.length_eq
      apply (Stmt.pairs_emitAll hAdmits otherwise hNames.2
        (by omega :
          start' + test'.length + 2 + inner'.length + 4 + 1 =
            start + test.length + 2 + inner.length + 4 + 1
              + shift)).bind
      intro other other' hOther
      have hPlace :
          start + test.length + 2 + inner.length + 4 + 1 =
            start + test.length + inner.length + 7 := by
        omega
      rw [hPlace] at hOther
      exact pairs_pure
        (Code.aligned_ifElse hStart hTest
          (hInner.mono fun _ => Loop.exits_of_enter)
          (hOther.mono fun _ => Loop.exits_of_enter))
  | .whileLoop condition body place =>
      rw [Stmt.identifiers, List.forall_mem_append] at hNames
      rw [Stmt.unplaced, Stmt.emit, Stmt.emit,
        Stmt.sizes_unplacedAll body]
      apply (condition.pairs_emit hNames.1 hStart).bind
      intro test test'
        (hTest :
          Code.Aligned w R shift (Loop.Exits loop) start test test')
      have hLength := hTest.row.length_eq
      dsimp only
      generalize hLeave :
        start + test.length + 2 + (Stmt.sizes 1 body + 2) + 2 = leave
      have hLeave' :
          start' + test'.length + 2 + (Stmt.sizes 1 body + 2) + 2 =
            leave + shift := by
        omega
      have hLoop :
          some (⟨leave + shift, start', 1⟩ : Loop) =
            (some ⟨leave, start, 1⟩).map (Loop.shifted shift) := by
        rw [hStart]
        rfl
      rw [hLeave', hLoop]
      apply (Stmt.pairs_emitAll hAdmits body hNames.2
        (by omega :
          start' + test'.length + 2 + 1 =
            start + test.length + 2 + 1 + shift)).recorded.bind
      rintro inner inner' ⟨hInner, _, _, _, _, _, hLeft, _⟩
      have hSize := Stmt.length_emitAll body (Loop.opens_some _) hLeft
      exact pairs_pure
        (Code.aligned_whileLoop hStart hTest hInner
          (by dsimp only at hSize; omega) rfl)
  | .forLoop initial condition update body place =>
      rw [Stmt.identifiers, List.forall_mem_append,
        List.forall_mem_append, List.forall_mem_append] at hNames
      rw [Stmt.unplaced, Stmt.emit, Stmt.emit,
        Stmt.sizes_unplacedAll body, Loop.map_enter_shifted,
        Expr.sizeOr_unplaced condition 0 fun e => by
          rw [e.size_unplaced],
        Expr.sizeOr_unplaced update 0 fun e => e.size_unplaced false]
      apply (initial.pairs_emit hAdmits hNames.1.1.1
        (by omega : start' + 1 = start + 1 + shift)).bind
      intro first first' hInitial
      have hLength := hInitial.row.length_eq
      dsimp only
      generalize hAgain : start + 1 + first.length = again
      generalize hInner :
        again + sizeOr 0 (fun e : Expr => e.size true + 2) condition =
          inner
      generalize hNext : inner + (Stmt.sizes 1 body + 2) = next
      generalize hLeave :
        next + sizeOr 0 (fun e : Expr => e.size false) update + 2 =
          leave
      have hAgain' : start' + 1 + first'.length = again + shift := by
        omega
      have hInner' :
          again + shift
              + sizeOr 0 (fun e : Expr => e.size true + 2) condition =
            inner + shift := by
        omega
      have hNext' :
          inner + shift + (Stmt.sizes 1 body + 2) = next + shift := by
        omega
      have hLeave' :
          next + shift
              + sizeOr 0 (fun e : Expr => e.size false) update + 2 =
            leave + shift := by
        omega
      have hLoop :
          some (⟨leave + shift, next + shift, 1⟩ : Loop) =
            (some ⟨leave, next, 1⟩).map (Loop.shifted shift) :=
        rfl
      rw [hAgain', hInner', hNext', hLeave', hLoop]
      apply (@Expr.pairs_test w R shift _ _
        (fun x => Loop.Exits loop x ∨ x = leave) _ _ condition
        hNames.1.1.2 rfl rfl (.inr rfl)).bind
      rintro test test' ⟨hTest, hTestSize⟩
      apply (Stmt.pairs_emitAll hAdmits body hNames.2
        (by omega : inner + shift + 1 = inner + 1 + shift)).recorded.bind
      rintro code code' ⟨hBody, _, _, _, _, _, hLeft, _⟩
      have hSize := Stmt.length_emitAll body (Loop.opens_some _) hLeft
      apply (Expr.pairs_update update hNames.1.2 rfl).bind
      rintro last last' ⟨hUpdate, hUpdateSize⟩
      have hPlace : inner + 1 = again + test.length + 1 := by
        omega
      rw [hPlace] at hBody
      exact pairs_pure
        (Code.aligned_forLoop
          (hInitial.mono fun _ => Loop.exits_of_enter) hTest hBody
          hUpdate (by omega) (by dsimp only at hSize; omega) (by omega)
          rfl)
  | .breakLoop place =>
      cases loop with
      | none => exact pairs_throw rfl
      | some l =>
          exact pairs_pure
            (Code.aligned_exit l ⟨l, rfl, .inl rfl⟩)
  | .continueLoop place =>
      cases loop with
      | none => exact pairs_throw rfl
      | some l =>
          exact pairs_pure
            (Code.aligned_exit l ⟨l, rfl, .inr rfl⟩)

/- So have statements in a row. -/
theorem Stmt.pairs_emitAll
    (hAdmits : w.Admits R)
    (ss : List Stmt)
    {shift start start' : Nat}
    {loop : Option Loop}
    (hNames : ∀ name ∈ Stmt.identifiersAll ss, w.plain name)
    (hStart : start' = start + shift) :
    Emit.Pairs w (Code.Aligned w R shift (Loop.Exits loop) start)
      (Stmt.emitAll start loop ss)
      (Stmt.emitAll start' (loop.map (.shifted shift))
        (Stmt.unplacedAll ss)) := by
  match ss with
  | [] => exact pairs_pure (Code.aligned_row .nil rfl)
  | s :: ss =>
      rw [Stmt.identifiersAll, List.forall_mem_append] at hNames
      rw [Stmt.unplacedAll, Stmt.emitAll, Stmt.emitAll]
      apply (s.pairs_emit hAdmits hNames.1 hStart).bind
      intro first first' hFirst
      have hLength := hFirst.row.length_eq
      apply (Stmt.pairs_emitAll hAdmits ss hNames.2 (by omega)).bind
      intro others others' hOthers
      exact pairs_pure (hFirst.join hOthers rfl)

end

end StackScript
