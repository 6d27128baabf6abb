import StackScript.Proofs.Emission.Size

/-
  Drafts of expressions.

  The jumps of an expression stay inside it. When it has
  been written, all of them are filled in, and the draft has
  got the words that are emitted for the position where it
  ended.

  Key definitions include:
    * `Drafting.Writes`

  Key theorems include:
    * `Draft.patch_append`
    * `Expr.writes_draft`
    * `Expr.run_draft_eq_ok`
-/

namespace StackScript

------------------------------------------------------------
-- Drafts
------------------------------------------------------------

namespace Draft

@[simp]
theorem append_append
    (d : Draft)
    (a b : Code) :
    (d.append a).append b = d.append (a ++ b) := by
  unfold append
  rw [List.append_assoc]

@[simp]
theorem append_nil (d : Draft) : d.append [] = d := by
  unfold append
  rw [List.append_nil]

@[simp]
theorem length_append
    (d : Draft)
    (a : Code) :
    (d.append a).words.length = d.words.length + a.length :=
  List.length_append

@[simp]
theorem length_patch
    (d : Draft)
    (site target : Nat) :
    (d.patch site target).words.length = d.words.length :=
  List.length_set

@[simp]
theorem words_openLoop (d : Draft) :
    d.openLoop.words = d.words := rfl

/- A jump is filled in where it stands, whatever is behind it. -/
theorem patch_append
    {d : Draft}
    {code : Code}
    {site target : Nat}
    (front : Code)
    (o : Op)
    (back : Code)
    (hCode : code = front ++ Code.jump o Code.placeholder ++ back)
    (hSite : site = d.words.length + front.length + 1) :
    (d.append code).patch site target =
      d.append (front ++ Code.jump o target ++ back) := by
  have hWords :
      (d.words ++ code).set site (.target target) =
        d.words ++ (front ++ Code.jump o target ++ back) := by
    have hBehind :
        d.words.length + front.length + 1 - d.words.length
          - front.length = 1 := by
      omega
    rw [hCode, hSite, List.append_assoc, List.append_assoc,
      List.set_append_right _ _ (by omega),
      List.set_append_right _ _ (by omega), hBehind]
    rfl
  unfold patch append
  rw [hWords]

/- The jumps of a conjunction, filled in one by one. -/
theorem patch_both
    {d : Draft}
    {left right : Code}
    {fails done site₁ site₂ site₃ : Nat}
    (hFails : fails = d.words.length + left.length + right.length + 8)
    (hDone : done = fails + 2)
    (hSite₁ : site₁ = d.words.length + left.length + 1)
    (hSite₂ : site₂ = site₁ + right.length + 2)
    (hSite₃ : site₃ = site₂ + 4) :
    ((((d.append
            (left ++ (Code.jump .jz Code.placeholder
              ++ (right ++ (Code.jump .jz Code.placeholder
              ++ (Code.pushed (.number .one)
              ++ Code.jump .jmp Code.placeholder)))))).patch
          site₁ fails).patch site₂ fails).append
        (Code.pushed (.number (.zero false)))).patch site₃ done =
      d.append (Code.both d.words.length left right) := by
  rw [patch_append left .jz
      (right ++ Code.jump .jz Code.placeholder
        ++ Code.pushed (.number .one)
        ++ Code.jump .jmp Code.placeholder)
      (by simp) hSite₁,
    patch_append (left ++ Code.jump .jz fails ++ right) .jz
      (Code.pushed (.number .one) ++ Code.jump .jmp Code.placeholder)
      (by simp) (by simp; omega : site₂ = d.words.length + _ + 1),
    append_append,
    patch_append
      (left ++ Code.jump .jz fails ++ right ++ Code.jump .jz fails
        ++ Code.pushed (.number .one)) .jmp
      (Code.pushed (.number (.zero false)))
      (by simp) (by simp; omega : site₃ = d.words.length + _ + 1),
    hDone, hFails]
  rfl

/- The jumps of a disjunction, filled in one by one. -/
theorem patch_either
    {d : Draft}
    {left right : Code}
    {second fails done site₁ site₂ site₃ site₄ : Nat}
    (hSecond : second = d.words.length + left.length + 6)
    (hFails : fails = second + right.length + 6)
    (hDone : done = fails + 2)
    (hSite₁ : site₁ = d.words.length + left.length + 1)
    (hSite₂ : site₂ = site₁ + 4)
    (hSite₃ : site₃ = site₂ + right.length + 2)
    (hSite₄ : site₄ = site₃ + 4) :
    (((((((d.append
            (left ++ (Code.jump .jz Code.placeholder
              ++ (Code.pushed (.number .one)
              ++ Code.jump .jmp Code.placeholder)))).patch
          site₁ second).append
        (right ++ (Code.jump .jz Code.placeholder
          ++ (Code.pushed (.number .one)
          ++ Code.jump .jmp Code.placeholder)))).patch
      site₃ fails).append
        (Code.pushed (.number (.zero false)))).patch
      site₂ done).patch site₄ done) =
      d.append (Code.either d.words.length left right) := by
  rw [patch_append left .jz
      (Code.pushed (.number .one) ++ Code.jump .jmp Code.placeholder)
      (by simp) hSite₁,
    append_append,
    patch_append
      (left ++ Code.jump .jz second ++ Code.pushed (.number .one)
        ++ Code.jump .jmp Code.placeholder ++ right) .jz
      (Code.pushed (.number .one) ++ Code.jump .jmp Code.placeholder)
      (by simp) (by simp; omega : site₃ = d.words.length + _ + 1),
    append_append,
    patch_append
      (left ++ Code.jump .jz second ++ Code.pushed (.number .one)) .jmp
      (right ++ Code.jump .jz fails ++ Code.pushed (.number .one)
        ++ Code.jump .jmp Code.placeholder
        ++ Code.pushed (.number (.zero false)))
      (by simp) (by simp; omega : site₂ = d.words.length + _ + 1),
    patch_append
      (left ++ Code.jump .jz second ++ Code.pushed (.number .one)
        ++ Code.jump .jmp done ++ right ++ Code.jump .jz fails
        ++ Code.pushed (.number .one)) .jmp
      (Code.pushed (.number (.zero false)))
      (by simp) (by simp; omega : site₄ = d.words.length + _ + 1),
    hDone, hFails, hSecond]
  simp [Code.either]

end Draft

------------------------------------------------------------
-- Whole Pieces
------------------------------------------------------------

namespace Drafting

variable {α : Type}
variable {m k left right : Drafting Unit}
variable {x y : Nat → Emit Code}

/-
  What is written is code for its position, whole: no target
  in it is open.
-/
def Writes
    (m : Drafting Unit)
    (x : Nat → Emit Code) : Prop :=
  ∀ d, m.run d = do
    let code ← x d.words.length
    return ((), d.append code)

theorem writes_write (code : Code) :
    (write code).Writes fun _ => return code :=
  fun _ => rfl

theorem writes_throw (e : CompileError) :
    (throw e : Drafting Unit).Writes fun _ => throw e :=
  fun _ => rfl

theorem writes_return :
    (pure () : Drafting Unit).Writes fun _ => return [] := by
  intro d
  rw [pure_bind, Draft.append_nil]
  rfl

/- One piece behind the other. -/
theorem Writes.join
    (hm : m.Writes x)
    (hk : k.Writes y) :
    (do m; k : Drafting Unit).Writes fun start => do
      let first ← x start
      let rest ← y (start + first.length)
      return first ++ rest := by
  intro d
  simp only [StateT.run_bind, hm d, hk _, bind_assoc, pure_bind,
    Draft.length_append, Draft.append_append]

/- What is found out first does not touch the draft. -/
theorem Writes.after
    {f : α → Drafting Unit}
    {z : α → Nat → Emit Code}
    (found : Emit α)
    (h : ∀ a, (f a).Writes (z a)) :
    (do f (← found) : Drafting Unit).Writes fun start =>
      (do z (← found) start) := by
  intro d
  simp only [StateT.run_bind, StateT.run_monadLift, monadLift_self,
    bind_assoc, pure_bind, h _ d]

theorem run_write
    (d : Draft)
    (code : Code) :
    (write code).run d = pure ((), d.append code) := rfl

theorem run_jump
    (d : Draft)
    (o : Op) :
    (jump o).run d =
      pure (d.words.length + 1,
        d.append (Code.jump o Code.placeholder)) := by
  have hSite :
      (d.append (Code.bare o)).words.length = d.words.length + 1 :=
    d.length_append _
  have hRun :
      (jump o).run d =
        pure ((d.append (Code.bare o)).words.length,
          (d.append (Code.bare o)).append
            [.target Code.placeholder]) := rfl
  rw [hRun, hSite, Draft.append_append]
  rfl

theorem run_patchHere
    (d : Draft)
    (site : Nat) :
    (patchHere site).run d =
      pure ((), d.patch site d.words.length) := rfl

/- Both halves of a conjunction, with the jumps over the second. -/
theorem Writes.both
    (hLeft : left.Writes x)
    (hRight : right.Writes y) :
    (both left right).Writes fun start => do
      let left ← x start
      let right ← y (start + left.length + 2)
      return Code.both start left right := by
  intro d
  unfold Drafting.both
  simp only [StateT.run_bind, hLeft d, hRight _, run_write, run_jump,
    run_patchHere, bind_assoc, pure_bind, Draft.length_append,
    Draft.length_patch, Draft.append_append, Code.length_jump,
    Code.length_pushed]
  refine bind_congr fun left => bind_congr fun right => ?_
  rw [Draft.patch_both (by omega) (by omega) (by omega) (by omega)
    (by omega)]

/- Both halves of a disjunction. -/
theorem Writes.either
    (hLeft : left.Writes x)
    (hRight : right.Writes y) :
    (either left right).Writes fun start => do
      let left ← x start
      let right ← y (start + left.length + 6)
      return Code.either start left right := by
  intro d
  unfold Drafting.either
  simp only [StateT.run_bind, hLeft d, hRight _, run_write, run_jump,
    run_patchHere, bind_assoc, pure_bind, Draft.length_append,
    Draft.length_patch, Draft.append_append, Code.length_jump,
    Code.length_pushed]
  refine bind_congr fun left => bind_congr fun right => ?_
  rw [Draft.patch_either (by omega) (by omega) (by omega) (by omega)
    (by omega) (by omega) (by omega)]

theorem Writes.congr
    (h : m.Writes x)
    (hSame : ∀ start, x start = y start) :
    m.Writes y :=
  funext hSame ▸ h

/- One piece more, which is the same wherever it stands. -/
theorem Writes.thenWrite
    (h : m.Writes x)
    (code : Code) :
    (do m; write code : Drafting Unit).Writes fun start => do
      let first ← x start
      return first ++ code :=
  (h.join (writes_write code)).congr fun start => by
    simp only [pure_bind]

/- A scope around a piece is closed again. -/
theorem Writes.inScope (h : m.Writes x) :
    (inScope m).Writes fun start => do
      let body ← x (start + 1)
      return Code.scoped body := by
  intro d
  have hOpen :
      d.pushScope.words.length = d.words.length + 1 := by
    unfold Draft.pushScope
    exact d.length_append _
  have hClose (body : Code) :
      (d.pushScope.append body).popScope =
        d.append (Code.scoped body) := by
    unfold Draft.pushScope Draft.popScope Draft.append Code.scoped
    simp
  have hRun :
      (Drafting.inScope m).run d =
        m.run d.pushScope >>= fun p => pure ((), p.2.popScope) := rfl
  rw [hRun, h]
  simp only [bind_assoc, pure_bind, hOpen, hClose]

end Drafting

open Drafting

mutual

/- Every expression is written as it is emitted. -/
theorem Expr.writes_draft
    (e : Expr)
    (keep : Bool) :
    (e.draft keep).Writes fun start => e.emit start keep := by
  match e with
  | .literal text place =>
      cases hText : Constant.ofText? text with
      | none =>
          simp only [Expr.draft, Expr.emit, hText]
          exact writes_throw _
      | some c =>
          simp only [Expr.draft, Expr.emit, hText]
          exact writes_write _
  | .string text place => exact writes_write _
  | .variable name place =>
      simp only [Expr.draft, Expr.emit]
      exact ((writes_write _).thenWrite _).congr fun start => by
        simp only [pure_bind]
  | .binary operator a b place =>
      cases hOp : operator.binaryOp? with
      | none =>
          simp only [Expr.draft, Expr.emit, hOp]
          exact writes_throw _
      | some op =>
          simp only [Expr.draft, Expr.emit, hOp]
          have hTail := (writes_write (Code.bare op)).thenWrite
            (Code.dropUnless keep)
          exact ((a.writes_draft true).join
            ((b.writes_draft true).join hTail)).congr fun start => by
              simp only [bind_assoc, pure_bind, List.append_assoc]
  | .logical operator a b place =>
      have hLeft := a.writes_draft true
      have hRight := b.writes_draft true
      cases operator
      case and =>
        simp only [Expr.draft, Expr.emit]
        exact ((hLeft.both hRight).thenWrite _).congr fun start => by
          simp only [bind_assoc, pure_bind]
      case or =>
        simp only [Expr.draft, Expr.emit]
        exact ((hLeft.either hRight).thenWrite _).congr fun start => by
          simp only [bind_assoc, pure_bind]
      all_goals
        simp only [Expr.draft, Expr.emit]
        exact writes_throw _
  | .unary operator a place =>
      by_cases hPlus : operator = .plus
      · simp only [Expr.draft, Expr.emit, if_pos hPlus]
        exact a.writes_draft keep
      by_cases hStep : operator.isStep = true
      · simp only [Expr.draft, Expr.emit, if_neg hPlus, if_pos hStep]
        exact (Writes.after _ fun name =>
          (writes_write _).thenWrite _).congr fun start => by
            simp only [pure_bind]
      cases hOp : operator.unaryOp? with
      | none =>
          simp only [Expr.draft, Expr.emit, if_neg hPlus, if_neg hStep,
            hOp]
          exact writes_throw _
      | some op =>
          simp only [Expr.draft, Expr.emit, if_neg hPlus, if_neg hStep,
            hOp]
          have hTail := (writes_write (Code.bare op)).thenWrite
            (Code.dropUnless keep)
          exact ((a.writes_draft true).join hTail).congr fun start => by
            simp only [pure_bind, List.append_assoc]
  | .post operator a place =>
      by_cases hStep : operator.isStep = true
      · cases keep with
        | true =>
            simp only [Expr.draft, Expr.emit, if_pos hStep, if_true]
            refine Writes.after _ fun name => Writes.after _ fun hidden => ?_
            have hLoads := (writes_write (Code.step operator name)).thenWrite
              (Code.named .load hidden)
            have hInside := (writes_write (Code.named .alloc hidden)).join
              ((writes_write (Code.named .load name)).join
                ((writes_write (Code.named .store hidden)).join hLoads))
            exact hInside.inScope.congr fun start => by
              simp [Code.scoped, Code.stepKeepingOld]
        | false =>
            simp only [Expr.draft, Expr.emit, if_pos hStep,
              Bool.false_eq_true, if_false]
            exact Writes.after _ fun name => writes_write _
      · simp only [Expr.draft, Expr.emit, if_neg hStep]
        exact writes_throw _
  | .assignment name value place =>
      simp only [Expr.draft, Expr.emit]
      have hTail := (writes_write (Code.named .store name)).thenWrite
        (Code.loadIf keep name)
      exact ((value.writes_draft true).join hTail).congr fun start => by
        simp only [pure_bind, List.append_assoc]
  | .call name arguments place =>
      simp only [Expr.draft, Expr.emit]
      have hCalled := writes_write (Code.called name arguments.length)
      have hTail := hCalled.thenWrite (Code.dropUnless keep)
      exact ((Expr.writes_draftAll arguments).join hTail).congr
        fun start => by
          simp only [pure_bind, List.append_assoc]

theorem Expr.writes_draftAll (es : List Expr) :
    (Expr.draftAll es).Writes fun start => Expr.emitAll start es := by
  match es with
  | [] => exact writes_return
  | e :: es =>
      simp only [Expr.draftAll, Expr.emitAll]
      exact (e.writes_draft true).join (Expr.writes_draftAll es)

end

/- What is written of an expression is the code that is emitted there. -/
theorem Expr.run_draft_eq_ok
    {e : Expr}
    {keep : Bool}
    {d d' : Draft}
    {f g : Fresh} :
    (e.draft keep).run d f = .ok ((), d') g ↔
      ∃ code,
        e.emit d.words.length keep f = .ok code g ∧
          d' = d.append code := by
  rw [e.writes_draft keep d, Emit.bind_eq_ok]
  constructor
  · rintro ⟨code, u, hCode, hDraft⟩
    obtain ⟨hSame, rfl⟩ := Emit.pure_eq_ok.1 hDraft
    exact ⟨code, hCode, (Prod.mk.inj hSame).2.symm⟩
  · rintro ⟨code, hCode, rfl⟩
    exact ⟨code, g, hCode, rfl⟩

end StackScript
