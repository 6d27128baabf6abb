import StackScript.Proofs.Twin.Abreast
import StackScript.Proofs.Twin.Labels

/-
  Code of an expression whose value is not kept.

  For most forms it is the code that keeps the value, and a
  pop. A constant has no code at all, an assignment and a
  step do without loading the variable again, and a step
  behind a variable does without the hidden one. Wherever
  the code stands, and whatever numbers are in use, the same
  instructions are made, with jump targets a distance apart.

  Key definitions include:
    * `Numbering.free`
    * `Code.Discards`
    * `Expr.Discardable`

  Key theorems include:
    * `Expr.emit_unplaced_iff`
    * `Expr.again_emit`
    * `Expr.discardable`
-/

namespace StackScript

------------------------------------------------------------
-- The Same Code Elsewhere
------------------------------------------------------------

/- Fresh numbers of any kind, and names that are not hidden. -/
def Numbering.free : Numbering where
  hidden _ _ := True
  mark _ _ := True
  plain name := ¬ hiddenStart <+: name.toList
  hidden_succ _ := trivial
  mark_succ _ := trivial

/- A function is itself. -/
abbrev Routine.Itself : Routine → Routine → Prop :=
  Routine.Only fun _ => True

/- Code at a position, and the same a distance away. -/
abbrev Code.Again
    (shift start : Nat) : Code → Code → Prop :=
  Code.Aligned Numbering.free Routine.Itself shift (fun _ => False) start

variable {e : Expr}
variable {start shift : Nat}
variable {keep : Bool}
variable {c : Code}
variable {f g : Fresh}

/- The code of an expression says nothing about its places. -/
theorem Expr.emit_unplaced_iff :
    e.unplaced.emit start keep f = .ok c g ↔
      e.emit start keep f = .ok c g := by
  have hPairs :
      Emit.Pairs Numbering.same
        (Code.Aligned Numbering.same (Routine.SameUnder id id) 0
          (fun _ => False) start)
        (e.emit start keep) (e.unplaced.emit start keep) :=
    e.pairs_emit (fun _ _ => trivial) rfl
  apply Emit.eq_ok_iff_of_same
  exact hPairs.mono (fun _ _ => id) fun _ _ h =>
    h.row.sameUnder Numbering.same_agrees

/- An expression and the same elsewhere, from any numbers on. -/
theorem Expr.pairs_free
    (hNames : Plain e.identifiers)
    (start shift : Nat)
    (keep : Bool) :
    Emit.Pairs Numbering.free (Code.Again shift start)
      (e.emit start keep) (e.unplaced.emit (start + shift) keep) :=
  e.pairs_emit hNames rfl

/- An expression has the same code elsewhere. -/
theorem Expr.again_emit
    (hNames : Plain e.identifiers)
    (h : e.emit start keep f = .ok c g)
    (shift : Nat)
    (f' : Fresh) :
    ∃ c' g', e.emit (start + shift) keep f' = .ok c' g' ∧
      Code.Again shift start c c' := by
  have hBoth :=
    Expr.pairs_free hNames start shift keep f f' ⟨trivial, trivial⟩
  rw [h] at hBoth
  cases hResult : e.unplaced.emit (start + shift) keep f' with
  | error error g' =>
      rw [hResult] at hBoth
      exact hBoth.elim
  | ok c' g' =>
      rw [hResult] at hBoth
      exact ⟨c', g', Expr.emit_unplaced_iff.1 hResult, hBoth.1⟩

/- An expression with code somewhere has code at the start. -/
theorem Expr.exists_emit_zero
    (hNames : Plain e.identifiers)
    (h : e.emit start keep f = .ok c g) :
    ∃ c' g', e.emit 0 keep f = .ok c' g' := by
  have hBoth :=
    Expr.pairs_free hNames 0 start keep f f ⟨trivial, trivial⟩
  rw [Nat.zero_add, Expr.emit_unplaced_iff.2 h] at hBoth
  cases hResult : e.emit 0 keep f with
  | error error g' =>
      rw [hResult] at hBoth
      exact hBoth.elim
  | ok c' g' => exact ⟨c', g', rfl⟩

------------------------------------------------------------
-- Code That Keeps and Code That Does Not
------------------------------------------------------------

/-
  Code that does not keep a value, and code of the same
  expression that does, at one position.
-/
inductive Code.Discards (start : Nat) : Code → Code → Prop
| popped
    {c : Code} :
    Discards start (c ++ dropUnless false) (c ++ dropUnless true)
| constant
    {value : Constant} :
    Discards start (pushIf false value) (pushIf true value)
| assigned
    {c : Code}
    {name : String}
    (h : Again 0 start c c) :
    Discards start (c ++ named .store name ++ loadIf false name)
      (c ++ named .store name ++ loadIf true name)
| stepped
    {operator : Operator}
    {name : String} :
    Discards start (step operator name ++ loadIf false name)
      (step operator name ++ loadIf true name)
| keptOld
    {operator : Operator}
    {name : String}
    {number : Nat}
    (h : name ≠ hiddenName number) :
    Discards start (step operator name)
      (stepKeepingOld operator name (hiddenName number))

/-
  An expression has code of both kinds at a position, from
  the same numbers on, and the one discards what the other
  keeps.
-/
def Expr.Discardable
    (e : Expr)
    (start : Nat)
    (f : Fresh) : Prop :=
  ∃ dropped kept g₁ g₂,
    e.emit start false f = .ok dropped g₁ ∧
      e.emit start true f = .ok kept g₂ ∧
      Code.Discards start dropped kept

/-
  Code that is made first, and finished by whether its value
  is kept. What is made in the one case is made in the other.
-/
theorem Expr.discardable_of_finish
    {α : Type}
    {make : Emit α}
    {finish : Bool → α → Code}
    (hEmit :
      ∀ keep, e.emit start keep = make >>= fun a => pure (finish keep a))
    (hDiscards :
      ∀ a s, make f = .ok a s →
        Code.Discards start (finish false a) (finish true a))
    (h : e.emit start keep f = .ok c g) :
    e.Discardable start f := by
  rw [hEmit, Emit.bind_eq_ok] at h
  rcases h with ⟨a, s, hMake, -⟩
  have hBoth (keep : Bool) :
      e.emit start keep f = .ok (finish keep a) s := by
    rw [hEmit, Emit.bind_eq_ok]
    exact ⟨a, s, hMake, rfl⟩
  exact ⟨_, _, _, _, hBoth false, hBoth true, hDiscards a s hMake⟩

/- An expression that compiles has code of both kinds. -/
theorem Expr.discardable
    (e : Expr)
    {start : Nat}
    {keep : Bool}
    {c : Code}
    {f g : Fresh}
    (hNames : Plain e.identifiers)
    (h : e.emit start keep f = .ok c g) :
    e.Discardable start f := by
  match e with
  | .literal text place =>
      cases hText : Constant.ofText? text with
      | none =>
          simp only [Expr.emit, hText] at h
          exact absurd h Emit.throw_ne_ok
      | some value =>
          have hEmit (keep : Bool) :
              (Expr.literal text place).emit start keep =
                pure value >>= fun v => pure (Code.pushIf keep v) := by
            rw [Expr.emit, hText, pure_bind]
          exact discardable_of_finish hEmit (fun _ _ _ => .constant) h
  | .string text place =>
      have hEmit (keep : Bool) :
          (Expr.string text place).emit start keep =
            pure (.text (Token.unquote text)) >>= fun v =>
              pure (Code.pushIf keep v) := by
        rw [Expr.emit, pure_bind]
      exact discardable_of_finish hEmit (fun _ _ _ => .constant) h
  | .variable name place =>
      have hEmit (keep : Bool) :
          (Expr.variable name place).emit start keep =
            pure (Code.named .load name) >>= fun c =>
              pure (c ++ Code.dropUnless keep) := by
        rw [Expr.emit, pure_bind]
      exact discardable_of_finish hEmit (fun _ _ _ => .popped) h
  | .binary operator a b place =>
      cases hOp : operator.binaryOp? with
      | none =>
          simp only [Expr.emit, hOp] at h
          exact absurd h Emit.throw_ne_ok
      | some op =>
          let make : Emit Code := do
            let left ← a.emit start true
            let right ← b.emit (start + left.length) true
            return left ++ right ++ Code.bare op
          have hEmit (keep : Bool) :
              (Expr.binary operator a b place).emit start keep =
                make >>= fun c => pure (c ++ Code.dropUnless keep) := by
            simp only [Expr.emit, hOp, make, bind_assoc, pure_bind]
          exact discardable_of_finish hEmit (fun _ _ _ => .popped) h
  | .logical operator a b place =>
      cases operator
      case and =>
        let make : Emit Code := do
          let left ← a.emit start true
          let right ← b.emit (start + left.length + 2) true
          return Code.both start left right
        have hEmit (keep : Bool) :
            (Expr.logical .and a b place).emit start keep =
              make >>= fun c => pure (c ++ Code.dropUnless keep) := by
          simp only [Expr.emit, make, bind_assoc, pure_bind]
        exact discardable_of_finish hEmit (fun _ _ _ => .popped) h
      case or =>
        let make : Emit Code := do
          let left ← a.emit start true
          let right ← b.emit (start + left.length + 6) true
          return Code.either start left right
        have hEmit (keep : Bool) :
            (Expr.logical .or a b place).emit start keep =
              make >>= fun c => pure (c ++ Code.dropUnless keep) := by
          simp only [Expr.emit, make, bind_assoc, pure_bind]
        exact discardable_of_finish hEmit (fun _ _ _ => .popped) h
      all_goals
        simp only [Expr.emit] at h
        exact absurd h Emit.throw_ne_ok
  | .unary operator a place =>
      by_cases hPlus : operator = .plus
      · subst hPlus
        have hEmit (keep : Bool) :
            (Expr.unary .plus a place).emit start keep =
              a.emit start keep := by
          simp only [Expr.emit, if_true]
        rw [hEmit] at h
        have hArgument := a.discardable hNames h
        unfold Expr.Discardable at hArgument ⊢
        simpa only [hEmit] using hArgument
      · by_cases hStep : operator.isStep
        · have hEmit (keep : Bool) :
              (Expr.unary operator a place).emit start keep =
                a.updateTarget operator >>= fun name =>
                  pure (Code.step operator name
                    ++ Code.loadIf keep name) := by
            simp only [Expr.emit, if_neg hPlus, if_pos hStep]
          exact discardable_of_finish hEmit (fun _ _ _ => .stepped) h
        · cases hOp : operator.unaryOp? with
          | none =>
              simp only [Expr.emit, if_neg hPlus, if_neg hStep,
                hOp] at h
              exact absurd h Emit.throw_ne_ok
          | some op =>
              let make : Emit Code := do
                let argument ← a.emit start true
                return argument ++ Code.bare op
              have hEmit (keep : Bool) :
                  (Expr.unary operator a place).emit start keep =
                    make >>= fun c =>
                      pure (c ++ Code.dropUnless keep) := by
                simp only [Expr.emit, if_neg hPlus, if_neg hStep, hOp,
                  make, bind_assoc, pure_bind]
              exact discardable_of_finish hEmit (fun _ _ _ => .popped) h
  | .post operator a place =>
      by_cases hStep : operator.isStep
      · simp only [Expr.emit, hStep, if_true, Emit.bind_eq_ok] at h
        rcases h with ⟨name, s, hTarget, -⟩
        rcases Expr.updateTarget_eq_ok hTarget with
          ⟨⟨spot, rfl⟩, rfl⟩
        have hPlain : name ≠ hiddenName f.temporaries :=
          ne_hiddenName (hNames name List.mem_cons_self) _
        have hDropped :
            (Expr.post operator (.variable name spot) place).emit start
                false f =
              .ok (Code.step operator name) f := by
          simp only [Expr.emit, hStep, if_true, Emit.bind_eq_ok,
            Bool.false_eq_true, if_false, Emit.pure_eq_ok]
          exact ⟨name, f, hTarget, rfl, rfl⟩
        have hKept :
            (Expr.post operator (.variable name spot) place).emit start
                true f =
              .ok
                (Code.stepKeepingOld operator name
                  (hiddenName f.temporaries)) f.hide := by
          simp only [Expr.emit, hStep, if_true, Emit.bind_eq_ok,
            Emit.temporary_eq_ok, Emit.pure_eq_ok]
          exact ⟨name, f, hTarget, _, _, ⟨rfl, rfl⟩, rfl, rfl⟩
        exact ⟨_, _, _, _, hDropped, hKept, .keptOld hPlain⟩
      · simp only [Expr.emit, if_neg hStep] at h
        exact absurd h Emit.throw_ne_ok
  | .assignment name value place =>
      have hEmit (keep : Bool) :
          (Expr.assignment name value place).emit start keep =
            value.emit start true >>= fun c =>
              pure (c ++ Code.named .store name
                ++ Code.loadIf keep name) := by
        rw [Expr.emit]
      have hPlain : Plain value.identifiers := by
        rw [Expr.identifiers] at hNames
        exact (plain_cons.1 hNames).2
      refine discardable_of_finish hEmit (fun body s hValue => ?_) h
      rcases Expr.again_emit hPlain hValue 0 f with
        ⟨_, _, hSame, hAgain⟩
      cases hSame.symm.trans hValue
      exact .assigned hAgain
  | .call name arguments place =>
      let make : Emit Code := do
        let body ← Expr.emitAll start arguments
        return body ++ Code.called name arguments.length
      have hEmit (keep : Bool) :
          (Expr.call name arguments place).emit start keep =
            make >>= fun c => pure (c ++ Code.dropUnless keep) := by
        simp only [Expr.emit, make, bind_assoc, pure_bind]
      exact discardable_of_finish hEmit (fun _ _ _ => .popped) h

end StackScript
