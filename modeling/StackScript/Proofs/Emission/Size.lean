import StackScript.Proofs.Emission.Ahead

/-
  The size of code.

  Loops jump to places behind code that is not made yet, so
  `Expr.size` and `Stmt.size` say in advance how long it
  will be. They are right: whenever code is made, it has
  just that many words.

  Key theorems include:
    * `Expr.length_emit`
    * `Stmt.length_emit`
    * `Stmt.length_emitAll`
-/

namespace StackScript

------------------------------------------------------------
-- Successful Emission
------------------------------------------------------------

namespace Emit

/- Two steps succeed when one does after the other. -/
theorem bind_eq_ok
    {α β : Type}
    {x : Emit α}
    {f : α → Emit β}
    {s t : Fresh}
    {b : β} :
    (x >>= f) s = .ok b t ↔
      ∃ a u, x s = .ok a u ∧ f a u = .ok b t := by
  change EStateM.bind x f s = _ ↔ _
  unfold EStateM.bind
  cases h : x s with
  | ok a u =>
      constructor
      · intro hf
        exact ⟨a, u, rfl, hf⟩
      · rintro ⟨a', u', ha, hf⟩
        cases ha
        exact hf
  | error e u =>
      constructor
      · intro hf
        cases hf
      · rintro ⟨_, _, ha, _⟩
        cases ha

/- A result that is given succeeds and changes nothing. -/
theorem pure_eq_ok
    {α : Type}
    {a b : α}
    {s t : Fresh} :
    (pure a : Emit α) s = .ok b t ↔ a = b ∧ s = t := by
  change EStateM.Result.ok a s = .ok b t ↔ _
  simp

/- An error is no success. -/
theorem throw_ne_ok
    {α : Type}
    {e : CompileError}
    {b : α}
    {s t : Fresh} :
    (throw e : Emit α) s ≠ .ok b t := by
  intro h
  cases h

end Emit

------------------------------------------------------------
-- Pieces of Code
------------------------------------------------------------

namespace Code

@[simp]
theorem length_bare (o : Op) :
    (bare o).length = 1 := rfl

@[simp]
theorem length_named
    (o : Op)
    (name : String) :
    (named o name).length = 2 := rfl

@[simp]
theorem length_pushed (c : Constant) :
    (pushed c).length = 2 := rfl

@[simp]
theorem length_jump
    (o : Op)
    (target : Nat) :
    (jump o target).length = 2 := rfl

@[simp]
theorem length_called
    (name : String)
    (arguments : Nat) :
    (called name arguments).length = 3 := rfl

@[simp]
theorem length_pushIf
    (keep : Bool)
    (c : Constant) :
    (pushIf keep c).length = if keep then 2 else 0 := by
  cases keep <;> rfl

@[simp]
theorem length_dropUnless (keep : Bool) :
    (dropUnless keep).length = if keep then 0 else 1 := by
  cases keep <;> rfl

@[simp]
theorem length_loadIf
    (keep : Bool)
    (name : String) :
    (loadIf keep name).length = if keep then 2 else 0 := by
  cases keep <;> rfl

@[simp]
theorem length_step
    (operator : Operator)
    (name : String) :
    (step operator name).length = 7 := rfl

@[simp]
theorem length_stepKeepingOld
    (operator : Operator)
    (name hidden : String) :
    (stepKeepingOld operator name hidden).length = 17 := rfl

@[simp]
theorem length_both
    (start : Nat)
    (left right : Code) :
    (both start left right).length =
      left.length + right.length + 10 := by
  simp [both]
  omega

@[simp]
theorem length_either
    (start : Nat)
    (left right : Code) :
    (either start left right).length =
      left.length + right.length + 14 := by
  simp [either]
  omega

end Code

------------------------------------------------------------
-- Expressions
------------------------------------------------------------

mutual

/- The code of an expression has the size foretold. -/
theorem Expr.length_emit
    (e : Expr)
    {start : Nat}
    {keep : Bool}
    {code : Code}
    {s t : Fresh}
    (h : e.emit start keep s = .ok code t) :
    code.length = e.size keep := by
  match e with
  | .literal text place =>
      cases hc : Constant.ofText? text with
      | none =>
          simp only [Expr.emit, hc] at h
          exact absurd h Emit.throw_ne_ok
      | some c =>
          simp only [Expr.emit, hc, Emit.pure_eq_ok] at h
          simp [← h.1, Expr.size]
  | .string text place =>
      simp only [Expr.emit, Emit.pure_eq_ok] at h
      simp [← h.1, Expr.size]
  | .variable name place =>
      simp only [Expr.emit, Emit.pure_eq_ok] at h
      cases keep <;> simp [← h.1, Expr.size]
  | .binary operator a b place =>
      cases ho : operator.binaryOp? with
      | none =>
          simp only [Expr.emit, ho] at h
          exact absurd h Emit.throw_ne_ok
      | some op =>
          simp only [Expr.emit, ho, Emit.bind_eq_ok,
            Emit.pure_eq_ok] at h
          obtain ⟨left, _, ha, right, _, hb, hcode, _⟩ := h
          have hleft := a.length_emit ha
          have hright := b.length_emit hb
          cases keep <;>
            simp [← hcode, Expr.size, hleft, hright] <;> omega
  | .logical operator a b place =>
      cases operator
      case and =>
        simp only [Expr.emit, Emit.bind_eq_ok, Emit.pure_eq_ok] at h
        obtain ⟨left, _, ha, right, _, hb, hcode, _⟩ := h
        have hleft := a.length_emit ha
        have hright := b.length_emit hb
        cases keep <;> simp [← hcode, Expr.size, hleft, hright]
      case or =>
        simp only [Expr.emit, Emit.bind_eq_ok, Emit.pure_eq_ok] at h
        obtain ⟨left, _, ha, right, _, hb, hcode, _⟩ := h
        have hleft := a.length_emit ha
        have hright := b.length_emit hb
        cases keep <;> simp [← hcode, Expr.size, hleft, hright]
      all_goals
        simp only [Expr.emit] at h
        exact absurd h Emit.throw_ne_ok
  | .unary operator a place =>
      by_cases hplus : operator = .plus
      · simp only [Expr.emit, hplus, if_true] at h
        simp [Expr.size, hplus, a.length_emit h]
      · by_cases hstep : operator.isStep
        · simp only [Expr.emit, hplus, hstep, if_true, if_false,
            Emit.bind_eq_ok, Emit.pure_eq_ok] at h
          obtain ⟨name, _, _, hcode, _⟩ := h
          cases keep <;> simp [← hcode, Expr.size, hplus, hstep]
        · cases ho : operator.unaryOp? with
          | none =>
              simp only [Expr.emit, if_neg hplus, if_neg hstep, ho] at h
              exact absurd h Emit.throw_ne_ok
          | some op =>
              simp only [Expr.emit, if_neg hplus, if_neg hstep, ho,
                Emit.bind_eq_ok, Emit.pure_eq_ok] at h
              obtain ⟨argument, _, ha, hcode, _⟩ := h
              have hargument := a.length_emit ha
              cases keep <;>
                simp [← hcode, Expr.size, hplus, hstep, hargument]
  | .post operator a place =>
      by_cases hstep : operator.isStep
      · simp only [Expr.emit, hstep, if_true, Emit.bind_eq_ok] at h
        obtain ⟨name, _, _, h⟩ := h
        cases keep with
        | true =>
            simp only [if_true, Emit.bind_eq_ok, Emit.pure_eq_ok] at h
            obtain ⟨hidden, _, _, hcode, _⟩ := h
            simp [← hcode, Expr.size]
        | false =>
            simp only [Bool.false_eq_true, if_false,
              Emit.pure_eq_ok] at h
            simp [← h.1, Expr.size]
      · simp only [Expr.emit, if_neg hstep] at h
        exact absurd h Emit.throw_ne_ok
  | .assignment name value place =>
      simp only [Expr.emit, Emit.bind_eq_ok, Emit.pure_eq_ok] at h
      obtain ⟨body, _, hv, hcode, _⟩ := h
      have hbody := value.length_emit hv
      cases keep <;> simp [← hcode, Expr.size, hbody]
  | .call name arguments place =>
      simp only [Expr.emit, Emit.bind_eq_ok, Emit.pure_eq_ok] at h
      obtain ⟨body, _, hv, hcode, _⟩ := h
      have hbody := Expr.length_emitAll arguments hv
      cases keep <;> simp [← hcode, Expr.size, hbody]

/- The code of some expressions has the size foretold. -/
theorem Expr.length_emitAll
    (es : List Expr)
    {start : Nat}
    {code : Code}
    {s t : Fresh}
    (h : Expr.emitAll start es s = .ok code t) :
    code.length = Expr.sizes es := by
  match es with
  | [] =>
      simp only [Expr.emitAll, Emit.pure_eq_ok] at h
      simp [← h.1, Expr.sizes]
  | e :: es =>
      simp only [Expr.emitAll, Emit.bind_eq_ok, Emit.pure_eq_ok] at h
      obtain ⟨first, _, he, others, _, hes, hcode, _⟩ := h
      have hfirst := e.length_emit he
      have hothers := Expr.length_emitAll es hes
      simp [← hcode, Expr.sizes, hfirst, hothers]

end

------------------------------------------------------------
-- Statements
------------------------------------------------------------

@[simp]
theorem Code.length_scoped (body : Code) :
    (Code.scoped body).length = body.length + 2 := by
  simp [Code.scoped]
  omega

@[simp]
theorem Code.length_exit
    (l : Loop)
    (target : Nat) :
    (Code.exit l target).length = l.opened + 2 := by
  simp [Code.exit]

/- As many scopes are open inside the loop, if there is one. -/
def Loop.Opens
    (loop : Option Loop)
    (opened : Nat) : Prop :=
  ∀ l, loop = some l → l.opened = opened

namespace Loop

/- The scopes that a loop counts are open inside it. -/
theorem opens_some (l : Loop) :
    Loop.Opens (some l) l.opened := by
  intro l' h
  cases h
  rfl

/- A block opens one scope more. -/
theorem Opens.enter
    {loop : Option Loop}
    {opened : Nat}
    (h : Loop.Opens loop opened) :
    Loop.Opens (loop.map .enter) (opened + 1) := by
  intro l' hl
  obtain ⟨l, hloop, rfl⟩ := Option.map_eq_some_iff.1 hl
  simp [Loop.enter, h l hloop]

end Loop

mutual

/- The code of a statement has the size foretold. -/
theorem Stmt.length_emit
    (stmt : Stmt)
    {start opened : Nat}
    {loop : Option Loop}
    {code : Code}
    {s t : Fresh}
    (hopened : Loop.Opens loop opened)
    (h : stmt.emit start loop s = .ok code t) :
    code.length = stmt.size opened := by
  match stmt with
  | .expr e =>
      simp only [Stmt.emit] at h
      simp [Stmt.size, e.length_emit h]
  | .declare name place =>
      simp only [Stmt.emit, Emit.pure_eq_ok] at h
      simp [← h.1, Stmt.size]
  | .define name value place =>
      simp only [Stmt.emit, Emit.bind_eq_ok, Emit.pure_eq_ok] at h
      obtain ⟨body, _, hv, hcode, _⟩ := h
      simp [← hcode, Stmt.size, value.length_emit hv]
      omega
  | .function name parameters body place =>
      simp only [Stmt.emit, Emit.bind_eq_ok, Emit.pure_eq_ok] at h
      obtain ⟨_, _, _, _, _, _, hcode, _⟩ := h
      simp [← hcode, Stmt.size]
  | .ret none place =>
      simp only [Stmt.emit, emitOption, Emit.bind_eq_ok,
        Emit.pure_eq_ok] at h
      obtain ⟨body, _, ⟨hbody, _⟩, hcode, _⟩ := h
      simp [← hcode, ← hbody, Stmt.size, sizeOr]
  | .ret (some e) place =>
      simp only [Stmt.emit, emitOption, Emit.bind_eq_ok,
        Emit.pure_eq_ok] at h
      obtain ⟨body, _, he, hcode, _⟩ := h
      simp [← hcode, Stmt.size, sizeOr, e.length_emit he]
  | .ifThen condition body place =>
      simp only [Stmt.emit, Emit.bind_eq_ok, Emit.pure_eq_ok] at h
      obtain ⟨test, _, ht, inner, _, hi, hcode, _⟩ := h
      have htest := condition.length_emit ht
      have hinner := Stmt.length_emitAll body hopened.enter hi
      simp [← hcode, Stmt.size, htest, hinner]
      omega
  | .ifElse condition body otherwise place =>
      simp only [Stmt.emit, Emit.bind_eq_ok, Emit.pure_eq_ok] at h
      obtain ⟨test, _, ht, inner, _, hi, other, _, ho, hcode, _⟩ := h
      have htest := condition.length_emit ht
      have hinner := Stmt.length_emitAll body hopened.enter hi
      have hother := Stmt.length_emitAll otherwise hopened.enter ho
      simp [← hcode, Stmt.size, htest, hinner, hother]
      omega
  | .whileLoop condition body place =>
      simp only [Stmt.emit, Emit.bind_eq_ok, Emit.pure_eq_ok] at h
      obtain ⟨test, _, ht, inner, _, hi, hcode, _⟩ := h
      have htest := condition.length_emit ht
      have hinner := Stmt.length_emitAll body (Loop.opens_some _) hi
      simp [← hcode, Stmt.size, htest, hinner]
      omega
  | .forLoop initial condition update body place =>
      simp only [Stmt.emit, Emit.bind_eq_ok, Emit.pure_eq_ok] at h
      obtain ⟨first, _, hf, test, _, ht, inner, _, hi, last, _, hl,
        hcode, _⟩ := h
      have hfirst := initial.length_emit hopened.enter hf
      have hinner := Stmt.length_emitAll body (Loop.opens_some _) hi
      have htest :
          test.length = sizeOr 0 (·.size true + 2) condition := by
        cases condition with
        | none =>
            simp only [emitOption, Emit.pure_eq_ok] at ht
            simp [← ht.1, sizeOr]
        | some e =>
            simp only [emitOption, Emit.bind_eq_ok,
              Emit.pure_eq_ok] at ht
            obtain ⟨code, _, he, htest, _⟩ := ht
            simp [← htest, sizeOr, e.length_emit he]
      have hlast : last.length = sizeOr 0 (·.size false) update := by
        cases update with
        | none =>
            simp only [emitOption, Emit.pure_eq_ok] at hl
            simp [← hl.1, sizeOr]
        | some e =>
            simp only [emitOption] at hl
            simp [sizeOr, e.length_emit hl]
      simp [← hcode, Stmt.size, hfirst, hinner, htest, hlast]
      omega
  | .breakLoop place =>
      cases loop with
      | none =>
          simp only [Stmt.emit] at h
          exact absurd h Emit.throw_ne_ok
      | some l =>
          simp only [Stmt.emit, Emit.pure_eq_ok] at h
          simp [← h.1, Stmt.size, hopened l rfl]
  | .continueLoop place =>
      cases loop with
      | none =>
          simp only [Stmt.emit] at h
          exact absurd h Emit.throw_ne_ok
      | some l =>
          simp only [Stmt.emit, Emit.pure_eq_ok] at h
          simp [← h.1, Stmt.size, hopened l rfl]

/- The code of some statements has the size foretold. -/
theorem Stmt.length_emitAll
    (stmts : List Stmt)
    {start opened : Nat}
    {loop : Option Loop}
    {code : Code}
    {s t : Fresh}
    (hopened : Loop.Opens loop opened)
    (h : Stmt.emitAll start loop stmts s = .ok code t) :
    code.length = Stmt.sizes opened stmts := by
  match stmts with
  | [] =>
      simp only [Stmt.emitAll, Emit.pure_eq_ok] at h
      simp [← h.1, Stmt.sizes]
  | stmt :: stmts =>
      simp only [Stmt.emitAll, Emit.bind_eq_ok, Emit.pure_eq_ok] at h
      obtain ⟨first, _, hf, others, _, ho, hcode, _⟩ := h
      have hfirst := stmt.length_emit hopened hf
      have hothers := Stmt.length_emitAll stmts hopened ho
      simp [← hcode, Stmt.sizes, hfirst, hothers]

end

end StackScript
