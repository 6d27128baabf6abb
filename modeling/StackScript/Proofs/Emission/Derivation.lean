import StackScript.Proofs.Emission.Patching

/-
  What code is made of.

  `Expr.Emits` and `Stmt.Emits` relate a tree to the code
  that is made from it, with one rule for each form that
  code can be made from. Positions are given by the lengths
  of the code in front, so nothing is said about sizes in
  advance, fresh numbers are used up in the order of the
  rules, and all that is refused has no rule.

  Correctness is proven by:
    * `Expr.emits_of_emit`
    * `Stmt.emits_of_emit`
    * `Program.emits_of_compile`
-/

namespace StackScript

------------------------------------------------------------
-- Expressions
------------------------------------------------------------

/- The hidden name with a number. -/
def hiddenName (n : Nat) : String :=
  s!"__$temp{n}"

/- The numbers after one hidden name is used. -/
def Fresh.hide (s : Fresh) : Fresh :=
  { s with temporaries := s.temporaries + 1 }

/- The numbers after one function is made. -/
def Fresh.define (s : Fresh) : Fresh :=
  { s with routines := s.routines + 1 }

mutual

/-
  Code at a position for an expression that is kept or not,
  with the fresh numbers before and after.
-/
inductive Expr.Emits :
    Nat → Bool → Expr → Fresh → Code → Fresh → Prop
| literal
    {start keep text place s c}
    (hText : Constant.ofText? text = some c) :
    Expr.Emits start keep (.literal text place) s
      (Code.pushIf keep c) s
| string
    {start keep text place s} :
    Expr.Emits start keep (.string text place) s
      (Code.pushIf keep (.text (Token.unquote text))) s
| variable
    {start keep name place s} :
    Expr.Emits start keep (.variable name place) s
      (Code.named .load name ++ Code.dropUnless keep) s
| binary
    {start keep operator a b place s t u left right op}
    (hOp : operator.binaryOp? = some op)
    (hLeft : Expr.Emits start true a s left t)
    (hRight : Expr.Emits (start + left.length) true b t right u) :
    Expr.Emits start keep (.binary operator a b place) s
      (left ++ right ++ Code.bare op ++ Code.dropUnless keep) u
| both
    {start keep a b place s t u left right}
    (hLeft : Expr.Emits start true a s left t)
    (hRight :
      Expr.Emits (start + left.length + 2) true b t right u) :
    Expr.Emits start keep (.logical .and a b place) s
      (Code.both start left right ++ Code.dropUnless keep) u
| either
    {start keep a b place s t u left right}
    (hLeft : Expr.Emits start true a s left t)
    (hRight :
      Expr.Emits (start + left.length + 6) true b t right u) :
    Expr.Emits start keep (.logical .or a b place) s
      (Code.either start left right ++ Code.dropUnless keep) u
| plus
    {start keep a place s code t}
    (hArgument : Expr.Emits start keep a s code t) :
    Expr.Emits start keep (.unary .plus a place) s code t
| stepped
    {start keep operator name spot place s}
    (hStep : operator.isStep) :
    Expr.Emits start keep
      (.unary operator (.variable name spot) place) s
      (Code.step operator name ++ Code.loadIf keep name) s
| unary
    {start keep operator a place s code t op}
    (hPlus : operator ≠ .plus)
    (hStep : ¬ operator.isStep)
    (hOp : operator.unaryOp? = some op)
    (hArgument : Expr.Emits start true a s code t) :
    Expr.Emits start keep (.unary operator a place) s
      (code ++ Code.bare op ++ Code.dropUnless keep) t
| keptPost
    {start operator name spot place s}
    (hStep : operator.isStep) :
    Expr.Emits start true
      (.post operator (.variable name spot) place) s
      (Code.stepKeepingOld operator name
        (hiddenName s.temporaries)) s.hide
| droppedPost
    {start operator name spot place s}
    (hStep : operator.isStep) :
    Expr.Emits start false
      (.post operator (.variable name spot) place) s
      (Code.step operator name) s
| assignment
    {start keep name value place s code t}
    (hValue : Expr.Emits start true value s code t) :
    Expr.Emits start keep (.assignment name value place) s
      (code ++ Code.named .store name ++ Code.loadIf keep name) t
| call
    {start keep name arguments place s code t}
    (hArguments : Expr.EmitsAll start arguments s code t) :
    Expr.Emits start keep (.call name arguments place) s
      (code ++ Code.called name arguments.length
        ++ Code.dropUnless keep) t

/- Code at a position for some kept expressions in a row. -/
inductive Expr.EmitsAll :
    Nat → List Expr → Fresh → Code → Fresh → Prop
| nil
    {start s} :
    Expr.EmitsAll start [] s [] s
| cons
    {start e es s t u first others}
    (hFirst : Expr.Emits start true e s first t)
    (hOthers :
      Expr.EmitsAll (start + first.length) es t others u) :
    Expr.EmitsAll start (e :: es) s (first ++ others) u

end

/- A hidden name is taken by its number. -/
theorem Emit.temporary_eq_ok
    {s t : Fresh}
    {name : String} :
    Emit.temporary s = .ok name t ↔
      hiddenName s.temporaries = name ∧ s.hide = t := by
  simp only [Emit.temporary, Emit.bind_eq_ok, Emit.pure_eq_ok]
  constructor
  · rintro ⟨_, _, hGet, _, _, hSet, rfl, rfl⟩
    cases hGet
    cases hSet
    exact ⟨rfl, rfl⟩
  · rintro ⟨rfl, rfl⟩
    exact ⟨s, s, rfl, (), _, rfl, rfl, rfl⟩

/- A mark is taken by its number. -/
theorem Emit.mark_eq_ok
    {s t : Fresh}
    {mark : Nat} :
    Emit.mark s = .ok mark t ↔
      s.routines = mark ∧ s.define = t := by
  simp only [Emit.mark, Emit.bind_eq_ok, Emit.pure_eq_ok]
  constructor
  · rintro ⟨_, _, hGet, _, _, hSet, rfl, rfl⟩
    cases hGet
    cases hSet
    exact ⟨rfl, rfl⟩
  · rintro ⟨rfl, rfl⟩
    exact ⟨s, s, rfl, (), _, rfl, rfl, rfl⟩

/- Only variables are stepped. -/
theorem Expr.updateTarget_eq_ok
    {e : Expr}
    {operator : Operator}
    {s t : Fresh}
    {name : String}
    (h : e.updateTarget operator s = .ok name t) :
    (∃ place, e = .variable name place) ∧ s = t := by
  cases e with
  | «variable» n place =>
      have hPure : (pure n : Emit String) s = .ok name t := h
      rcases Emit.pure_eq_ok.1 hPure with ⟨rfl, rfl⟩
      exact ⟨⟨place, rfl⟩, rfl⟩
  | _ => exact absurd h Emit.throw_ne_ok

mutual

/- Code that is made follows the rules. -/
theorem Expr.emits_of_emit
    (e : Expr)
    {start : Nat}
    {keep : Bool}
    {code : Code}
    {s t : Fresh}
    (h : e.emit start keep s = .ok code t) :
    Expr.Emits start keep e s code t := by
  match e with
  | .literal text place =>
      cases hText : Constant.ofText? text with
      | none =>
          simp only [Expr.emit, hText] at h
          exact absurd h Emit.throw_ne_ok
      | some c =>
          simp only [Expr.emit, hText, Emit.pure_eq_ok] at h
          rcases h with ⟨rfl, rfl⟩
          exact .literal hText
  | .string text place =>
      simp only [Expr.emit, Emit.pure_eq_ok] at h
      rcases h with ⟨rfl, rfl⟩
      exact .string
  | .variable name place =>
      simp only [Expr.emit, Emit.pure_eq_ok] at h
      rcases h with ⟨rfl, rfl⟩
      exact .variable
  | .binary operator a b place =>
      cases hOp : operator.binaryOp? with
      | none =>
          simp only [Expr.emit, hOp] at h
          exact absurd h Emit.throw_ne_ok
      | some op =>
          simp only [Expr.emit, hOp, Emit.bind_eq_ok,
            Emit.pure_eq_ok] at h
          rcases h with ⟨left, _, ha, right, _, hb, rfl, rfl⟩
          exact .binary hOp (a.emits_of_emit ha)
            (b.emits_of_emit hb)
  | .logical operator a b place =>
      cases operator
      case and =>
        simp only [Expr.emit, Emit.bind_eq_ok, Emit.pure_eq_ok] at h
        rcases h with ⟨left, _, ha, right, _, hb, rfl, rfl⟩
        exact .both (a.emits_of_emit ha) (b.emits_of_emit hb)
      case or =>
        simp only [Expr.emit, Emit.bind_eq_ok, Emit.pure_eq_ok] at h
        rcases h with ⟨left, _, ha, right, _, hb, rfl, rfl⟩
        exact .either (a.emits_of_emit ha) (b.emits_of_emit hb)
      all_goals
        simp only [Expr.emit] at h
        exact absurd h Emit.throw_ne_ok
  | .unary operator a place =>
      by_cases hPlus : operator = .plus
      · subst hPlus
        simp only [Expr.emit, if_true] at h
        exact .plus (a.emits_of_emit h)
      · by_cases hStep : operator.isStep
        · simp only [Expr.emit, hPlus, hStep, if_true, if_false,
            Emit.bind_eq_ok, Emit.pure_eq_ok] at h
          rcases h with ⟨name, u, hTarget, rfl, rfl⟩
          rcases Expr.updateTarget_eq_ok hTarget with
            ⟨⟨spot, rfl⟩, rfl⟩
          exact .stepped hStep
        · cases hOp : operator.unaryOp? with
          | none =>
              simp only [Expr.emit, if_neg hPlus, if_neg hStep,
                hOp] at h
              exact absurd h Emit.throw_ne_ok
          | some op =>
              simp only [Expr.emit, if_neg hPlus, if_neg hStep,
                hOp, Emit.bind_eq_ok, Emit.pure_eq_ok] at h
              rcases h with ⟨argument, _, ha, rfl, rfl⟩
              exact .unary hPlus hStep hOp (a.emits_of_emit ha)
  | .post operator a place =>
      by_cases hStep : operator.isStep
      · simp only [Expr.emit, hStep, if_true, Emit.bind_eq_ok] at h
        rcases h with ⟨name, u, hTarget, h⟩
        rcases Expr.updateTarget_eq_ok hTarget with
          ⟨⟨spot, rfl⟩, rfl⟩
        cases keep with
        | true =>
            simp only [if_true, Emit.bind_eq_ok,
              Emit.temporary_eq_ok, Emit.pure_eq_ok] at h
            rcases h with ⟨_, _, ⟨rfl, rfl⟩, rfl, rfl⟩
            exact .keptPost hStep
        | false =>
            simp only [Bool.false_eq_true, if_false,
              Emit.pure_eq_ok] at h
            rcases h with ⟨rfl, rfl⟩
            exact .droppedPost hStep
      · simp only [Expr.emit, if_neg hStep] at h
        exact absurd h Emit.throw_ne_ok
  | .assignment name value place =>
      simp only [Expr.emit, Emit.bind_eq_ok, Emit.pure_eq_ok] at h
      rcases h with ⟨body, _, hv, rfl, rfl⟩
      exact .assignment (value.emits_of_emit hv)
  | .call name arguments place =>
      simp only [Expr.emit, Emit.bind_eq_ok, Emit.pure_eq_ok] at h
      rcases h with ⟨body, _, hv, rfl, rfl⟩
      exact .call (Expr.emitsAll_of_emitAll arguments hv)

/- Code that is made for expressions in a row does, too. -/
theorem Expr.emitsAll_of_emitAll
    (es : List Expr)
    {start : Nat}
    {code : Code}
    {s t : Fresh}
    (h : Expr.emitAll start es s = .ok code t) :
    Expr.EmitsAll start es s code t := by
  match es with
  | [] =>
      simp only [Expr.emitAll, Emit.pure_eq_ok] at h
      rcases h with ⟨rfl, rfl⟩
      exact .nil
  | e :: es =>
      simp only [Expr.emitAll, Emit.bind_eq_ok, Emit.pure_eq_ok] at h
      rcases h with ⟨first, _, he, others, _, hes, rfl, rfl⟩
      exact .cons (e.emits_of_emit he)
        (Expr.emitsAll_of_emitAll es hes)

end

------------------------------------------------------------
-- Statements
------------------------------------------------------------

/- Code for the condition of a loop, if it has one. -/
inductive Expr.EmitsTest :
    Nat → Nat → Option Expr → Fresh → Code → Fresh → Prop
| missing
    {start leave s} :
    Expr.EmitsTest start leave none s [] s
| present
    {start leave e s code t}
    (hTest : Expr.Emits start true e s code t) :
    Expr.EmitsTest start leave (some e) s
      (code ++ Code.jump .jz leave) t

/- Code for the update of a loop, if it has one. -/
inductive Expr.EmitsUpdate :
    Nat → Option Expr → Fresh → Code → Fresh → Prop
| missing
    {start s} :
    Expr.EmitsUpdate start none s [] s
| present
    {start e s code t}
    (hUpdate : Expr.Emits start false e s code t) :
    Expr.EmitsUpdate start (some e) s code t

mutual

/-
  Code at a position, inside a loop or outside all, for a
  statement, with the fresh numbers before and after.
-/
inductive Stmt.Emits :
    Nat → Option Loop → Stmt → Fresh → Code → Fresh → Prop
| expr
    {start loop e s code t}
    (hExpr : Expr.Emits start false e s code t) :
    Stmt.Emits start loop (.expr e) s code t
| declare
    {start loop name place s} :
    Stmt.Emits start loop (.declare name place) s
      (Code.named .alloc name) s
| define
    {start loop name value place s code t}
    (hValue : Expr.Emits (start + 2) true value s code t) :
    Stmt.Emits start loop (.define name value place) s
      (Code.named .alloc name ++ code ++ Code.named .store name) t
| function
    {start loop name parameters stmts place s body t}
    (hBody : Stmt.EmitsAll 0 none stmts s body t) :
    Stmt.Emits start loop (.function name parameters stmts place) s
      (Code.named .alloc name
        ++ Code.pushed
          (.routine
            ⟨t.routines, name, parameters,
              body ++ Code.pushed .null ++ Code.bare .ret⟩)
        ++ Code.named .store name) t.define
| retNull
    {start loop place s} :
    Stmt.Emits start loop (.ret none place) s
      (Code.pushed .null ++ Code.bare .ret) s
| ret
    {start loop e place s code t}
    (hValue : Expr.Emits start true e s code t) :
    Stmt.Emits start loop (.ret (some e) place) s
      (code ++ Code.bare .ret) t
| ifThen
    {start loop condition stmts place s test t body u}
    (hTest : Expr.Emits start true condition s test t)
    (hBody :
      Stmt.EmitsAll (start + test.length + 3)
        (loop.map .enter) stmts t body u) :
    Stmt.Emits start loop (.ifThen condition stmts place) s
      (test
        ++ Code.jump .jz (start + test.length + body.length + 4)
        ++ Code.scoped body) u
| ifElse
    {start loop condition stmts others place}
    {s test t body u other v}
    (hTest : Expr.Emits start true condition s test t)
    (hBody :
      Stmt.EmitsAll (start + test.length + 3)
        (loop.map .enter) stmts t body u)
    (hOther :
      Stmt.EmitsAll (start + test.length + body.length + 7)
        (loop.map .enter) others u other v) :
    Stmt.Emits start loop (.ifElse condition stmts others place) s
      (test
        ++ Code.jump .jz (start + test.length + body.length + 6)
        ++ Code.scoped body
        ++ Code.jump .jmp
          (start + test.length + body.length + other.length + 8)
        ++ Code.scoped other) v
| whileLoop
    {start loop condition stmts place s test t body u leave}
    (hTest : Expr.Emits start true condition s test t)
    (hBody :
      Stmt.EmitsAll (start + test.length + 3)
        (some ⟨leave, start, 1⟩) stmts t body u)
    (hLeave : leave = start + test.length + body.length + 6) :
    Stmt.Emits start loop (.whileLoop condition stmts place) s
      (test ++ Code.jump .jz leave ++ Code.scoped body
        ++ Code.jump .jmp start) u
| forLoop
    {start loop initial condition update stmts place}
    {s first t test u body v last w again next leave}
    (hInitial :
      Stmt.Emits (start + 1) (loop.map .enter) initial s first t)
    (hAgain : again = start + first.length + 1)
    (hTest : Expr.EmitsTest again leave condition t test u)
    (hBody :
      Stmt.EmitsAll (again + test.length + 1)
        (some ⟨leave, next, 1⟩) stmts u body v)
    (hNext : next = again + test.length + body.length + 2)
    (hUpdate : Expr.EmitsUpdate next update v last w)
    (hLeave : leave = next + last.length + 2) :
    Stmt.Emits start loop
      (.forLoop initial condition update stmts place) s
      (Code.bare .pushScope ++ first ++ test ++ Code.scoped body
        ++ last ++ Code.jump .jmp again ++ Code.bare .popScope) w
| breakLoop
    {start l place s} :
    Stmt.Emits start (some l) (.breakLoop place) s
      (Code.exit l l.leave) s
| continueLoop
    {start l place s} :
    Stmt.Emits start (some l) (.continueLoop place) s
      (Code.exit l l.next) s

/- Code at a position for some statements in a row. -/
inductive Stmt.EmitsAll :
    Nat → Option Loop → List Stmt → Fresh → Code → Fresh → Prop
| nil
    {start loop s} :
    Stmt.EmitsAll start loop [] s [] s
| cons
    {start loop stmt stmts s t u first others}
    (hFirst : Stmt.Emits start loop stmt s first t)
    (hOthers :
      Stmt.EmitsAll (start + first.length) loop stmts t others u) :
    Stmt.EmitsAll start loop (stmt :: stmts) s (first ++ others) u

end

/- The test of a loop follows the rules, with the size foretold. -/
theorem Expr.emitsTest_of_emit
    {condition : Option Expr}
    {start leave : Nat}
    {code : Code}
    {s t : Fresh}
    (h :
      emitOption []
        (fun e => do
          let code ← e.emit start true
          return code ++ Code.jump .jz leave)
        condition s = .ok code t) :
    Expr.EmitsTest start leave condition s code t ∧
      code.length = sizeOr 0 (·.size true + 2) condition := by
  cases condition with
  | none =>
      simp only [emitOption, Emit.pure_eq_ok] at h
      rcases h with ⟨rfl, rfl⟩
      exact ⟨.missing, rfl⟩
  | some e =>
      simp only [emitOption, Emit.bind_eq_ok, Emit.pure_eq_ok] at h
      rcases h with ⟨body, _, he, rfl, rfl⟩
      refine ⟨.present (e.emits_of_emit he), ?_⟩
      simp [sizeOr, e.length_emit he]

/- The update of a loop follows the rules, with the size foretold. -/
theorem Expr.emitsUpdate_of_emit
    {update : Option Expr}
    {start : Nat}
    {code : Code}
    {s t : Fresh}
    (h :
      emitOption [] (·.emit start false) update s =
        .ok code t) :
    Expr.EmitsUpdate start update s code t ∧
      code.length = sizeOr 0 (·.size false) update := by
  cases update with
  | none =>
      simp only [emitOption, Emit.pure_eq_ok] at h
      rcases h with ⟨rfl, rfl⟩
      exact ⟨.missing, rfl⟩
  | some e =>
      simp only [emitOption] at h
      exact ⟨.present (e.emits_of_emit h), e.length_emit h⟩

mutual

/- Code that is made for a statement follows the rules. -/
theorem Stmt.emits_of_emit
    (stmt : Stmt)
    {start : Nat}
    {loop : Option Loop}
    {code : Code}
    {s t : Fresh}
    (h : stmt.emit start loop s = .ok code t) :
    Stmt.Emits start loop stmt s code t := by
  match stmt with
  | .expr e =>
      simp only [Stmt.emit] at h
      exact .expr (e.emits_of_emit h)
  | .declare name place =>
      simp only [Stmt.emit, Emit.pure_eq_ok] at h
      rcases h with ⟨rfl, rfl⟩
      exact .declare
  | .define name value place =>
      simp only [Stmt.emit, Emit.bind_eq_ok, Emit.pure_eq_ok] at h
      rcases h with ⟨body, _, hv, rfl, rfl⟩
      exact .define (value.emits_of_emit hv)
  | .function name parameters stmts place =>
      simp only [Stmt.emit, Emit.bind_eq_ok, Emit.mark_eq_ok,
        Emit.pure_eq_ok] at h
      rcases h with ⟨body, _, hb, _, _, ⟨rfl, rfl⟩, rfl, rfl⟩
      exact .function (Stmt.emitsAll_of_emitAll stmts hb)
  | .ret none place =>
      simp only [Stmt.emit, emitOption, Emit.bind_eq_ok,
        Emit.pure_eq_ok] at h
      rcases h with ⟨_, _, ⟨rfl, rfl⟩, rfl, rfl⟩
      exact .retNull
  | .ret (some e) place =>
      simp only [Stmt.emit, emitOption, Emit.bind_eq_ok,
        Emit.pure_eq_ok] at h
      rcases h with ⟨body, _, he, rfl, rfl⟩
      exact .ret (e.emits_of_emit he)
  | .ifThen condition stmts place =>
      simp only [Stmt.emit, Emit.bind_eq_ok, Emit.pure_eq_ok] at h
      rcases h with ⟨test, _, ht, body, _, hb, rfl, rfl⟩
      have hTarget :
          start + test.length + 2 + body.length + 2 =
            start + test.length + body.length + 4 := by
        omega
      rw [hTarget]
      exact .ifThen (condition.emits_of_emit ht)
        (Stmt.emitsAll_of_emitAll stmts hb)
  | .ifElse condition stmts others place =>
      simp only [Stmt.emit, Emit.bind_eq_ok, Emit.pure_eq_ok] at h
      rcases h with
        ⟨test, _, ht, body, _, hb, other, _, ho, rfl, rfl⟩
      have hSecond :
          start + test.length + 2 + body.length + 4 =
            start + test.length + body.length + 6 := by
        omega
      have hEnd :
          start + test.length + body.length + 6 + other.length + 2 =
            start + test.length + body.length + other.length
              + 8 := by
        omega
      rw [hSecond] at ho ⊢
      rw [hEnd]
      exact .ifElse (condition.emits_of_emit ht)
        (Stmt.emitsAll_of_emitAll stmts hb)
        (Stmt.emitsAll_of_emitAll others ho)
  | .whileLoop condition stmts place =>
      simp only [Stmt.emit, Emit.bind_eq_ok, Emit.pure_eq_ok] at h
      rcases h with ⟨test, _, ht, body, _, hb, rfl, rfl⟩
      have hSize : body.length = Stmt.sizes 1 stmts :=
        Stmt.length_emitAll stmts (Loop.opens_some _) hb
      refine .whileLoop (condition.emits_of_emit ht)
        (Stmt.emitsAll_of_emitAll stmts hb) ?_
      rw [hSize]
      omega
  | .forLoop initial condition update stmts place =>
      simp only [Stmt.emit, Emit.bind_eq_ok, Emit.pure_eq_ok] at h
      rcases h with
        ⟨first, _, hf, test, _, ht, body, _, hb, last, _, hl,
          rfl, rfl⟩
      have hSize : body.length = Stmt.sizes 1 stmts :=
        Stmt.length_emitAll stmts (Loop.opens_some _) hb
      rcases Expr.emitsTest_of_emit ht with ⟨hTest, hTestSize⟩
      rcases Expr.emitsUpdate_of_emit hl with
        ⟨hUpdate, hUpdateSize⟩
      have hBody := Stmt.emitsAll_of_emitAll stmts hb
      rw [← hTestSize, ← hSize, ← hUpdateSize] at hTest hBody
      rw [← hTestSize, ← hSize] at hUpdate
      have hAgain :
          start + 1 + first.length = start + first.length + 1 := by
        omega
      exact .forLoop (initial.emits_of_emit hf) hAgain hTest
        hBody rfl hUpdate rfl
  | .breakLoop place =>
      cases loop with
      | none =>
          simp only [Stmt.emit] at h
          exact absurd h Emit.throw_ne_ok
      | some l =>
          simp only [Stmt.emit, Emit.pure_eq_ok] at h
          rcases h with ⟨rfl, rfl⟩
          exact .breakLoop
  | .continueLoop place =>
      cases loop with
      | none =>
          simp only [Stmt.emit] at h
          exact absurd h Emit.throw_ne_ok
      | some l =>
          simp only [Stmt.emit, Emit.pure_eq_ok] at h
          rcases h with ⟨rfl, rfl⟩
          exact .continueLoop

/- Code that is made for statements in a row does, too. -/
theorem Stmt.emitsAll_of_emitAll
    (stmts : List Stmt)
    {start : Nat}
    {loop : Option Loop}
    {code : Code}
    {s t : Fresh}
    (h : Stmt.emitAll start loop stmts s = .ok code t) :
    Stmt.EmitsAll start loop stmts s code t := by
  match stmts with
  | [] =>
      simp only [Stmt.emitAll, Emit.pure_eq_ok] at h
      rcases h with ⟨rfl, rfl⟩
      exact .nil
  | stmt :: stmts =>
      simp only [Stmt.emitAll, Emit.bind_eq_ok, Emit.pure_eq_ok] at h
      rcases h with ⟨first, _, hf, others, _, ho, rfl, rfl⟩
      exact .cons (stmt.emits_of_emit hf)
        (Stmt.emitsAll_of_emitAll stmts ho)

end

------------------------------------------------------------
-- Programs
------------------------------------------------------------

/- A compiled program is the code of its statements and a halt. -/
theorem Program.emits_of_compile
    {p : Program}
    {code : Code}
    {s t : Fresh}
    (h : p.compile s = .ok code t) :
    ∃ body,
      Stmt.EmitsAll 0 none p s body t ∧
        code = body ++ Code.bare .halt := by
  simp only [p.compile_eq, Emit.bind_eq_ok, Emit.pure_eq_ok] at h
  rcases h with ⟨body, _, hBody, rfl, rfl⟩
  exact ⟨body, Stmt.emitsAll_of_emitAll p hBody, rfl⟩

------------------------------------------------------------
-- Functions in Code
------------------------------------------------------------

/- A function whose stream was made from some statements. -/
def Routine.Made (r : Routine) : Prop :=
  ∃ stmts s body t,
    Stmt.EmitsAll 0 none stmts s body t ∧
      r.code = body ++ Code.pushed .null ++ Code.bare .ret

/- Numeric text denotes no function. -/
theorem Constant.ofText?_ne_routine
    {text : String}
    {r : Routine} :
    Constant.ofText? text ≠ some (.routine r) := by
  have hInt (i : Int) : Constant.ofInt i ≠ .routine r := by
    unfold Constant.ofInt
    split <;> simp
  intro h
  unfold Constant.ofText? Constant.unsigned? at h
  dsimp only at h
  split at h
  · rcases Option.map_eq_some_iff.1 h with ⟨_, _, hEq⟩
    exact hInt _ hEq
  · rcases Option.map_eq_some_iff.1 h with ⟨_, _, hEq⟩
    exact hInt _ hEq
  · split at h
    · exact hInt _ (Option.some.inj h)
    · rcases Option.map_eq_some_iff.1 h with ⟨_, _, hEq⟩
      cases hEq

namespace Code

/- The functions that some words push. -/
def routines (code : Code) : List Routine :=
  code.filterMap fun
    | .const (.routine r) => some r
    | _ => none

theorem mem_routines
    {code : Code}
    {r : Routine} :
    r ∈ code.routines ↔ Word.const (.routine r) ∈ code := by
  unfold routines
  rw [List.mem_filterMap]
  constructor
  · rintro ⟨w, hMem, hWord⟩
    split at hWord
    · cases hWord
      exact hMem
    · cases hWord
  · intro hMem
    exact ⟨_, hMem, rfl⟩

@[simp]
theorem routines_append (c d : Code) :
    (c ++ d : Code).routines = c.routines ++ d.routines :=
  List.filterMap_append

@[simp]
theorem routines_bare (o : Op) :
    (bare o).routines = [] := rfl

@[simp]
theorem routines_named
    (o : Op)
    (name : String) :
    (named o name).routines = [] := rfl

@[simp]
theorem routines_jump
    (o : Op)
    (target : Nat) :
    (jump o target).routines = [] := rfl

@[simp]
theorem routines_called
    (name : String)
    (arguments : Nat) :
    (called name arguments).routines = [] := rfl

@[simp]
theorem routines_pushed_null :
    (pushed .null).routines = [] := rfl

@[simp]
theorem routines_pushed_routine (r : Routine) :
    (pushed (.routine r)).routines = [r] := rfl

@[simp]
theorem routines_dropUnless (keep : Bool) :
    (dropUnless keep).routines = [] := by
  cases keep <;> rfl

@[simp]
theorem routines_loadIf
    (keep : Bool)
    (name : String) :
    (loadIf keep name).routines = [] := by
  cases keep <;> rfl

@[simp]
theorem routines_step
    (operator : Operator)
    (name : String) :
    (step operator name).routines = [] := rfl

@[simp]
theorem routines_stepKeepingOld
    (operator : Operator)
    (name hidden : String) :
    (stepKeepingOld operator name hidden).routines = [] := rfl

@[simp]
theorem routines_both
    (start : Nat)
    (left right : Code) :
    (both start left right).routines =
      left.routines ++ right.routines := by
  have hNumber (n : Binary64) :
      (pushed (.number n)).routines = [] := rfl
  simp [both, hNumber]

@[simp]
theorem routines_either
    (start : Nat)
    (left right : Code) :
    (either start left right).routines =
      left.routines ++ right.routines := by
  have hNumber (n : Binary64) :
      (pushed (.number n)).routines = [] := rfl
  simp [either, hNumber]

@[simp]
theorem routines_scoped (body : Code) :
    (Code.scoped body).routines = body.routines := by
  simp [Code.scoped]

@[simp]
theorem routines_exit
    (l : Loop)
    (target : Nat) :
    (exit l target).routines = [] := by
  have hPops (n : Nat) :
      routines (List.replicate n (bare .popScope)).flatten = [] := by
    induction n with
    | zero => rfl
    | succ n ih =>
        rw [List.replicate_succ, List.flatten_cons,
          routines_append, ih]
        rfl
  simp [exit, hPops]

/- A constant that is no function pushes none. -/
theorem routines_pushIf
    {keep : Bool}
    {c : Constant}
    (h : ∀ r, c ≠ .routine r) :
    (pushIf keep c).routines = [] := by
  cases keep with
  | false => rfl
  | true =>
      cases c with
      | routine r => exact absurd rfl (h r)
      | _ => rfl

end Code

mutual

/- Expressions push no functions. -/
theorem Expr.Emits.routines_eq_nil
    {start : Nat}
    {keep : Bool}
    {e : Expr}
    {s t : Fresh}
    {c : Code}
    (h : Expr.Emits start keep e s c t) :
    c.routines = [] := by
  cases h with
  | literal hText =>
      apply Code.routines_pushIf
      rintro r rfl
      exact Constant.ofText?_ne_routine hText
  | string =>
      apply Code.routines_pushIf
      rintro r hEq
      cases hEq
  | «variable» => simp
  | binary _ hLeft hRight =>
      simp [hLeft.routines_eq_nil, hRight.routines_eq_nil]
  | both hLeft hRight =>
      simp [hLeft.routines_eq_nil, hRight.routines_eq_nil]
  | either hLeft hRight =>
      simp [hLeft.routines_eq_nil, hRight.routines_eq_nil]
  | plus hArgument => exact hArgument.routines_eq_nil
  | stepped => simp
  | unary _ _ _ hArgument => simp [hArgument.routines_eq_nil]
  | keptPost => simp
  | droppedPost => simp
  | assignment hValue => simp [hValue.routines_eq_nil]
  | call hArguments => simp [hArguments.routines_eq_nil]

/- Nor do expressions in a row. -/
theorem Expr.EmitsAll.routines_eq_nil
    {start : Nat}
    {es : List Expr}
    {s t : Fresh}
    {c : Code}
    (h : Expr.EmitsAll start es s c t) :
    c.routines = [] := by
  cases h with
  | nil => rfl
  | cons hFirst hOthers =>
      simp [hFirst.routines_eq_nil, hOthers.routines_eq_nil]

end

theorem Expr.EmitsTest.routines_eq_nil
    {start leave : Nat}
    {condition : Option Expr}
    {s t : Fresh}
    {c : Code}
    (h : Expr.EmitsTest start leave condition s c t) :
    c.routines = [] := by
  cases h with
  | missing => rfl
  | present hTest => simp [hTest.routines_eq_nil]

theorem Expr.EmitsUpdate.routines_eq_nil
    {start : Nat}
    {update : Option Expr}
    {s t : Fresh}
    {c : Code}
    (h : Expr.EmitsUpdate start update s c t) :
    c.routines = [] := by
  cases h with
  | missing => rfl
  | present hUpdate => exact hUpdate.routines_eq_nil

mutual

/- Every function that a statement pushes is made from statements. -/
theorem Stmt.Emits.made
    {start : Nat}
    {loop : Option Loop}
    {stmt : Stmt}
    {s t : Fresh}
    {c : Code}
    (h : Stmt.Emits start loop stmt s c t) :
    ∀ r ∈ c.routines, r.Made := by
  intro r hr
  cases h with
  | expr hExpr => simp [hExpr.routines_eq_nil] at hr
  | declare => simp at hr
  | define hValue => simp [hValue.routines_eq_nil] at hr
  | function hBody =>
      simp only [Code.routines_append, Code.routines_named,
        Code.routines_pushed_routine, List.nil_append,
        List.append_nil, List.mem_singleton] at hr
      rw [hr]
      exact ⟨_, _, _, _, hBody, rfl⟩
  | retNull => simp at hr
  | ret hValue => simp [hValue.routines_eq_nil] at hr
  | ifThen hTest hBody =>
      exact hBody.made r (by
        simpa [hTest.routines_eq_nil] using hr)
  | @ifElse _ _ _ _ _ _ _ _ _ body _ other _
      hTest hBody hOther =>
      simp only [Code.routines_append, hTest.routines_eq_nil,
        Code.routines_jump, Code.routines_scoped,
        List.nil_append, List.append_nil, List.mem_append] at hr
      rcases hr with hr | hr
      · exact hBody.made r hr
      · exact hOther.made r hr
  | whileLoop hTest hBody _ =>
      exact hBody.made r (by
        simpa [hTest.routines_eq_nil] using hr)
  | forLoop hInitial _ hTest hBody _ hUpdate _ =>
      simp only [Code.routines_append, Code.routines_bare,
        hTest.routines_eq_nil, hUpdate.routines_eq_nil,
        Code.routines_jump, Code.routines_scoped,
        List.nil_append, List.append_nil, List.mem_append] at hr
      rcases hr with hr | hr
      · exact hInitial.made r hr
      · exact hBody.made r hr
  | breakLoop => simp at hr
  | continueLoop => simp at hr

/- So is every function that statements in a row push. -/
theorem Stmt.EmitsAll.made
    {start : Nat}
    {loop : Option Loop}
    {stmts : List Stmt}
    {s t : Fresh}
    {c : Code}
    (h : Stmt.EmitsAll start loop stmts s c t) :
    ∀ r ∈ c.routines, r.Made := by
  intro r hr
  cases h with
  | nil => cases hr
  | cons hFirst hOthers =>
      rw [Code.routines_append, List.mem_append] at hr
      rcases hr with hr | hr
      · exact hFirst.made r hr
      · exact hOthers.made r hr

end

end StackScript
