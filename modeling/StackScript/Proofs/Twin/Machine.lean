import StackScript.Proofs.Twin.Value

/-
  Machines that are alike but for functions.

  Twin machines stand at positions that are a fixed distance
  apart, with twins on the stack and in the scopes. They
  perform the same instruction alike, where jump targets are
  the same distance apart and functions are related.

  Key definitions include:
    * `Machine.Twin`
    * `Instruction.Twin`
    * `Flow.Twin`

  Key theorems include:
    * `Machine.pairs_perform`
    * `Machine.pairs_call`
-/

namespace StackScript

variable {R : Routine → Routine → Prop}
variable {L : Nat × Nat → Nat × Nat → Prop}
variable {shift : Nat}

------------------------------------------------------------
-- Machines
------------------------------------------------------------

/-
  Two machines at positions that are a distance apart, with
  twin values. How many calls are open and how many may be
  is related as a pair, and may be fixed by the relation.
-/
structure Machine.Twin
    (R : Routine → Routine → Prop)
    (L : Nat × Nat → Nat × Nat → Prop)
    (shift : Nat)
    (m m' : Machine) : Prop where
  stack : Value.Twins R m.stack m'.stack
  scopes : m.scopes.Twin R m'.scopes
  pc : m'.pc = m.pc + shift
  counts : L (m.calls, m.maxCalls) (m'.calls, m'.maxCalls)
  host : m'.host = m.host

/- Twin errors, or two that are about the use of the machine. -/
def EvalError.Alike
    (R : Routine → Routine → Prop)
    (e e' : EvalError) : Prop :=
  e.Twin R e' ∨ (e.isMisuse = true ∧ e'.isMisuse = true)

/- Paired from twin machines on. -/
abbrev Action.Pairs
    {α β : Type}
    (R : Routine → Routine → Prop)
    (L : Nat × Nat → Nat × Nat → Prop)
    (shift : Nat)
    (Q : α → β → Prop)
    (x : Action α)
    (y : Action β) : Prop :=
  StackScript.Pairs (Machine.Twin R L shift) (EvalError.Alike R) Q x y

------------------------------------------------------------
-- Instructions
------------------------------------------------------------

/- Words that differ by the distance of targets and in functions. -/
inductive Word.Twin
    (R : Routine → Routine → Prop)
    (shift : Nat) :
    Word → Word → Prop
| op (code : UInt8) : Twin R shift (.op code) (.op code)
| const
    {c c' : Constant}
    (h : (Value.ofConstant c).Twin R (Value.ofConstant c')) :
    Twin R shift (.const c) (.const c')
| name (text : String) : Twin R shift (.name text) (.name text)
| target (position : Nat) :
    Twin R shift (.target position) (.target (position + shift))
| count (n : Nat) : Twin R shift (.count n) (.count n)

/- The same operation, on operands that are twins. -/
structure Instruction.Twin
    (R : Routine → Routine → Prop)
    (shift : Nat)
    (i i' : Instruction) : Prop where
  op : i'.op = i.op
  pc : i'.pc = i.pc + shift
  operands : List.Forall₂ (Word.Twin R shift) i.operands i'.operands

/- Going on alike. -/
inductive Flow.Twin (R : Routine → Routine → Prop) :
    Flow → Flow → Prop
| next : Twin R .next .next
| stop (ending : Ending) : Twin R (.stop ending) (.stop ending)
| enter
    {r r' : Routine}
    {arguments arguments' : List Value}
    (hRoutine : R r r')
    (hArguments : Value.Twins R arguments arguments') :
    Twin R (.enter r arguments) (.enter r' arguments')

namespace Instruction.Twin

variable {i i' : Instruction}

theorem next (h : i.Twin R shift i') :
    i'.next = i.next + shift := by
  unfold Instruction.next
  rw [h.pc, h.operands.length_eq]
  omega

/- Operands at the same place. -/
theorem operand
    (h : i.Twin R shift i')
    (k : Nat) :
    Option.Rel (Word.Twin R shift) i.operands[k]? i'.operands[k]? := by
  have hWords := h.operands
  generalize i.operands = words at hWords ⊢
  generalize i'.operands = words' at hWords ⊢
  induction hWords generalizing k with
  | nil => exact .none
  | cons hWord _ ih =>
      cases k with
      | zero => exact .some hWord
      | succ k => exact ih k

theorem constant
    (h : i.Twin R shift i')
    (k : Nat) :
    Agree (fun _ _ => True)
      (fun c c' =>
        (Value.ofConstant c).Twin R (Value.ofConstant c'))
      (i.constant k) (i'.constant k) := by
  unfold Instruction.constant
  rcases missing_or_related (h.operand k) with
    ⟨hLeft, hRight⟩ | ⟨w, w', hLeft, hRight, hWord⟩
  · rw [hLeft, hRight]
    exact trivial
  · rw [hLeft, hRight]
    cases hWord with
    | const hValue => exact hValue
    | _ => exact trivial

theorem name
    (h : i.Twin R shift i')
    (k : Nat) :
    Agree (fun _ _ => True) Eq (i.name k) (i'.name k) := by
  unfold Instruction.name
  rcases missing_or_related (h.operand k) with
    ⟨hLeft, hRight⟩ | ⟨w, w', hLeft, hRight, hWord⟩
  · rw [hLeft, hRight]
    exact trivial
  · rw [hLeft, hRight]
    cases hWord with
    | name text => exact rfl
    | _ => exact trivial

theorem target
    (h : i.Twin R shift i')
    (k : Nat) :
    Agree (fun _ _ => True) (fun t t' => t' = t + shift)
      (i.target k) (i'.target k) := by
  unfold Instruction.target
  rcases missing_or_related (h.operand k) with
    ⟨hLeft, hRight⟩ | ⟨w, w', hLeft, hRight, hWord⟩
  · rw [hLeft, hRight]
    exact trivial
  · rw [hLeft, hRight]
    cases hWord with
    | target position => exact rfl
    | _ => exact trivial

theorem count
    (h : i.Twin R shift i')
    (k : Nat) :
    Agree (fun _ _ => True) Eq (i.count k) (i'.count k) := by
  unfold Instruction.count
  rcases missing_or_related (h.operand k) with
    ⟨hLeft, hRight⟩ | ⟨w, w', hLeft, hRight, hWord⟩
  · rw [hLeft, hRight]
    exact trivial
  · rw [hLeft, hRight]
    cases hWord with
    | count n => exact rfl
    | _ => exact trivial

end Instruction.Twin

------------------------------------------------------------
-- Actions
------------------------------------------------------------

namespace Action

variable {α β : Type}
variable {Q : α → β → Prop}
variable {v v' : Value}

theorem pairs_lift
    {x : Except EvalError α}
    {y : Except EvalError β}
    (h : Agree (EvalError.Twin R) Q x y) :
    Action.Pairs R L shift Q (lift x) (lift y) := by
  cases x with
  | ok a =>
      cases y with
      | ok b => exact pairs_pure h
      | error e => exact h.elim
  | error e =>
      cases y with
      | ok b => exact h.elim
      | error e' => exact pairs_throw (.inl h)

theorem pairs_decoded
    {x : Except DecodeError α}
    {y : Except DecodeError β}
    (h : Agree (fun _ _ => True) Q x y) :
    Action.Pairs R L shift Q (decoded x) (decoded y) := by
  cases x with
  | ok a =>
      cases y with
      | ok b => exact pairs_pure h
      | error e => exact h.elim
  | error e =>
      cases y with
      | ok b => exact h.elim
      | error e' => exact pairs_throw (.inr ⟨rfl, rfl⟩)

theorem pairs_push (h : v.Twin R v') :
    Action.Pairs R L shift (fun _ _ => True) (push v) (push v') := by
  apply pairs_modify
  intro m m' hTwin
  exact { hTwin with stack := .cons h hTwin.stack }

theorem pairs_goTo (pc : Nat) :
    Action.Pairs R L shift (fun _ _ => True) (goTo pc)
      (goTo (pc + shift)) := by
  apply pairs_modify
  intro m m' hTwin
  exact { hTwin with pc := rfl }

/- A result with which the state is changed. -/
theorem pairs_update
    {x : Machine → Except EvalError α}
    {f : Machine → α → Machine}
    {g : α → β}
    {R' : β → β → Prop}
    (h :
      ∀ m m', m.Twin R L shift m' →
        Agree (EvalError.Twin R)
          (fun a a' =>
            R' (g a) (g a') ∧ (f m a).Twin R L shift (f m' a'))
          (x m) (x m')) :
    Action.Pairs R L shift R'
      (do
        let m ← get
        let a ← lift (x m)
        set (f m a)
        return g a)
      (do
        let m ← get
        let a ← lift (x m)
        set (f m a)
        return g a) := by
  apply pairs_get.bind
  intro m m' hTwin
  apply (pairs_lift (h m m' hTwin)).bind
  rintro a a' ⟨hResult, hAfter⟩
  apply (pairs_set hAfter).bind
  intro _ _ _
  exact pairs_pure hResult

theorem pairs_pop :
    Action.Pairs R L shift (Value.Twin R) pop pop := by
  apply pairs_update (x := fun m => m.stack.pop)
    (f := fun m a => { m with stack := a.2 }) (g := Prod.fst)
  intro m m' hTwin
  have hStack := hTwin.stack
  unfold Stack.pop
  cases hLeft : m.stack with
  | nil =>
      rw [hLeft] at hStack
      cases hRight : m'.stack with
      | nil => exact .same _
      | cons v' rest' =>
          rw [hRight] at hStack
          cases hStack
  | cons v rest =>
      rw [hLeft] at hStack
      cases hRight : m'.stack with
      | nil =>
          rw [hRight] at hStack
          cases hStack
      | cons v' rest' =>
          rw [hRight] at hStack
          cases hStack with
          | cons hValue hRest =>
              exact ⟨hValue, { hTwin with stack := hRest }⟩

theorem pairs_popMany (n : Nat) :
    Action.Pairs R L shift (Value.Twins R) (popMany n)
      (popMany n) := by
  apply pairs_update (x := fun m => m.stack.popMany n)
    (f := fun m a => { m with stack := a.2 }) (g := Prod.fst)
  intro m m' hTwin
  have hStack := hTwin.stack
  unfold Stack.popMany Stack.checkSize
  rw [← hStack.length_eq]
  split
  · exact .same _
  · refine ⟨?_, { hTwin with stack := ?_ }⟩
    · exact List.rel_reverse (List.forall₂_take n hStack)
    · exact List.forall₂_drop n hStack

theorem pairs_onScopes
    {f f' : Scopes → Except EvalError Scopes}
    (h :
      ∀ s s', s.Twin R s' → Agree Eq (Scopes.Twin R) (f s) (f' s')) :
    Action.Pairs R L shift (fun _ _ => True) (onScopes f)
      (onScopes f') := by
  apply pairs_get.bind
  intro m m' hTwin
  have hScopes :
      Agree (EvalError.Twin R) (Scopes.Twin R) (f m.scopes)
        (f' m'.scopes) :=
    (h _ _ hTwin.scopes).mono (by rintro e _ rfl; exact .same e)
      fun _ _ hAfter => hAfter
  apply (pairs_lift hScopes).bind
  intro s s' hAfter
  exact pairs_set { hTwin with scopes := hAfter }

/- A result that is no function is its own twin. -/
theorem agree_self
    {x : Except EvalError Value}
    (h : Proper (Value.All fun _ => False) x) :
    Agree (EvalError.Twin R) (Value.Twin R) x x := by
  cases x with
  | ok v => exact Builtin.twin_self h
  | error e => exact .same e

theorem pairs_callBuiltin
    {arguments arguments' : List Value}
    (hTags : Routine.Tagged R)
    (h : Value.Twins R arguments arguments')
    (name : String)
    (f : Builtin) :
    Action.Pairs R L shift (Option.Rel (Value.Twin R))
      (callBuiltin name f arguments)
      (callBuiltin name f arguments') := by
  apply pairs_get.bind
  intro m m' hTwin
  have hRun :=
    Builtin.pairs_run hTags hTwin.scopes h f m.host m'.host
      hTwin.host.symm
  cases hLeft : f.run m.scopes arguments m.host with
  | ok result host =>
      cases hRight : f.run m'.scopes arguments' m'.host with
      | ok result' host' =>
          rw [hLeft, hRight] at hRun
          apply (pairs_set { hTwin with host := hRun.2.symm }).bind
          intro _ _ _
          exact pairs_pure hRun.1
      | error e host' =>
          rw [hLeft, hRight] at hRun
          exact hRun.elim
  | error e host =>
      cases hRight : f.run m'.scopes arguments' m'.host with
      | ok result host' =>
          rw [hLeft, hRight] at hRun
          exact hRun.elim
      | error e' host' =>
          rw [hLeft, hRight] at hRun
          apply (pairs_set { hTwin with host := hRun.2.symm }).bind
          intro _ _ _
          exact pairs_throw (.inl (.builtin hRun.1))

end Action

------------------------------------------------------------
-- Performing Instructions
------------------------------------------------------------

namespace Machine

variable {α β : Type}

theorem pairs_binary
    {f f' : Value → Value → Except EvalError Value}
    (h :
      ∀ v v' w w', v.Twin R v' → w.Twin R w' →
        Agree (EvalError.Twin R) (Value.Twin R) (f v w) (f' v' w')) :
    Action.Pairs R L shift (fun _ _ => True) (binary f)
      (binary f') := by
  apply Action.pairs_pop.bind
  intro w w' hRight
  apply Action.pairs_pop.bind
  intro v v' hLeft
  apply (Action.pairs_lift (h v v' w w' hLeft hRight)).bind
  intro _ _ hResult
  exact Action.pairs_push hResult

theorem pairs_unary
    {f f' : Value → Except EvalError Value}
    (h :
      ∀ v v', v.Twin R v' →
        Agree (EvalError.Twin R) (Value.Twin R) (f v) (f' v')) :
    Action.Pairs R L shift (fun _ _ => True) (unary f)
      (unary f') := by
  apply Action.pairs_pop.bind
  intro v v' hValue
  apply (Action.pairs_lift (h v v' hValue)).bind
  intro _ _ hResult
  exact Action.pairs_push hResult

/- Operations on twins agree. -/
theorem agree_combine
    {v v' w w' : Value}
    (hTags : Routine.Tagged R)
    (hLeft : v.Twin R v')
    (hRight : w.Twin R w')
    (op : Op)
    (precision : Nat) :
    Agree (EvalError.Twin R) (Value.Twin R)
      (op.combine precision v w) (op.combine precision v' w') := by
  rw [hLeft.combine hTags hRight]
  exact Action.agree_self (op.proper_combine precision v w)

theorem agree_alter
    {v v' : Value}
    (h : v.Twin R v')
    (op : Op) :
    Agree (EvalError.Twin R) (Value.Twin R) (op.alter v)
      (op.alter v') := by
  have hSame : op.alter v' = op.alter v := by
    unfold Op.alter
    rw [h.negate, h.isTruthy, h.bitNot]
  rw [hSame]
  exact Action.agree_self (op.proper_alter v)

variable {F : Flow → Flow → Prop}

/- After an action that gives nothing the stream goes on. -/
theorem pairs_thenNext
    {x y : Action Unit}
    (hNext : F .next .next)
    (h : Action.Pairs R L shift (fun _ _ => True) x y) :
    Action.Pairs R L shift F
      (do
        x
        return Flow.next)
      (do
        y
        return Flow.next) := by
  apply h.bind
  intro _ _ _
  exact pairs_pure hNext

theorem pairs_checkTarget
    {code code' : Code}
    {target : Nat}
    (hSame : target + shift < code'.length ↔ target < code.length) :
    Action.Pairs R L shift (fun _ _ => True)
      (checkTarget code target)
      (checkTarget code' (target + shift)) := by
  unfold checkTarget
  simp only [hSame]
  split
  · exact pairs_pure trivial
  · exact pairs_throw (.inr ⟨rfl, rfl⟩)

theorem pairs_callee (name : String) :
    Action.Pairs R L shift R (callee name) (callee name) := by
  apply pairs_get.bind
  intro m m' hTwin
  rcases missing_or_related (hTwin.scopes.get? name) with
    ⟨hLeft, hRight⟩ | ⟨v, v', hLeft, hRight, hValue⟩
  · rw [hLeft, hRight]
    exact pairs_throw (.inl (.same _))
  · rw [hLeft, hRight]
    cases hValue with
    | routine h => exact pairs_pure h
    | same h =>
        cases v with
        | routine r => exact absurd rfl (h r)
        | _ => exact pairs_throw (.inl (.same _))

/- Calls of built-in functions are performed alike. -/
theorem pairs_call_builtin
    {name : String}
    {entry : Mode × Builtin}
    (hTags : Routine.Tagged R)
    (hNext : F .next .next)
    (hName : Registry.standard.lookup name = some entry)
    (arguments : Nat) :
    Action.Pairs R L shift F (call name arguments)
      (call name arguments) := by
  unfold call
  rw [hName]
  apply (Action.pairs_popMany arguments).bind
  intro values values' hValues
  apply (Action.pairs_callBuiltin hTags hValues name entry.2).bind
  intro result result' hResult
  apply pairs_thenNext hNext
  apply Action.pairs_push
  cases hResult with
  | none => exact .null
  | some h => exact h

/- Calls are performed alike where as many are and may be open. -/
theorem pairs_call
    (hTags : Routine.Tagged R)
    (hCounts : ∀ a b, L a b → b = a)
    (name : String)
    (arguments : Nat) :
    Action.Pairs R L shift (Flow.Twin R) (call name arguments)
      (call name arguments) := by
  cases hName : Registry.standard.lookup name with
  | some entry => exact pairs_call_builtin hTags .next hName arguments
  | none =>
      unfold call
      rw [hName]
      apply (pairs_callee name).bind
      intro r r' hRoutine
      apply pairs_get.bind
      intro m m' hTwin
      have hSame := hCounts _ _ hTwin.counts
      rw [Prod.mk.injEq] at hSame
      rw [hSame.1, hSame.2]
      split
      · exact pairs_throw (.inl (.same _))
      · apply (Action.pairs_popMany arguments).bind
        intro values values' hValues
        exact pairs_pure (.enter hRoutine hValues)

/-
  Twin instructions are performed alike if calls are, and if
  jumps lead into both streams or into none.
-/
theorem pairs_perform
    {code code' : Code}
    {i i' : Instruction}
    (hTags : Routine.Tagged R)
    (hInside :
      ∀ target, i.target 0 = .ok target →
        (target + shift < code'.length ↔ target < code.length))
    (hTwin : i.Twin R shift i')
    (hNext : F .next .next)
    (hStop : ∀ ending, F (.stop ending) (.stop ending))
    (hCall :
      ∀ name arguments,
        i.op = .call →
          Action.Pairs R L shift F (call name arguments)
            (call name arguments)) :
    Action.Pairs R L shift F (perform code i)
      (perform code' i') := by
  have hCombine (op : Op) :
      Action.Pairs R L shift F
        (do
          let precision := (← get).host.precision
          binary fun a b => op.combine precision a b
          return .next)
        (do
          let precision := (← get).host.precision
          binary fun a b => op.combine precision a b
          return .next) := by
    apply pairs_get.bind
    intro m m' hMachines
    rw [hMachines.host]
    apply pairs_thenNext hNext
    apply pairs_binary
    intro v v' w w' hLeft hRight
    exact agree_combine hTags hLeft hRight op _
  have hCompare (op : Op) :
      Action.Pairs R L shift F
        (do
          binary fun a b => (Value.compare op a b).map .ofBool
          return .next)
        (do
          binary fun a b => (Value.compare op a b).map .ofBool
          return .next) := by
    apply pairs_thenNext hNext
    apply pairs_binary
    intro v v' w w' hLeft hRight
    rw [hLeft.compare hTags hRight]
    apply Action.agree_self
    cases hResult : Value.compare op v w with
    | ok b =>
        intro r hr
        cases hr
    | error e =>
        have hProper := Value.proper_compare op v w
        rw [hResult] at hProper
        exact hProper
  have hAlter (op : Op) :
      Action.Pairs R L shift F
        (do
          unary op.alter
          return .next)
        (do
          unary op.alter
          return .next) := by
    apply pairs_thenNext hNext
    apply pairs_unary
    intro v v' hValue
    exact agree_alter hValue op
  have hTargets := (hTwin.target 0).recorded
  rcases i with ⟨op, pc, operands⟩
  rcases i' with ⟨op', pc', operands'⟩
  have hOp : op' = op := hTwin.op
  cases hOp
  cases op with
  | push =>
      apply (Action.pairs_decoded (hTwin.constant 0)).bind
      intro c c' hConstant
      exact pairs_thenNext hNext (Action.pairs_push hConstant)
  | load =>
      apply (Action.pairs_decoded (hTwin.name 0)).bind
      rintro name _ rfl
      apply pairs_get.bind
      intro m m' hMachines
      have hLookup :
          Agree (EvalError.Twin R) (Value.Twin R)
            (m.scopes.lookup name) (m'.scopes.lookup name) :=
        (hMachines.scopes.lookup name).mono
          (by rintro e _ rfl; exact .same e) fun _ _ h => h
      apply (Action.pairs_lift hLookup).bind
      intro v v' hValue
      exact pairs_thenNext hNext (Action.pairs_push hValue)
  | store =>
      apply Action.pairs_pop.bind
      intro v v' hValue
      apply (Action.pairs_decoded (hTwin.name 0)).bind
      rintro name _ rfl
      apply pairs_thenNext hNext
      apply Action.pairs_onScopes
      intro s s' hScopes
      exact hScopes.assign hValue name
  | alloc =>
      apply (Action.pairs_decoded (hTwin.name 0)).bind
      rintro name _ rfl
      apply pairs_thenNext hNext
      apply Action.pairs_onScopes
      intro s s' hScopes
      exact hScopes.declare .null name
  | add => exact hCombine .add
  | sub => exact hCombine .sub
  | mul => exact hCombine .mul
  | div => exact hCombine .div
  | mod => exact hCombine .mod
  | eq => exact hCompare .eq
  | ne => exact hCompare .ne
  | gt => exact hCompare .gt
  | lt => exact hCompare .lt
  | gte => exact hCompare .gte
  | lte => exact hCompare .lte
  | neg => exact hAlter .neg
  | not => exact hAlter .not
  | bitNot => exact hAlter .bitNot
  | jmp =>
      apply (Action.pairs_decoded hTargets).bind
      rintro target _ ⟨rfl, hTarget⟩
      apply (pairs_checkTarget (hInside target hTarget)).bind
      intro _ _ _
      exact pairs_thenNext hNext (Action.pairs_goTo target)
  | jz =>
      apply (Action.pairs_decoded hTargets).bind
      rintro target _ ⟨rfl, hTarget⟩
      apply (pairs_checkTarget (hInside target hTarget)).bind
      intro _ _ _
      apply Action.pairs_pop.bind
      intro v v' hValue
      rw [hValue.isZero]
      cases v.isZero with
      | true => exact pairs_thenNext hNext (Action.pairs_goTo target)
      | false => exact pairs_pure hNext
  | pop =>
      apply Action.pairs_pop.bind
      intro _ _ _
      exact pairs_pure hNext
  | pushScope =>
      apply pairs_thenNext hNext
      apply Action.pairs_onScopes
      intro s s' hScopes
      exact hScopes.push
  | popScope =>
      apply pairs_thenNext hNext
      apply Action.pairs_onScopes
      intro s s' hScopes
      exact hScopes.pop
  | call =>
      apply (Action.pairs_decoded (hTwin.name 0)).bind
      rintro name _ rfl
      apply (Action.pairs_decoded (hTwin.count 1)).bind
      rintro arguments _ rfl
      exact hCall name arguments rfl
  | ret =>
      apply pairs_get.bind
      intro m m' hMachines
      have hSize :
          m'.stack.checkSize 1 = m.stack.checkSize 1 := by
        unfold Stack.checkSize
        rw [← hMachines.stack.length_eq]
      rw [hSize]
      have hSame :
          Agree (EvalError.Twin R) (fun _ _ => True)
            (m.stack.checkSize 1) (m.stack.checkSize 1) := by
        cases m.stack.checkSize 1 with
        | ok _ => exact trivial
        | error e => exact .same e
      apply (Action.pairs_lift hSame).bind
      intro _ _ _
      exact pairs_pure (hStop .returned)
  | halt => exact pairs_pure (hStop .finished)

end Machine
end StackScript
