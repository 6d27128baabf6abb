import StackScript.Proofs.Machine.Visiting

/-
  Where an instruction leads.

  Only jumps change the position, so behind an instruction
  that is not a jump taken the machine stands where the next
  instruction starts, also after a call has come back.

  Key definitions include:
    * `Action.Lands`

  Key theorems include:
    * `Machine.lands_perform`
    * `Machine.pc_of_ends`, `Machine.pc_of_pass`
-/

namespace StackScript

/- An action keeps the position, or goes to one with a property. -/
def Action.Lands
    {α : Type}
    (there : Nat → Prop)
    (x : Action α) : Prop :=
  ∀ m a after, x m = .ok a after → after.pc = m.pc ∨ there after.pc

namespace Action

variable {α β : Type}
variable {there : Nat → Prop}
variable {x : Action α}
variable {f : α → Action β}

------------------------------------------------------------
-- Actions
------------------------------------------------------------

theorem lands_pure (a : α) :
    Lands there (pure a) := by
  intro m b after h
  cases h
  exact .inl rfl

theorem lands_throw (e : EvalError) :
    Lands there (throw e : Action α) := by
  intro m b after h
  cases h

theorem Lands.bind
    (hx : Lands there x)
    (hf : ∀ a, Lands there (f a)) :
    Lands there (x >>= f) := by
  intro m b after h
  change EStateM.bind x f m = _ at h
  unfold EStateM.bind at h
  cases hFirst : x m with
  | error e middle =>
      rw [hFirst] at h
      cases h
  | ok a middle =>
      rw [hFirst] at h
      rcases hf a middle b after h with hSame | hThere
      · rw [hSame]
        exact hx m a middle hFirst
      · exact .inr hThere

theorem lands_get {f : Machine → Action β}
    (hf : ∀ m, Lands there (f m)) :
    Lands there (get >>= f) :=
  fun m b after h => hf m m b after h

theorem lands_lift (result : Except EvalError α) :
    Lands there (lift result) := by
  cases result with
  | ok a => exact lands_pure a
  | error e => exact lands_throw e

theorem lands_decoded (result : Except DecodeError α) :
    Lands there (decoded result) := by
  cases result with
  | ok a => exact lands_pure a
  | error e => exact lands_throw (.decode e)

/- A result with which anything but the position is changed. -/
theorem lands_update
    (get? : Machine → Except EvalError α)
    (change : Machine → α → Machine)
    (f : α → β)
    (h : ∀ m a, (change m a).pc = m.pc) :
    Lands there
      (do
        let m ← get
        let a ← lift (get? m)
        set (change m a)
        return f a) := by
  intro m b after hRun
  change EStateM.bind (lift (get? m)) _ m = _ at hRun
  cases hResult : get? m with
  | error e =>
      rw [hResult] at hRun
      cases hRun
  | ok a =>
      rw [hResult] at hRun
      cases hRun
      exact .inl (h m a)

theorem lands_push (v : Value) :
    Lands there (push v) := by
  intro m b after h
  cases h
  exact .inl rfl

theorem lands_pop : Lands there pop :=
  lands_update (fun m => m.stack.pop)
    (fun m a => { m with stack := a.2 }) Prod.fst fun _ _ => rfl

theorem lands_popMany (n : Nat) :
    Lands there (popMany n) :=
  lands_update (fun m => m.stack.popMany n)
    (fun m a => { m with stack := a.2 }) Prod.fst fun _ _ => rfl

theorem lands_onScopes (f : Scopes → Except EvalError Scopes) :
    Lands there (onScopes f) :=
  lands_update (fun m => f m.scopes)
    (fun m scopes => { m with scopes }) (fun _ => ()) fun _ _ => rfl

theorem lands_goTo
    {pc : Nat}
    (h : there pc) :
    Lands there (goTo pc) := by
  intro m b after hRun
  cases hRun
  exact .inr h

theorem lands_callBuiltin
    (name : String)
    (f : Builtin)
    (arguments : List Value) :
    Lands there (callBuiltin name f arguments) := by
  intro m b after h
  rw [Machine.callBuiltin_eq] at h
  cases hRun : f.run m.scopes arguments m.host with
  | ok result host =>
      rw [hRun] at h
      cases h
      exact .inl rfl
  | error e host =>
      rw [hRun] at h
      cases h

end Action

open StackScript.Action

------------------------------------------------------------
-- Instructions
------------------------------------------------------------

namespace Machine

variable {there : Nat → Prop}
variable {code : Code}
variable {i : Instruction}

/- After an action that gives nothing the stream goes on. -/
theorem lands_thenNext
    {x : Action Unit}
    (h : Lands there x) :
    Lands there
      (do
        x
        return Flow.next) :=
  h.bind fun _ => lands_pure Flow.next

theorem lands_binary (f : Value → Value → Except EvalError Value) :
    Lands there (binary f) :=
  lands_pop.bind fun _ => lands_pop.bind fun _ =>
    (lands_lift _).bind fun _ => lands_push _

theorem lands_unary (f : Value → Except EvalError Value) :
    Lands there (unary f) :=
  lands_pop.bind fun _ => (lands_lift _).bind fun _ => lands_push _

theorem lands_checkTarget (target : Nat) :
    Lands there (checkTarget code target) := by
  unfold checkTarget
  split
  · exact lands_pure ()
  · exact lands_throw _

theorem lands_callee (name : String) :
    Lands there (callee name) := by
  apply lands_get
  intro m
  split
  · exact lands_pure _
  · exact lands_throw _
  · exact lands_throw _

theorem lands_call
    (name : String)
    (arguments : Nat) :
    Lands there (call name arguments) := by
  unfold call
  split
  · exact (lands_popMany arguments).bind fun _ =>
      (lands_callBuiltin name _ _).bind fun _ =>
        lands_thenNext (lands_push _)
  · apply (lands_callee name).bind
    intro r
    apply lands_get
    intro m
    split
    · exact lands_throw _
    · exact (lands_popMany arguments).bind fun _ => lands_pure _

/- Only a jump changes the position, to its target. -/
theorem lands_perform
    (hTarget : ∀ target, i.target 0 = .ok target → there target) :
    Lands there (perform code i) := by
  have hDecoded
      {f : Nat → Action Flow}
      (hf : ∀ target, there target → Lands there (f target)) :
      Lands there (decoded (i.target 0) >>= f) := by
    cases hResult : i.target 0 with
    | ok target => exact hf target (hTarget target hResult)
    | error e =>
        intro m flow after h
        cases h
  rcases i with ⟨op, pc, operands⟩
  cases op with
  | push =>
      exact (lands_decoded _).bind fun _ =>
        lands_thenNext (lands_push _)
  | load =>
      exact (lands_decoded _).bind fun _ => lands_get fun _ =>
        (lands_lift _).bind fun _ => lands_thenNext (lands_push _)
  | store =>
      exact lands_pop.bind fun _ => (lands_decoded _).bind fun _ =>
        lands_thenNext (lands_onScopes _)
  | alloc =>
      exact (lands_decoded _).bind fun _ =>
        lands_thenNext (lands_onScopes _)
  | add | sub | mul | div | mod =>
      exact lands_get fun _ => lands_thenNext (lands_binary _)
  | eq | ne | gt | lt | gte | lte =>
      exact lands_thenNext (lands_binary _)
  | neg | not | bitNot => exact lands_thenNext (lands_unary _)
  | jmp =>
      exact hDecoded fun target hThere =>
        (lands_checkTarget target).bind fun _ =>
          lands_thenNext (lands_goTo hThere)
  | jz =>
      apply hDecoded
      intro target hThere
      apply (lands_checkTarget target).bind
      intro _
      apply lands_pop.bind
      intro v
      dsimp only
      split
      · exact lands_thenNext (lands_goTo hThere)
      · exact lands_pure Flow.next
  | pop => exact lands_pop.bind fun _ => lands_pure Flow.next
  | pushScope | popScope => exact lands_thenNext (lands_onScopes _)
  | call =>
      exact (lands_decoded _).bind fun _ => (lands_decoded _).bind
        fun _ => lands_call _ _
  | ret =>
      exact lands_get fun _ => (lands_lift _).bind fun _ =>
        lands_pure _
  | halt => exact lands_pure _

variable {m after : Machine}

/- Behind an instruction the next one starts, or its target. -/
theorem pc_of_step
    {flow : Flow}
    (hFetch : code.fetch m.pc = .ok i)
    (hStep : step code m = .ok flow after) :
    after.pc = i.next ∨ i.target 0 = .ok after.pc := by
  have hLands :
      Lands (fun pc => i.target 0 = .ok pc) (perform code i) :=
    lands_perform fun _ hTarget => hTarget
  rw [step_of_fetch hFetch] at hStep
  exact hLands _ _ _ hStep

/- The same where the stream ends with the instruction. -/
theorem pc_of_ends
    {bound : Nat}
    {ending : Ending}
    (hFetch : code.fetch m.pc = .ok i)
    (hPass : pass bound code m = .ends ending after) :
    after.pc = i.next ∨ i.target 0 = .ok after.pc := by
  unfold pass at hPass
  cases hStep : step code m with
  | error e middle =>
      rw [hStep] at hPass
      cases hPass
  | ok flow middle =>
      have hPlace := pc_of_step hFetch hStep
      rw [hStep] at hPass
      cases flow with
      | next => cases hPass
      | stop ending =>
          cases hPass
          exact hPlace
      | enter r arguments =>
          dsimp only at hPass
          split at hPass
          · cases hPass
          · split at hPass <;> cases hPass

/- The same where a call is passed with its end. -/
theorem pc_of_pass
    {bound : Nat}
    (hFetch : code.fetch m.pc = .ok i)
    (hPass : pass bound code m = .goesOn after) :
    after.pc = i.next ∨ i.target 0 = .ok after.pc := by
  unfold pass at hPass
  cases hStep : step code m with
  | error e middle =>
      rw [hStep] at hPass
      cases hPass
  | ok flow middle =>
      have hPlace := pc_of_step hFetch hStep
      rw [hStep] at hPass
      cases flow with
      | next =>
          cases hPass
          exact hPlace
      | stop ending => cases hPass
      | enter r arguments =>
          dsimp only at hPass
          split at hPass
          · cases hPass
          · split at hPass
            · cases hPass
            · cases hPass
            · cases hPass
              exact hPlace

end Machine
end StackScript
