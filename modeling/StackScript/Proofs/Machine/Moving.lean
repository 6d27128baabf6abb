import StackScript.Proofs.Machine.Stepping

/-
  What one instruction can change.

  Whatever the words of a stream are, an instruction that is
  performed, with success or not, changes the scopes as its
  operation says and in no other way, keeps the counter of
  open calls and its limit, and changes the precision only
  to one that is allowed.

  Key definitions include:
    * `Leaving`, `Keeps`
    * `Scopes.Change`
    * `Machine.Moves`

  Key theorems include:
    * `Builtin.precise_run`
    * `Machine.moves_perform`
    * `Machine.moves_step`
-/

namespace StackScript

variable {α β ε ε' σ : Type}

------------------------------------------------------------
-- Actions That Keep Something
------------------------------------------------------------

/- What a result leaves has a property, failed or not. -/
def Leaving (P : σ → Prop) : EStateM.Result ε σ α → Prop
| .ok _ s => P s
| .error _ s => P s

/- An action relates what is before to what is after it. -/
def Keeps
    (R : σ → σ → Prop)
    (x : EStateM ε σ α) : Prop :=
  ∀ s, Leaving (R s) (x s)

variable {P Q : σ → Prop}
variable {R S T : σ → σ → Prop}
variable {x : EStateM ε σ α}
variable {f : α → EStateM ε σ β}

theorem Leaving.mono
    {result : EStateM.Result ε σ α}
    (h : Leaving P result)
    (hWeaker : ∀ s, P s → Q s) :
    Leaving Q result := by
  cases result with
  | ok a s => exact hWeaker s h
  | error e s => exact hWeaker s h

theorem Keeps.mono
    (h : Keeps R x)
    (hWeaker : ∀ s t, R s t → S s t) :
    Keeps S x :=
  fun s => (h s).mono (hWeaker s)

/- One action after another, where the first may fail alone. -/
theorem Keeps.bind
    (hx : Keeps R x)
    (hf : ∀ a, Keeps S (f a))
    (hFirst : ∀ s t, R s t → T s t)
    (hBoth : ∀ s t u, R s t → S t u → T s u) :
    Keeps T (x >>= f) := by
  intro s
  have hStart := hx s
  change Leaving (T s) (EStateM.bind x f s)
  unfold EStateM.bind
  cases hResult : x s with
  | error e t =>
      rw [hResult] at hStart
      exact hFirst s t hStart
  | ok a t =>
      rw [hResult] at hStart
      exact (hf a t).mono fun u => hBoth s t u hStart

theorem keeps_get
    {f : σ → EStateM ε σ β}
    (hf : ∀ s, Leaving (R s) (f s s)) :
    Keeps R (get >>= f) :=
  hf

variable (hRefl : ∀ s, R s s)

include hRefl

theorem keeps_pure (a : α) :
    Keeps R (pure a : EStateM ε σ α) :=
  hRefl

theorem keeps_throw (e : ε) :
    Keeps R (throw e : EStateM ε σ α) :=
  hRefl

omit hRefl

------------------------------------------------------------
-- The Precision
------------------------------------------------------------

namespace Builtin

/- The same precision, or one that programs may set. -/
def Precise (h h' : Host) : Prop :=
  h'.precision = h.precision ∨
    1 ≤ h'.precision ∧ h'.precision ≤ maxPrecision

theorem precise_refl (h : Host) : Precise h h :=
  .inl rfl

theorem Precise.trans
    {h h' h'' : Host}
    (hFirst : Precise h h')
    (hThen : Precise h' h'') :
    Precise h h'' := by
  rcases hThen with hSame | hSet
  · unfold Precise
    rw [hSame]
    exact hFirst
  · exact .inr hSet

variable {y : Hosted α}
variable {g : α → Hosted β}

theorem precise_bind
    (hy : Keeps Precise y)
    (hg : ∀ a, Keeps Precise (g a)) :
    Keeps Precise (y >>= g) :=
  hy.bind hg (fun _ _ h => h) fun _ _ _ => Precise.trans

theorem precise_pure (a : α) :
    Keeps Precise (pure a : Hosted α) :=
  keeps_pure precise_refl a

theorem precise_throw (e : BuiltinError) :
    Keeps Precise (throw e : Hosted α) :=
  keeps_throw precise_refl e

theorem precise_get
    {g : Host → Hosted β}
    (hg : ∀ h, Keeps Precise (g h)) :
    Keeps Precise (get >>= g) :=
  fun h => hg h h

theorem precise_converted
    {result : Except ConversionError α}
    (index : Nat) :
    Keeps Precise (converted index result) := by
  cases result with
  | ok a => exact precise_pure a
  | error e => exact precise_throw _

theorem precise_checkCount
    (function : String)
    (least most : Nat)
    (arguments : List Value) :
    Keeps Precise (checkCount function least most arguments) := by
  unfold checkCount
  split
  · exact precise_throw _
  · split
    · exact precise_throw _
    · exact precise_pure ()

theorem precise_write (text : String) :
    Keeps Precise (Host.write text) :=
  fun _ => .inl rfl

theorem precise_readLine : Keeps Precise Host.readLine := by
  unfold Host.readLine
  apply keeps_get
  intro h
  dsimp only
  split
  · exact precise_refl h
  · cases String.fromUTF8?
        (ByteArray.mk (Host.splitLine h.input).1.toArray) with
    | none => exact .inl rfl
    | some text => exact .inl rfl

theorem precise_runSetPrecision (value : Value) :
    Keeps Precise (runSetPrecision value) := by
  unfold runSetPrecision
  cases value.toInteger? with
  | none => exact precise_throw _
  | some p =>
      dsimp only
      split
      · rename_i hRange
        intro h
        have hLeast : 1 ≤ p.toNat := by omega
        have hMost : p.toNat ≤ maxPrecision := by omega
        exact .inr ⟨hLeast, hMost⟩
      · exact precise_throw _

theorem precise_signedRoot
    (base : Decimal)
    (n precision : Nat) :
    Keeps Precise (signedRoot base n precision) := by
  unfold signedRoot
  split
  · exact precise_pure _
  split
  · split
    · exact precise_throw _
    · exact precise_pure _
  split
  · exact precise_pure _
  · exact precise_pure _

theorem precise_runRoot (base degree scientific : Value) :
    Keeps Precise (runRoot base degree scientific) := by
  unfold runRoot
  apply precise_bind (precise_converted 0)
  intro a
  apply precise_bind (precise_converted 1)
  intro n
  dsimp only
  split
  · apply precise_get
    intro h
    apply precise_bind (precise_signedRoot a n.toNat _)
    intro result
    split
    · exact precise_pure _
    · exact precise_pure _
  · exact precise_throw _

theorem precise_raiseNumber (base exponent : Value) :
    Keeps Precise (raiseNumber base exponent) := by
  unfold raiseNumber
  exact precise_bind (precise_converted 0) fun _ =>
    precise_bind (precise_converted 1) fun _ => precise_pure _

theorem precise_raiseInteger
    (base : Value)
    (e : Int) :
    Keeps Precise (raiseInteger base e) := by
  unfold raiseInteger
  apply precise_bind (precise_converted 0)
  intro b
  split
  · exact precise_throw _
  split
  · exact precise_pure _
  · exact precise_throw _

theorem precise_raiseDecimal
    (base : Value)
    (e : Int)
    (precision : Nat) :
    Keeps Precise (raiseDecimal base e precision) := by
  unfold raiseDecimal
  apply precise_bind (precise_converted 0)
  intro b
  split
  · exact precise_throw _
  · exact precise_pure _

theorem precise_runRaise (base exponent scientific : Value) :
    Keeps Precise (runRaise base exponent scientific) := by
  unfold runRaise
  split
  · exact precise_throw _
  split
  · exact precise_throw _
  split
  · exact precise_throw _
  split
  · exact precise_pure _
  split
  · exact precise_pure _
  split
  · exact precise_bind (precise_raiseNumber base exponent) fun _ =>
      precise_pure _
  · apply precise_get
    intro h
    dsimp only
    split
    · split
      · exact precise_bind (precise_raiseInteger base _) fun _ =>
          precise_pure _
      · exact precise_bind (precise_raiseDecimal base _ _) fun _ =>
          precise_pure _
    · apply precise_bind (precise_raiseNumber base exponent)
      intro x
      split
      · exact precise_pure _
      · exact precise_throw _

/- A function sets the precision to an allowed one, or not at all. -/
theorem precise_run
    (f : Builtin)
    (scopes : Scopes)
    (arguments : List Value) :
    Keeps Precise (f.run scopes arguments) := by
  have hNumeric
      (g : Binary64 → Binary64)
      (value : Value) :
      Keeps Precise (runNumeric g value) :=
    precise_bind (precise_converted 0) fun _ => precise_pure _
  have hCounted
      {function : String}
      {least most : Nat}
      {y : Hosted (Option Value)}
      (hy : Keeps Precise y) :
      Keeps Precise
        (do
          checkCount function least most arguments
          y) :=
    precise_bind (precise_checkCount function least most arguments)
      fun _ => hy
  cases f with
  | print =>
      exact precise_bind (precise_write _) fun _ => precise_pure _
  | concat => exact precise_pure _
  | now => exact hCounted (precise_get fun _ => precise_pure _)
  | root => exact hCounted (precise_runRoot _ _ _)
  | setPrecision => exact hCounted (precise_runSetPrecision _)
  | sine => exact hCounted (hNumeric _ _)
  | cosine => exact hCounted (hNumeric _ _)
  | raise => exact hCounted (precise_runRaise _ _ _)
  | input =>
      exact precise_bind (precise_write _) fun _ =>
        precise_bind precise_readLine fun _ => precise_pure _

end Builtin

------------------------------------------------------------
-- Scopes
------------------------------------------------------------

/- What an operation can do to the scopes. -/
inductive Scopes.Change : Op → Scopes → Scopes → Prop
| same
    {op : Op}
    {s : Scopes} :
    Change op s s
| push
    {s : Scopes} :
    Change .pushScope s s.push
| pop
    {s t : Scopes}
    (h : s.pop = .ok t) :
    Change .popScope s t
| declare
    {s t : Scopes}
    {name : String}
    {v : Value}
    (h : s.declare name v = .ok t) :
    Change .alloc s t
| assign
    {s t : Scopes}
    {name : String}
    {v : Value}
    (h : s.assign name v = .ok t) :
    Change .store s t

------------------------------------------------------------
-- Instructions
------------------------------------------------------------

/-
  The machine has the same calls, a precision that is the
  same or allowed, and scopes that are changed in some way.
-/
structure Machine.Moves
    (S : Scopes → Scopes → Prop)
    (m after : Machine) : Prop where
  calls : after.calls = m.calls
  maxCalls : after.maxCalls = m.maxCalls
  precise : Builtin.Precise m.host after.host
  scopes : S m.scopes after.scopes

/- The same with the same scopes. -/
abbrev Machine.Stays : Machine → Machine → Prop :=
  Machine.Moves Eq

namespace Action

variable {S : Scopes → Scopes → Prop}
variable {x : Action α}
variable {f : α → Action β}

theorem stays_refl (m : Machine) : m.Stays m :=
  ⟨rfl, rfl, .inl rfl, rfl⟩

theorem stays_pure (a : α) :
    Keeps Machine.Stays (pure a : Action α) :=
  keeps_pure stays_refl a

theorem stays_throw (e : EvalError) :
    Keeps Machine.Stays (throw e : Action α) :=
  keeps_throw stays_refl e

/- Actions that keep the scopes, one after the other. -/
theorem stays_bind
    (hx : Keeps Machine.Stays x)
    (hf : ∀ a, Keeps Machine.Stays (f a)) :
    Keeps Machine.Stays (x >>= f) := by
  apply hx.bind hf (fun _ _ h => h)
  intro m middle after hFirst hThen
  exact ⟨hThen.calls.trans hFirst.calls,
    hThen.maxCalls.trans hFirst.maxCalls,
    hFirst.precise.trans hThen.precise,
    hFirst.scopes.trans hThen.scopes⟩

/- A change of the scopes behind an action that keeps them. -/
theorem stays_then
    (hRefl : ∀ s, S s s)
    (hx : Keeps Machine.Stays x)
    (hf : ∀ a, Keeps (Machine.Moves S) (f a)) :
    Keeps (Machine.Moves S) (x >>= f) := by
  apply hx.bind hf
  · intro m after h
    refine ⟨h.calls, h.maxCalls, h.precise, ?_⟩
    rw [← h.scopes]
    exact hRefl m.scopes
  · intro m middle after hFirst hThen
    refine ⟨hThen.calls.trans hFirst.calls,
      hThen.maxCalls.trans hFirst.maxCalls,
      hFirst.precise.trans hThen.precise, ?_⟩
    rw [hFirst.scopes]
    exact hThen.scopes

theorem stays_get
    {f : Machine → Action β}
    (hf : ∀ m, Keeps Machine.Stays (f m)) :
    Keeps Machine.Stays (get >>= f) :=
  fun m => hf m m

theorem stays_lift (result : Except EvalError α) :
    Keeps Machine.Stays (lift result) := by
  cases result with
  | ok a => exact stays_pure a
  | error e => exact stays_throw e

theorem stays_decoded (result : Except DecodeError α) :
    Keeps Machine.Stays (decoded result) := by
  cases result with
  | ok a => exact stays_pure a
  | error e => exact stays_throw (.decode e)

/- A result with which the machine is changed. -/
theorem moves_update
    (hRefl : ∀ s, S s s)
    (get? : Machine → Except EvalError α)
    (change : Machine → α → Machine)
    (g : α → β)
    (h : ∀ m a, get? m = .ok a → m.Moves S (change m a)) :
    Keeps (Machine.Moves S)
      (do
        let m ← get
        let a ← lift (get? m)
        set (change m a)
        return g a) := by
  intro m
  change Leaving _ (EStateM.bind (lift (get? m)) _ m)
  cases hResult : get? m with
  | error e => exact ⟨rfl, rfl, .inl rfl, hRefl m.scopes⟩
  | ok a => exact h m a hResult

theorem stays_push (v : Value) :
    Keeps Machine.Stays (push v) :=
  fun _ => ⟨rfl, rfl, .inl rfl, rfl⟩

theorem stays_goTo (pc : Nat) :
    Keeps Machine.Stays (goTo pc) :=
  fun _ => ⟨rfl, rfl, .inl rfl, rfl⟩

theorem stays_pop : Keeps Machine.Stays pop :=
  moves_update (fun _ => rfl) (fun m => m.stack.pop)
    (fun m a => { m with stack := a.2 }) Prod.fst
    fun _ _ _ => ⟨rfl, rfl, .inl rfl, rfl⟩

theorem stays_popMany (n : Nat) :
    Keeps Machine.Stays (popMany n) :=
  moves_update (fun _ => rfl) (fun m => m.stack.popMany n)
    (fun m a => { m with stack := a.2 }) Prod.fst
    fun _ _ _ => ⟨rfl, rfl, .inl rfl, rfl⟩

theorem moves_onScopes
    (hRefl : ∀ s, S s s)
    (g : Scopes → Except EvalError Scopes)
    (h : ∀ s t, g s = .ok t → S s t) :
    Keeps (Machine.Moves S) (onScopes g) :=
  moves_update hRefl (fun m => g m.scopes)
    (fun m scopes => { m with scopes }) (fun _ => ())
    fun m t hResult => ⟨rfl, rfl, .inl rfl, h m.scopes t hResult⟩

theorem stays_callBuiltin
    (name : String)
    (f : Builtin)
    (arguments : List Value) :
    Keeps Machine.Stays (callBuiltin name f arguments) := by
  intro m
  have hRun := f.precise_run m.scopes arguments m.host
  rw [Machine.callBuiltin_eq]
  cases hResult : f.run m.scopes arguments m.host with
  | ok result host =>
      rw [hResult] at hRun
      exact ⟨rfl, rfl, hRun, rfl⟩
  | error e host =>
      rw [hResult] at hRun
      exact ⟨rfl, rfl, hRun, rfl⟩

end Action

open StackScript.Action

namespace Machine

variable {code : Code}

theorem stays_binary (f : Value → Value → Except EvalError Value) :
    Keeps Stays (binary f) :=
  stays_bind stays_pop fun _ => stays_bind stays_pop fun _ =>
    stays_bind (stays_lift _) fun _ => stays_push _

theorem stays_unary (f : Value → Except EvalError Value) :
    Keeps Stays (unary f) :=
  stays_bind stays_pop fun _ =>
    stays_bind (stays_lift _) fun _ => stays_push _

theorem stays_checkTarget (target : Nat) :
    Keeps Stays (checkTarget code target) := by
  unfold checkTarget
  split
  · exact stays_pure ()
  · exact stays_throw _

theorem stays_callee (name : String) :
    Keeps Stays (callee name) := by
  apply stays_get
  intro m
  split
  · exact stays_pure _
  · exact stays_throw _
  · exact stays_throw _

theorem stays_call
    (name : String)
    (arguments : Nat) :
    Keeps Stays (call name arguments) := by
  unfold call
  split
  · exact stays_bind (stays_popMany arguments) fun _ =>
      stays_bind (stays_callBuiltin name _ _) fun _ =>
        stays_bind (stays_push _) fun _ => stays_pure _
  · apply stays_bind (stays_callee name)
    intro r
    apply stays_get
    intro m
    split
    · exact stays_throw _
    · exact stays_bind (stays_popMany arguments) fun _ => stays_pure _

/- What is performed changes the scopes as its operation says. -/
theorem moves_perform
    (code : Code)
    (i : Instruction) :
    Keeps (Moves (Scopes.Change i.op)) (perform code i) := by
  have hStays
      {op : Op}
      {x : Action Flow}
      (h : Keeps Stays x) :
      Keeps (Moves (Scopes.Change op)) x :=
    h.mono fun m after hStays =>
      ⟨hStays.calls, hStays.maxCalls, hStays.precise,
        hStays.scopes ▸ .same⟩
  have hChanges
      {op : Op}
      {g : Scopes → Except EvalError Scopes}
      (h : ∀ s t, g s = .ok t → Scopes.Change op s t) :
      Keeps (Moves (Scopes.Change op))
        (do
          onScopes g
          return Flow.next) := by
    apply (moves_onScopes (fun _ => .same) g h).bind
      (fun _ => stays_pure Flow.next) (fun _ _ hMoves => hMoves)
    intro m middle after hMoves hStays
    exact ⟨hStays.calls.trans hMoves.calls,
      hStays.maxCalls.trans hMoves.maxCalls,
      hMoves.precise.trans hStays.precise,
      hStays.scopes ▸ hMoves.scopes⟩
  have hSame {op : Op} (s : Scopes) : Scopes.Change op s s := .same
  have hNext
      {x : Action Unit}
      (h : Keeps Stays x) :
      Keeps Stays
        (do
          x
          return Flow.next) :=
    stays_bind h fun _ => stays_pure Flow.next
  rcases i with ⟨op, pc, operands⟩
  cases op with
  | push =>
      exact hStays (stays_bind (stays_decoded _) fun _ =>
        hNext (stays_push _))
  | load =>
      exact hStays (stays_bind (stays_decoded _) fun _ =>
        stays_get fun _ => stays_bind (stays_lift _) fun _ =>
          hNext (stays_push _))
  | store =>
      exact stays_then hSame stays_pop fun _ =>
        stays_then hSame (stays_decoded _) fun _ =>
          hChanges fun _ _ h => .assign h
  | alloc =>
      exact stays_then hSame (stays_decoded _) fun _ =>
        hChanges fun _ _ h => .declare h
  | add | sub | mul | div | mod =>
      exact hStays (stays_get fun _ => hNext (stays_binary _))
  | eq | ne | gt | lt | gte | lte =>
      exact hStays (hNext (stays_binary _))
  | neg | not | bitNot => exact hStays (hNext (stays_unary _))
  | jmp =>
      exact hStays (stays_bind (stays_decoded _) fun target =>
        stays_bind (stays_checkTarget target) fun _ =>
          hNext (stays_goTo target))
  | jz =>
      apply hStays
      apply stays_bind (stays_decoded _)
      intro target
      apply stays_bind (stays_checkTarget target)
      intro _
      apply stays_bind stays_pop
      intro v
      dsimp only
      split
      · exact hNext (stays_goTo target)
      · exact stays_pure Flow.next
  | pop => exact hStays (stays_bind stays_pop fun _ => stays_pure _)
  | pushScope =>
      apply hChanges
      rintro s _ ⟨⟩
      exact .push
  | popScope => exact hChanges fun _ _ h => .pop h
  | call =>
      exact hStays (stays_bind (stays_decoded _) fun _ =>
        stays_bind (stays_decoded _) fun _ => stays_call _ _)
  | ret =>
      exact hStays (stays_get fun _ => stays_bind (stays_lift _)
        fun _ => stays_pure _)
  | halt => exact hStays (stays_pure _)

/- A step without an instruction changes nothing. -/
theorem step_of_error
    {m : Machine}
    {e : DecodeError}
    (h : code.fetch m.pc = .error e) :
    step code m = .error (.decode e) m := by
  change EStateM.bind (Action.decoded (code.fetch m.pc)) _ m = _
  rw [h]
  rfl

/- What a step does to the scopes is the work of its instruction. -/
theorem moves_step
    (code : Code)
    (m : Machine) :
    Leaving
      (m.Moves fun s t =>
        t = s ∨ ∃ i, code.fetch m.pc = .ok i ∧ s.Change i.op t)
      (step code m) := by
  cases hFetch : code.fetch m.pc with
  | error e =>
      rw [step_of_error hFetch]
      exact ⟨rfl, rfl, .inl rfl, .inl rfl⟩
  | ok i =>
      rw [step_of_fetch hFetch]
      apply (moves_perform code i { m with pc := i.next }).mono
      intro after h
      exact ⟨h.calls, h.maxCalls, h.precise, .inr ⟨i, rfl, h.scopes⟩⟩

end Machine
end StackScript
