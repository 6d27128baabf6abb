import StackScript.Proofs.Emission.Derivation
import StackScript.Proofs.Machine.Shape
import StackScript.Proofs.Machine.Stepping

/-
  What operations and built-in functions give.

  Operations on values fail because of the values and never
  because of the machine, and nothing that they or built-in
  functions give is a function, except what a variable held
  before.

  Key definitions include:
    * `EvalError.isMisuse`
    * `Proper`
    * `Hosted.Gives`

  Key theorems include:
    * `Op.proper_combine`
    * `Op.proper_alter`
    * `Builtin.gives_run`
-/

namespace StackScript

------------------------------------------------------------
-- Errors and Values
------------------------------------------------------------

/- The error is about the use of the machine and not about values. -/
def EvalError.isMisuse : EvalError → Bool
| .decode _ => true
| .invalidJumpTarget .. => true
| .emptyStack => true
| .stackUnderflow .. => true
| .popGlobalScope => true
| _ => false

/- A result with a property, or an error that is no misuse. -/
def Proper
    {α : Type}
    (good : α → Prop) :
    Except EvalError α → Prop
| .ok a => good a
| .error e => e.isMisuse = false

theorem Proper.bind
    {α β : Type}
    {x : Except EvalError α}
    {f : α → Except EvalError β}
    {good : α → Prop}
    {fine : β → Prop}
    (hx : Proper good x)
    (hf : ∀ a, good a → Proper fine (f a)) :
    Proper fine (x >>= f) := by
  cases x with
  | error e => exact hx
  | ok a => exact hf a hx

/- Conversions of numbers fail only for what they are given. -/
theorem Value.proper_promote (left right : Value) :
    Proper (fun _ => True) (Value.promote left right) := by
  have hInteger (v : Value) :
      Proper (fun _ => True) v.asInteger := by
    unfold Value.asInteger
    repeat' split
    all_goals trivial
  have hDecimal (v : Value) :
      Proper (fun _ => True) v.asDecimal := by
    unfold Value.asDecimal
    split <;> trivial
  unfold Value.promote
  split
  · trivial
  · split
    · apply (hDecimal left).bind
      intro a _
      apply (hDecimal right).bind
      intro b _
      trivial
    · apply (hInteger left).bind
      intro a _
      apply (hInteger right).bind
      intro b _
      trivial

variable {P : Routine → Prop}

theorem Value.proper_arithmetic
    (op : Op)
    (left right : Value)
    (precision : Nat) :
    Proper (Value.All P)
      (Value.arithmetic op left right precision) := by
  unfold Value.arithmetic
  dsimp only
  split
  · intro r hr
    cases hr
  · apply (Value.proper_promote left right).bind
    intro operands _
    repeat' split
    all_goals first | rfl | (intro r hr; cases hr)

theorem Value.proper_compare
    (op : Op)
    (left right : Value) :
    Proper (fun _ => True) (Value.compare op left right) := by
  unfold Value.compare
  apply (Value.proper_promote left right).bind
  intro operands _
  repeat' split
  all_goals trivial

/- What an operation between values computes is no function. -/
theorem Op.proper_combine
    (op : Op)
    (precision : Nat)
    (left right : Value) :
    Proper (Value.All P) (op.combine precision left right) := by
  unfold Op.combine
  split
  case h_6 =>
    have hCompare := Value.proper_compare op left right
    cases hResult : Value.compare op left right with
    | error e =>
        rw [hResult] at hCompare
        exact hCompare
    | ok b =>
        intro r hr
        cases hr
  all_goals exact Value.proper_arithmetic _ left right precision

/- Nor is what an operation on a value computes. -/
theorem Op.proper_alter
    (op : Op)
    (value : Value) :
    Proper (Value.All P) (op.alter value) := by
  unfold Op.alter
  split
  · unfold Value.negate
    split
    all_goals first | rfl | (intro r hr; cases hr)
  · intro r hr
    cases hr
  · unfold Value.bitNot
    repeat' split
    all_goals first | rfl | (intro r hr; cases hr)

/- Text that is read stands for no function. -/
theorem Value.all_ofText (text : String) :
    (Value.ofText text).All P := by
  unfold Value.ofText
  cases hText : Constant.ofText? text with
  | none =>
      intro r hr
      cases hr
  | some c =>
      intro r hr
      cases c with
      | routine r' =>
          exact absurd hText Constant.ofText?_ne_routine
      | _ => cases hr

------------------------------------------------------------
-- Built-in Functions
------------------------------------------------------------

/- Whatever a built-in function gives has a property. -/
def Hosted.Gives
    {α : Type}
    (good : α → Prop)
    (x : Hosted α) : Prop :=
  ∀ host a after, x host = .ok a after → good a

namespace Hosted

variable {α β : Type}
variable {good : α → Prop}

theorem gives_pure
    {a : α}
    (h : good a) :
    Gives good (pure a) := by
  intro host b after hPure
  cases hPure
  exact h

theorem gives_throw {e : BuiltinError} :
    Gives good (throw e) := by
  intro host a after hThrow
  cases hThrow

theorem Gives.bind
    {x : Hosted α}
    {f : α → Hosted β}
    {fine : β → Prop}
    (hx : Gives good x)
    (hf : ∀ a, good a → Gives fine (f a)) :
    Gives fine (x >>= f) := by
  intro host b after h
  change EStateM.bind x f host = _ at h
  unfold EStateM.bind at h
  cases hFirst : x host with
  | error e middle =>
      rw [hFirst] at h
      cases h
  | ok a middle =>
      rw [hFirst] at h
      exact hf a (hx host a middle hFirst) middle b after h

/- Nothing need be known of what comes first. -/
theorem gives_bind
    {x : Hosted α}
    {f : α → Hosted β}
    {fine : β → Prop}
    (hf : ∀ a, Gives fine (f a)) :
    Gives fine (x >>= f) := by
  have hx : Gives (fun _ => True) x :=
    fun _ _ _ _ => trivial
  exact hx.bind fun a _ => hf a

end Hosted

/- An optional value is no function unless one with a property. -/
def Value.AllIn
    (P : Routine → Prop)
    (v? : Option Value) : Prop :=
  ∀ v ∈ v?, v.All P

/- The value of a variable or of text is no other function. -/
theorem Builtin.all_resolve
    {scopes : Scopes}
    (hScopes : scopes.All P)
    (line : String) :
    (Builtin.resolve scopes line).All P := by
  unfold Builtin.resolve
  cases hGet : scopes.get? line with
  | none => exact Value.all_ofText line
  | some v => exact hScopes.get? hGet

/- A number of any sort is no function. -/
theorem Value.allIn_number
    {v : Value}
    (h : v.isNumeric) :
    Value.AllIn P (some v) := by
  intro w hw r hr
  cases hw
  cases hr
  cases h

theorem Builtin.gives_runRoot (base degree scientific : Value) :
    Hosted.Gives (Value.AllIn P)
      (Builtin.runRoot base degree scientific) := by
  unfold Builtin.runRoot
  refine Hosted.gives_bind fun a => ?_
  refine Hosted.gives_bind fun n => ?_
  split
  · refine Hosted.gives_bind fun host => ?_
    refine Hosted.gives_bind fun result => ?_
    split
    · exact Hosted.gives_pure (Value.allIn_number rfl)
    · exact Hosted.gives_pure (Value.allIn_number rfl)
  · exact Hosted.gives_throw

theorem Builtin.gives_raiseInteger
    (base : Value)
    (e : Int) :
    Hosted.Gives (Value.isNumeric · = true)
      (Builtin.raiseInteger base e) := by
  unfold Builtin.raiseInteger
  refine Hosted.gives_bind fun b => ?_
  split
  · exact Hosted.gives_throw
  · split
    · exact Hosted.gives_pure rfl
    · exact Hosted.gives_throw

theorem Builtin.gives_raiseDecimal
    (base : Value)
    (e : Int)
    (precision : Nat) :
    Hosted.Gives (Value.isNumeric · = true)
      (Builtin.raiseDecimal base e precision) := by
  unfold Builtin.raiseDecimal
  refine Hosted.gives_bind fun b => ?_
  split
  · exact Hosted.gives_throw
  · exact Hosted.gives_pure rfl

theorem Builtin.gives_runRaise (base exponent scientific : Value) :
    Hosted.Gives (Value.AllIn P)
      (Builtin.runRaise base exponent scientific) := by
  unfold Builtin.runRaise
  split
  · exact Hosted.gives_throw
  · split
    · exact Hosted.gives_throw
    · split
      · exact Hosted.gives_throw
      · split
        · exact Hosted.gives_pure (Value.allIn_number rfl)
        · split
          · exact Hosted.gives_pure (Value.allIn_number rfl)
          · split
            · refine Hosted.gives_bind fun x => ?_
              exact Hosted.gives_pure (Value.allIn_number rfl)
            · refine Hosted.gives_bind fun host => ?_
              split
              · split
                · refine
                    (Builtin.gives_raiseInteger _ _).bind
                      fun v hv => ?_
                  exact Hosted.gives_pure (Value.allIn_number hv)
                · refine
                    (Builtin.gives_raiseDecimal _ _ _).bind
                      fun v hv => ?_
                  exact Hosted.gives_pure (Value.allIn_number hv)
              · refine Hosted.gives_bind fun x => ?_
                split
                · exact Hosted.gives_pure (Value.allIn_number rfl)
                · exact Hosted.gives_throw

/- Built-in functions give no functions but those of variables. -/
theorem Builtin.gives_run
    {scopes : Scopes}
    (hScopes : scopes.All P)
    (arguments : List Value)
    (f : Builtin) :
    Hosted.Gives (Value.AllIn P) (f.run scopes arguments) := by
  have hNone : Value.AllIn P none := by
    intro v hv
    cases hv
  cases f with
  | print =>
      refine Hosted.gives_bind fun _ => ?_
      exact Hosted.gives_pure hNone
  | concat =>
      apply Hosted.gives_pure
      intro v hv r hr
      cases hv
      cases hr
  | now =>
      refine Hosted.gives_bind fun _ => ?_
      refine Hosted.gives_bind fun host => ?_
      exact Hosted.gives_pure (Value.allIn_number rfl)
  | root =>
      refine Hosted.gives_bind fun _ => ?_
      exact Builtin.gives_runRoot _ _ _
  | setPrecision =>
      refine Hosted.gives_bind fun _ => ?_
      unfold Builtin.runSetPrecision
      split
      · split
        · refine Hosted.gives_bind fun _ => ?_
          exact Hosted.gives_pure hNone
        · exact Hosted.gives_throw
      · exact Hosted.gives_throw
  | sine =>
      refine Hosted.gives_bind fun _ => ?_
      refine Hosted.gives_bind fun x => ?_
      exact Hosted.gives_pure (Value.allIn_number rfl)
  | cosine =>
      refine Hosted.gives_bind fun _ => ?_
      refine Hosted.gives_bind fun x => ?_
      exact Hosted.gives_pure (Value.allIn_number rfl)
  | raise =>
      refine Hosted.gives_bind fun _ => ?_
      exact Builtin.gives_runRaise _ _ _
  | input =>
      refine Hosted.gives_bind fun _ => ?_
      refine Hosted.gives_bind fun line => ?_
      apply Hosted.gives_pure
      intro v hv
      rcases Option.map_eq_some_iff.1 hv with ⟨text, _, rfl⟩
      exact Builtin.all_resolve hScopes text

end StackScript
