/-
  Two computations side by side.

  Two computations that begin in related states are paired
  when both give related results or both fail with related
  errors, and both leave related states. Computations that
  are put together from paired ones in the same way are
  paired again.

  Key definitions include:
    * `Agree`
    * `Paired`
    * `Pairs`

  Key theorems include:
    * `Pairs.bind`
-/

namespace StackScript

------------------------------------------------------------
-- Results
------------------------------------------------------------

/- Two results that are related, or two errors that are. -/
def Agree
    {ε α β : Type}
    (E : ε → ε → Prop)
    (Q : α → β → Prop) :
    Except ε α → Except ε β → Prop
| .ok a, .ok b => Q a b
| .error e, .error e' => E e e'
| _, _ => False

/- The same in related states. -/
def Paired
    {ε σ α β : Type}
    (S : σ → σ → Prop)
    (E : ε → ε → Prop)
    (Q : α → β → Prop) :
    EStateM.Result ε σ α → EStateM.Result ε σ β → Prop
| .ok a s, .ok b t => Q a b ∧ S s t
| .error e s, .error e' t => E e e' ∧ S s t
| _, _ => False

/- Computations that are paired wherever they begin alike. -/
def Pairs
    {ε σ α β : Type}
    (S : σ → σ → Prop)
    (E : ε → ε → Prop)
    (Q : α → β → Prop)
    (x : EStateM ε σ α)
    (y : EStateM ε σ β) : Prop :=
  ∀ s t, S s t → Paired S E Q (x s) (y t)

variable {ε σ α β γ δ : Type}
variable {S : σ → σ → Prop}
variable {E E' : ε → ε → Prop}
variable {Q : α → β → Prop}
variable {Q' : γ → δ → Prop}

/- Results that agree stay so under weaker relations. -/
theorem Agree.mono
    {P : α → β → Prop}
    {x : Except ε α}
    {y : Except ε β}
    (h : Agree E P x y)
    (hError : ∀ e e', E e e' → E' e e')
    (hResult : ∀ a b, P a b → Q a b) :
    Agree E' Q x y := by
  cases x with
  | ok a =>
      cases y with
      | ok b => exact hResult a b h
      | error e => exact h
  | error e =>
      cases y with
      | ok b => exact h
      | error e' => exact hError e e' h

/- Related results are known to be those of the first. -/
theorem Agree.recorded
    {x : Except ε α}
    {y : Except ε β}
    (h : Agree E Q x y) :
    Agree E (fun a b => Q a b ∧ x = .ok a) x y := by
  cases x with
  | ok a =>
      cases y with
      | ok b => exact ⟨h, rfl⟩
      | error e => exact h
  | error e =>
      cases y with
      | ok b => exact h
      | error e' => exact h

theorem Agree.bind
    {x : Except ε α}
    {y : Except ε β}
    {f : α → Except ε γ}
    {g : β → Except ε δ}
    (hx : Agree E Q x y)
    (hf : ∀ a b, Q a b → Agree E Q' (f a) (g b)) :
    Agree E Q' (x >>= f) (y >>= g) := by
  cases x with
  | ok a =>
      cases y with
      | ok b => exact hf a b hx
      | error e => exact hx.elim
  | error e =>
      cases y with
      | ok b => exact hx.elim
      | error e' => exact hx

/- Related optional results are both missing or both there. -/
theorem missing_or_related
    {a? : Option α}
    {b? : Option β}
    (h : Option.Rel Q a? b?) :
    (a? = none ∧ b? = none) ∨
      ∃ a b, a? = some a ∧ b? = some b ∧ Q a b := by
  cases h with
  | none => exact .inl ⟨rfl, rfl⟩
  | some h => exact .inr ⟨_, _, rfl, rfl, h⟩

------------------------------------------------------------
-- Computations
------------------------------------------------------------

theorem pairs_pure
    {a : α}
    {b : β}
    (h : Q a b) :
    Pairs S E Q (pure a) (pure b) :=
  fun _ _ hState => ⟨h, hState⟩

theorem pairs_throw
    {e e' : ε}
    (h : E e e') :
    Pairs S E Q (throw e) (throw e') :=
  fun _ _ hState => ⟨h, hState⟩

/- The states that are read are related. -/
theorem pairs_get : Pairs S E S get get :=
  fun _ _ hState => ⟨hState, hState⟩

theorem pairs_set
    {s t : σ}
    (h : S s t) :
    Pairs S E (fun _ _ => True) (set s) (set t) :=
  fun _ _ _ => ⟨trivial, h⟩

theorem pairs_modify
    {f g : σ → σ}
    (h : ∀ s t, S s t → S (f s) (g t)) :
    Pairs S E (fun _ _ => True) (modify f) (modify g) :=
  fun s t hState => ⟨trivial, h s t hState⟩

/- Paired computations are followed by paired ones. -/
theorem Pairs.bind
    {x : EStateM ε σ α}
    {y : EStateM ε σ β}
    {f : α → EStateM ε σ γ}
    {g : β → EStateM ε σ δ}
    (hx : Pairs S E Q x y)
    (hf : ∀ a b, Q a b → Pairs S E Q' (f a) (g b)) :
    Pairs S E Q' (x >>= f) (y >>= g) := by
  intro s t hState
  have hFirst := hx s t hState
  change Paired S E Q' (EStateM.bind x f s) (EStateM.bind y g t)
  unfold EStateM.bind
  cases hLeft : x s with
  | ok a s' =>
      cases hRight : y t with
      | ok b t' =>
          rw [hLeft, hRight] at hFirst
          exact hf a b hFirst.1 s' t' hFirst.2
      | error e t' =>
          rw [hLeft, hRight] at hFirst
          exact hFirst.elim
  | error e s' =>
      cases hRight : y t with
      | ok b t' =>
          rw [hLeft, hRight] at hFirst
          exact hFirst.elim
      | error e' t' =>
          rw [hLeft, hRight] at hFirst
          exact hFirst

/- Paired computations are so under weaker relations. -/
theorem Pairs.mono
    {P : α → β → Prop}
    {x : EStateM ε σ α}
    {y : EStateM ε σ β}
    (h : Pairs S E P x y)
    (hError : ∀ e e', E e e' → E' e e')
    (hResult : ∀ a b, P a b → Q a b) :
    Pairs S E' Q x y := by
  intro s t hState
  have hBoth := h s t hState
  cases hLeft : x s with
  | ok a s' =>
      cases hRight : y t with
      | ok b t' =>
          rw [hLeft, hRight] at hBoth
          exact ⟨hResult a b hBoth.1, hBoth.2⟩
      | error e t' =>
          rw [hLeft, hRight] at hBoth
          exact hBoth.elim
  | error e s' =>
      cases hRight : y t with
      | ok b t' =>
          rw [hLeft, hRight] at hBoth
          exact hBoth.elim
      | error e' t' =>
          rw [hLeft, hRight] at hBoth
          exact ⟨hError e e' hBoth.1, hBoth.2⟩

/- Related results come from runs of both computations. -/
theorem Pairs.recorded
    {x : EStateM ε σ α}
    {y : EStateM ε σ β}
    (h : Pairs S E Q x y) :
    Pairs S E
      (fun a b =>
        Q a b ∧
          ∃ s t s' t', S s t ∧ x s = .ok a s' ∧ y t = .ok b t')
      x y := by
  intro s t hState
  have hBoth := h s t hState
  cases hLeft : x s with
  | ok a s' =>
      cases hRight : y t with
      | ok b t' =>
          rw [hLeft, hRight] at hBoth
          exact ⟨⟨hBoth.1, s, t, s', t', hState, hLeft, hRight⟩,
            hBoth.2⟩
      | error e t' =>
          rw [hLeft, hRight] at hBoth
          exact hBoth.elim
  | error e s' =>
      cases hRight : y t with
      | ok b t' =>
          rw [hLeft, hRight] at hBoth
          exact hBoth.elim
      | error e' t' =>
          rw [hLeft, hRight] at hBoth
          exact hBoth

end StackScript
