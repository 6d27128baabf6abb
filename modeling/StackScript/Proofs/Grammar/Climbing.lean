import StackScript.Proofs.Grammar.Bound

/-
  Expressions by precedence climbing.

  To climb from a precedence is to take, behind an operand,
  one operator after the other that binds at least as tight,
  and to climb for the right operand of each from what the
  operator needs there. There are no stacks in it. Operators
  that wait on a stack make the same trees: each of them has
  the rest of its right operand read, from what it needs.

  Key definitions include:
    * `Parser.recur`
    * `Parser.climb`
    * `Parser.Resumes`

  Key theorems include:
    * `Parser.Productive.run_recur`
    * `Parser.resumes`
    * `Parser.climbs`
    * `Parser.expression_eq_climb`
-/

namespace StackScript

/- An operator yields where it is too loose for a right operand. -/
theorem Connective.yieldsTo_iff
    {t u : Token}
    {c waiting : Connective}
    (hToken : of? t = some c)
    (hWaiting : of? u = some waiting) :
    c.yieldsTo waiting = true ↔ c.precedence < waiting.rightNeed := by
  constructor
  · intro hYields
    unfold yieldsTo at hYields
    unfold rightNeed
    by_cases hSame : c.precedence = waiting.precedence
    · have hSide := rightward_eq_of_precedence_eq hToken hWaiting hSame
      cases hRight : waiting.rightward with
      | true =>
          rw [hSide, hRight, hSame] at hYields
          simp at hYields
      | false => simp [hSame]
    · have hLess : c.precedence ≤ waiting.precedence := by
        split at hYields
        · exact Nat.le_of_lt (of_decide_eq_true hYields)
        · exact of_decide_eq_true hYields
      split <;> omega
  · intro hLess
    cases hYields : c.yieldsTo waiting with
    | true => rfl
    | false =>
        have hMore :=
          rightNeed_le_of_not_yieldsTo hToken hWaiting hYields
        omega

/- What is assigned may be an assignment again. -/
theorem Connective.rightNeed_of_assigns
    {t : Token}
    {c : Connective}
    (hToken : of? t = some c)
    (hKind : c.kind = .assignment) :
    c.precedence = 1 ∧ c.rightNeed = 1 := by
  rcases assigns_of_of? hToken hKind with ⟨_, hOne, hSide, _⟩
  refine ⟨hOne, ?_⟩
  unfold rightNeed
  rw [if_pos hSide, hOne]

namespace Parser

variable {α β γ : Type}
variable {c after : Cursor}
variable {x : Parser α}
variable {before : Option Token}
variable {t : Token}
variable {rest : List Token}

------------------------------------------------------------
-- Sequences
------------------------------------------------------------

theorem run_bind_of_run
    {x y : Parser α}
    {c c' : Cursor}
    {f : α → Parser β}
    (h : x.run c = y.run c') :
    (x >>= f).run c = (y >>= f).run c' := by
  change
    (x.run c).bind (fun r => (f r.1).run r.2) =
      (y.run c').bind fun r => (f r.1).run r.2
  rw [h]

theorem run_bind_of_ok
    {a : α}
    {f : α → Parser β}
    (h : x.run c = .ok (a, after)) :
    (x >>= f).run c = (f a).run after := by
  change (x.run c).bind (fun r => (f r.1).run r.2) = _
  rw [h]
  rfl

theorem run_peek
    {f : Option Token → Parser β} :
    (peek >>= f).run c = (f c.rest.head?).run c :=
  rfl

------------------------------------------------------------
-- Readers That Call Themselves
------------------------------------------------------------

/- A reader that calls itself not more than a number of times. -/
def within (step : (α → Parser β) → α → Parser β) :
    Nat → α → Parser β
| 0, _ => failHere .unexpectedEnd
| n + 1, a => step (within step n) a

/- A reader that calls itself, at most once for each token left. -/
def recur
    (step : (α → Parser β) → α → Parser β)
    (a : α) : Parser β := do
  within step ((← get).rest.length + 1) a

/- No tokens are given back. -/
def Forward (f : α → Parser β) : Prop :=
  ∀ a c, Takes c (f a) fun _ _ => True

/- A step calls itself only behind a token that it has taken. -/
structure Productive
    (step : (α → Parser β) → α → Parser β) : Prop where
  forward : ∀ f, Forward f → Forward (step f)
  congr :
    ∀ f g a c, Forward f →
      (∀ b c', c'.rest.length < c.rest.length →
        (f b).run c' = (g b).run c') →
      (step f a).run c = (step g a).run c

namespace Productive

variable {step : (α → Parser β) → α → Parser β}
variable {a : α}

theorem forward_within
    (h : Productive step)
    (n : Nat) :
    Forward (within step n) := by
  induction n with
  | zero => exact fun _ _ => takes_failHere _
  | succ n ih => exact h.forward _ ih

theorem forward_recur (h : Productive step) :
    Forward (recur step) :=
  fun a c => takes_get (h.forward_within _ a c)

/- More calls than there are tokens are not needed. -/
theorem run_within
    {n m : Nat}
    (h : Productive step)
    (hLess : c.rest.length < n)
    (hLess' : c.rest.length < m) :
    (within step n a).run c = (within step m a).run c := by
  induction n generalizing m a c with
  | zero => omega
  | succ n ih =>
      cases m with
      | zero => omega
      | succ m =>
          apply h.congr _ _ a c (h.forward_within n)
          intro b c' hFewer
          exact ih (by omega) (by omega)

/- A reader that calls itself is its own step. -/
theorem run_recur (h : Productive step) :
    (recur step a).run c = (step (recur step) a).run c := by
  apply h.congr _ _ a c (h.forward_within _)
  intro b c' hFewer
  exact h.run_within hFewer (Nat.lt_succ_self _)

end Productive

------------------------------------------------------------
-- Taking a Token
------------------------------------------------------------

/- Take the next token if something is found for it. -/
def takeFound (find : Token → Option γ) :
    Parser (Option (Token × γ)) := do
  match ← peek with
  | none => return none
  | some t =>
      match find t with
      | none => return none
      | some a =>
          advance
          return some (t, a)

variable {find : Token → Option γ}
variable {f g : Option (Token × γ) → Parser β}

/- The next token is none that something is found for. -/
def Stops
    (find : Token → Option γ)
    (c : Cursor) : Prop :=
  ∀ t ∈ c.rest.head?, find t = none

/- There is a next token that something is found for, or not. -/
theorem stops_or_found
    (find : Token → Option γ)
    (c : Cursor) :
    Stops find c ∨
      ∃ before t rest a, c = ⟨before, t :: rest⟩ ∧ find t = some a := by
  rcases c with ⟨before, rest⟩
  cases rest with
  | nil =>
      left
      intro t hHead
      cases hHead
  | cons t rest =>
      cases hFind : find t with
      | none =>
          left
          intro u hHead
          cases hHead
          exact hFind
      | some a => exact .inr ⟨before, t, rest, a, rfl, hFind⟩

theorem run_takeFound_of_stops (h : Stops find c) :
    (takeFound find >>= f).run c = (f none).run c := by
  unfold takeFound
  rw [bind_assoc, run_peek]
  cases hHead : c.rest.head? with
  | none => rfl
  | some t =>
      dsimp only
      rw [h t hHead]
      rfl

theorem run_takeFound
    {a : γ}
    (h : find t = some a) :
    (takeFound find >>= f).run ⟨before, t :: rest⟩ =
      (f (some (t, a))).run ⟨some t, rest⟩ := by
  unfold takeFound
  rw [bind_assoc, run_peek]
  dsimp only [List.head?_cons]
  rw [h]
  rfl

/- What goes on alike with a token or without is the same. -/
theorem run_takeFound_congr
    (hNone : (f none).run c = (g none).run c)
    (hSome :
      ∀ t rest a, c.rest = t :: rest →
        (f (some (t, a))).run ⟨some t, rest⟩ =
          (g (some (t, a))).run ⟨some t, rest⟩) :
    (takeFound find >>= f).run c = (takeFound find >>= g).run c := by
  rcases stops_or_found find c with
    hStops | ⟨before, t, rest, a, rfl, hFind⟩
  · rw [run_takeFound_of_stops hStops, run_takeFound_of_stops hStops]
    exact hNone
  · rw [run_takeFound hFind, run_takeFound hFind]
    exact hSome t rest a rfl

theorem takes_takeFound
    {Q : List Token → β → Prop}
    (hNone : Takes c (f none) Q)
    (hSome :
      ∀ t a middle,
        Takes middle (f (some (t, a))) fun us => Q (t :: us)) :
    Takes c (takeFound find >>= f) Q := by
  intro b after hRun
  rcases stops_or_found find c with
    hStops | ⟨before, t, rest, a, rfl, hFind⟩
  · rw [run_takeFound_of_stops hStops] at hRun
    exact hNone b after hRun
  · rw [run_takeFound hFind] at hRun
    rcases hSome t a _ b after hRun with ⟨us, hRest, hTaken⟩
    refine ⟨t :: us, ?_, hTaken⟩
    rw [List.cons_append, ← hRest]

------------------------------------------------------------
-- Climbing
------------------------------------------------------------

/- The connective that a token is, if it binds tight enough. -/
def tight?
    (least : Nat)
    (t : Token) : Option Connective :=
  (Connective.of? t).filter fun d => decide (least ≤ d.precedence)

/- One operator with its right operand, and what follows them. -/
def climbStep
    (read : Parser Expr)
    (again : Nat × Expr → Parser Expr) :
    Nat × Expr → Parser Expr
| (least, left) => do
    match ← takeFound (tight? least) with
    | none => return left
    | some (t, d) =>
        if d.kind = .assignment then
          match left.name? with
          | none => throw (.assignment d.operator t.location)
          | some name =>
              requireOperand t
              let first ← read
              let right ← again (d.rightNeed, first)
              let value := assigned d.operator left right t.location
              return .assignment name value t.location
        else
          requireOperand t
          let first ← read
          let right ← again (d.rightNeed, first)
          again (least, d.apply left right t.location)

/-
  Read on behind an operand, with operators that bind at
  least as tight as `least`.
-/
def climb
    (read : Parser Expr)
    (least : Nat)
    (left : Expr) : Parser Expr :=
  recur (climbStep read) (least, left)

variable {read : Parser Expr}
variable {least : Nat}
variable {left e : Expr}
variable {d : Connective}

theorem tight?_eq_some :
    tight? least t = some d ↔
      Connective.of? t = some d ∧ least ≤ d.precedence := by
  unfold tight?
  rw [Option.filter_eq_some_iff, decide_eq_true_iff]

/- No operator that comes next binds tight enough. -/
theorem stops_tight?_iff :
    Stops (tight? least) c ↔
      ∀ t ∈ c.rest.head?, ∀ d, Connective.of? t = some d →
        d.precedence < least := by
  constructor
  · intro hStops t hHead d hToken
    apply Nat.lt_of_not_le
    intro hTight
    have hSome := tight?_eq_some.2 ⟨hToken, hTight⟩
    rw [hStops t hHead] at hSome
    cases hSome
  · intro hLoose t hHead
    cases hTight : tight? least t with
    | none => rfl
    | some d =>
        rcases tight?_eq_some.1 hTight with ⟨hToken, hMore⟩
        have hLess := hLoose t hHead d hToken
        omega

theorem productive_climb
    (hRead : ∀ c, Takes c read fun ts _ => ts ≠ []) :
    Productive (climbStep read) := by
  constructor
  case forward =>
    rintro again hAgain ⟨least, left⟩ c
    apply takes_takeFound
    · exact takes_pure trivial
    · intro t d middle
      dsimp only
      split
      · split
        · exact takes_throw _
        · apply takes_requireOperand
          apply (hRead middle).bind
          intro _ first next _
          apply (hAgain _ next).bind
          intro _ right last _
          exact takes_pure trivial
      · apply takes_requireOperand
        apply (hRead middle).bind
        intro _ first next _
        apply (hAgain _ next).bind
        intro _ right last _
        exact hAgain _ last
  case congr =>
    rintro again again' ⟨least, left⟩ c hForward hSame
    apply run_takeFound_congr
    · rfl
    · intro t rest d hRest
      have hFewer {c' : Cursor} (h : c'.rest.length < rest.length) :
          c'.rest.length < c.rest.length := by
        rw [hRest, List.length_cons]
        omega
      dsimp only
      split
      · split
        · rfl
        · apply run_requireOperand_congr
          apply run_then_congr
          intro first next hFirst
          apply run_bind_congr
          · exact hSame _ _ (hFewer ((hRead _).length_lt hFirst))
          · intro right last _
            rfl
      · apply run_requireOperand_congr
        apply run_then_congr
        intro first next hFirst
        have hNext : next.rest.length < rest.length :=
          (hRead _).length_lt hFirst
        apply run_bind_congr
        · exact hSame _ _ (hFewer hNext)
        · intro right last hRight
          have hLast := (hForward _ next).length_le hRight
          exact hSame _ _ (hFewer (Nat.lt_of_le_of_lt hLast hNext))

section

variable (hRead : ∀ c, Takes c read fun ts _ => ts ≠ [])

include hRead

theorem takes_climb :
    Takes c (climb read least left) fun _ _ => True :=
  (productive_climb hRead).forward_recur _ c

/- What goes on alike behind a right operand is the same. -/
theorem run_right_congr
    {need : Nat}
    {f g : Expr → Parser β}
    (hThen :
      ∀ right last, last.rest.length < c.rest.length →
        (f right).run last = (g right).run last) :
    (do
      requireOperand t
      let first ← read
      let right ← climb read need first
      f right).run c =
      (do
        requireOperand t
        let first ← read
        let right ← climb read need first
        g right).run c := by
  apply run_requireOperand_congr
  apply run_then_congr
  intro first next hFirst
  apply run_then_congr
  intro right last hRight
  have hNext := (hRead c).length_lt hFirst
  have hLast := (takes_climb hRead).length_le hRight
  exact hThen right last (Nat.lt_of_le_of_lt hLast hNext)

/- Climbing ends where no operator binds tight enough. -/
theorem run_climb_of_stops (h : Stops (tight? least) c) :
    (climb read least left).run c = .ok (left, c) := by
  unfold climb
  rw [(productive_climb hRead).run_recur, climbStep,
    run_takeFound_of_stops h]
  rfl

/- Climbing goes on with the node of an operator. -/
theorem run_climb_of_joins
    (hTight : tight? least t = some d)
    (hKind : d.kind ≠ .assignment) :
    (climb read least left).run ⟨before, t :: rest⟩ =
      (do
        requireOperand t
        let first ← read
        let right ← climb read d.rightNeed first
        climb read least (d.apply left right t.location)).run
        ⟨some t, rest⟩ := by
  unfold climb
  rw [(productive_climb hRead).run_recur, climbStep,
    run_takeFound hTight]
  dsimp only
  rw [if_neg hKind]

theorem run_climb_of_assigns
    {name : String}
    (hTight : tight? least t = some d)
    (hKind : d.kind = .assignment)
    (hName : left.name? = some name) :
    (climb read least left).run ⟨before, t :: rest⟩ =
      (do
        requireOperand t
        let first ← read
        let right ← climb read d.rightNeed first
        let value := assigned d.operator left right t.location
        return Expr.assignment name value t.location).run
        ⟨some t, rest⟩ := by
  unfold climb
  rw [(productive_climb hRead).run_recur, climbStep,
    run_takeFound hTight]
  dsimp only
  rw [if_pos hKind, hName]

theorem run_climb_of_no_target
    (hTight : tight? least t = some d)
    (hKind : d.kind = .assignment)
    (hName : left.name? = none) :
    (climb read least left).run ⟨before, t :: rest⟩ =
      .error (.assignment d.operator t.location) := by
  unfold climb
  rw [(productive_climb hRead).run_recur, climbStep,
    run_takeFound hTight]
  dsimp only
  rw [if_pos hKind, hName]
  rfl

end

------------------------------------------------------------
-- Waiting Operators
------------------------------------------------------------

variable {bound : Nat}
variable {output output' : List Expr}
variable {pending pending' : Pending}

/- Nothing is taken where no operator binds tight enough. -/
theorem run_connectives_of_stops (h : Stops (tight? least) c) :
    (connectives (bound + 1) least output pending).run c =
      (conclude output pending).run c := by
  rw [connectives, run_peek]
  cases hHead : c.rest.head? with
  | none => rfl
  | some t =>
      dsimp only
      cases hToken : Connective.of? t with
      | none => rfl
      | some d =>
          have hLoose := stops_tight?_iff.1 h t hHead d hToken
          dsimp only
          rw [if_pos hLoose]

/- Only what an operator makes of the stacks matters to it. -/
theorem run_connectives_of_reduceFor
    (hTight : tight? least t = some d)
    (hSame :
      reduceFor d t.location pending output =
        reduceFor d t.location pending' output') :
    (connectives (bound + 1) least output pending).run
        ⟨before, t :: rest⟩ =
      (connectives (bound + 1) least output' pending').run
        ⟨before, t :: rest⟩ := by
  rcases tight?_eq_some.1 hTight with ⟨hToken, hLeast⟩
  rw [connectives, connectives, run_peek, run_peek]
  dsimp only [List.head?_cons]
  rw [hToken]
  dsimp only
  rw [if_neg (Nat.not_lt.2 hLeast), if_neg (Nat.not_lt.2 hLeast), hSame]

/- An operator for which no other is reduced starts to wait. -/
theorem run_connectives_of_joins
    (hTight : tight? least t = some d)
    (hKind : d.kind ≠ .assignment)
    (hStays :
      reduceFor d t.location pending output = .ok (output, pending)) :
    (connectives (bound + 1) least output pending).run
        ⟨before, t :: rest⟩ =
      (do
        requireOperand t
        let next ← operand bound
        connectives bound least (next :: output)
          ((d, t.location) :: pending)).run
        ⟨some t, rest⟩ := by
  rcases tight?_eq_some.1 hTight with ⟨hToken, hLeast⟩
  rw [connectives, run_peek]
  dsimp only [List.head?_cons]
  rw [hToken]
  dsimp only
  rw [if_neg (Nat.not_lt.2 hLeast), hStays]
  change
    (if d.kind = .assignment then _ else _ : Parser Expr).run
      ⟨some t, rest⟩ = _
  rw [if_neg hKind]

/- An assignment reads all that follows as the value. -/
theorem run_connectives_of_assigns
    {name : String}
    (hTight : tight? least t = some d)
    (hKind : d.kind = .assignment)
    (hName : left.name? = some name) :
    (connectives (bound + 1) least [left] []).run
        ⟨before, t :: rest⟩ =
      (do
        requireOperand t
        let right ← expression bound d.precedence
        let value := assigned d.operator left right t.location
        return Expr.assignment name value t.location).run
        ⟨some t, rest⟩ := by
  rcases tight?_eq_some.1 hTight with ⟨hToken, hLeast⟩
  rw [connectives, run_peek]
  dsimp only [List.head?_cons]
  rw [hToken]
  dsimp only
  rw [if_neg (Nat.not_lt.2 hLeast)]
  change
    (if d.kind = .assignment then _ else _ : Parser Expr).run
      ⟨some t, rest⟩ = _
  rw [if_pos hKind, hName]
  apply run_requireOperand_congr
  apply run_then_congr
  intro right last _
  rfl

theorem run_connectives_of_no_target
    (hTight : tight? least t = some d)
    (hKind : d.kind = .assignment)
    (hName : left.name? = none) :
    (connectives (bound + 1) least [left] []).run
        ⟨before, t :: rest⟩ =
      .error (.assignment d.operator t.location) := by
  rcases tight?_eq_some.1 hTight with ⟨hToken, hLeast⟩
  rw [connectives, run_peek]
  dsimp only [List.head?_cons]
  rw [hToken]
  dsimp only
  rw [if_neg (Nat.not_lt.2 hLeast)]
  change
    (if d.kind = .assignment then _ else _ : Parser Expr).run
      ⟨some t, rest⟩ = _
  rw [if_pos hKind, hName]
  rfl

/- What may wait: an operator of the table that is no assignment. -/
structure MayWait
    (least : Nat)
    (waiting : Connective) : Prop where
  token : ∃ u, Connective.of? u = some waiting
  kind : waiting.kind ≠ .assignment
  least : least ≤ waiting.precedence

theorem MayWait.rightNeed
    {waiting : Connective}
    (h : MayWait least waiting) :
    2 ≤ waiting.rightNeed ∧ least ≤ waiting.rightNeed := by
  rcases h.token with ⟨u, hToken⟩
  have hLoosest := (Connective.joins_of_of? hToken h.kind).2.1
  have hLeast := h.least
  unfold Connective.rightNeed
  split <;> omega

/- An operator is reduced where its right operand is complete. -/
theorem run_connectives_of_loose
    {waiting : Connective}
    {l : Location}
    (hWaiting : MayWait least waiting)
    (hStops : Stops (tight? waiting.rightNeed) c) :
    (connectives (bound + 1) least (e :: left :: output)
        ((waiting, l) :: pending)).run c =
      (connectives (bound + 1) least
        (waiting.apply left e l :: output) pending).run c := by
  rcases stops_or_found (tight? least) c with
    hNone | ⟨before, t, rest, d, rfl, hTight⟩
  · rw [run_connectives_of_stops hNone, run_connectives_of_stops hNone]
    rfl
  · apply run_connectives_of_reduceFor hTight
    have hToken := (tight?_eq_some.1 hTight).1
    have hLoose : d.precedence < waiting.rightNeed :=
      stops_tight?_iff.1 hStops t rfl d hToken
    rcases hWaiting.token with ⟨u, hOther⟩
    have hYields := (Connective.yieldsTo_iff hToken hOther).2 hLoose
    rw [reduceFor, if_pos hYields]
    rfl

/-
  The latest waiting operator has the rest of its right
  operand read and takes it, and then the others go on.
-/
def Resumes
    (bound more least : Nat)
    (c : Cursor) : Prop :=
  ∀ waiting l left e output pending, MayWait least waiting →
    (connectives bound least (e :: left :: output)
        ((waiting, l) :: pending)).run c =
      (climb (operand more) waiting.rightNeed e >>= fun right =>
        connectives bound least (waiting.apply left right l :: output)
          pending).run c

/- An operator that binds tighter waits until it has its operand. -/
theorem Resumes.joins
    {more : Nat}
    {waiting : Connective}
    {l : Location}
    (hLater :
      ∀ next, next.rest.length < rest.length →
        Resumes bound more least next)
    (hBound : 3 * rest.length + 1 ≤ bound)
    (hMore : 3 * rest.length + 1 ≤ more)
    (hWaiting : MayWait least waiting)
    (hTight : tight? waiting.rightNeed t = some d) :
    (connectives (bound + 1) least (e :: left :: output)
        ((waiting, l) :: pending)).run ⟨before, t :: rest⟩ =
      (climb (operand more) waiting.rightNeed e >>= fun right =>
        connectives (bound + 1) least
          (waiting.apply left right l :: output) pending).run
        ⟨before, t :: rest⟩ := by
  rcases tight?_eq_some.1 hTight with ⟨hToken, hNeed⟩
  rcases hWaiting.rightNeed with ⟨hTwo, hLess⟩
  have hKind : d.kind ≠ .assignment := by
    intro hAssigns
    have hOne := (Connective.assigns_of_of? hToken hAssigns).2.1
    omega
  have hLeast : least ≤ d.precedence := by omega
  have hStays :
      reduceFor d t.location ((waiting, l) :: pending)
          (e :: left :: output) =
        .ok (e :: left :: output, (waiting, l) :: pending) := by
    rcases hWaiting.token with ⟨u, hOther⟩
    have hTighter : ¬ d.yieldsTo waiting = true := by
      intro hYields
      have hLoose := (Connective.yieldsTo_iff hToken hOther).1 hYields
      omega
    rw [reduceFor, if_neg hTighter]
  rw [run_connectives_of_joins (tight?_eq_some.2 ⟨hToken, hLeast⟩)
      hKind hStays,
    run_bind_of_run
      (run_climb_of_joins (fun _ => takes_operand) hTight hKind)]
  simp only [bind_assoc]
  apply run_requireOperand_congr
  apply run_bind_congr (run_operand_eq hBound hMore)
  intro first next hFirst
  have hNext : next.rest.length < rest.length :=
    takes_operand.length_lt hFirst
  rw [hLater next hNext _ _ _ _ _ _ ⟨⟨t, hToken⟩, hKind, hLeast⟩]
  apply run_then_congr
  intro right last hRight
  have hLast : last.rest.length ≤ next.rest.length :=
    (takes_climb fun _ => takes_operand).length_le hRight
  rw [hLater last (by omega) _ _ _ _ _ _ hWaiting]
  apply run_then_congr
  intro operand' end' hOperand
  have hEnd : end'.rest.length ≤ last.rest.length :=
    (takes_climb fun _ => takes_operand).length_le hOperand
  exact run_connectives_eq (by omega) (by omega)

theorem resumes
    {more : Nat}
    (hBound : 3 * c.rest.length + 1 ≤ bound)
    (hMore : 3 * c.rest.length + 1 ≤ more) :
    Resumes bound more least c := by
  -- On the tokens left: each operator that joins has taken one.
  induction hLength : c.rest.length using Nat.strongRecOn
    generalizing bound c with
  | ind length ih =>
      subst hLength
      cases bound with
      | zero => omega
      | succ bound =>
          intro waiting l left e output pending hWaiting
          rcases stops_or_found (tight? waiting.rightNeed) c with
            hStops | ⟨before, t, rest, d, rfl, hTight⟩
          · rw [run_bind_of_ok
              (run_climb_of_stops (fun _ => takes_operand) hStops)]
            exact run_connectives_of_loose hWaiting hStops
          · rw [List.length_cons] at hBound hMore
            apply Resumes.joins ?_ (by omega) (by omega) hWaiting hTight
            intro next hNext
            have hFewer :
                next.rest.length < (t :: rest).length :=
              Nat.lt_succ_of_lt hNext
            exact ih next.rest.length hFewer (by omega) (by omega) rfl

------------------------------------------------------------
-- Whole Expressions
------------------------------------------------------------

/- Behind one operand the stacks do what climbing does. -/
def Climbs
    (bound more : Nat)
    (c : Cursor) : Prop :=
  ∀ least e,
    (connectives bound least [e] []).run c =
      (climb (operand more) least e).run c

/- An expression starts with an operand and climbs behind it. -/
theorem expression_of_climbs
    {more : Nat}
    (hLater :
      ∀ next bound, next.rest.length < c.rest.length →
        3 * next.rest.length + 1 ≤ bound → Climbs bound more next)
    (hBound : 3 * c.rest.length + 2 ≤ bound)
    (hMore : 3 * c.rest.length + 1 ≤ more) :
    (expression bound least).run c =
      (operand more >>= climb (operand more) least).run c := by
  cases bound with
  | zero => omega
  | succ bound =>
      rw [expression]
      apply run_bind_congr (run_operand_eq (by omega) hMore)
      intro first next hFirst
      have hNext := takes_operand.length_lt hFirst
      exact hLater next bound hNext (by omega) least first

theorem Climbs.assigns
    {more : Nat}
    (hLater :
      ∀ next bound, next.rest.length < rest.length →
        3 * next.rest.length + 1 ≤ bound → Climbs bound more next)
    (hBound : 3 * rest.length + 2 ≤ bound)
    (hMore : 3 * rest.length + 1 ≤ more)
    (hTight : tight? least t = some d)
    (hKind : d.kind = .assignment) :
    (connectives (bound + 1) least [left] []).run
        ⟨before, t :: rest⟩ =
      (climb (operand more) least left).run ⟨before, t :: rest⟩ := by
  cases hName : left.name? with
  | none =>
      rw [run_connectives_of_no_target hTight hKind hName,
        run_climb_of_no_target (fun _ => takes_operand) hTight hKind
          hName]
  | some name =>
      have hToken := (tight?_eq_some.1 hTight).1
      rcases Connective.rightNeed_of_assigns hToken hKind with
        ⟨hOne, hRight⟩
      rw [run_connectives_of_assigns hTight hKind hName,
        run_climb_of_assigns (fun _ => takes_operand) hTight hKind
          hName,
        hRight, hOne, ← bind_assoc (operand more)]
      apply run_requireOperand_congr
      exact run_bind_of_run (expression_of_climbs hLater hBound hMore)

theorem Climbs.joins
    {more : Nat}
    (hLater :
      ∀ next bound, next.rest.length < rest.length →
        3 * next.rest.length + 1 ≤ bound → Climbs bound more next)
    (hBound : 3 * rest.length + 2 ≤ bound)
    (hMore : 3 * rest.length + 1 ≤ more)
    (hTight : tight? least t = some d)
    (hKind : d.kind ≠ .assignment) :
    (connectives (bound + 1) least [left] []).run
        ⟨before, t :: rest⟩ =
      (climb (operand more) least left).run ⟨before, t :: rest⟩ := by
  rcases tight?_eq_some.1 hTight with ⟨hToken, hLeast⟩
  rw [run_connectives_of_joins hTight hKind rfl,
    run_climb_of_joins (fun _ => takes_operand) hTight hKind]
  apply run_requireOperand_congr
  apply run_bind_congr
  · apply run_operand_eq
    · change 3 * rest.length + 1 ≤ bound
      omega
    · exact hMore
  intro first next hFirst
  have hNext : next.rest.length < rest.length :=
    takes_operand.length_lt hFirst
  have hResumes : Resumes bound more least next :=
    resumes (by omega) (by omega)
  rw [hResumes _ _ _ _ _ _ ⟨⟨t, hToken⟩, hKind, hLeast⟩]
  apply run_then_congr
  intro right last hRight
  have hLast : last.rest.length ≤ next.rest.length :=
    (takes_climb fun _ => takes_operand).length_le hRight
  exact hLater last bound (by omega) (by omega) least _

theorem climbs
    {more : Nat}
    (hBound : 3 * c.rest.length + 1 ≤ bound)
    (hMore : 3 * c.rest.length + 1 ≤ more) :
    Climbs bound more c := by
  induction hLength : c.rest.length using Nat.strongRecOn
    generalizing bound c with
  | ind length ih =>
      subst hLength
      cases bound with
      | zero => omega
      | succ bound =>
          intro least left
          rcases stops_or_found (tight? least) c with
            hStops | ⟨before, t, rest, d, rfl, hTight⟩
          · rw [run_connectives_of_stops hStops,
              run_climb_of_stops (fun _ => takes_operand) hStops]
            rfl
          · rw [List.length_cons] at hBound hMore
            have hLater
                (next : Cursor)
                (bound : Nat)
                (hNext : next.rest.length < rest.length)
                (hBound : 3 * next.rest.length + 1 ≤ bound) :
                Climbs bound more next :=
              ih next.rest.length (Nat.lt_succ_of_lt hNext) hBound
                (by omega) rfl
            by_cases hKind : d.kind = .assignment
            · exact Climbs.assigns hLater (by omega) (by omega) hTight
                hKind
            · exact Climbs.joins hLater (by omega) (by omega) hTight
                hKind

/- The stacks of operators and operands do what climbing does. -/
theorem expression_eq_climb
    {more : Nat}
    (hBound : 3 * c.rest.length + 2 ≤ bound)
    (hMore : 3 * c.rest.length + 1 ≤ more) :
    (expression bound least).run c =
      (operand more >>= climb (operand more) least).run c := by
  apply expression_of_climbs ?_ hBound hMore
  intro next bound hNext hEnough
  exact climbs hEnough (by omega)

end Parser
end StackScript
