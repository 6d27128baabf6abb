import StackScript.Parse.Expression
import StackScript.Proofs.Grammar.Derivation
import StackScript.Proofs.Grammar.Taking

/-
  Expressions that are read are derived from their tokens.

  While operators wait, the tokens read so far fall into the
  operands in the output and the operators between them, and
  every operand but the latest is what its operator needs on
  the left. A waiting operator is never looser than the one
  below it, so that the node it makes is what that one needs
  on the right.

  Key definitions include:
    * `Level.at`
    * `Parser.Waiting`
    * `Parser.Held`
    * `Parser.Sound`

  Key theorems include:
    * `Connective.derives_apply`
    * `Parser.Held.reduceFor`
    * `Parser.Held.reduceAll`
    * `Parser.sound`
-/

namespace StackScript

------------------------------------------------------------
-- Strata by Precedence
------------------------------------------------------------

/- The loosest stratum whose operators have a precedence or more. -/
def Level.at (precedence : Nat) : Level :=
  if precedence ≤ 1 then .assignment
  else if precedence ≤ 2 then .conjunction
  else if precedence ≤ 3 then .disjunction
  else if precedence ≤ 7 then .equality
  else if precedence ≤ 8 then .relational
  else if precedence ≤ 10 then .additive
  else if precedence ≤ 20 then .multiplicative
  else .signed

/- A step of precedence stays in a stratum or leads to the next. -/
theorem Level.at_succ (precedence : Nat) :
    Level.at (precedence + 1) = Level.at precedence ∨
      Level.at (precedence + 1) = (Level.at precedence).next := by
  by_cases hHigh : 21 ≤ precedence
  · left
    unfold Level.at
    simp only [show ¬ precedence ≤ 20 by omega,
      show ¬ precedence ≤ 10 by omega, show ¬ precedence ≤ 8 by omega,
      show ¬ precedence ≤ 7 by omega, show ¬ precedence ≤ 3 by omega,
      show ¬ precedence ≤ 2 by omega, show ¬ precedence ≤ 1 by omega,
      show ¬ precedence + 1 ≤ 20 by omega,
      show ¬ precedence + 1 ≤ 10 by omega,
      show ¬ precedence + 1 ≤ 8 by omega,
      show ¬ precedence + 1 ≤ 7 by omega,
      show ¬ precedence + 1 ≤ 3 by omega,
      show ¬ precedence + 1 ≤ 2 by omega,
      show ¬ precedence + 1 ≤ 1 by omega, if_false]
  · have hAll :
        ∀ p < 21, Level.at (p + 1) = Level.at p ∨
          Level.at (p + 1) = (Level.at p).next := by
      decide
    exact hAll precedence (by omega)

namespace Expr.Derives

variable {ts : List Token}
variable {e : Expr}

/- What binds with a precedence binds with any lower one. -/
theorem loosen
    {low high : Nat}
    (hLess : low ≤ high)
    (h : Expr.Derives (Level.at high) ts e) :
    Expr.Derives (Level.at low) ts e := by
  induction hLess with
  | refl => exact h
  | @step high _ ih =>
      apply ih
      rcases Level.at_succ high with hSame | hNext
      · rwa [hSame] at h
      · rw [hNext] at h
        exact .tighter h

/- A variable is an atom, whatever stratum it is read in. -/
theorem atom_of_name?
    {level : Level}
    {name : String}
    (h : Expr.Derives level ts e)
    (hName : e.name? = some name) :
    Expr.Derives .atom ts e := by
  induction hHeight : level.height using Nat.strongRecOn
    generalizing level with
  | ind n ih =>
      by_cases hAtom : level = .atom
      · rwa [hAtom] at h
      · have hLess := Level.height_next_lt hAtom
        rw [hHeight] at hLess
        cases h with
        | tighter hNext => exact ih _ hLess hNext rfl
        | «variable» _ | group _ _ _ => exact absurd rfl hAtom
        | _ => cases hName

end Expr.Derives

/- An expression with a name is a variable. -/
theorem Expr.eq_variable_of_name?
    {e : Expr}
    {name : String}
    (h : e.name? = some name) :
    ∃ place, e = .variable name place := by
  cases e with
  | «variable» other place =>
      cases h
      exact ⟨place, rfl⟩
  | _ => cases h

------------------------------------------------------------
-- Connectives
------------------------------------------------------------

namespace Connective

variable {t : Token}
variable {c waiting : Connective}

/- The precedence that a left operand needs. -/
def leftNeed (c : Connective) : Nat :=
  if c.rightward then c.precedence + 1 else c.precedence

/- The precedence that a right operand needs. -/
def rightNeed (c : Connective) : Nat :=
  if c.rightward then c.precedence else c.precedence + 1

/- What the table says of an operator that makes one node of two. -/
def Joins (text : String) (c : Connective) : Prop :=
  c.operator.symbol = text ∧
    2 ≤ c.precedence ∧ c.precedence ≤ 20 ∧
    Level.at (c.precedence + 1) = (Level.at c.precedence).next ∧
    if c.rightward then
      c.kind = .logical ∧
        c.operator ∈ (Level.at c.precedence).rightward
    else
      c.kind = .binary ∧
        c.operator ∈ (Level.at c.precedence).leftward

instance (text : String) (c : Connective) :
    Decidable (Joins text c) :=
  inferInstanceAs (Decidable (_ ∧ _ ∧ _ ∧ _ ∧ _))

/- What the table says of an assignment. -/
def Assigns (text : String) (c : Connective) : Prop :=
  c.operator.symbol = text ∧
    c.precedence = 1 ∧ c.rightward = true ∧
    (c.operator = .assign ∨ c.operator.base?.isSome = true)

instance (text : String) (c : Connective) :
    Decidable (Assigns text c) :=
  inferInstanceAs (Decidable (_ ∧ _ ∧ _ ∧ _))

/- A connective is an operator of the table. -/
theorem mem_of_of?
    (h : of? t = some c) :
    t.kind = .operator ∧ (t.text, c) ∈ table := by
  unfold of? at h
  by_cases hKind : t.kind = .operator
  · rw [if_pos hKind] at h
    rcases List.lookup_eq_some_iff.1 h with ⟨front, back, hTable, _⟩
    refine ⟨hKind, ?_⟩
    rw [hTable]
    exact List.mem_append_right _ List.mem_cons_self
  · rw [if_neg hKind] at h
    cases h

theorem isOperator_of_of?
    {text : String}
    (h : of? t = some c)
    (hText : text = t.text) :
    t.isOperator text = true := by
  have hKind := (mem_of_of? h).1
  unfold Token.isOperator Token.is
  rw [hKind, hText]
  simp

theorem joins_of_of?
    (h : of? t = some c)
    (hKind : c.kind ≠ .assignment) :
    Joins t.text c := by
  have hAll :
      ∀ entry ∈ table, entry.2.kind ≠ .assignment →
        Joins entry.1 entry.2 := by
    decide
  exact hAll _ (mem_of_of? h).2 hKind

theorem assigns_of_of?
    (h : of? t = some c)
    (hKind : c.kind = .assignment) :
    Assigns t.text c := by
  have hAll :
      ∀ entry ∈ table, entry.2.kind = .assignment →
        Assigns entry.1 entry.2 := by
    decide
  exact hAll _ (mem_of_of? h).2 hKind

/- Operators of one precedence are grouped from one side. -/
theorem rightward_eq_of_precedence_eq
    {u : Token}
    (h : of? t = some c)
    (hWaiting : of? u = some waiting)
    (hSame : c.precedence = waiting.precedence) :
    c.rightward = waiting.rightward := by
  have hAll :
      ∀ entry ∈ table, ∀ other ∈ table,
        entry.2.precedence = other.2.precedence →
          entry.2.rightward = other.2.rightward := by
    decide
  exact hAll _ (mem_of_of? h).2 _ (mem_of_of? hWaiting).2 hSame

/- An operator that yields takes on its left what the other makes. -/
theorem leftNeed_le_of_yieldsTo
    (h : c.yieldsTo waiting = true) :
    c.leftNeed ≤ waiting.precedence := by
  unfold yieldsTo at h
  unfold leftNeed
  cases hRight : c.rightward with
  | true =>
      rw [hRight] at h
      have hLess : c.precedence < waiting.precedence := by
        simpa using h
      exact hLess
  | false =>
      rw [hRight] at h
      simpa using h

/- An operator that does not yield makes what the other needs. -/
theorem rightNeed_le_of_not_yieldsTo
    {u : Token}
    (hToken : of? t = some c)
    (hWaiting : of? u = some waiting)
    (h : c.yieldsTo waiting = false) :
    waiting.rightNeed ≤ c.precedence := by
  unfold yieldsTo at h
  unfold rightNeed
  by_cases hSame : c.precedence = waiting.precedence
  · have hSide := rightward_eq_of_precedence_eq hToken hWaiting hSame
    cases hRight : waiting.rightward with
    | true => simp [hSame]
    | false =>
        rw [hSide, hRight, hSame] at h
        simp at h
  · cases hRight : c.rightward with
    | true =>
        rw [hRight] at h
        have hLess : waiting.precedence ≤ c.precedence := by
          simpa using h
        split
        · exact hLess
        · omega
    | false =>
        rw [hRight] at h
        have hLess : waiting.precedence < c.precedence := by
          simpa using h
        split
        · exact Nat.le_of_lt hLess
        · exact hLess

/- Operands read after a sign are enough for every operator. -/
theorem rightNeed_le_signPrecedence
    (h : of? t = some c)
    (hKind : c.kind ≠ .assignment) :
    c.rightNeed ≤ signPrecedence := by
  rcases joins_of_of? h hKind with ⟨_, _, hMost, _, _⟩
  unfold rightNeed signPrecedence
  split <;> omega

theorem leftNeed_le_signPrecedence
    (h : of? t = some c) :
    c.leftNeed ≤ signPrecedence := by
  have hAll :
      ∀ entry ∈ table, entry.2.leftNeed ≤ signPrecedence := by
    decide
  exact hAll _ (mem_of_of? h).2

/- An assignment yields to every operator that is none. -/
theorem yieldsTo_of_assignment
    {u : Token}
    (h : of? t = some c)
    (hKind : c.kind = .assignment)
    (hWaiting : of? u = some waiting)
    (hOther : waiting.kind ≠ .assignment) :
    c.yieldsTo waiting = true := by
  rcases assigns_of_of? h hKind with ⟨_, hPrecedence, hSide, _⟩
  rcases joins_of_of? hWaiting hOther with ⟨_, hLeast, _⟩
  unfold yieldsTo
  rw [if_pos hSide, hPrecedence]
  exact decide_eq_true hLeast

/- The node of a connective is of the stratum of its precedence. -/
theorem derives_apply
    {ts us : List Token}
    {left right : Expr}
    (hToken : of? t = some c)
    (hKind : c.kind ≠ .assignment)
    (hLeft : Expr.Derives (Level.at c.leftNeed) ts left)
    (hRight : Expr.Derives (Level.at c.rightNeed) us right) :
    Expr.Derives (Level.at c.precedence) (ts ++ t :: us)
      (c.apply left right t.location) := by
  rcases joins_of_of? hToken hKind with
    ⟨hSymbol, _, _, hNext, hSide⟩
  have hOperator := isOperator_of_of? hToken hSymbol
  unfold leftNeed at hLeft
  unfold rightNeed at hRight
  unfold apply
  cases hGroup : c.rightward with
  | true =>
      rw [if_pos hGroup] at hLeft hRight hSide
      rw [hNext] at hLeft
      rw [hSide.1]
      exact .rightward hSide.2 hLeft hOperator hRight
  | false =>
      rw [if_neg (by simp [hGroup])] at hLeft hRight hSide
      rw [hNext] at hRight
      rw [hSide.1]
      exact .leftward hSide.2 hLeft hOperator hRight

/- A compound assignment applies the operator that its text names. -/
theorem mem_compounds_of_base?
    {operator base : Operator}
    (h : operator.base? = some base) :
    (operator.symbol, base) ∈ Operator.compounds := by
  cases operator <;> cases h <;> decide

/- The node of an assignment is of the loosest stratum. -/
theorem derives_assigned
    {ts us : List Token}
    {target right : Expr}
    {name : String}
    (hToken : of? t = some c)
    (hKind : c.kind = .assignment)
    (hName : target.name? = some name)
    (hTarget : Expr.Derives .atom ts target)
    (hRight : Expr.Derives .assignment us right) :
    Expr.Derives .assignment (ts ++ t :: us)
      (.assignment name
        (Parser.assigned c.operator target right t.location)
        t.location) := by
  rcases assigns_of_of? hToken hKind with ⟨hSymbol, _, _, hOperator⟩
  rcases Expr.eq_variable_of_name? hName with ⟨place, rfl⟩
  have hEquals := isOperator_of_of? hToken hSymbol
  unfold Parser.assigned
  rcases hOperator with hPlain | hCompound
  · rw [hPlain] at hEquals ⊢
    exact .assign hTarget hEquals hRight
  · rcases Option.isSome_iff_exists.1 hCompound with ⟨base, hBase⟩
    rw [hBase]
    exact .compound hTarget (mem_compounds_of_base? hBase) hEquals
      hRight

end Connective

namespace Parser

------------------------------------------------------------
-- The Operator Stack
------------------------------------------------------------

/-
  Tokens that end in a waiting operator: each operator has
  what it needs on its left, and does not yield to the one
  below it.
-/
inductive Waiting
    (least : Nat) :
    List Token → List Expr → Pending → Prop
| nil :
    Waiting least [] [] []
| cons
    {ts us : List Token}
    {t : Token}
    {left : Expr}
    {output : List Expr}
    {pending : Pending}
    {c : Connective}
    (hBelow : Waiting least ts output pending)
    (hLeft : Expr.Derives (Level.at c.leftNeed) us left)
    (hToken : Connective.of? t = some c)
    (hKind : c.kind ≠ .assignment)
    (hLeast : least ≤ c.precedence)
    (hOrder :
      ∀ waiting ∈ pending.head?, c.yieldsTo waiting.1 = false) :
    Waiting least (ts ++ us ++ [t]) (left :: output)
      ((c, t.location) :: pending)

/-
  Tokens that end in an operand of some precedence, which is
  enough for the latest waiting operator.
-/
structure Held
    (least precedence : Nat)
    (tokens : List Token)
    (output : List Expr)
    (pending : Pending) : Prop where
  split :
    ∃ ts us top below,
      tokens = ts ++ us ∧ output = top :: below ∧
        Waiting least ts below pending ∧
        Expr.Derives (Level.at precedence) us top
  needed :
    ∀ waiting ∈ pending.head?, waiting.1.rightNeed ≤ precedence

variable {least precedence : Nat}
variable {tokens : List Token}
variable {output : List Expr}
variable {pending : Pending}
variable {c : Connective}
variable {l : Location}

/- An operand alone. -/
theorem Held.single
    {e : Expr}
    (h : Expr.Derives (Level.at precedence) tokens e) :
    Held least precedence tokens [e] [] where
  split := ⟨[], tokens, e, [], rfl, rfl, .nil, h⟩
  needed := nofun

/- An operator starts to wait, and its right operand follows. -/
theorem Held.push
    {t : Token}
    {us : List Token}
    {next : Expr}
    (h : Held least precedence tokens output pending)
    (hEnough : c.leftNeed ≤ precedence)
    (hToken : Connective.of? t = some c)
    (hKind : c.kind ≠ .assignment)
    (hLeast : least ≤ c.precedence)
    (hOrder :
      ∀ waiting ∈ pending.head?, c.yieldsTo waiting.1 = false)
    (hNext : Expr.Derives .signed us next) :
    Held least Connective.signPrecedence (tokens ++ t :: us)
      (next :: output) ((c, t.location) :: pending) := by
  rcases h with ⟨⟨ts, vs, top, below, rfl, rfl, hWaiting, hTop⟩, _⟩
  refine ⟨⟨ts ++ vs ++ [t], us, next, top :: below, ?_, rfl, ?_, hNext⟩,
    ?_⟩
  · simp
  · exact .cons hWaiting (hTop.loosen hEnough) hToken hKind hLeast
      hOrder
  · intro waiting hHead
    cases hHead
    exact Connective.rightNeed_le_signPrecedence hToken hKind

/- An assignment lets every operator before it take its operands. -/
theorem Held.target
    {t : Token}
    {target : Expr}
    (h : Held least precedence tokens (target :: output) pending)
    (hToken : Connective.of? t = some c)
    (hKind : c.kind = .assignment)
    (hOrder :
      ∀ waiting ∈ pending.head?, c.yieldsTo waiting.1 = false) :
    output = [] ∧ pending = [] ∧
      Expr.Derives (Level.at precedence) tokens target := by
  rcases h with ⟨⟨ts, us, top, below, rfl, hOutput, hWaiting, hTop⟩, _⟩
  cases hOutput
  cases hWaiting with
  | nil => exact ⟨rfl, rfl, hTop⟩
  | cons _ _ hOther hJoins _ _ =>
      have hYields :=
        Connective.yieldsTo_of_assignment hToken hKind hOther hJoins
      rw [hOrder _ rfl] at hYields
      cases hYields

/- The latest waiting operator takes its operands. -/
theorem Held.reduce
    {place : Location}
    {result : List Expr × Pending}
    (h : Held least precedence tokens output ((c, l) :: pending))
    (hReduce :
      Parser.reduce place output ((c, l) :: pending) = .ok result) :
    Held least c.precedence tokens result.1 pending ∧
      least ≤ c.precedence := by
  rcases h with ⟨⟨ts, us, top, below, rfl, rfl, hWaiting, hTop⟩, hNeed⟩
  cases hWaiting with
  | @cons ts vs t left output _ _ hBelow hLeft hToken hKind hLeast
      hOrder =>
      cases hReduce
      refine ⟨⟨⟨ts, vs ++ t :: us, _, output, ?_, rfl, hBelow, ?_⟩, ?_⟩,
        hLeast⟩
      · simp
      · exact Connective.derives_apply hToken hKind hLeft
          (hTop.loosen (hNeed _ rfl))
      · intro waiting hHead
        cases hBelow with
        | nil => cases hHead
        | @cons _ _ u _ _ _ d _ _ hOther _ _ _ =>
            cases hHead
            exact Connective.rightNeed_le_of_not_yieldsTo hToken
              hOther (hOrder _ rfl)

/- Operators take their operands until one need not yield. -/
theorem Held.reduceFor
    {place : Location}
    {result : List Expr × Pending}
    (h : Held least precedence tokens output pending)
    (hEnough : c.leftNeed ≤ precedence)
    (hReduce :
      Parser.reduceFor c place pending output = .ok result) :
    ∃ p, Held least p tokens result.1 result.2 ∧
      c.leftNeed ≤ p ∧
      ∀ waiting ∈ result.2.head?, c.yieldsTo waiting.1 = false := by
  induction pending generalizing output precedence with
  | nil =>
      cases hReduce
      exact ⟨precedence, h, hEnough, nofun⟩
  | cons first pending ih =>
      rcases first with ⟨waiting, l⟩
      rw [Parser.reduceFor] at hReduce
      -- If `c` yields, what is put together binds tightly enough.
      by_cases hYields : c.yieldsTo waiting = true
      · rw [if_pos hYields] at hReduce
        cases hStep :
            Parser.reduce place output ((waiting, l) :: pending) with
        | error error =>
            rw [hStep] at hReduce
            cases hReduce
        | ok reduced =>
            rw [hStep] at hReduce
            have hNext := (h.reduce hStep).1
            exact ih hNext
              (Connective.leftNeed_le_of_yieldsTo hYields) hReduce
      · rw [if_neg hYields] at hReduce
        cases hReduce
        refine ⟨precedence, h, hEnough, ?_⟩
        intro other hHead
        cases hHead
        simpa using hYields

/- At the end all operators take their operands. -/
theorem Held.reduceAll
    {place : Location}
    {e : Expr}
    (h : Held least precedence tokens output pending)
    (hLeast : least ≤ precedence)
    (hReduce : Parser.reduceAll place pending output = .ok [e]) :
    Expr.Derives (Level.at least) tokens e := by
  induction pending generalizing output precedence with
  | nil =>
      rcases h with ⟨⟨ts, us, top, below, rfl, rfl, hWaiting, hTop⟩, _⟩
      cases hWaiting
      cases hReduce
      exact hTop.loosen hLeast
  | cons first pending ih =>
      rcases first with ⟨waiting, l⟩
      rw [Parser.reduceAll] at hReduce
      cases hStep :
          Parser.reduce place output ((waiting, l) :: pending) with
      | error error =>
          rw [hStep] at hReduce
          cases hReduce
      | ok reduced =>
          rw [hStep] at hReduce
          rcases h.reduce hStep with ⟨hNext, hAbove⟩
          exact ih hNext hAbove hReduce

/- What is left when no operator waits. -/
theorem takes_conclude
    {cursor : Cursor}
    (h : Held least precedence tokens output pending)
    (hLeast : least ≤ precedence) :
    Takes cursor (conclude output pending) fun ts e =>
      Expr.Derives (Level.at least) (tokens ++ ts) e := by
  apply takes_here
  apply takes_lift
  intro left hReduce
  split
  · rename_i e
    apply takes_pure
    rw [List.append_nil]
    exact h.reduceAll hLeast hReduce
  · exact takes_throw _

------------------------------------------------------------
-- Signs and Steps
------------------------------------------------------------

/- The operators in front of an operand, as they are written. -/
def prefixed : List (String × Operator) :=
  [("+", .plus), ("-", .minus), ("!", .not), ("~", .bitNot),
   ("++", .increment), ("--", .decrement)]

theorem mem_prefixed_of_sign?
    {before : Option Token}
    {text : String}
    {operator : Operator}
    (h : sign? before text = some operator) :
    (text, operator) ∈ prefixed := by
  unfold sign? at h
  unfold prefixed
  grind

/- A sign is one of the signs or steps, and written as its token. -/
theorem sign?_eq_some
    {before : Option Token}
    {t : Token}
    {operator : Operator}
    (hKind : t.kind = .operator)
    (h : sign? before t.text = some operator) :
    t.isOperator operator.symbol = true ∧
      if operator.isStep then operator ∈ Operator.steps
      else operator ∈ Operator.signs := by
  have hAll :
      ∀ entry ∈ prefixed, entry.1 = entry.2.symbol ∧
        if entry.2.isStep then entry.2 ∈ Operator.steps
        else entry.2 ∈ Operator.signs := by
    decide
  rcases hAll _ (mem_prefixed_of_sign? h) with ⟨hText, hSide⟩
  refine ⟨?_, hSide⟩
  unfold Token.isOperator Token.is
  rw [hKind, ← hText]
  simp

theorem step?_eq_some
    {t : Token}
    {operator : Operator}
    (h : step? t = some operator) :
    operator ∈ Operator.steps ∧
      t.isOperator operator.symbol = true := by
  unfold step? at h
  split at h
  · rename_i hToken
    cases h
    exact ⟨by decide, hToken⟩
  · split at h
    · rename_i hToken
      cases h
      exact ⟨by decide, hToken⟩
    · cases h

/- That no step follows takes nothing. -/
theorem takes_refuseStep
    {cursor : Cursor}
    {β : Type}
    {f : Unit → Parser β}
    {Q : List Token → β → Prop}
    (h : Takes cursor (f ()) Q) :
    Takes cursor (refuseStep >>= f) Q := by
  apply takes_unmoved
  · intro a after hRun
    unfold refuseStep at hRun
    rcases run_bind_eq_ok hRun with ⟨o, here, hPeek, hTest⟩
    cases hPeek
    split at hTest
    · split at hTest
      · cases hTest
      · cases hTest
        rfl
    · cases hTest
      rfl
  · intro _
    exact h

/- An operand with the step that may follow it. -/
theorem takes_stepped
    {cursor : Cursor}
    {e : Expr}
    (h : Expr.Derives .signed tokens e) :
    Takes cursor (stepped e) fun ts e =>
      Expr.Derives .signed (tokens ++ ts) e := by
  rcases cursor with ⟨before, rest⟩
  have hNone : Expr.Derives .signed (tokens ++ []) e := by
    rwa [List.append_nil]
  apply takes_peek
  cases rest with
  | nil => exact takes_pure hNone
  | cons t rest =>
      dsimp only [List.head?_cons]
      split
      · exact takes_pure hNone
      · exact takes_throw _
      · rename_i operator name place hStep
        rcases step?_eq_some hStep with ⟨hOperator, hToken⟩
        apply takes_advance
        apply takes_refuseStep
        apply takes_pure
        exact .tighter
          (.stepAfter hOperator (h.atom_of_name? rfl) hToken)
      · exact takes_throw _

------------------------------------------------------------
-- Expressions
------------------------------------------------------------

/-
  What the readers of expressions take is derived, at one
  bound on the nesting of their calls.
-/
structure Sound (bound : Nat) : Prop where
  expression :
    ∀ cursor least, least ≤ Connective.signPrecedence →
      Takes cursor (Parser.expression bound least)
        (Expr.Derives (Level.at least))
  connectives :
    ∀ cursor least tokens output pending,
      least ≤ Connective.signPrecedence →
      Held least Connective.signPrecedence tokens output pending →
      Takes cursor
        (Parser.connectives bound least output pending)
        fun ts => Expr.Derives (Level.at least) (tokens ++ ts)
  operand :
    ∀ cursor,
      Takes cursor (Parser.operand bound) (Expr.Derives .signed)
  primary :
    ∀ cursor before t,
      Takes cursor (Parser.primary bound before t)
        fun ts => Expr.Derives .signed (t :: ts)
  argumentList :
    ∀ cursor name,
      Takes cursor (Parser.argumentList bound name) fun ts es =>
        ∃ us p, ts = us ++ [p] ∧ p.isOperator ")" = true ∧
          Expr.DerivesList us es

theorem sound_zero : Sound 0 where
  expression _ _ _ := takes_failHere _
  connectives _ _ _ _ _ _ _ := takes_failHere _
  operand _ := takes_failHere _
  primary _ _ _ := takes_failHere _
  argumentList _ _ := takes_failHere _

namespace Sound

variable {bound : Nat}
variable {cursor : Cursor}

theorem expression_succ
    (h : Sound bound)
    (hLeast : least ≤ Connective.signPrecedence) :
    Takes cursor (Parser.expression (bound + 1) least)
      (Expr.Derives (Level.at least)) := by
  rw [Parser.expression]
  apply (h.operand cursor).bind
  intro ts first middle hFirst
  exact h.connectives middle least ts [first] [] hLeast
    (.single hFirst)

/- The right side of an assignment ends the expression. -/
theorem takes_assignment
    {t : Token}
    {target : Expr}
    {name : String}
    (h : Sound bound)
    (hToken : Connective.of? t = some c)
    (hKind : c.kind = .assignment)
    (hLeast : least ≤ c.precedence)
    (hName : target.name? = some name)
    (hTarget : Expr.Derives (Level.at precedence) tokens target) :
    Takes cursor
      (do
        requireOperand t
        let right ← Parser.expression bound c.precedence
        conclude
          [.assignment name
            (assigned c.operator target right t.location) t.location]
          [])
      fun ts => Expr.Derives (Level.at least) (tokens ++ t :: ts) := by
  have hOne := (Connective.assigns_of_of? hToken hKind).2.1
  apply takes_requireOperand
  rw [hOne]
  apply (h.expression cursor 1 (by decide)).bind
  intro us right middle hRight
  have hNode :
      Expr.Derives (Level.at 1) (tokens ++ t :: us)
        (.assignment name
          (assigned c.operator target right t.location) t.location) :=
    Connective.derives_assigned hToken hKind hName
      (hTarget.atom_of_name? hName) hRight
  rw [hOne] at hLeast
  refine (takes_conclude (.single hNode) hLeast).mono ?_
  intro vs e hDerives
  simpa using hDerives

theorem connectives_succ
    (h : Sound bound)
    (hLeast : least ≤ Connective.signPrecedence)
    (hHeld :
      Held least Connective.signPrecedence tokens output pending) :
    Takes cursor (Parser.connectives (bound + 1) least output pending)
      fun ts => Expr.Derives (Level.at least) (tokens ++ ts) := by
  have hEnd :
      Takes cursor (conclude output pending) fun ts =>
        Expr.Derives (Level.at least) (tokens ++ ts) :=
    takes_conclude hHeld hLeast
  rw [Parser.connectives]
  rcases cursor with ⟨before, rest⟩
  apply takes_peek
  cases rest with
  | nil => exact hEnd
  | cons t rest =>
      dsimp only [List.head?_cons]
      cases hToken : Connective.of? t with
      | none => exact hEnd
      | some c =>
          dsimp only
          by_cases hLoose : c.precedence < least
          · rw [if_pos hLoose]
            exact hEnd
          · rw [if_neg hLoose]
            apply takes_advance
            apply takes_lift
            rintro ⟨output, pending⟩ hReduce
            rcases hHeld.reduceFor
                (Connective.leftNeed_le_signPrecedence hToken) hReduce with
              ⟨p, hReduced, hEnough, hOrder⟩
            dsimp only at hReduced hOrder ⊢
            by_cases hKind : c.kind = .assignment
            · rw [if_pos hKind]
              split
              · exact takes_throw _
              · rename_i target output
                rcases hReduced.target hToken hKind hOrder with
                  ⟨rfl, rfl, hTarget⟩
                split
                · exact takes_throw _
                · rename_i name hName
                  exact h.takes_assignment hToken hKind
                    (Nat.not_lt.1 hLoose) hName hTarget
            · rw [if_neg hKind]
              apply takes_requireOperand
              apply (h.operand _).bind
              intro us next middle hNext
              have hPushed :=
                hReduced.push hEnough hToken hKind
                  (Nat.not_lt.1 hLoose) hOrder hNext
              refine (h.connectives middle least _ _ _ hLeast
                hPushed).mono ?_
              intro vs e hDerives
              simpa using hDerives

theorem operand_succ
    (h : Sound bound) :
    Takes cursor (Parser.operand (bound + 1))
      (Expr.Derives .signed) := by
  rw [Parser.operand]
  rcases cursor with ⟨before, rest⟩
  apply takes_get
  apply takes_peek
  cases rest with
  | nil => exact takes_failHere _
  | cons t rest =>
      apply takes_advance
      apply (h.primary _ before t).bind
      intro ts e middle hDerives
      exact takes_stepped hDerives

/- A call, its name and its arguments being read. -/
theorem takes_called
    {t : Token}
    {arguments : List Expr}
    (h :
      Expr.Derives .atom tokens
        (.call t.text arguments t.location)) :
    Takes cursor (called t arguments) fun ts =>
      Expr.Derives .signed (tokens ++ ts) := by
  apply takes_peekIs
  split
  · exact takes_failHere _
  · apply takes_pure
    rw [List.append_nil]
    exact .tighter (.tighter h)

/- A name, or a call of it. -/
theorem takes_named
    {t : Token}
    (h : Sound bound)
    (hKind : t.kind = .identifier) :
    Takes cursor
      (do
        if ← peekIs (·.isOperator "(") then
          advance
          if ← peekIs (·.isOperator ")") then
            advance
            called t []
          else
            let arguments ← Parser.argumentList bound t
            called t arguments
        else return .variable t.text t.location)
      fun ts => Expr.Derives .signed (t :: ts) := by
  apply takes_ifPeek
  · intro o hOpen middle
    apply takes_ifPeek
    · intro p hClose last
      exact takes_called (.emptyCall hKind hOpen hClose)
    · apply (h.argumentList middle t).bind
      rintro _ es last ⟨us, p, rfl, hClose, hArguments⟩
      have hCall := Expr.Derives.call hKind hOpen hArguments hClose
      refine (takes_called hCall).mono ?_
      intro vs e hDerives
      simpa using hDerives
  · apply takes_pure
    exact .tighter (.tighter (.variable hKind))

/- A sign or a step in front of its argument. -/
theorem takes_sign
    {t : Token}
    {operator : Operator}
    {before : Option Token}
    (h : Sound bound)
    (hKind : t.kind = .operator)
    (hSign : sign? before t.text = some operator) :
    Takes cursor
      (do
        requireOperand t
        let argument ←
          Parser.expression bound Connective.signPrecedence
        if operator.isStep && argument.name?.isNone then
          throw (.invalidPre operator argument.kind t.location)
        else return .unary operator argument t.location)
      fun ts => Expr.Derives .signed (t :: ts) := by
  rcases sign?_eq_some hKind hSign with ⟨hToken, hOperator⟩
  apply takes_requireOperand
  apply (h.expression cursor _ (Nat.le_refl _)).bind
  intro us argument middle hArgument
  split
  · exact takes_throw _
  · rename_i hTarget
    apply takes_pure
    rw [List.append_nil]
    by_cases hStep : operator.isStep = true
    · rw [if_pos hStep] at hOperator
      cases hName : argument.name? with
      | none => simp [hStep, hName] at hTarget
      | some name =>
          have hAtom := hArgument.atom_of_name? hName
          rcases Expr.eq_variable_of_name? hName with ⟨place, rfl⟩
          exact .stepBefore hOperator hToken hAtom
    · rw [if_neg hStep] at hOperator
      exact .sign hOperator hToken hArgument

theorem primary_succ
    {before : Option Token}
    {t : Token}
    (h : Sound bound) :
    Takes cursor (Parser.primary (bound + 1) before t)
      fun ts => Expr.Derives .signed (t :: ts) := by
  rw [Parser.primary]
  split
  · rename_i hKind
    exact takes_pure (.tighter (.tighter (.literal hKind)))
  · rename_i hKind
    exact takes_pure (.tighter (.tighter (.string hKind)))
  · rename_i hKind
    exact h.takes_named hKind
  · rename_i hKind
    by_cases hOpen : t.text = "("
    · rw [if_pos hOpen]
      apply (h.expression cursor 0 (Nat.zero_le _)).bind
      intro us inner middle hInner
      apply takes_expectOperator
      intro p hClose last
      apply takes_pure
      have hToken : t.isOperator "(" = true := by
        simp [Token.isOperator, Token.is, hKind, hOpen]
      exact .tighter (.tighter (.group hToken hInner hClose))
    · rw [if_neg hOpen]
      split
      · exact takes_throw _
      · rename_i operator hSign
        exact h.takes_sign hKind hSign
  · exact takes_throw _

theorem argumentList_succ
    {name : Token}
    (h : Sound bound) :
    Takes cursor (Parser.argumentList (bound + 1) name) fun ts es =>
      ∃ us p, ts = us ++ [p] ∧ p.isOperator ")" = true ∧
        Expr.DerivesList us es := by
  rw [Parser.argumentList]
  apply (h.expression cursor 0 (Nat.zero_le _)).bind
  intro ts first middle hFirst
  apply takes_ifPeek
  · intro t hComma next
    apply (h.argumentList next name).bind
    rintro _ es last ⟨us, p, rfl, hClose, hOthers⟩
    apply takes_pure
    refine ⟨ts ++ t :: us, p, by simp, hClose, ?_⟩
    exact .more hFirst hComma hOthers
  · apply takes_ifPeek
    · intro p hClose last
      exact takes_pure ⟨ts, p, rfl, hClose, .one hFirst⟩
    · exact takes_failHere _

end Sound

/- What expressions take is derived, at every bound. -/
theorem sound (bound : Nat) : Sound bound := by
  induction bound with
  | zero => exact sound_zero
  | succ bound ih =>
      exact
        { expression := fun _ _ hLeast => ih.expression_succ hLeast
          connectives := fun _ _ _ _ _ hLeast hHeld =>
            ih.connectives_succ hLeast hHeld
          operand := fun _ => ih.operand_succ
          primary := fun _ _ _ => ih.primary_succ
          argumentList := fun _ _ => ih.argumentList_succ }

/- A whole expression, of the loosest stratum. -/
theorem takes_expression
    {bound : Nat}
    {cursor : Cursor} :
    Takes cursor (expression bound 0)
      (Expr.Derives .assignment) :=
  (sound bound).expression cursor 0 (Nat.zero_le _)

end Parser
end StackScript
