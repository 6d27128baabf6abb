import StackScript.Parse.Statement

/-
  What parsers point at.

  A cursor that has read a token, or has one to read, is at
  the place of a token. A parser that starts there stays
  there: `Parser.Points` states this for results and errors
  alike, and there is one rule for each way of making
  parsers.

  Key definitions include:
    * `Expr.places`, `Stmt.places`
    * `Cursor.Within`
    * `Parser.Points`

  Key theorems include:
    * `Parser.Points.bind`
    * `Parser.points_requireOperand`
    * `Parser.points_conclude`
-/

namespace StackScript

------------------------------------------------------------
-- Places of Nodes
------------------------------------------------------------

mutual

/- The places of an expression and of those in it. -/
def Expr.places : Expr → List Location
| .literal _ place | .string _ place | .variable _ place => [place]
| .binary _ left right place | .logical _ left right place =>
    place :: (left.places ++ right.places)
| .unary _ argument place | .post _ argument place =>
    place :: argument.places
| .assignment _ value place => place :: value.places
| .call _ arguments place => place :: Expr.placesAll arguments

/- The places of some expressions and of those in them. -/
def Expr.placesAll : List Expr → List Location
| [] => []
| e :: es => e.places ++ Expr.placesAll es

end

/- The places of an expression that may be left out. -/
def Expr.placesOption : Option Expr → List Location
| none => []
| some e => e.places

mutual

/- The places of a statement and of all that is in it. -/
def Stmt.places : Stmt → List Location
| .expr value => value.places
| .declare _ place => [place]
| .define _ value place => place :: value.places
| .function _ _ body place => place :: Stmt.placesAll body
| .ret argument place => place :: Expr.placesOption argument
| .ifThen condition body place | .whileLoop condition body place =>
    place :: (condition.places ++ Stmt.placesAll body)
| .ifElse condition body otherwise place =>
    place ::
      (condition.places ++ Stmt.placesAll body
        ++ Stmt.placesAll otherwise)
| .forLoop initial condition update body place =>
    place ::
      (initial.places ++ Expr.placesOption condition
        ++ Expr.placesOption update ++ Stmt.placesAll body)
| .breakLoop place | .continueLoop place => [place]

/- The places of some statements and of all that is in them. -/
def Stmt.placesAll : List Stmt → List Location
| [] => []
| s :: ss => s.places ++ Stmt.placesAll ss

end

/- An expression is one of those whose places are listed. -/
theorem Expr.location_mem_places (e : Expr) :
    e.location ∈ e.places := by
  cases e <;> simp [Expr.location, Expr.places]

theorem Stmt.placesAll_append (ss us : List Stmt) :
    Stmt.placesAll (ss ++ us) = Stmt.placesAll ss ++ Stmt.placesAll us := by
  induction ss with
  | nil => rfl
  | cons s ss ih =>
      rw [List.cons_append, Stmt.placesAll, Stmt.placesAll, ih,
        List.append_assoc]

variable {P : Location → Prop}

/- All places of an expression have a property. -/
abbrev Expr.Placed
    (P : Location → Prop)
    (e : Expr) : Prop :=
  ∀ l ∈ e.places, P l

abbrev Expr.PlacedAll
    (P : Location → Prop)
    (es : List Expr) : Prop :=
  ∀ l ∈ Expr.placesAll es, P l

/- All places of a statement have a property. -/
abbrev Stmt.Placed
    (P : Location → Prop)
    (s : Stmt) : Prop :=
  ∀ l ∈ s.places, P l

abbrev Stmt.PlacedAll
    (P : Location → Prop)
    (ss : List Stmt) : Prop :=
  ∀ l ∈ Stmt.placesAll ss, P l

theorem Expr.placedAll_cons
    {e : Expr}
    {es : List Expr} :
    Expr.PlacedAll P (e :: es) ↔ e.Placed P ∧ Expr.PlacedAll P es :=
  List.forall_mem_append

------------------------------------------------------------
-- Cursors Among Tokens
------------------------------------------------------------

/- The cursor is at such a place, and all tokens ahead are. -/
structure Cursor.Within
    (P : Location → Prop)
    (c : Cursor) : Prop where
  here : P c.here
  rest : ∀ t ∈ c.rest, P t.location

namespace Cursor.Within

variable {c : Cursor}

theorem peek?
    (h : c.Within P)
    {t : Token}
    (hPeek : c.peek? = some t) :
    P t.location :=
  h.rest t (List.mem_of_mem_head? hPeek)

/- Moving behind a token leaves the cursor among them. -/
theorem advance (h : c.Within P) : c.advance.Within P := by
  rcases c with ⟨before, rest⟩
  cases rest with
  | nil => exact h
  | cons t rest =>
      have hRest : ∀ u ∈ rest, P u.location := fun u hMem =>
        h.rest u (List.mem_cons_of_mem t hMem)
      refine ⟨?_, hRest⟩
      cases rest with
      | nil => exact h.rest t List.mem_cons_self
      | cons u rest => exact hRest u List.mem_cons_self

end Cursor.Within

namespace Parser

variable {α β : Type}
variable {bound : Nat}
variable {x : Parser α}
variable {f : α → Parser β}
variable {Q : α → Prop}
variable {R : β → Prop}

/-
  Among tokens a parser gives a result with a property and
  stays among them, or it fails with an error there.
-/
def Points
    (P : Location → Prop)
    (x : Parser α)
    (Q : α → Prop) : Prop :=
  ∀ c : Cursor, c.Within P →
    match x.run c with
    | .ok (a, after) => Q a ∧ after.Within P
    | .error e => P e.location

------------------------------------------------------------
-- Results and Errors
------------------------------------------------------------

theorem points_pure
    {a : α}
    (h : Q a) :
    Points P (pure a) Q :=
  fun _ hWithin => ⟨h, hWithin⟩

theorem points_throw
    {e : ParseError}
    (h : P e.location) :
    Points P (throw e) Q :=
  fun _ _ => h

/- An error that is raised here points here. -/
theorem points_failHere
    {error : Location → ParseError}
    (h : ∀ l, (error l).location = l) :
    Points P (failHere error) Q := by
  intro c hWithin
  change P (error c.here).location
  rw [h]
  exact hWithin.here

/- A choice is right if both ways are. -/
theorem points_ite
    {c : Prop}
    [Decidable c]
    {x y : Parser α}
    (hx : Points P x Q)
    (hy : Points P y Q) :
    Points P (if c then x else y) Q := by
  split
  · exact hx
  · exact hy

theorem Points.bind
    (hFirst : Points P x Q)
    (hThen : ∀ a, Q a → Points P (f a) R) :
    Points P (x >>= f) R := by
  intro c hWithin
  have hRun :
      (x >>= f).run c =
        (x.run c).bind fun r => (f r.1).run r.2 :=
    rfl
  have hStart := hFirst c hWithin
  rw [hRun]
  cases hResult : x.run c with
  | error e =>
      rw [hResult] at hStart
      exact hStart
  | ok r =>
      rw [hResult] at hStart
      exact hThen r.1 hStart.1 r.2 hStart.2

/- What is computed without the cursor leaves it in its place. -/
theorem points_lift
    {result : Except ParseError α}
    (hOk : ∀ a, result = .ok a → Q a)
    (hError : ∀ e, result = .error e → P e.location) :
    Points P (liftM result) Q := by
  intro c hWithin
  cases result with
  | error e => exact hError e rfl
  | ok a => exact ⟨hOk a rfl, hWithin⟩

------------------------------------------------------------
-- Looking and Moving
------------------------------------------------------------

theorem points_get : Points P get fun c => c.Within P :=
  fun _ hWithin => ⟨hWithin, hWithin⟩

theorem points_here : Points P here P :=
  fun _ hWithin => ⟨hWithin.here, hWithin⟩

theorem points_peek :
    Points P peek fun next => ∀ t, next = some t → P t.location :=
  fun _ hWithin => ⟨fun _ hPeek => hWithin.peek? hPeek, hWithin⟩

theorem points_advance : Points P advance fun _ => True :=
  fun _ hWithin => ⟨trivial, hWithin.advance⟩

/- A test for the next token, and one of two ways on. -/
theorem points_ifNext
    {p : Token → Bool}
    {found other : Parser α}
    (hFound : Points P found Q)
    (hOther : Points P other Q) :
    Points P
      (peekIs p >>= fun b => if b = true then found else other) Q := by
  have hTest : Points P (peekIs p) fun _ => True :=
    points_peek.bind fun _ _ => points_pure trivial
  apply hTest.bind
  intro b _
  split
  · exact hFound
  · exact hOther

theorem points_expectOperator (text : String) :
    Points P (expectOperator text) fun _ => True :=
  points_ifNext points_advance (points_failHere fun _ => rfl)

theorem points_expectSemicolon :
    Points P expectSemicolon fun _ => True :=
  points_ifNext points_advance (points_failHere fun _ => rfl)

theorem points_expectIdentifier (keyword : String) :
    Points P (expectIdentifier keyword) fun _ => True := by
  apply points_peek.bind
  intro next _
  cases next with
  | none => exact points_failHere fun _ => rfl
  | some t =>
      dsimp only
      split
      · exact points_advance.bind fun _ _ => points_pure trivial
      · exact points_failHere fun _ => rfl

/- Where no token follows, the one in front is pointed at. -/
theorem points_requireOperand
    {t : Token}
    (h : P t.location) :
    Points P (requireOperand t) fun _ => True := by
  apply points_peek.bind
  intro next _
  split
  · exact points_throw h
  · exact points_pure trivial

------------------------------------------------------------
-- The Operator Stack
------------------------------------------------------------

/- The operators that wait stand at such places. -/
abbrev Pending.Placed
    (P : Location → Prop)
    (pending : Pending) : Prop :=
  ∀ entry ∈ pending, P entry.2

theorem placed_apply
    {left right : Expr}
    {place : Location}
    (c : Connective)
    (hLeft : left.Placed P)
    (hRight : right.Placed P)
    (hPlace : P place) :
    (c.apply left right place).Placed P := by
  have hNode :
      ∀ l ∈ place :: (left.places ++ right.places), P l :=
    List.forall_mem_cons.2
      ⟨hPlace, List.forall_mem_append.2 ⟨hLeft, hRight⟩⟩
  unfold Connective.apply
  split
  · exact hNode
  · exact hNode

/- Reducing keeps places, and complains at the given one. -/
theorem points_reduce
    {place : Location}
    {output : List Expr}
    {pending : Pending}
    (hPlace : P place)
    (hOutput : Expr.PlacedAll P output)
    (hPending : Pending.Placed P pending) :
    (∀ r, reduce place output pending = .ok r →
      Expr.PlacedAll P r.1 ∧ Pending.Placed P r.2) ∧
    ∀ e, reduce place output pending = .error e → P e.location := by
  unfold reduce
  split
  · rename_i right left output c l pending
    rw [Expr.placedAll_cons, Expr.placedAll_cons] at hOutput
    rcases hOutput with ⟨hRight, hLeft, hOthers⟩
    rcases List.forall_mem_cons.1 hPending with ⟨hTop, hRest⟩
    refine ⟨?_, nofun⟩
    rintro _ ⟨⟩
    exact ⟨Expr.placedAll_cons.2
      ⟨placed_apply c hLeft hRight hTop, hOthers⟩, hRest⟩
  · refine ⟨nofun, ?_⟩
    rintro _ ⟨⟩
    exact hPlace

theorem points_reduceFor
    {place : Location}
    {output : List Expr}
    {pending : Pending}
    (c : Connective)
    (hPlace : P place)
    (hOutput : Expr.PlacedAll P output)
    (hPending : Pending.Placed P pending) :
    (∀ r, reduceFor c place pending output = .ok r →
      Expr.PlacedAll P r.1 ∧ Pending.Placed P r.2) ∧
    ∀ e, reduceFor c place pending output = .error e →
      P e.location := by
  induction pending generalizing output with
  | nil =>
      refine ⟨?_, nofun⟩
      rintro _ ⟨⟩
      exact ⟨hOutput, hPending⟩
  | cons entry pending ih =>
      rcases entry with ⟨waiting, l⟩
      rw [reduceFor]
      have hStep := points_reduce hPlace hOutput hPending
      have hRest := (List.forall_mem_cons.1 hPending).2
      split
      · cases hReduce : reduce place output ((waiting, l) :: pending) with
        | error e =>
            refine ⟨nofun, ?_⟩
            rintro _ ⟨⟩
            exact hStep.2 e hReduce
        | ok r => exact ih (hStep.1 r hReduce).1 hRest
      · refine ⟨?_, nofun⟩
        rintro _ ⟨⟩
        exact ⟨hOutput, hPending⟩

theorem points_reduceAll
    {place : Location}
    {output : List Expr}
    {pending : Pending}
    (hPlace : P place)
    (hOutput : Expr.PlacedAll P output)
    (hPending : Pending.Placed P pending) :
    (∀ es, reduceAll place pending output = .ok es →
      Expr.PlacedAll P es) ∧
    ∀ e, reduceAll place pending output = .error e →
      P e.location := by
  induction pending generalizing output with
  | nil =>
      refine ⟨?_, nofun⟩
      rintro _ ⟨⟩
      exact hOutput
  | cons entry pending ih =>
      rw [reduceAll]
      have hStep := points_reduce hPlace hOutput hPending
      have hRest := (List.forall_mem_cons.1 hPending).2
      cases hReduce : reduce place output (entry :: pending) with
      | error e =>
          refine ⟨nofun, ?_⟩
          rintro _ ⟨⟩
          exact hStep.2 e hReduce
      | ok r => exact ih (hStep.1 r hReduce).1 hRest

theorem points_conclude
    {output : List Expr}
    {pending : Pending}
    (hOutput : Expr.PlacedAll P output)
    (hPending : Pending.Placed P pending) :
    Points P (conclude output pending) (Expr.Placed P) := by
  apply points_here.bind
  intro place hPlace
  have hAll := points_reduceAll hPlace hOutput hPending
  apply (points_lift hAll.1 hAll.2).bind
  intro es hPlaced
  split
  · exact points_pure (Expr.placedAll_cons.1 hPlaced).1
  · exact points_throw hPlace

end Parser
end StackScript
