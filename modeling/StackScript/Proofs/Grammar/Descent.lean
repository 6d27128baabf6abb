import Mathlib
import StackScript.Proofs.Grammar.Climbing
import StackScript.Token.Scan

/-
  Expressions by recursive descent.

  There is a reader for each level of precedence. It reads
  operands with the reader of the next level, which binds
  tighter, and groups them from one side. Signs, calls and
  parentheses are left to the reader of the operands.

  Each level is climbing from its precedence: what the next
  level leaves is an operator of this level or a looser one.

  Key definitions include:
    * `Parser.leftward`, `Parser.rightward`,
      `Parser.assignments`
    * `Parser.descent`

  Key theorems include:
    * `Parser.climb_level`
    * `Parser.Reads.leftward`, `Parser.Reads.chained`
    * `Parser.expression_eq_descent`
-/

namespace StackScript
namespace Parser

------------------------------------------------------------
-- Levels
------------------------------------------------------------

/- The one of some operators that a token is. -/
def among?
    (operators : List Operator)
    (t : Token) : Option Operator :=
  operators.find? fun o => t.isOperator o.symbol

/- An operator that takes what was read as its left operand. -/
def leftStep
    (operators : List Operator)
    (next : Parser Expr)
    (again : Expr → Parser Expr)
    (left : Expr) : Parser Expr := do
  match ← takeFound (among? operators) with
  | none => return left
  | some (t, o) =>
      requireOperand t
      let right ← next
      again (.binary o left right t.location)

/- Operators that are grouped from the left. -/
def leftward
    (operators : List Operator)
    (next : Parser Expr) : Parser Expr := do
  let first ← next
  recur (leftStep operators next) first

/- An operand of the next level, and what may follow on this one. -/
def chained
    (next : Parser Expr)
    (follow : Parser Expr → Expr → Parser Expr) : Parser Expr :=
  recur (fun again _ => next >>= follow (again ())) ()

/- An operator whose right operand is of the same level. -/
def rightFollow
    (operators : List Operator)
    (again : Parser Expr)
    (left : Expr) : Parser Expr := do
  match ← takeFound (among? operators) with
  | none => return left
  | some (t, o) =>
      requireOperand t
      let right ← again
      return .logical o left right t.location

/- Operators that are grouped from the right. -/
def rightward
    (operators : List Operator)
    (next : Parser Expr) : Parser Expr :=
  chained next (rightFollow operators)

/- What an assignment stores; `x += e` stores `x + e`. -/
def storedValue
    (target right : Expr)
    (place : Location) : Operator → Expr
| .addAssign => .binary .add target right place
| .subAssign => .binary .sub target right place
| .mulAssign => .binary .mul target right place
| .divAssign => .binary .div target right place
| _ => right

/- The stacks store the same value. -/
theorem assigned_eq_storedValue
    (o : Operator)
    (target right : Expr)
    (place : Location) :
    assigned o target right place =
      storedValue target right place o := by
  cases o <;> rfl

/- An assignment, whose target has to be a variable. -/
def assignFollow
    (again : Parser Expr)
    (target : Expr) : Parser Expr := do
  match
    ← takeFound
        (among? [.assign, .addAssign, .subAssign, .mulAssign, .divAssign])
  with
  | none => return target
  | some (t, o) =>
      match target.name? with
      | none => throw (.assignment o t.location)
      | some name =>
          requireOperand t
          let right ← again
          let value := storedValue target right t.location o
          return .assignment name value t.location

/- Assignments, which are grouped from the right. -/
def assignments (next : Parser Expr) : Parser Expr :=
  chained next assignFollow

/- Read an expression by descent, given how operands are read. -/
def descent (operand : Parser Expr) : Parser Expr :=
  let multiplicative := leftward [.mul, .div, .mod] operand
  let additive := leftward [.add, .sub] multiplicative
  let relational := leftward [.lt, .gt, .le, .ge] additive
  let equality := leftward [.eq, .ne] relational
  let disjunction := rightward [.or] equality
  let conjunction := rightward [.and] disjunction
  assignments conjunction

------------------------------------------------------------
-- Operators of a Level
------------------------------------------------------------

variable {t : Token}
variable {d : Connective}
variable {o : Operator}
variable {operators : List Operator}
variable {p q : Nat}
variable {side : Bool}
variable {kind : Connective.Kind}

/- The operators of a precedence are those of a level. -/
def Grade
    (operators : List Operator)
    (p : Nat)
    (side : Bool)
    (kind : Connective.Kind) : Prop :=
  (∀ entry ∈ Connective.table, entry.2.precedence = p →
      entry.2.operator ∈ operators ∧
        entry.2.operator.symbol = entry.1 ∧
        entry.2.rightward = side ∧ entry.2.kind = kind) ∧
    ∀ o ∈ operators, ∃ entry ∈ Connective.table,
      entry.2.operator = o ∧ entry.2.precedence = p ∧
        entry.1 = o.symbol

instance
    (operators : List Operator)
    (p : Nat)
    (side : Bool)
    (kind : Connective.Kind) :
    Decidable (Grade operators p side kind) :=
  inferInstanceAs (Decidable (_ ∧ _))

theorem grade_multiplicative :
    Grade [.mul, .div, .mod] 20 false .binary := by
  decide

theorem grade_additive : Grade [.add, .sub] 10 false .binary := by
  decide

theorem grade_relational :
    Grade [.lt, .gt, .le, .ge] 8 false .binary := by
  decide

theorem grade_equality : Grade [.eq, .ne] 7 false .binary := by
  decide

theorem grade_disjunction : Grade [.or] 3 true .logical := by
  decide

theorem grade_conjunction : Grade [.and] 2 true .logical := by
  decide

theorem grade_assignments :
    Grade [.assign, .addAssign, .subAssign, .mulAssign, .divAssign] 1
      true .assignment := by
  decide

/- Each entry of the table is found by its text. -/
theorem of?_of_mem
    {text : String}
    (hMem : (text, d) ∈ Connective.table)
    (hToken : t.isOperator text = true) :
    Connective.of? t = some d := by
  have hAll :
      ∀ entry ∈ Connective.table,
        Connective.table.lookup entry.1 = some entry.2 := by
    decide
  unfold Token.isOperator Token.is at hToken
  rw [Bool.and_eq_true, beq_iff_eq, beq_iff_eq] at hToken
  unfold Connective.of?
  rw [if_pos hToken.1, hToken.2]
  exact hAll _ hMem

theorem Grade.of_some
    (h : Grade operators p side kind)
    (hAmong : among? operators t = some o) :
    ∃ d, Connective.of? t = some d ∧ d.precedence = p ∧
      d.operator = o := by
  have hToken := List.find?_some hAmong
  have hMem := List.mem_of_find?_eq_some hAmong
  rcases h.2 o hMem with ⟨⟨text, d⟩, hEntry, hOperator, hSame, hText⟩
  cases hText
  exact ⟨d, of?_of_mem hEntry hToken, hSame, hOperator⟩

theorem Grade.among?_eq
    (h : Grade operators p side kind)
    (hToken : Connective.of? t = some d)
    (hSame : d.precedence = p) :
    among? operators t = some d.operator := by
  rcases h.1 _ (Connective.mem_of_of? hToken).2 hSame with
    ⟨hMem, hSymbol, _, _⟩
  have hOperator := Connective.isOperator_of_of? hToken hSymbol
  cases hAmong : among? operators t with
  | none =>
      have hNone := List.find?_eq_none.1 hAmong _ hMem
      exact absurd hOperator hNone
  | some o =>
      rcases h.of_some hAmong with ⟨d', hToken', _, hOther⟩
      rw [hToken] at hToken'
      cases hToken'
      rw [hOther]

/- The operators of a level are tight enough for it. -/
theorem Grade.stops
    {c : Cursor}
    (h : Grade operators p side kind)
    (hStops : Stops (tight? p) c) :
    Stops (among? operators) c := by
  intro t hHead
  cases hAmong : among? operators t with
  | none => rfl
  | some o =>
      rcases h.of_some hAmong with ⟨d, hToken, hSame, _⟩
      have hLess := stops_tight?_iff.1 hStops t hHead d hToken
      omega

------------------------------------------------------------
-- Climbing by Levels
------------------------------------------------------------

variable {read : Parser Expr}
variable {e : Expr}
variable {c after : Cursor}

theorem Stops.tighter
    (h : Stops (tight? p) c)
    (hLess : p ≤ q) :
    Stops (tight? q) c := by
  rw [stops_tight?_iff] at h ⊢
  intro t hHead d hToken
  exact Nat.lt_of_lt_of_le (h t hHead d hToken) hLess

/- No operator is looser than an assignment. -/
theorem Stops.of_one
    (h : Stops (tight? 1) c) :
    Stops (tight? p) c := by
  rw [stops_tight?_iff] at h ⊢
  intro t hHead d hToken
  have hAll : ∀ entry ∈ Connective.table, 1 ≤ entry.2.precedence := by
    decide
  have hMore := hAll _ (Connective.mem_of_of? hToken).2
  have hLess := h t hHead d hToken
  dsimp only at hMore
  omega

section

variable (hRead : ∀ c, Takes c read fun ts _ => ts ≠ [])

include hRead

/- Climbing goes on as long as operators are tight enough. -/
theorem stops_of_climb
    {left : Expr}
    (hRun : (climb read p left).run c = .ok (e, after)) :
    Stops (tight? p) after := by
  induction hLength : c.rest.length using Nat.strongRecOn
    generalizing c left e p with
  | ind length ih =>
      subst hLength
      rcases stops_or_found (tight? p) c with
        hStops | ⟨before, t, rest, d, rfl, hTight⟩
      · rw [run_climb_of_stops hRead hStops] at hRun
        cases hRun
        exact hStops
      · have hToken := (tight?_eq_some.1 hTight).1
        by_cases hKind : d.kind = .assignment
        · cases hName : left.name? with
          | none =>
              rw [run_climb_of_no_target hRead hTight hKind hName]
                at hRun
              cases hRun
          | some name =>
              rw [run_climb_of_assigns hRead hTight hKind hName] at hRun
              have hBehind := run_requireOperand_eq_ok hRun
              rcases run_bind_eq_ok hBehind with
                ⟨first, next, hFirst, hThen⟩
              rcases run_bind_eq_ok hThen with
                ⟨right, last, hRight, hNode⟩
              cases hNode
              have hNext := (hRead _).length_lt hFirst
              have hStops := ih next.rest.length (Nat.lt_succ_of_lt hNext)
                hRight rfl
              rw [(Connective.rightNeed_of_assigns hToken hKind).2]
                at hStops
              exact hStops.of_one
        · rw [run_climb_of_joins hRead hTight hKind] at hRun
          have hBehind := run_requireOperand_eq_ok hRun
          rcases run_bind_eq_ok hBehind with ⟨first, next, hFirst, hThen⟩
          rcases run_bind_eq_ok hThen with ⟨right, last, hRight, hRest⟩
          have hNext := (hRead _).length_lt hFirst
          have hLast := (takes_climb hRead).length_le hRight
          have hFewer : last.rest.length < (t :: rest).length :=
            Nat.lt_succ_of_lt (Nat.lt_of_le_of_lt hLast hNext)
          exact ih last.rest.length hFewer hRest rfl

/- Precedences that tell no operators apart are the same. -/
theorem climb_congr
    {left : Expr}
    (hSame :
      ∀ entry ∈ Connective.table,
        (p ≤ entry.2.precedence ↔ q ≤ entry.2.precedence)) :
    (climb read p left).run c = (climb read q left).run c := by
  have hTight (t : Token) : tight? p t = tight? q t := by
    unfold tight?
    cases hToken : Connective.of? t with
    | none => rfl
    | some d =>
        have hBoth := hSame _ (Connective.mem_of_of? hToken).2
        rw [Option.filter_some, Option.filter_some,
          decide_eq_decide.2 hBoth]
  induction hLength : c.rest.length using Nat.strongRecOn
    generalizing c left with
  | ind length ih =>
      subst hLength
      rcases stops_or_found (tight? p) c with
        hStops | ⟨before, t, rest, d, rfl, hFound⟩
      · have hStops' : Stops (tight? q) c := by
          intro t hHead
          rw [← hTight]
          exact hStops t hHead
        rw [run_climb_of_stops hRead hStops,
          run_climb_of_stops hRead hStops']
      · have hFound' : tight? q t = some d := by
          rw [← hTight]
          exact hFound
        by_cases hKind : d.kind = .assignment
        · cases hName : left.name? with
          | none =>
              rw [run_climb_of_no_target hRead hFound hKind hName,
                run_climb_of_no_target hRead hFound' hKind hName]
          | some name =>
              rw [run_climb_of_assigns hRead hFound hKind hName,
                run_climb_of_assigns hRead hFound' hKind hName]
        · rw [run_climb_of_joins hRead hFound hKind,
            run_climb_of_joins hRead hFound' hKind]
          apply run_right_congr hRead
          intro right last hLast
          exact ih last.rest.length (Nat.lt_succ_of_lt hLast) rfl

/-
  A level is climbing from its precedence if it is so at the
  operators of this precedence.
-/
theorem climb_level
    {level : Expr → Parser Expr}
    (hPositive : 1 ≤ p)
    (hStops :
      ∀ e c, Stops (tight? p) c → (level e).run c = .ok (e, c))
    (hHere :
      ∀ e before t rest d, Connective.of? t = some d →
        d.precedence = p →
          (∀ e c, c.rest.length < (t :: rest).length →
            (climb read (p + 1) e >>= level).run c =
              (climb read p e).run c) →
            (level e).run ⟨before, t :: rest⟩ =
              (climb read p e).run ⟨before, t :: rest⟩) :
    (climb read (p + 1) e >>= level).run c =
      (climb read p e).run c := by
  induction hLength : c.rest.length using Nat.strongRecOn
    generalizing c e with
  | ind length ih =>
      subst hLength
      rcases stops_or_found (tight? p) c with
        hNone | ⟨before, t, rest, d, rfl, hTight⟩
      · have hNext := hNone.tighter (Nat.le_succ p)
        rw [run_bind_of_ok (run_climb_of_stops hRead hNext),
          hStops e c hNone, run_climb_of_stops hRead hNone]
      · rcases tight?_eq_some.1 hTight with ⟨hToken, hMore⟩
        by_cases hSame : d.precedence = p
        · have hNext :
              Stops (tight? (p + 1)) ⟨before, t :: rest⟩ := by
            rw [stops_tight?_iff]
            intro u hHead d' hToken'
            cases hHead
            rw [hToken] at hToken'
            cases hToken'
            omega
          rw [run_bind_of_ok (run_climb_of_stops hRead hNext)]
          apply hHere e before t rest d hToken hSame
          intro e c hFewer
          exact ih c.rest.length hFewer rfl
        · have hTighter : tight? (p + 1) t = some d :=
            tight?_eq_some.2 ⟨hToken, by omega⟩
          have hKind : d.kind ≠ .assignment := by
            intro hAssigns
            have hOne :=
              (Connective.rightNeed_of_assigns hToken hAssigns).1
            omega
          rw [run_bind_of_run (run_climb_of_joins hRead hTighter hKind),
            run_climb_of_joins hRead hTight hKind]
          simp only [bind_assoc]
          apply run_right_congr hRead
          intro right last hLast
          exact ih last.rest.length (Nat.lt_succ_of_lt hLast) rfl

end

------------------------------------------------------------
-- Levels by Climbing
------------------------------------------------------------

/- A reader reads an operand and climbs behind it. -/
def Reads
    (read : Parser Expr)
    (p : Nat)
    (x : Parser Expr) : Prop :=
  ∀ c, x.run c = (read >>= climb read p).run c

section

variable {next x : Parser Expr}
variable (hRead : ∀ c, Takes c read fun ts _ => ts ≠ [])

include hRead

/- Where only operands are left to read. -/
theorem reads_operand
    (hTightest :
      ∀ entry ∈ Connective.table, entry.2.precedence < p) :
    Reads read p read := by
  intro c
  have hPure : read.run c = (read >>= pure).run c := by
    rw [bind_pure]
  rw [hPure]
  apply run_then_congr
  intro e last _
  have hStops : Stops (tight? p) last := by
    rw [stops_tight?_iff]
    intro t _ d hToken
    exact hTightest _ (Connective.mem_of_of? hToken).2
  rw [run_climb_of_stops hRead hStops]
  rfl

theorem Reads.congr
    (h : Reads read p x)
    (hSame :
      ∀ entry ∈ Connective.table,
        (p ≤ entry.2.precedence ↔ q ≤ entry.2.precedence)) :
    Reads read q x := by
  intro c
  rw [h c]
  apply run_then_congr
  intro e last _
  exact climb_congr hRead hSame

theorem Reads.takes (h : Reads read p x) :
    Takes c x fun ts _ => ts ≠ [] := by
  intro e after hRun
  rw [h c] at hRun
  have hTakes :
      Takes c (read >>= climb read p) fun ts _ => ts ≠ [] := by
    apply (hRead c).bind
    intro ts first middle hSome
    apply (takes_climb hRead).mono
    intro us _ _ hNone
    exact hSome (List.append_eq_nil_iff.1 hNone).1
  exact hTakes e after hRun

theorem Reads.stops
    (h : Reads read p x)
    (hRun : x.run c = .ok (e, after)) :
    Stops (tight? p) after := by
  rw [h c] at hRun
  rcases run_bind_eq_ok hRun with ⟨first, middle, _, hClimb⟩
  exact stops_of_climb hRead hClimb

/- Operators grouped from the left climb from their precedence. -/
theorem Reads.leftward
    (hNext : Reads read (p + 1) next)
    (hPositive : 1 ≤ p)
    (hGrade : Grade operators p false .binary) :
    Reads read p (leftward operators next) := by
  have hProductive : Productive (leftStep operators next) := by
    constructor
    case forward =>
      intro again hAgain left c
      apply takes_takeFound
      · exact takes_pure trivial
      · intro t o middle
        apply takes_requireOperand
        apply (hNext.takes hRead).bind
        intro _ right last _
        exact hAgain _ last
    case congr =>
      intro again again' left c _ hSame
      apply run_takeFound_congr
      · rfl
      · intro t rest o hRest
        apply run_requireOperand_congr
        apply run_then_congr
        intro right last hRight
        have hLess : last.rest.length < rest.length :=
          (hNext.takes hRead).length_lt hRight
        apply hSame
        rw [hRest]
        exact Nat.lt_succ_of_lt hLess
  intro c
  unfold Parser.leftward
  rw [run_bind_of_run (hNext c), bind_assoc]
  apply run_then_congr
  intro first middle _
  apply climb_level hRead hPositive
  · intro e c hStops
    rw [hProductive.run_recur, leftStep,
      run_takeFound_of_stops (hGrade.stops hStops)]
    rfl
  · intro e before t rest d hToken hSame hLater
    rcases hGrade.1 _ (Connective.mem_of_of? hToken).2 hSame with
      ⟨_, _, hSide, hJoins⟩
    have hTight : tight? p t = some d :=
      tight?_eq_some.2 ⟨hToken, Nat.le_of_eq hSame.symm⟩
    have hKind : d.kind ≠ .assignment := by
      rw [hJoins]
      decide
    have hNeed : d.rightNeed = p + 1 := by
      unfold Connective.rightNeed
      rw [hSide, hSame]
      rfl
    rw [hProductive.run_recur, leftStep,
      run_takeFound (hGrade.among?_eq hToken hSame),
      run_climb_of_joins hRead hTight hKind, hNeed,
      ← bind_assoc read]
    apply run_requireOperand_congr
    apply run_bind_congr (hNext _)
    intro right last hRight
    have hLess : last.rest.length < (t :: rest).length :=
      Nat.lt_succ_of_lt ((hNext.takes hRead).length_lt hRight)
    have hStops := hNext.stops hRead hRight
    have hNode :
        d.apply e right t.location =
          .binary d.operator e right t.location := by
      unfold Connective.apply
      rw [hJoins]
    rw [hNode, ← hLater _ last hLess,
      run_bind_of_ok (run_climb_of_stops hRead hStops)]

/- What follows an operand may call the reader behind an operator. -/
structure Follows
    (p : Nat)
    (follow : Parser Expr → Expr → Parser Expr) : Prop where
  forward :
    ∀ again, (∀ c, Takes c again fun _ _ => True) →
      ∀ e c, Takes c (follow again e) fun _ _ => True
  congr :
    ∀ again again' e c,
      (∀ c', c'.rest.length < c.rest.length →
        again.run c' = again'.run c') →
      (follow again e).run c = (follow again' e).run c
  stops :
    ∀ again e c, Stops (tight? p) c →
      (follow again e).run c = .ok (e, c)

/- Operators whose right operand is read by the same reader. -/
theorem Reads.chained
    {follow : Parser Expr → Expr → Parser Expr}
    (hNext : Reads read (p + 1) next)
    (hPositive : 1 ≤ p)
    (hFollow : Follows p follow)
    (hHere :
      ∀ again e before t rest d, Connective.of? t = some d →
        d.precedence = p →
          again.run ⟨some t, rest⟩ =
              (read >>= climb read p).run ⟨some t, rest⟩ →
            (follow again e).run ⟨before, t :: rest⟩ =
              (climb read p e).run ⟨before, t :: rest⟩) :
    Reads read p (chained next follow) := by
  have hProductive :
      Productive fun (again : Unit → Parser Expr) (_ : Unit) =>
        next >>= follow (again ()) := by
    constructor
    case forward =>
      intro again hAgain _ c
      apply (hNext.takes hRead).bind
      intro _ e middle _
      exact hFollow.forward _ (hAgain ()) e middle
    case congr =>
      intro again again' _ c _ hSame
      apply run_then_congr
      intro e middle hOperand
      have hLess := (hNext.takes hRead).length_lt hOperand
      apply hFollow.congr
      intro c' hFewer
      exact hSame () c' (Nat.lt_trans hFewer hLess)
  have hStep (c : Cursor) :
      (Parser.chained next follow).run c =
        (read >>= fun first =>
          climb read (p + 1) first >>=
            follow (Parser.chained next follow)).run c := by
    have hUnfolded :
        (Parser.chained next follow).run c =
          (next >>= follow (Parser.chained next follow)).run c :=
      hProductive.run_recur
    rw [hUnfolded, run_bind_of_run (hNext c), bind_assoc]
  intro c
  rw [hStep]
  apply run_then_congr
  intro first middle _
  apply climb_level hRead hPositive (hFollow.stops _)
  intro e before t rest d hToken hSame hLater
  apply hHere _ _ _ _ _ _ hToken hSame
  rw [hStep]
  apply run_then_congr
  intro first last hFirst
  have hLess : last.rest.length < rest.length :=
    (hRead _).length_lt hFirst
  exact hLater first last (Nat.lt_succ_of_lt hLess)

omit hRead in
theorem follows_right
    (hGrade : Grade operators p true .logical) :
    Follows p (rightFollow operators) where
  forward again hAgain e c := by
    apply takes_takeFound
    · exact takes_pure trivial
    · intro t o middle
      apply takes_requireOperand
      apply (hAgain middle).bind
      intro _ right last _
      exact takes_pure trivial
  congr again again' e c hSame := by
    apply run_takeFound_congr
    · rfl
    · intro t rest o hRest
      apply run_requireOperand_congr
      apply run_bind_congr
      · apply hSame
        rw [hRest]
        exact Nat.lt_succ_self _
      · intro right last _
        rfl
  stops again e c hStops := by
    rw [rightFollow, run_takeFound_of_stops (hGrade.stops hStops)]
    rfl

/- Operators grouped from the right climb from their precedence. -/
theorem Reads.rightward
    (hNext : Reads read (p + 1) next)
    (hPositive : 1 ≤ p)
    (hGrade : Grade operators p true .logical) :
    Reads read p (rightward operators next) := by
  apply hNext.chained hRead hPositive (follows_right hGrade)
  intro again e before t rest d hToken hSame hAgain
  rcases hGrade.1 _ (Connective.mem_of_of? hToken).2 hSame with
    ⟨_, _, hSide, hJoins⟩
  have hTight : tight? p t = some d :=
    tight?_eq_some.2 ⟨hToken, Nat.le_of_eq hSame.symm⟩
  have hKind : d.kind ≠ .assignment := by
    rw [hJoins]
    decide
  have hNeed : d.rightNeed = p := by
    unfold Connective.rightNeed
    rw [hSide, hSame]
    rfl
  rw [rightFollow, run_takeFound (hGrade.among?_eq hToken hSame),
    run_climb_of_joins hRead hTight hKind, hNeed, ← bind_assoc read]
  apply run_requireOperand_congr
  apply run_bind_congr hAgain
  intro right last hRight
  rw [hAgain] at hRight
  rcases run_bind_eq_ok hRight with ⟨first, middle, _, hClimb⟩
  have hNode :
      d.apply e right t.location =
        .logical d.operator e right t.location := by
    unfold Connective.apply
    rw [hJoins]
  rw [hNode, run_climb_of_stops hRead (stops_of_climb hRead hClimb)]
  rfl

omit hRead in
theorem follows_assign : Follows 1 assignFollow where
  forward again hAgain e c := by
    apply takes_takeFound
    · exact takes_pure trivial
    · intro t o middle
      dsimp only
      split
      · exact takes_throw _
      · apply takes_requireOperand
        apply (hAgain middle).bind
        intro _ right last _
        exact takes_pure trivial
  congr again again' e c hSame := by
    apply run_takeFound_congr
    · rfl
    · intro t rest o hRest
      dsimp only
      split
      · rfl
      · apply run_requireOperand_congr
        apply run_bind_congr
        · apply hSame
          rw [hRest]
          exact Nat.lt_succ_self _
        · intro right last _
          rfl
  stops again e c hStops := by
    rw [assignFollow,
      run_takeFound_of_stops (grade_assignments.stops hStops)]
    rfl

theorem Reads.assignments
    (hNext : Reads read 2 next) :
    Reads read 1 (assignments next) := by
  apply hNext.chained hRead (Nat.le_refl 1) follows_assign
  intro again e before t rest d hToken hSame hAgain
  have hTight : tight? 1 t = some d :=
    tight?_eq_some.2 ⟨hToken, Nat.le_of_eq hSame.symm⟩
  have hKind : d.kind = .assignment :=
    (grade_assignments.1 _ (Connective.mem_of_of? hToken).2
      hSame).2.2.2
  rw [assignFollow,
    run_takeFound (grade_assignments.among?_eq hToken hSame)]
  cases hName : e.name? with
  | none =>
      rw [run_climb_of_no_target hRead hTight hKind hName]
      rfl
  | some name =>
      rw [run_climb_of_assigns hRead hTight hKind hName,
        (Connective.rightNeed_of_assigns hToken hKind).2,
        ← bind_assoc read]
      simp only [assigned_eq_storedValue]
      apply run_requireOperand_congr
      exact run_bind_of_run hAgain

/- Descent climbs from the loosest precedence. -/
theorem reads_descent : Reads read 0 (descent read) := by
  have hOperand : Reads read 21 read :=
    reads_operand hRead (by decide)
  have hMultiplicative : Reads read 11 _ :=
    (hOperand.leftward hRead (by decide)
      grade_multiplicative).congr hRead (by decide)
  have hAdditive : Reads read 9 _ :=
    (hMultiplicative.leftward hRead (by decide)
      grade_additive).congr hRead (by decide)
  have hRelational : Reads read 8 _ :=
    hAdditive.leftward hRead (by decide) grade_relational
  have hEquality : Reads read 4 _ :=
    (hRelational.leftward hRead (by decide) grade_equality).congr hRead
      (by decide)
  have hDisjunction : Reads read 3 _ :=
    hEquality.rightward hRead (by decide) grade_disjunction
  have hConjunction : Reads read 2 _ :=
    hDisjunction.rightward hRead (by decide) grade_conjunction
  exact (hConjunction.assignments hRead).congr hRead (by decide)

end

/- The argument of a sign is one operand, with its own signs. -/
theorem expression_signPrecedence
    {bound : Nat}
    (hBound : 3 * c.rest.length + 2 ≤ bound) :
    (expression bound Connective.signPrecedence).run c =
      (operand bound).run c := by
  have hOperand :
      Reads (operand bound) Connective.signPrecedence (operand bound) :=
    reads_operand (fun _ => takes_operand) (by decide)
  rw [hOperand c]
  exact expression_eq_climb hBound (by omega)

/-
  With a bound that the tokens do not exhaust, the stacks of
  operators and operands read an expression as descent does,
  with the same tree and the same tokens left, or with the
  same error.
-/
theorem expression_eq_descent
    {bound : Nat}
    (hBound : 3 * c.rest.length + 2 ≤ bound) :
    (expression bound 0).run c =
      (descent (operand bound)).run c := by
  have hReads : Reads (operand bound) 0 (descent (operand bound)) :=
    reads_descent fun _ => takes_operand
  rw [hReads c]
  exact expression_eq_climb hBound (by omega)

/- The tree of an assignment with operators of four levels. -/
def mixed : Expr :=
  .assignment "a"
    (.binary .add (.variable "a" ⟨1, 1⟩)
      (.logical .and
        (.binary .sub
          (.binary .sub (.variable "b" ⟨1, 6⟩) (.variable "c" ⟨1, 10⟩)
            ⟨1, 8⟩)
          (.binary .mul (.variable "d" ⟨1, 14⟩) (.literal "2" ⟨1, 18⟩)
            ⟨1, 16⟩)
          ⟨1, 12⟩)
        (.variable "e" ⟨1, 23⟩) ⟨1, 20⟩)
      ⟨1, 3⟩)
    ⟨1, 3⟩

theorem expression_eq_descent_mixed :
    ∃ after,
      (expression 40 0).run
          (.start (Token.scan "a += b - c - d * 2 && e;")) =
        .ok (mixed, after) ∧
      (descent (operand 40)).run
          (.start (Token.scan "a += b - c - d * 2 && e;")) =
        .ok (mixed, after) ∧
      after.rest = [⟨.separator, ";", ⟨1, 24⟩⟩] := by
  have hRun :
      ∃ after,
        (expression 40 0).run
            (.start (Token.scan "a += b - c - d * 2 && e;")) =
          .ok (mixed, after) ∧
        after.rest = [⟨.separator, ";", ⟨1, 24⟩⟩] :=
    ⟨_, by cbv, rfl⟩
  have hBound :
      3 * (Token.scan "a += b - c - d * 2 && e;").length + 2 ≤ 40 := by
    decide
  rcases hRun with ⟨after, hExpression, hLeft⟩
  refine ⟨after, hExpression, ?_, hLeft⟩
  rw [← expression_eq_descent hBound]
  exact hExpression

end Parser
end StackScript
