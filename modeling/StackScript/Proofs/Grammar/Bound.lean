import StackScript.Proofs.Grammar.Expression

/-
  Bounds that expressions do not exhaust.

  Between two tokens the readers of expressions call each
  other at most three times, and an operand takes a token at
  least. So some calls for each token that is left to read
  are enough: with more of them the readers give the same,
  results and errors.

  Key definitions include:
    * `Parser.Settled`

  Key theorems include:
    * `Parser.takes_operand`
    * `Parser.settled`
-/

namespace StackScript

namespace Parser

variable {α β : Type}
variable {c after : Cursor}
variable {x y : Parser α}
variable {f g : α → Parser β}
variable {bound more : Nat}

------------------------------------------------------------
-- Tokens That Are Left
------------------------------------------------------------

theorem Takes.length_le
    {P : List Token → α → Prop}
    {a : α}
    (h : Takes c x P)
    (hRun : x.run c = .ok (a, after)) :
    after.rest.length ≤ c.rest.length := by
  rcases h a after hRun with ⟨ts, hRest, _⟩
  rw [hRest, List.length_append]
  omega

theorem Takes.length_lt
    {a : α}
    (h : Takes c x fun ts _ => ts ≠ [])
    (hRun : x.run c = .ok (a, after)) :
    after.rest.length < c.rest.length := by
  rcases h a after hRun with ⟨ts, hRest, hSome⟩
  have hPositive := List.length_pos_iff.2 hSome
  rw [hRest, List.length_append]
  omega

/- An operand takes a token. -/
theorem takes_operand :
    Takes c (operand bound) fun ts _ => ts ≠ [] := by
  cases bound with
  | zero => exact takes_failHere _
  | succ bound =>
      rw [operand]
      rcases c with ⟨before, rest⟩
      apply takes_get
      apply takes_peek
      cases rest with
      | nil => exact takes_failHere _
      | cons t rest =>
          apply takes_advance
          have hTakes :
              Takes ⟨some t, rest⟩ (primary bound before t >>= stepped)
                fun ts => Expr.Derives .signed (t :: ts) :=
            ((sound bound).primary _ before t).bind
              fun _ _ _ hDerives => takes_stepped hDerives
          exact hTakes.mono fun ts _ _ => List.cons_ne_nil t ts

/- An expression gives no tokens back. -/
theorem length_le_of_expression
    {e : Expr}
    (hRun : (expression bound 0).run c = .ok (e, after)) :
    after.rest.length ≤ c.rest.length :=
  takes_expression.length_le hRun

------------------------------------------------------------
-- The Same Results
------------------------------------------------------------

/- Sequences of the same parts are the same. -/
theorem run_bind_congr
    (hFirst : x.run c = y.run c)
    (hThen :
      ∀ a after, x.run c = .ok (a, after) →
        (f a).run after = (g a).run after) :
    (x >>= f).run c = (y >>= g).run c := by
  have hLeft :
      (x >>= f).run c = (x.run c).bind fun r => (f r.1).run r.2 :=
    rfl
  have hRight :
      (y >>= g).run c = (y.run c).bind fun r => (g r.1).run r.2 :=
    rfl
  rw [hLeft, hRight, ← hFirst]
  cases hRun : x.run c with
  | error e => rfl
  | ok r => exact hThen r.1 r.2 hRun

/- Sequences that begin alike are the same if they go on alike. -/
theorem run_then_congr
    (hThen :
      ∀ a after, x.run c = .ok (a, after) →
        (f a).run after = (g a).run after) :
    (x >>= f).run c = (x >>= g).run c :=
  run_bind_congr rfl hThen

/- What is computed without the cursor leaves it in its place. -/
theorem run_lift_congr
    {result : Except ParseError α}
    (hThen : ∀ a, (f a).run c = (g a).run c) :
    (liftM result >>= f).run c = (liftM result >>= g).run c := by
  cases result with
  | error e => rfl
  | ok a => exact hThen a

theorem run_requireOperand_congr
    {t : Token}
    {f g : PUnit → Parser β}
    (hThen : (f ⟨⟩).run c = (g ⟨⟩).run c) :
    (requireOperand t >>= f).run c =
      (requireOperand t >>= g).run c := by
  rcases c with ⟨before, rest⟩
  cases rest with
  | nil => rfl
  | cons u rest => exact hThen

theorem run_requireOperand_eq_ok
    {t : Token}
    {f : PUnit → Parser β}
    {b : β}
    (hRun : (requireOperand t >>= f).run c = .ok (b, after)) :
    (f ⟨⟩).run c = .ok (b, after) := by
  rcases c with ⟨before, rest⟩
  cases rest with
  | nil => cases hRun
  | cons u rest => exact hRun

/- A test for the next token takes it if there is one. -/
theorem run_ifPeek_congr
    {p : Token → Bool}
    {found found' other other' : Parser α}
    (hFound :
      ∀ t rest, c.rest = t :: rest → p t = true →
        found.run ⟨some t, rest⟩ = found'.run ⟨some t, rest⟩)
    (hOther : other.run c = other'.run c) :
    (peekIs p >>= fun b =>
        if b = true then advance >>= fun _ => found else other).run c =
      (peekIs p >>= fun b =>
        if b = true then advance >>= fun _ => found'
        else other').run c := by
  rcases c with ⟨before, rest⟩
  cases rest with
  | nil => exact hOther
  | cons t rest =>
      change
        (if p t = true then advance >>= fun _ => found
          else other : Parser α).run ⟨before, t :: rest⟩ =
          (if p t = true then advance >>= fun _ => found'
            else other' : Parser α).run ⟨before, t :: rest⟩
      by_cases hToken : p t = true
      · rw [if_pos hToken, if_pos hToken]
        exact hFound t rest rfl hToken
      · rw [if_neg hToken, if_neg hToken]
        exact hOther

------------------------------------------------------------
-- Readers of Expressions
------------------------------------------------------------

/-
  With one bound the readers give the same as with all
  larger ones, where it allows some calls for each token.
-/
structure Settled (bound : Nat) : Prop where
  expression :
    ∀ more c least, bound ≤ more → 3 * c.rest.length + 2 ≤ bound →
      (Parser.expression more least).run c =
        (Parser.expression bound least).run c
  connectives :
    ∀ more c least output pending, bound ≤ more →
      3 * c.rest.length + 1 ≤ bound →
        (Parser.connectives more least output pending).run c =
          (Parser.connectives bound least output pending).run c
  operand :
    ∀ more c, bound ≤ more → 3 * c.rest.length + 1 ≤ bound →
      (Parser.operand more).run c = (Parser.operand bound).run c
  primary :
    ∀ more c before t, bound ≤ more →
      3 * c.rest.length + 3 ≤ bound →
        (Parser.primary more before t).run c =
          (Parser.primary bound before t).run c
  argumentList :
    ∀ more c name, bound ≤ more → 3 * c.rest.length + 3 ≤ bound →
      (Parser.argumentList more name).run c =
        (Parser.argumentList bound name).run c

namespace Settled

variable {least : Nat}
variable {output : List Expr}
variable {pending : Pending}
variable {before : Option Token}
variable {t : Token}

theorem zero : Settled 0 where
  expression _ _ _ _ h := by omega
  connectives _ _ _ _ _ _ h := by omega
  operand _ _ _ h := by omega
  primary _ _ _ _ _ h := by omega
  argumentList _ _ _ _ h := by omega

theorem expression_succ
    (h : Settled bound)
    (hMore : bound ≤ more)
    (hEnough : 3 * c.rest.length + 2 ≤ bound + 1) :
    (Parser.expression (more + 1) least).run c =
      (Parser.expression (bound + 1) least).run c := by
  rw [Parser.expression, Parser.expression]
  apply run_bind_congr
  · exact h.operand more c hMore (by omega)
  · intro first middle hFirst
    have hLess := takes_operand.length_lt hFirst
    exact h.connectives more middle least _ _ hMore (by omega)

theorem connectives_succ
    (h : Settled bound)
    (hMore : bound ≤ more)
    (hEnough : 3 * c.rest.length + 1 ≤ bound + 1) :
    (Parser.connectives (more + 1) least output pending).run c =
      (Parser.connectives (bound + 1) least output pending).run c := by
  rw [Parser.connectives, Parser.connectives]
  rcases c with ⟨before, rest⟩
  apply run_then_congr
  intro next here hPeek
  cases hPeek
  cases rest with
  | nil => rfl
  | cons t rest =>
      rw [List.length_cons] at hEnough
      dsimp only [Cursor.peek?, List.head?_cons]
      cases hToken : Connective.of? t with
      | none => rfl
      | some d =>
          dsimp only
          by_cases hLoose : d.precedence < least
          · rw [if_pos hLoose, if_pos hLoose]
          · rw [if_neg hLoose, if_neg hLoose]
            apply run_then_congr
            intro _ middle hAdvance
            cases hAdvance
            have hInside : 3 * rest.length + 2 ≤ bound := by omega
            apply run_lift_congr
            rintro ⟨output, pending⟩
            dsimp only
            by_cases hKind : d.kind = .assignment
            · rw [if_pos hKind, if_pos hKind]
              cases output with
              | nil => rfl
              | cons target output =>
                  dsimp only
                  cases hName : target.name? with
                  | none => rfl
                  | some name =>
                      apply run_requireOperand_congr
                      apply run_bind_congr
                      · exact h.expression more _ _ hMore hInside
                      · intro right last _
                        rfl
            · rw [if_neg hKind, if_neg hKind]
              apply run_requireOperand_congr
              apply run_bind_congr
              · exact h.operand more _ hMore (Nat.le_of_succ_le hInside)
              · intro e last hOperand
                have hLess : last.rest.length < rest.length :=
                  takes_operand.length_lt hOperand
                exact h.connectives more last least _ _ hMore (by omega)

theorem operand_succ
    (h : Settled bound)
    (hMore : bound ≤ more)
    (hEnough : 3 * c.rest.length + 1 ≤ bound + 1) :
    (Parser.operand (more + 1)).run c =
      (Parser.operand (bound + 1)).run c := by
  rw [Parser.operand, Parser.operand]
  rcases c with ⟨before, rest⟩
  cases rest with
  | nil => rfl
  | cons t rest =>
      rw [List.length_cons] at hEnough
      change
        (Parser.primary more before t >>= stepped).run
            ⟨some t, rest⟩ =
          (Parser.primary bound before t >>= stepped).run
            ⟨some t, rest⟩
      apply run_bind_congr
      · apply h.primary more _ before t hMore
        change 3 * rest.length + 3 ≤ bound
        omega
      · intro e middle _
        rfl

theorem primary_succ
    (h : Settled bound)
    (hMore : bound ≤ more)
    (hEnough : 3 * c.rest.length + 3 ≤ bound + 1) :
    (Parser.primary (more + 1) before t).run c =
      (Parser.primary (bound + 1) before t).run c := by
  rw [Parser.primary, Parser.primary]
  split
  · rfl
  · rfl
  · apply run_ifPeek_congr
    · intro o rest hRest _
      rw [hRest, List.length_cons] at hEnough
      apply run_ifPeek_congr
      · intro _ _ _ _
        rfl
      · apply run_bind_congr
        · apply h.argumentList more _ t hMore
          change 3 * rest.length + 3 ≤ bound
          omega
        · intro arguments last _
          rfl
    · rfl
  · by_cases hOpen : t.text = "("
    · rw [if_pos hOpen, if_pos hOpen]
      apply run_bind_congr
      · exact h.expression more c 0 hMore (by omega)
      · intro inner last _
        rfl
    · rw [if_neg hOpen, if_neg hOpen]
      cases sign? before t.text with
      | none => rfl
      | some operator =>
          apply run_requireOperand_congr
          apply run_bind_congr
          · exact h.expression more c _ hMore (by omega)
          · intro argument last _
            rfl
  · rfl

theorem argumentList_succ
    {name : Token}
    (h : Settled bound)
    (hMore : bound ≤ more)
    (hEnough : 3 * c.rest.length + 3 ≤ bound + 1) :
    (Parser.argumentList (more + 1) name).run c =
      (Parser.argumentList (bound + 1) name).run c := by
  rw [Parser.argumentList, Parser.argumentList]
  apply run_bind_congr
  · exact h.expression more c 0 hMore (by omega)
  · intro first middle hFirst
    rw [h.expression more c 0 hMore (by omega)] at hFirst
    have hLess := length_le_of_expression hFirst
    apply run_ifPeek_congr
    · intro t rest hRest _
      apply run_bind_congr
      · apply h.argumentList more _ name hMore
        rw [hRest, List.length_cons] at hLess
        change 3 * rest.length + 3 ≤ bound
        omega
      · intro others last _
        rfl
    · rfl

end Settled

/- A bound of three calls for each token is enough, and some more. -/
theorem settled (bound : Nat) : Settled bound := by
  have hSucc
      {bound more : Nat}
      (h : bound + 1 ≤ more) :
      ∃ less, more = less + 1 ∧ bound ≤ less :=
    ⟨more - 1, by omega, by omega⟩
  induction bound with
  | zero => exact .zero
  | succ bound ih =>
      constructor
      case expression =>
        intro more c least hMore hEnough
        rcases hSucc hMore with ⟨less, rfl, hFewer⟩
        exact ih.expression_succ hFewer hEnough
      case connectives =>
        intro more c least output pending hMore hEnough
        rcases hSucc hMore with ⟨less, rfl, hFewer⟩
        exact ih.connectives_succ hFewer hEnough
      case operand =>
        intro more c hMore hEnough
        rcases hSucc hMore with ⟨less, rfl, hFewer⟩
        exact ih.operand_succ hFewer hEnough
      case primary =>
        intro more c before t hMore hEnough
        rcases hSucc hMore with ⟨less, rfl, hFewer⟩
        exact ih.primary_succ hFewer hEnough
      case argumentList =>
        intro more c name hMore hEnough
        rcases hSucc hMore with ⟨less, rfl, hFewer⟩
        exact ih.argumentList_succ hFewer hEnough

/- All bounds that are enough are the same to an operand. -/
theorem run_operand_eq
    (hEnough : 3 * c.rest.length + 1 ≤ bound)
    (hEnough' : 3 * c.rest.length + 1 ≤ more) :
    (operand bound).run c = (operand more).run c := by
  rcases Nat.le_total bound more with hLess | hLess
  · exact ((settled bound).operand more c hLess hEnough).symm
  · exact (settled more).operand bound c hLess hEnough'

/- All bounds that are enough are the same to operators. -/
theorem run_connectives_eq
    {least : Nat}
    {output : List Expr}
    {pending : Pending}
    (hEnough : 3 * c.rest.length + 1 ≤ bound)
    (hEnough' : 3 * c.rest.length + 1 ≤ more) :
    (connectives bound least output pending).run c =
      (connectives more least output pending).run c := by
  rcases Nat.le_total bound more with hLess | hLess
  · exact ((settled bound).connectives more c _ _ _ hLess hEnough).symm
  · exact (settled more).connectives bound c _ _ _ hLess hEnough'

end Parser
end StackScript
