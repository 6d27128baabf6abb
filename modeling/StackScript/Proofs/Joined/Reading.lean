import StackScript.Proofs.Grammar.Known
import StackScript.Proofs.Token.Layout
import StackScript.Proofs.Twin.Statement

/-
  Reading two texts as one.

  Two texts with a semicolon on a line of its own between
  them have the words of both, with the semicolon between
  them. If each of them is a program, both together are the
  program of the statements of both, up to places: the
  reader of statements takes what the first text has, then
  the semicolon as an empty statement, then what the second
  has.

  Key definitions include:
    * `joined`

  Key theorems include:
    * `Token.spellings_joined`
    * `Parser.run_statements_before`
    * `Program.parse_joined`
-/

namespace StackScript

open Token (spelling)

/- Two texts, with a semicolon on a line of its own between them. -/
def joined (first second : String) : String :=
  first ++ "\n;\n" ++ second

------------------------------------------------------------
-- Words
------------------------------------------------------------

/-
  If the words of the first text are known, its end does not
  run into what follows.
-/
theorem Token.spellings_joined
    {first second : String}
    (hKnown : AllKnown (scan first)) :
    (scan (joined first second)).map spelling =
      (scan first).map spelling
        ++ Token.Spelling.semicolon :: (scan second).map spelling := by
  have hText :
      (joined first second).toList =
        first.toList ++ '\n' :: ';' :: '\n' :: second.toList := by
    simp [joined]
  unfold scan at hKnown ⊢
  dsimp only at hKnown ⊢
  rw [hText]
  rcases scanFrom_append (Nat.le_refl _) (Nat.le_refl _) hKnown with
    ⟨k, after, hMore, hEq⟩
  rw [hEq, List.map_append]
  congr 1
  -- The semicolon and the new line behind it take a step each.
  rcases k with _ | _ | k
  · simp at hMore
  · simp at hMore
  · have hSteps :
        scanFrom (k + 2) after (';' :: '\n' :: second.toList) =
          ⟨.separator, ";", after⟩
            :: scanFrom k ((after.after [';']).after ['\n'])
              second.toList :=
      rfl
    have hEnough : second.toList.length ≤ k := by
      simpa using hMore
    rw [hSteps, List.map_cons]
    congr 1
    exact spellings_eq _ _ hEnough (Nat.le_refl _)

------------------------------------------------------------
-- Statements
------------------------------------------------------------

namespace Parser

variable {m : Slack}
variable {c c' d : Cursor}
variable {bound : Nat}
variable {ss : List Stmt}

/- The result of a reader with statements in front. -/
def withFront
    (front : List Stmt)
    (result : Except ParseError (List Stmt × Cursor)) :
    Except ParseError (List Stmt × Cursor) :=
  result.map fun (ss, c) => (front ++ ss, c)

/- Where some token is left, a statement is read, and then others. -/
theorem run_statements_succ
    (bound : Nat)
    (hSome : c.rest ≠ []) :
    (statements (bound + 1)).run c =
      ((statement bound).run c).bind fun (first, after) =>
        withFront first.toList ((statements bound).run after) := by
  rcases c with ⟨before, rest⟩
  cases rest with
  | nil => exact absurd rfl hSome
  | cons t rest => rfl

/-
  A reading with more words behind reads the statements of
  the first one before them, and then others with a bound
  that is still larger than the rest of it.
-/
theorem run_statements_before
    (hLoose : m.loose)
    (hPlace : m.Beside c d)
    (hRun : (statements bound).run c = .ok (ss, c'))
    (more : Nat) :
    ∃ ss' d' less,
      Stmt.SameAll ss ss' ∧ m.Beside c' d' ∧ c'.rest = [] ∧
        more < less ∧
        (statements (bound + more)).run d =
          withFront ss' ((statements less).run d') := by
  induction bound generalizing c d ss with
  | zero => cases hRun
  | succ bound ih =>
      by_cases hSome : c.rest = []
      · rcases c with ⟨before, rest⟩
        cases hSome
        cases hRun
        refine ⟨[], d, bound + 1 + more, rfl, hPlace, rfl, by omega, ?_⟩
        cases (statements (bound + 1 + more)).run d <;> rfl
      · have hSome' : d.rest ≠ [] := by
          intro hNil
          have hRest := hPlace.rest
          rw [hNil] at hRest
          exact hSome (List.map_eq_nil_iff.1
            (List.append_eq_nil_iff.1 hRest.symm).1)
        have hBound : m.Bounds bound (bound + more) :=
          ⟨Nat.le_add_right _ _, .inr hLoose⟩
        have hFirst :=
          (statementTracking hBound).statement hPlace
            fun hNil => absurd hNil hSome
        have hSucc : bound + 1 + more = bound + more + 1 := by omega
        rw [run_statements_succ bound hSome] at hRun
        rw [hSucc, run_statements_succ _ hSome']
        unfold Tracks at hFirst
        generalize (statement bound).run c = left at hFirst hRun
        generalize (statement (bound + more)).run d = right at hFirst ⊢
        cases hFirst with
        | error | loose => cases hRun
        | @ok first first' after after' hAfter hSame =>
            change withFront first.toList _ = _ at hRun
            cases hOthers : (statements bound).run after with
            | error e =>
                rw [hOthers] at hRun
                cases hRun
            | ok result =>
                rcases result with ⟨others, last⟩
                rw [hOthers] at hRun
                cases hRun
                rcases ih hAfter hOthers with
                  ⟨others', d', less, hSameOthers, hLast, hNil, hLess,
                    hEq⟩
                refine ⟨first'.toList ++ others', d', less,
                  hSameOthers.prepend hSame, hLast, hNil, hLess, ?_⟩
                change
                  withFront first'.toList
                    ((statements (bound + more)).run after') = _
                rw [hEq]
                cases (statements less).run d' with
                | error e => rfl
                | ok result =>
                    change
                      Except.ok (first'.toList ++ (others' ++ result.1),
                          result.2) =
                        Except.ok (first'.toList ++ others' ++ result.1,
                          result.2)
                    rw [List.append_assoc]

/- A semicolon is a statement that gives nothing. -/
theorem run_statements_semicolon
    {before : Option Token}
    {t : Token}
    {rest : List Token}
    (hSemicolon : spelling t = Token.Spelling.semicolon)
    (bound : Nat) :
    (statements (bound + 2)).run ⟨before, t :: rest⟩ =
      withFront [] ((statements (bound + 1)).run ⟨some t, rest⟩) := by
  cases t
  cases hSemicolon
  rfl

/- In front of nothing and behind a semicolon signs follow alike. -/
theorem signMayFollow_semicolon
    {t : Token}
    (hSemicolon : spelling t = Token.Spelling.semicolon) :
    signMayFollow (some t) = signMayFollow none := by
  cases t
  cases hSemicolon
  rfl

end Parser

------------------------------------------------------------
-- Programs
------------------------------------------------------------

namespace Program

variable {ts first second : List Token}
variable {p q : Program}

/- How two readings differ of which the second has more words. -/
def slackBefore (words : List Token.Spelling) : Parser.Slack where
  words := Token.Spelling.semicolon :: words
  loose := True
  semicolon := by
    rintro w ⟨⟩
    rfl
  loose_of_words _ := trivial

/- How two readings differ of which the second has a larger bound. -/
def slackBound : Parser.Slack :=
  ⟨[], True, Parser.Slack.none.semicolon, fun _ => trivial⟩

/- The words of two programs with a semicolon between them. -/
theorem parse_joined
    (hFirst : Program.parse first = .ok p)
    (hSecond : Program.parse second = .ok q)
    (hWords :
      ts.map spelling =
        first.map spelling
          ++ Token.Spelling.semicolon :: second.map spelling) :
    ∃ whole,
      Program.parse ts = .ok whole ∧ Stmt.SameAll (p ++ q) whole := by
  have hLength : ts.length = first.length + 1 + second.length := by
    have hLengths := congrArg List.length hWords
    simp only [List.length_map, List.length_append, List.length_cons]
      at hLengths
    omega
  have hBound :
      parseBound ts = parseBound first + parseBound second := by
    unfold parseBound
    omega
  have hPlace :
      (slackBefore (second.map spelling)).Beside (.start first)
        (.start ts) :=
    ⟨hWords, rfl⟩
  rcases run_of_parse hFirst with ⟨after, hRun⟩
  rcases run_of_parse hSecond with ⟨last, hLast⟩
  rcases Parser.run_statements_before trivial hPlace hRun
      (parseBound second) with
    ⟨p', ⟨before, rest⟩, less, hSame, hAfter, hNil, hLess, hEq⟩
  have hRest := hAfter.rest
  rw [hNil] at hRest
  change rest.map spelling = _ :: second.map spelling at hRest
  cases rest with
  | nil => cases hRest
  | cons t rest =>
      rcases List.cons.inj hRest with ⟨hSemicolon, hBehind⟩
      have hPositive : 0 < parseBound second := by
        unfold parseBound
        omega
      rcases Nat.exists_eq_add_of_le (show 2 ≤ less by omega) with
        ⟨fewer, rfl⟩
      have hMore : slackBound.Bounds (parseBound second) (fewer + 1) :=
        ⟨by omega, .inr trivial⟩
      have hStart :
          slackBound.Beside (.start second) ⟨some t, rest⟩ :=
        ⟨by rw [slackBound, List.append_nil]; exact hBehind,
          Parser.signMayFollow_semicolon hSemicolon⟩
      have hBoth := Parser.tracks_statements rfl hMore hStart
      unfold Parser.Tracks at hBoth
      rw [hLast] at hBoth
      rw [Nat.add_comm 2 fewer,
        Parser.run_statements_semicolon hSemicolon] at hEq
      unfold Program.parse
      rw [hBound, hEq]
      generalize (Parser.statements (fewer + 1)).run _ = right at hBoth
      cases hBoth with
      | @ok _ q' _ _ _ hSameSecond =>
          refine ⟨p' ++ q', rfl, ?_⟩
          unfold Stmt.SameAll at hSame hSameSecond ⊢
          rw [Stmt.unplacedAll_eq_map] at hSame hSameSecond ⊢
          rw [Stmt.unplacedAll_eq_map] at hSame hSameSecond ⊢
          rw [List.map_append, List.map_append, hSame, hSameSecond]

end Program
end StackScript
