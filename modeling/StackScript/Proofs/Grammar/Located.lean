import StackScript.Proofs.Emission.Outcome
import StackScript.Proofs.Grammar.Placed
import StackScript.Proofs.Token.Coverage

/-
  Errors and trees point at tokens.

  A list without tokens is read as the empty program. In any
  other every error points at a token and every node of a
  tree is at one. The tokens of a text stand where they
  claim, so what is reported of a text is the row and column
  of one of its tokens; what the making of code reports is a
  token too, a stray `break` or `continue`.

  Key definitions include:
    * `Token.StandsIn`
    * `BuildError.location`

  Key theorems include:
    * `Program.points_parse`
    * `Token.standsIn_scan`
    * `Program.located_of_build`
-/

namespace StackScript

------------------------------------------------------------
-- Lists of Tokens
------------------------------------------------------------

namespace Program

/- A list without tokens is the empty program. -/
theorem parse_nil : Program.parse [] = .ok [] :=
  rfl

/-
  Reading a list of tokens points at them: an error does, or
  else every node of the tree.
-/
theorem points_parse (tokens : List Token) :
    match Program.parse tokens with
    | .ok p =>
        ∀ l ∈ Stmt.placesAll p, ∃ t ∈ tokens, t.location = l
    | .error e => ∃ t ∈ tokens, t.location = e.location := by
  cases tokens with
  | nil =>
      rw [parse_nil]
      exact nofun
  | cons t rest =>
      have hWithin :
          (Cursor.start (t :: rest)).Within
            fun l => ∃ u ∈ t :: rest, u.location = l :=
        ⟨⟨t, List.mem_cons_self, rfl⟩, fun u hMem => ⟨u, hMem, rfl⟩⟩
      have hAll :
          Parser.Points (fun l => ∃ u ∈ t :: rest, u.location = l)
            (Parser.statements (parseBound (t :: rest))) _ :=
        Parser.points_statements
      have hPoints := hAll _ hWithin
      unfold Program.parse
      cases hRun :
          (Parser.statements (parseBound (t :: rest))).run
            (.start (t :: rest)) with
      | error e =>
          rw [hRun] at hPoints
          exact hPoints
      | ok r =>
          rw [hRun] at hPoints
          exact hPoints.1

end Program

------------------------------------------------------------
-- Source Texts
------------------------------------------------------------

namespace Token

/-
  A token stands in a text: at its row and column, which the
  text in front of it counts up to, its characters come next.
-/
def StandsIn
    (t : Token)
    (cs : List Char) : Prop :=
  ∃ before behind,
    cs = before ++ t.text.toList ++ behind ∧
      t.text.toList ≠ [] ∧
      t.location = .behind before

/- Tokens that cover a text stand in it. -/
theorem Covers.standsIn
    {before cs : List Char}
    {ts : List Token}
    (h : Covers before ts cs) :
    ∀ t ∈ ts, t.StandsIn (before ++ cs) := by
  induction h with
  | nil => exact nofun
  | @cons before gap behind t ts hGap hFits hResumes hRest ih =>
      intro u hMem
      rcases List.mem_cons.1 hMem with rfl | hLater
      · exact ⟨before ++ gap, behind, by simp, hFits.nonempty,
          hFits.location⟩
      · have hStands := ih u hLater
        simpa using hStands

/- The tokens of a text stand in it. -/
theorem standsIn_scan (source : String) :
    ∀ t ∈ scan source, t.StandsIn source.toList := by
  have hCovers : Covers [] (scan source) source.toList :=
    covers_scanFrom (Nat.le_refl _)
  exact hCovers.standsIn

/- An exit that a token is stands where the token does. -/
theorem exists_of_mem_exits
    {ts : List Token}
    {mark : Bool × Location}
    (h : mark ∈ exits ts) :
    ∃ t ∈ ts, t.location = mark.2 := by
  rcases List.mem_filterMap.1 h with ⟨t, hMem, hExit⟩
  refine ⟨t, hMem, ?_⟩
  unfold exit? at hExit
  split at hExit
  · cases hExit
    rfl
  split at hExit
  · cases hExit
    rfl
  · cases hExit

end Token

/- The place that an error of making code points at. -/
def CompileError.location : CompileError → Location
| .breakOutsideLoop l | .continueOutsideLoop l => l
| .unknownOperator _ _ l | .invalidUpdateTarget _ _ l => l
| .invalidLiteral _ l => l

/- The place that an error points at. -/
def BuildError.location : BuildError → Location
| .parse e => e.location
| .compile e => e.location

theorem Exit.location_error (x : Exit) :
    x.error.location = x.place := by
  unfold Exit.error
  split
  · rfl
  · rfl

/- What is reported of a text points at one of its tokens. -/
theorem exists_token_of_build
    {routines : Nat}
    {source : String}
    {e : BuildError}
    (h : (build routines source).1 = .error e) :
    ∃ t ∈ Token.scan source, t.location = e.location := by
  have hPoints := Program.points_parse (Token.scan source)
  unfold build at h
  cases hParse : Program.parse (Token.scan source) with
  | error error =>
      rw [hParse] at h hPoints
      cases h
      exact hPoints
  | ok p =>
      have hMeets :=
        Program.compile_meets (Program.formed_of_parse hParse)
      rw [hParse] at h
      dsimp only at h
      cases hStray : p.stray? with
      | none =>
          rw [hStray] at hMeets
          rcases hMeets ⟨0, routines⟩ with ⟨code, fresh, hOk⟩
          rw [hOk] at h
          cases h
      | some x =>
          rw [hStray] at hMeets
          rcases hMeets ⟨0, routines⟩ with ⟨fresh, hError⟩
          rw [hError] at h
          cases h
          rcases Program.run_of_parse hParse with ⟨after, hRun⟩
          have hMarks :
              p.exits.map Exit.mark = Token.exits (Token.scan source) :=
            (Parser.derives_of_statements hRun).marks_exits false
          have hMem : x.mark ∈ p.exits.map Exit.mark :=
            List.mem_map_of_mem (List.mem_of_find?_eq_some hStray)
          rw [hMarks] at hMem
          change ∃ t ∈ Token.scan source, t.location = x.error.location
          rw [x.location_error]
          exact Token.exists_of_mem_exits hMem

/-
  Whatever the tokens are: an error points at one of them,
  so there is one, and otherwise every node of the tree is
  at one of them. Of a text, every error that is reported
  points at a row and a column where a token of the text
  stands.
-/
theorem Program.located_of_build
    (tokens : List Token)
    (routines : Nat)
    (source : String) :
    (∀ e, Program.parse tokens = .error e →
      tokens ≠ [] ∧ ∃ t ∈ tokens, t.location = e.location) ∧
    (∀ p, Program.parse tokens = .ok p →
      ∀ l ∈ Stmt.placesAll p, ∃ t ∈ tokens, t.location = l) ∧
    Program.parse [] = .ok [] ∧
    ∀ e, (build routines source).1 = .error e →
      ∃ t ∈ Token.scan source,
        t.StandsIn source.toList ∧ t.location = e.location := by
  have hPoints := points_parse tokens
  refine ⟨?_, ?_, parse_nil, ?_⟩
  · intro e hError
    rw [hError] at hPoints
    rcases hPoints with ⟨t, hMem, hPlace⟩
    exact ⟨List.ne_nil_of_mem hMem, t, hMem, hPlace⟩
  · intro p hParse
    rw [hParse] at hPoints
    exact hPoints
  · intro e hError
    rcases exists_token_of_build hError with ⟨t, hMem, hPlace⟩
    exact ⟨t, hMem, Token.standsIn_scan source t hMem, hPlace⟩

/- A call that no text has, ending behind its parenthesis. -/
def endingTokens : List Token :=
  [⟨.identifier, "f", ⟨7, 7⟩⟩, ⟨.operator, "(", ⟨0, 9⟩⟩]

/- A text with a `break` in the row behind a comment. -/
def breakingText : String :=
  "x; # x\n  break"

/-
  The call misses an argument behind its last token, and the
  `break` a loop around it.
-/
theorem Program.located_of_build_ending :
    Program.parse endingTokens = .error (.unexpectedEnd ⟨0, 9⟩) ∧
    (∃ t ∈ endingTokens, t.location = ⟨0, 9⟩) ∧
    (build 0 breakingText).1 =
      .error (.compile (.breakOutsideLoop ⟨2, 3⟩)) ∧
    ∃ t ∈ Token.scan breakingText,
      t.StandsIn breakingText.toList ∧ t.location = ⟨2, 3⟩ := by
  have hEnd :
      Program.parse endingTokens =
        .error (.unexpectedEnd ⟨0, 9⟩) := by
    cbv
  have hBuild :
      (build 0 breakingText).1 =
        .error (.compile (.breakOutsideLoop ⟨2, 3⟩)) := by
    cbv
  rcases Program.located_of_build endingTokens 0 breakingText with
    ⟨hError, _, _, hReported⟩
  exact ⟨hEnd, (hError _ hEnd).2, hBuild, hReported _ hBuild⟩

end StackScript
