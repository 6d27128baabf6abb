import StackScript.Proofs.Token.Layout
import StackScript.Proofs.Twin.Labels
import StackScript.Proofs.Twin.Statement

/-
  Layout does not matter.

  Two texts that lay out the same words are read as the same
  words, hence as the same trees up to places, and make the
  same code up to the marks of functions. If one is refused,
  so is the other, and the errors differ in places alone.

  Key definitions include:
    * `Code.SameWords`
    * `BuildError.Same`

  Key theorems include:
    * `Program.agree_made`
    * `Token.LaysOut.build_same`
-/

namespace StackScript

------------------------------------------------------------
-- Programs
------------------------------------------------------------

/- Two streams differ in the marks of functions alone. -/
def Code.SameWords : Code → Code → Prop :=
  Code.SameUnder id fun _ => 0

/- The same numbers of hidden names, and marks of any kind. -/
def Numbering.anyMarks : Numbering where
  hidden n n' := n' = n
  mark _ _ := True
  plain _ := True
  hidden_succ h := congrArg Nat.succ h
  mark_succ _ := trivial

theorem Numbering.anyMarks_agrees :
    Numbering.anyMarks.Agrees id fun _ => 0 where
  hidden _ _ h := congrArg hiddenName h
  mark _ _ _ := rfl

/- The code that a program makes, or why it makes none. -/
def Program.made
    (p : Program)
    (routines : Nat) : Except CompileError Code :=
  match p.compile ⟨0, routines⟩ with
  | .ok code _ => .ok code
  | .error e _ => .error e

theorem Program.agree_made_unplaced
    (p : Program)
    (routines : Nat) :
    Agree CompileError.Same Code.SameWords (p.made routines)
      (p.unplaced.made 0) := by
  have hBoth :=
    p.pairs_compile Numbering.anyMarks_agrees (fun _ _ => trivial)
      ⟨0, routines⟩ ⟨0, 0⟩ ⟨rfl, trivial⟩
  unfold Program.made
  generalize p.compile _ = left at hBoth
  generalize p.unplaced.compile _ = right at hBoth
  cases left with
  | ok code s =>
      cases right with
      | ok => exact hBoth.1
      | error => exact hBoth.elim
  | error e s =>
      cases right with
      | ok => exact hBoth.elim
      | error => exact hBoth.1

/- Programs that differ in places alone make the same code. -/
theorem Program.agree_made
    {p p' : Program}
    (hSame : p'.unplaced = p.unplaced)
    (routines routines' : Nat) :
    Agree CompileError.Same Code.SameWords (p.made routines)
      (p'.made routines') := by
  have hLeft := p.agree_made_unplaced routines
  have hRight := p'.agree_made_unplaced routines'
  rw [hSame] at hRight
  generalize p.unplaced.made 0 = middle at hLeft hRight
  generalize p.made routines = left at hLeft
  generalize p'.made routines' = right at hRight
  cases left with
  | ok code =>
      cases middle with
      | error => exact hLeft.elim
      | ok =>
          cases right with
          | error => exact hRight.elim
          | ok => exact hRight.symm.trans hLeft
  | error e =>
      cases middle with
      | ok => exact hLeft.elim
      | error =>
          cases right with
          | ok => exact hRight.elim
          | error => exact hRight.symm.trans hLeft

------------------------------------------------------------
-- Texts
------------------------------------------------------------

/- An error with its place forgotten. -/
def BuildError.unplaced : BuildError → BuildError
| .parse e => .parse e.unplaced
| .compile e => .compile e.unplaced

/- Two errors differ in their places alone. -/
def BuildError.Same (e f : BuildError) : Prop :=
  f.unplaced = e.unplaced

/- The code of a text is made from the program that is read. -/
theorem build_eq_made
    (routines : Nat)
    (source : String) :
    (build routines source).1 =
      match Program.parse (Token.scan source) with
      | .error e => .error (.parse e)
      | .ok p => (p.made routines).mapError .compile := by
  unfold build Program.made
  cases Program.parse (Token.scan source) with
  | error e => rfl
  | ok p =>
      dsimp only
      cases p.compile ⟨0, routines⟩ with
      | ok code fresh => rfl
      | error e fresh => rfl

/- Texts of the same words make the same code. -/
theorem agree_build
    {first second : String}
    (hSame :
      (Token.scan second).map Token.spelling =
        (Token.scan first).map Token.spelling)
    (routines routines' : Nat) :
    Agree BuildError.Same Code.SameWords (build routines first).1
      (build routines' second).1 := by
  have hParse := Program.agree_parse hSame
  rw [build_eq_made, build_eq_made]
  generalize Program.parse (Token.scan first) = left at hParse
  generalize Program.parse (Token.scan second) = right at hParse
  cases left with
  | error e =>
      cases right with
      | ok => exact hParse.elim
      | error e' => exact congrArg BuildError.parse hParse
  | ok p =>
      cases right with
      | error => exact hParse.elim
      | ok p' =>
          have hMade := Program.agree_made hParse routines routines'
          dsimp only
          generalize p.made routines = code at hMade
          generalize p'.made routines' = code' at hMade
          cases code with
          | ok =>
              cases code' with
              | ok => exact hMade
              | error => exact hMade.elim
          | error =>
              cases code' with
              | ok => exact hMade.elim
              | error => exact congrArg BuildError.compile hMade

namespace Token

/-
  Two texts that lay out the same words are read as these
  words, and make the same code but for marks, or fail with
  the same error but for its place.
-/
theorem LaysOut.build_same
    {ws : List Spelling}
    {first second : String}
    (hKnown : ∀ w ∈ ws, Spells w.kind w.text.toList)
    (hFirst : LaysOut ws first.toList)
    (hSecond : LaysOut ws second.toList)
    (routines routines' : Nat) :
    (scan first).map spelling = ws ∧
      (scan second).map spelling = ws ∧
      Agree BuildError.Same Code.SameWords (build routines first).1
        (build routines' second).1 := by
  have hLeft := spellings_of_laysOut hKnown hFirst
  have hRight := spellings_of_laysOut hKnown hSecond
  exact ⟨hLeft, hRight,
    agree_build (hRight.trans hLeft.symm) routines routines'⟩

/- A function whose body is a text with a hash in it. -/
def hashWords : List Spelling :=
  [⟨.keyword, "function"⟩, ⟨.identifier, "f"⟩, ⟨.operator, "("⟩,
   ⟨.operator, ")"⟩, ⟨.operator, "\x7b"⟩,
   ⟨.stringLiteral, "'#'"⟩, ⟨.operator, "\x7d"⟩]

/- These words with one blank between two neighbours. -/
def hashText : String :=
  "function f ( ) \x7b '#' \x7d"

/- These words with comments and other blanks around them. -/
def hashLines : String :=
  "# f\nfunction\tf#'\n(\r\n) \x7b '#' # \x7d\n\x7d\n"

/-
  The hash in the quotes opens no comment, and the quote and
  the brace in comments are no words.
-/
theorem LaysOut.build_same_hash :
    (scan hashText).map spelling = hashWords ∧
      (scan hashLines).map spelling = hashWords ∧
      Agree BuildError.Same Code.SameWords (build 0 hashText).1
        (build 7 hashLines).1 := by
  have hScan : (scan hashText).map spelling = hashWords := by
    cbv
  have hUnknown : ∀ t ∈ scan hashText, t.kind ≠ .unknown := by
    intro t ht
    have hMem : spelling t ∈ hashWords := by
      rw [← hScan]
      exact List.mem_map_of_mem ht
    have hKinds : ∀ w ∈ hashWords, w.kind ≠ .unknown := by
      decide
    exact hKinds _ hMem
  have hKnown : ∀ w ∈ hashWords, Spells w.kind w.text.toList := by
    intro w hw
    rw [← hScan] at hw
    rcases List.mem_map.1 hw with ⟨t, ht, rfl⟩
    exact spells_of_mem_scan ht (hUnknown t ht)
  have hBlank : IsGap [' '] :=
    .space (by decide) .nil
  have hOne : [' '] ≠ [] := List.cons_ne_nil _ _
  have hBlanks :
      hashText.toList =
        [] ++ ("function".toList ++ ([' '] ++ ("f".toList
          ++ ([' '] ++ ("(".toList ++ ([' '] ++ (")".toList
          ++ ([' '] ++ ("\x7b".toList ++ ([' '] ++ ("'#'".toList
          ++ ([' '] ++ ("\x7d".toList ++ []))))))))))))) := by
    decide
  have hComments :
      hashLines.toList =
        '#' :: ([' ', 'f'] ++ '\n' :: []) ++ ("function".toList
          ++ (['\t'] ++ ("f".toList
          ++ ('#' :: (['\''] ++ '\n' :: []) ++ ("(".toList
          ++ (['\r', '\n'] ++ (")".toList
          ++ ([' '] ++ ("\x7b".toList
          ++ ([' '] ++ ("'#'".toList
          ++ (' ' :: '#' :: ([' ', '\x7d'] ++ '\n' :: [])
          ++ ("\x7d".toList ++ ['\n']))))))))))))) := by
    decide
  have hFirst : LaysOut hashWords hashText.toList := by
    rw [hBlanks]
    exact .cons .nil (.cons hBlank hOne (.cons hBlank hOne
      (.cons hBlank hOne (.cons hBlank hOne (.cons hBlank hOne
      (.cons hBlank hOne (.nil .nil)))))))
  have hSecond : LaysOut hashWords hashLines.toList := by
    rw [hComments]
    exact .cons (.comment (by decide) .nil)
      (.cons (.space (by decide) .nil) (List.cons_ne_nil _ _)
      (.cons (.comment (by decide) .nil) (List.cons_ne_nil _ _)
      (.cons (.space (by decide) (.space (by decide) .nil))
        (List.cons_ne_nil _ _)
      (.cons hBlank hOne (.cons hBlank hOne
      (.cons (.space (by decide) (.comment (by decide) .nil))
        (List.cons_ne_nil _ _)
      (.nil (.space (by decide) .nil))))))))
  exact LaysOut.build_same hKnown hFirst hSecond 0 7

end Token
end StackScript
