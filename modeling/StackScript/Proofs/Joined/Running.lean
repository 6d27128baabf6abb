import StackScript.Proofs.Joined.Making
import StackScript.Proofs.Meaning.CallFrame

/-
  Running two texts as one.

  The run of the whole goes abreast with the run of the first
  text until that one stands at its halt. There the whole
  goes on with the code of the second text, a distance away,
  and abreast with the run of the second text in the machine
  that the first one left. So the whole ends if and only if
  the second text does, and it ends alike.

  Key definitions include:
    * `Outcome.EndsAs`

  Key theorems include:
    * `Program.pc_of_finished`
    * `Machine.Abreast.arrives_of_finished`
    * `Session.Held.execute_joined`
-/

namespace StackScript

variable {R : Routine → Routine → Prop}
variable {shift bound : Nat}
variable {code code' : Code}

------------------------------------------------------------
-- Ends of Runs
------------------------------------------------------------

/-
  Two runs come to the same kind of end in twin machines, or
  fail with twin errors; a failure may leave a hidden
  variable with another number in the one than in the other.
-/
inductive Outcome.EndsAs
    (R : Routine → Routine → Prop)
    (shift : Nat) :
    Outcome → Outcome → Prop
| done
    {ending : Ending}
    {m m' : Machine}
    (h : m.Twin R Eq shift m') :
    EndsAs R shift (.done ending m) (.done ending m')
| failed
    {e e' : EvalError}
    {m m' : Machine}
    (hError : e.Twin R e')
    (h : m.LeftTwin R shift m') :
    EndsAs R shift (.failed e m) (.failed e' m')

/- Twin outcomes of runs that misuse nothing, up to a relation. -/
theorem Outcome.Twin.endsAs
    {Q : Routine → Routine → Prop}
    {outcome outcome' : Outcome}
    (h : outcome.Twin Q shift outcome')
    (hWeaker : ∀ r r', Q r r' → R r r')
    (hEnds : outcome ≠ .unfinished)
    (hMisuse : ∀ e m, outcome = .failed e m → e.isMisuse = false) :
    outcome.EndsAs R shift outcome' := by
  cases h with
  | done h => exact .done (h.mono hWeaker)
  | unfinished => exact absurd rfl hEnds
  | @failed e e' m m' hError h =>
      refine .failed ?_ (h.mono hWeaker)
      rcases hError with hTwin | ⟨hLeft, _⟩
      · exact hTwin.mono hWeaker
      · rw [hMisuse e m rfl] at hLeft
        cases hLeft

/- Of twin outcomes both are unfinished or none is. -/
theorem Outcome.Twin.unfinished_iff
    {outcome outcome' : Outcome}
    (h : outcome.Twin R shift outcome') :
    outcome = .unfinished ↔ outcome' = .unfinished := by
  cases h with
  | done | failed => exact ⟨nofun, nofun⟩
  | unfinished => exact Iff.rfl

theorem Outcome.EndsAs.ends
    {outcome outcome' : Outcome}
    (h : outcome.EndsAs R shift outcome') :
    outcome' ≠ .unfinished := by
  cases h with
  | done | failed => exact nofun

/- A program that fails misuses nothing. -/
theorem Program.isMisuse_of_failed
    {lib : Library}
    {p : Program}
    {f g : Fresh}
    {m left : Machine}
    {e : EvalError}
    (hCode : p.compile f = .ok code g)
    (hSound : lib.Sound f.routines)
    (hAll : m.scopes.All (lib.Has f.routines))
    (hRun : m.execute bound code = .failed e left) :
    e.isMisuse = false := by
  have hOrderly : (m.execute bound code).Orderly _ m.state m.stack :=
    Program.orderly_run hCode hSound hAll bound m.stack
  rw [hRun] at hOrderly
  exact hOrderly.1

/- A program that finishes has come to the halt behind its body. -/
theorem Program.pc_of_finished
    {lib : Library}
    {p : Program}
    {f g : Fresh}
    {body : Code}
    {m left : Machine}
    (hCode : p.compile f = .ok (body ++ Code.bare .halt) g)
    (hSound : lib.Sound f.routines)
    (hAll : m.scopes.All (lib.Has f.routines))
    (hRun :
      m.execute bound (body ++ Code.bare .halt) =
        .done .finished left) :
    left.pc = body.length + 1 := by
  have hHalt :
      (body ++ Code.bare .halt).Holds body.length (Code.bare .halt) :=
    Code.holds_of_eq (List.append_nil _).symm
  have hState : m.state.scopes.All (lib.Has f.routines) := hAll
  rcases Program.follows_eval True hCode hSound
      (fun hFalse => absurd trivial hFalse) hState bound m.stack with
    ⟨_, hBody, hFollows⟩
  cases List.append_cancel_right hBody
  rcases hFollows with hFollows | ⟨_, k, e, after, hFails, _⟩
  · generalize p.eval _ bound f.routines m.state = result at hFollows
    cases result with
    | ok signal τ =>
        rcases hFollows with ⟨after, hReach, hArrive⟩
        cases signal with
        | next =>
            cases hArrive
            rcases hReach.stops (Machine.step_halt hHalt) with ⟨k, hEnd⟩
            cases Machine.eq_of_run hRun hEnd nofun nofun
            rfl
        | ret v =>
            rcases hArrive with ⟨pc, hAt, rfl⟩
            rcases hReach.stops (Machine.step_ret hAt) with ⟨k, hEnd⟩
            cases Machine.eq_of_run hRun hEnd nofun nofun
        | breakLoop | continueLoop =>
            rcases hArrive with ⟨l, hl, _⟩
            cases hl
    | error stop τ =>
        cases stop with
        | failed e =>
            rcases hFollows with ⟨k, after, hFails, _⟩
            cases Machine.eq_of_run hRun hFails nofun nofun
        | unfinished => cases hRun.symm.trans hFollows
        | meaningless => exact hFollows.elim
  · cases Machine.eq_of_run hRun hFails nofun nofun

------------------------------------------------------------
-- The First Text
------------------------------------------------------------

/-
  A run that stops behind the place that two runs go abreast
  to has come there, and so has the other.
-/
theorem Machine.Abreast.arrives_of_finished
    {opened : Prop}
    {stop : Nat}
    {ending : Ending}
    {m m' left : Machine}
    (h : Machine.Abreast R shift opened stop bound code code' m m')
    (hRun : Machine.run bound code m = .done ending left)
    (hBehind : stop < left.pc) :
    ∃ after after',
      Machine.Reaches code m after ∧
        Machine.Reaches code' m' after' ∧
        after.Twin R Eq shift after' ∧ after.pc = stop := by
  cases h with
  | arrives _ hLeft hRight hTwin hPlace =>
      exact ⟨_, _, hLeft, hRight, hTwin, hPlace⟩
  | ends _ hInside =>
      have hMost := hInside ending left hRun
      omega

------------------------------------------------------------
-- Parts of a Whole
------------------------------------------------------------

section Parts

variable {P : Routine → Prop}
variable {body front body' back rest : Code}
variable {m m' left : Machine}

/- A machine of some functions is its own twin. -/
theorem Machine.All.twin_moved
    (h : m.All P) :
    m.Twin (Routine.Moved P) Eq 0 m := by
  apply Machine.Twin.mono ?_ (Machine.twin_only_iff.2 ⟨rfl, h⟩)
  rintro r _ ⟨rfl, hHere⟩
  exact .same hHere

/- Streams of the same pieces with moved functions run abreast. -/
theorem Machine.abreast_moved
    {opened : Prop}
    {stop : Nat}
    {cut : Nat → Prop}
    (hClosed : Routine.Closed P)
    (hParallel :
      Code.Parallel Numbering.renumbered (Routine.Moved P) shift opened
        stop cut code code')
    (hCut : cut m.pc)
    (hTwin : m.Twin (Routine.Moved P) Eq shift m')
    (bound : Nat) :
    Machine.Abreast (Routine.Moved P) shift opened stop bound code code'
      m m' :=
  Machine.abreast_run Routine.tagged_moved Numbering.renumbered_plain
    (fun _ _ hMoved => hMoved.enters hClosed) hParallel hCut hTwin bound

/-
  When the first part finishes, the whole has come to its
  end, and stands there as the machine that was left.
-/
theorem Machine.reaches_of_finished
    (hClosed : Routine.Closed P)
    (hFirst : Code.Moved P 0 body front)
    (hRest : rest ≠ [])
    (hAll : m.All P)
    (hRun :
      m.execute bound (body ++ Code.bare .halt) =
        .done .finished left)
    (hPlace : left.pc = body.length + 1) :
    ∃ middle,
      Machine.Reaches (front ++ rest) { m with pc := 0 } middle ∧
        Machine.Twin (Routine.Moved P) Eq front.length
          { left with pc := 0 } middle := by
  have hParallel :
      Code.Parallel Numbering.renumbered (Routine.Moved P) 0 True
        body.length _ (body ++ Code.bare .halt)
        ([] ++ (front ++ rest)) :=
    hFirst.parallel rfl (.inr ⟨trivial, nofun, hRest⟩)
  have hStart : Machine.All P { m with pc := 0 } :=
    ⟨hAll.scopes, hAll.stack⟩
  have hAbreast :=
    Machine.abreast_moved hClosed hParallel (Code.cut_zero hFirst.row)
      hStart.twin_moved bound
  rcases hAbreast.arrives_of_finished hRun (by omega) with
    ⟨after, after', hLeft, hRight, hTwin, hAt⟩
  have hHalt :
      (body ++ Code.bare .halt).Holds after.pc (Code.bare .halt) := by
    rw [hAt]
    exact Code.holds_of_eq (List.append_nil _).symm
  have hStep :
      Machine.step (body ++ Code.bare .halt)
          (after.state.at after.pc after.stack) =
        _ :=
    Machine.step_halt hHalt
  rcases hLeft.stops hStep with ⟨k, hEnd⟩
  unfold Machine.execute at hRun
  cases Machine.eq_of_run hRun hEnd nofun nofun
  refine ⟨after', hRight, hTwin.stack, hTwin.scopes, ?_, hTwin.counts,
    hTwin.host⟩
  rw [hTwin.pc, hAt, hFirst.row.length_eq, Nat.add_comm]

/- From there on, the whole runs like the second part. -/
theorem Machine.twin_run_behind
    (hClosed : Routine.Closed P)
    (hSecond : Code.Moved P front.length body' back)
    (hTwin :
      Machine.Twin (Routine.Moved P) Eq front.length
        { m with pc := 0 } m')
    (bound : Nat) :
    (m.execute bound (body' ++ Code.bare .halt)).Twin
      (Routine.Moved P) front.length
      (Machine.run bound (front ++ (back ++ Code.bare .halt)) m') := by
  have hWhole :
      Code.Moved P front.length (body' ++ Code.bare .halt)
        (back ++ Code.bare .halt) :=
    hSecond.thenBare rfl
  have hParallel :
      Code.Parallel Numbering.renumbered (Routine.Moved P)
        front.length False _ _ (body' ++ Code.bare .halt ++ [])
        (front ++ (back ++ Code.bare .halt ++ [])) :=
    hWhole.parallel rfl (.inl ⟨rfl, rfl⟩)
  rw [List.append_nil, List.append_nil] at hParallel
  cases
    Machine.abreast_moved hClosed hParallel (Code.cut_zero hWhole.row)
      hTwin bound with
  | ends hOutcome _ => exact hOutcome
  | arrives hOpened => exact hOpened.elim

end Parts

------------------------------------------------------------
-- Sessions
------------------------------------------------------------

/-
  Two texts that are built one after the other are built as
  one with a semicolon on a line of its own between them. If
  the first one runs to its end, then running the second one
  in the machine that is left ends if and only if running the
  whole in the machine of the start does, and both end alike:
  with the same host, with twin operands and scopes, and with
  the same error if they fail.
-/
theorem Session.Held.execute_joined
    {s : Session}
    {first second : String}
    {code₁ code₂ : Code}
    {middle last : Nat}
    {left : Machine}
    (h : s.Held)
    (hFirst : build s.mark first = (.ok code₁, middle))
    (hSecond : build middle second = (.ok code₂, last))
    (hRun : s.machine.execute bound code₁ = .done .finished left) :
    ∃ code shift,
      build s.mark (joined first second) = (.ok code, last) ∧
        (∀ n, left.execute n code₂ ≠ .unfinished →
          ∃ k,
            (left.execute n code₂).EndsAs Routine.Renumbered shift
              (s.machine.execute k code)) ∧
        ∀ k, s.machine.execute k code ≠ .unfinished →
          ∃ n,
            (left.execute n code₂).EndsAs Routine.Renumbered shift
              (s.machine.execute k code) := by
  rcases exists_of_build hFirst with ⟨p, g, _, hCode, rfl⟩
  rcases exists_of_build hSecond with ⟨q, g', _, hCode', rfl⟩
  have hHeld : Session.Held ⟨left, g.routines⟩ := by
    have hSession :
        execute bound { s with mark := g.routines } code₁ =
          some (none, ⟨left, g.routines⟩) := by
      unfold execute
      rw [hRun]
    exact h.ran (Nat.le_refl _) hCode hSession
  rcases h with ⟨lib, hSound, hAll⟩
  rcases hHeld with ⟨lib', hSound', hAll'⟩
  rcases build_joined (lib.Has s.mark) hFirst hSecond with
    ⟨body, body', front, back, rfl, rfl, hFront, hBack, hBuild⟩
  have hPlace :=
    Program.pc_of_finished hCode hSound hAll.scopes hRun
  have hSome : back ++ Code.bare .halt ≠ [] := by
    simp [Code.bare]
  rcases Machine.reaches_of_finished hSound.has_routines hFront hSome
      hAll hRun hPlace with
    ⟨m, hReach, hTwin⟩
  have hBoth (n : Nat) :=
    Machine.twin_run_behind hSound.has_routines hBack hTwin n
  have hEnds (n : Nat)
      (hSomeEnd :
        left.execute n (body' ++ Code.bare .halt) ≠ .unfinished) :
      ∃ k,
        (left.execute n (body' ++ Code.bare .halt)).EndsAs
          Routine.Renumbered front.length
          (s.machine.execute k (front ++ (back ++ Code.bare .halt))) := by
    have hAlike :=
      (hBoth n).endsAs (fun _ _ hMoved => hMoved.renumbered) hSomeEnd
        fun _ _ => Program.isMisuse_of_failed hCode' hSound'
          hAll'.scopes
    rcases hReach.2 n hAlike.ends with ⟨k, hSame⟩
    rw [← hSame] at hAlike
    exact ⟨k, hAlike⟩
  refine ⟨_, front.length, hBuild, hEnds, ?_⟩
  intro k hSomeEnd
  have hLeft :
      left.execute k (body' ++ Code.bare .halt) ≠ .unfinished := by
    intro hNone
    exact hSomeEnd (hReach.1 k ((hBoth k).unfinished_iff.1 hNone))
  rcases hEnds k hLeft with ⟨more, hAlike⟩
  have hSame :
      s.machine.execute more (front ++ (back ++ Code.bare .halt)) =
        s.machine.execute k (front ++ (back ++ Code.bare .halt)) :=
    Machine.run_unique hAlike.ends hSomeEnd
  rw [hSame] at hAlike
  exact ⟨k, hAlike⟩

/- A text that keeps an old value in a hidden variable. -/
def keepingText : String :=
  "new x = true; new y = x++"

/- The tree of that text. -/
def keepingTree : Program :=
  [.define "x" (.variable "true" ⟨1, 9⟩) ⟨1, 1⟩,
    .define "y" (.post .increment (.variable "x" ⟨1, 23⟩) ⟨1, 24⟩)
      ⟨1, 15⟩]

/- A text that fails while it keeps one. -/
def failingText : String :=
  "new z; new w = z++"

/- The tree of that text. -/
def failingTree : Program :=
  [.declare "z" ⟨1, 1⟩,
    .define "w" (.post .increment (.variable "z" ⟨1, 16⟩) ⟨1, 17⟩)
      ⟨1, 8⟩]

/-
  The second text fails with the scope of its first hidden
  variable open, and the whole with that of its second.
-/
theorem Session.Held.execute_joined_failing :
    ∃ code₁ code₂ code left after after' k e e',
      build 0 keepingText = (.ok code₁, 0) ∧
        build 0 failingText = (.ok code₂, 0) ∧
        build 0 (joined keepingText failingText) = (.ok code, 0) ∧
        (Machine.new {} []).execute 30 code₁ = .done .finished left ∧
        left.execute 30 code₂ = .failed e after ∧
        (Machine.new {} []).execute k code = .failed e' after' ∧
        e.Twin Routine.Renumbered e' ∧
        after.scopes.top = [("__$temp0", .null)] ∧
        after.scopes.LeftTwin Routine.Renumbered after'.scopes := by
  have hParse :
      Program.parse (Token.scan keepingText) = .ok keepingTree := by
    cbv
  have hParse' :
      Program.parse (Token.scan failingText) = .ok failingTree := by
    cbv
  have hRuns :
      ∃ code₁ g code₂ g' left e after,
        keepingTree.compile ⟨0, 0⟩ = .ok code₁ g ∧ g.routines = 0 ∧
          failingTree.compile ⟨0, 0⟩ = .ok code₂ g' ∧
          g'.routines = 0 ∧
          (Machine.new {} []).execute 30 code₁ =
            .done .finished left ∧
          left.execute 30 code₂ = .failed e after ∧
          after.scopes.top = [("__$temp0", .null)] :=
    ⟨_, _, _, _, _, _, _, rfl, rfl, rfl, rfl, rfl, rfl, rfl⟩
  rcases hRuns with
    ⟨code₁, g, code₂, g', left, e, after, hCode, hMark, hCode', hMark',
      hRun, hFails, hTop⟩
  have hFirst := build_of_compile hParse hCode
  have hSecond := build_of_compile hParse' hCode'
  rw [hMark] at hFirst
  rw [hMark'] at hSecond
  have hHeld : (Session.new {} []).Held := (Reached.new {} []).held
  rcases Session.Held.execute_joined hHeld hFirst hSecond hRun with
    ⟨code, shift, hBuild, hForth, _⟩
  have hEnds : left.execute 30 code₂ ≠ .unfinished := by
    rw [hFails]
    intro hNone
    cases hNone
  rcases hForth 30 hEnds with ⟨k, hAlike⟩
  rw [hFails] at hAlike
  generalize hWhole : (Session.new {} []).machine.execute k code = outcome
    at hAlike
  cases hAlike with
  | failed hError hLeft =>
      exact ⟨code₁, code₂, code, left, after, _, k, e, _, hFirst,
        hSecond, hBuild, hRun, hFails, hWhole, hError, hTop,
        hLeft.scopes⟩

end StackScript
