import StackScript.Machine.Session
import StackScript.Proofs.Meaning.Correctness

/-
  Compiled programs never misuse the machine.

  Programs are run one after the other in a session. Every
  function value that a session ever holds has the code of
  some tree, and so every run does what the evaluation of a
  tree does: it finds the operands and the scopes that it
  needs, and leaves those that were there before.

  Names are not restricted here. A program may use a hidden
  variable and fail because of it, but not by misuse.

  Key definitions include:
    * `Outcome.Orderly`
    * `Session.Reached`
    * `Session.Covered`
    * `Outcome.Respects`

  Key theorems include:
    * `Program.orderly_run`
    * `Session.Reached.covered`
    * `Session.Reached.respects_execute`
-/

namespace StackScript

variable {P : Routine → Prop}
variable {lib : Library}
variable {p : Program}
variable {code : Code}
variable {f g : Fresh}
variable {σ τ : State}
variable {stack : Stack}

------------------------------------------------------------
-- Orderly Runs
------------------------------------------------------------

/-
  A run ends in good order: at the end of its stream the
  operands and scopes are those of its start, a return adds
  one value, and an error that is no misuse leaves what was
  there below what the run added.
-/
def Outcome.Orderly
    (P : Routine → Prop)
    (σ : State)
    (stack : Stack) :
    Outcome → Prop
| .done .finished m => m.stack = stack ∧ σ.Leads P 0 m.state
| .done .returned m =>
    (∃ v, m.stack = v :: stack) ∧
      ∃ opened, σ.Leads P opened m.state
| .failed e m =>
    e.isMisuse = false ∧
      stack <:+ m.stack ∧
      ∃ opened, σ.Leads P opened m.state
| .unfinished => True

/- A failed run leaves scopes that began as those of the state. -/
theorem Machine.Leaves.leads
    {opened : Nat}
    {m : Machine}
    (h : m.Leaves τ stack)
    (hLeads : σ.Leads P opened τ) :
    ∃ more, σ.Leads P more m.state := by
  rcases h.2 with hState | ⟨number, v, hValue, hState⟩
  · rw [hState]
    exact ⟨opened, hLeads⟩
  · have hAll : v.All P := by
      rcases hValue with rfl | ⟨name, hName⟩
      · intro r hr
        cases hr
      · exact hLeads.all.get? hName
    rw [hState]
    exact ⟨opened + 1, hLeads.reach.hide, hLeads.all.hide hAll,
      hLeads.calls, hLeads.maxCalls⟩

/- A run that realizes an evaluation in its frame is orderly. -/
theorem Outcome.Realizes.orderly
    {outcome : Outcome}
    {result : EStateM.Result Stop State Signal}
    (h : outcome.Realizes stack result)
    (hKeeps : Eval.Keeps P (Signal.Fits P) σ result) :
    outcome.Orderly P σ stack := by
  cases h with
  | finished hStack =>
      rcases hKeeps with ⟨opened, hFits, hLeads⟩
      cases hFits
      exact ⟨hStack, hLeads⟩
  | @returned m v hStack =>
      rcases hKeeps with ⟨opened, _, hLeads⟩
      exact ⟨⟨v, hStack⟩, opened, hLeads⟩
  | @failed m e τ hLeaves =>
      rcases hKeeps with ⟨hMisuse, opened, hLeads⟩
      exact ⟨hMisuse e rfl, hLeaves.1, hLeaves.leads hLeads⟩

/- Every run of a compiled program is orderly. -/
theorem Program.orderly_run
    (hCode : p.compile f = .ok code g)
    (hSound : lib.Sound f.routines)
    (hAll : σ.scopes.All (lib.Has f.routines))
    (bound : Nat)
    (stack : Stack) :
    (Machine.run bound code (σ.at 0 stack)).Orderly
      ((lib.extend f.routines p code).Has g.routines) σ stack := by
  by_cases hRun :
      Machine.run bound code (σ.at 0 stack) = .unfinished
  · rw [hRun]
    exact trivial
  have hKeeps :=
    Program.frames_eval hCode (Program.sound_extend hCode hSound)
      bound σ (Program.all_extend hCode hAll)
  rcases
      Program.follows_eval True hCode hSound
        (fun hFalse => absurd trivial hFalse) hAll bound stack with
    ⟨body, hBody, hFollows⟩
  rcases hFollows.split with hFollows | ⟨n, e, left, hFails, hRest⟩
  · exact (realizes_of_run hBody hFollows hRun).orderly hKeeps
  · have hSame := Machine.run_unique hRun (by rw [hFails]; simp)
    rw [hSame, hFails]
    exact hRest

------------------------------------------------------------
-- Skipped Numbers
------------------------------------------------------------

namespace Library

/- One more function for a number that no function value has. -/
theorem Sound.skip
    {count : Nat}
    (h : lib.Sound count) :
    ∃ more : Library,
      more.Sound (count + 1) ∧
        ∀ r, lib.Has count r → more.Has (count + 1) r := by
  have hEmits :
      Stmt.EmitsAll 0 none [.function "" [] [] ⟨1, 1⟩] ⟨0, count⟩ _
        (Fresh.define ⟨0, count⟩) :=
    .cons (.function .nil) .nil
  exact ⟨_, (sound_extend h hEmits rfl).1, fun r hr =>
    hr.extend (Nat.le_succ count)⟩

/- A sound library is part of ones with more functions. -/
theorem Sound.pad
    {count more : Nat}
    (h : lib.Sound count)
    (hLe : count ≤ more) :
    ∃ larger : Library,
      larger.Sound more ∧
        ∀ r, lib.Has count r → larger.Has more r := by
  induction hLe with
  | refl => exact ⟨lib, h, fun _ hr => hr⟩
  | step hLe ih =>
      rcases ih with ⟨middle, hMiddle, hHas⟩
      rcases hMiddle.skip with ⟨larger, hLarger, hMore⟩
      exact ⟨larger, hLarger, fun r hr => hMore r (hHas r hr)⟩

end Library

------------------------------------------------------------
-- Sessions
------------------------------------------------------------

namespace Session

/-
  A session that was started and ran some programs, whatever
  became of them. Programs that are rejected may use up
  numbers of functions, and the host may change in between.
-/
inductive Reached : Session → Prop
| new
    (config : Config)
    (input : List UInt8) :
    Reached (.new config input)
| ran
    {s t : Session}
    {p : Program}
    {code : Code}
    {f g : Fresh}
    {bound : Nat}
    {error : Option EvalError}
    (h : Reached s)
    (hMark : s.mark ≤ f.routines)
    (hCode : p.compile f = .ok code g)
    (hRun :
      execute bound { s with mark := g.routines } code =
        some (error, t)) :
    Reached t
| hosted
    {s : Session}
    (h : Reached s)
    (host : Host) :
    Reached { s with machine.host := host }

/- Every function value of a session has the code of some tree. -/
def Covered (s : Session) : Prop :=
  ∃ lib : Library,
    lib.Sound s.mark ∧ s.machine.scopes.All (lib.Has s.mark)

/- A session stays covered when numbers are skipped. -/
theorem Covered.pad
    {s : Session}
    {count : Nat}
    (h : s.Covered)
    (hLe : s.mark ≤ count) :
    ∃ lib : Library,
      lib.Sound count ∧ s.machine.scopes.All (lib.Has count) := by
  rcases h with ⟨lib, hSound, hAll⟩
  rcases hSound.pad hLe with ⟨larger, hLarger, hHas⟩
  exact ⟨larger, hLarger, hAll.mono hHas⟩

/- What a run that ended left behind. -/
theorem execute_eq_some
    {s t : Session}
    {bound : Nat}
    {error : Option EvalError}
    (h : execute bound s code = some (error, t)) :
    t.mark = s.mark ∧
      ((∃ ending, s.machine.execute bound code = .done ending t.machine) ∨
        ∃ e, s.machine.execute bound code = .failed e t.machine) := by
  unfold execute at h
  cases hRun : s.machine.execute bound code with
  | done ending m =>
      rw [hRun] at h
      cases h
      exact ⟨rfl, .inl ⟨ending, rfl⟩⟩
  | failed e m =>
      rw [hRun] at h
      cases h
      exact ⟨rfl, .inr ⟨e, rfl⟩⟩
  | unfinished =>
      rw [hRun] at h
      cases h

/- A run keeps a session covered. -/
theorem Covered.ran
    {s t : Session}
    {bound : Nat}
    {error : Option EvalError}
    (h : s.Covered)
    (hMark : s.mark ≤ f.routines)
    (hCode : p.compile f = .ok code g)
    (hRun :
      execute bound { s with mark := g.routines } code =
        some (error, t)) :
    t.Covered := by
  rcases h.pad hMark with ⟨lib, hSound, hAll⟩
  rcases execute_eq_some hRun with ⟨hSame, hOutcome⟩
  have hOrderly :
      (s.machine.execute bound code).Orderly _ s.machine.state
        s.machine.stack :=
    Program.orderly_run hCode hSound hAll bound s.machine.stack
  refine ⟨lib.extend f.routines p code, ?_, ?_⟩
  · rw [hSame]
    exact Program.sound_extend hCode hSound
  · rw [hSame]
    rcases hOutcome with ⟨ending, hDone⟩ | ⟨e, hFailed⟩
    · rw [hDone] at hOrderly
      cases ending with
      | finished => exact hOrderly.2.all
      | returned =>
          rcases hOrderly.2 with ⟨opened, hLeads⟩
          exact hLeads.all
    · rw [hFailed] at hOrderly
      rcases hOrderly with ⟨_, _, opened, hLeads⟩
      exact hLeads.all

/- Every session that is reached is covered. -/
theorem Reached.covered
    {s : Session}
    (h : s.Reached) :
    s.Covered := by
  induction h with
  | new config input =>
      exact ⟨.empty, Library.sound_empty, Scopes.all_initial⟩
  | ran _ hMark hCode hRun ih => exact ih.ran hMark hCode hRun
  | hosted _ host ih => exact ih

end Session

/-
  A run from a machine fails for no misuse and keeps the
  operands and scopes that were there: a program that comes
  to its end leaves them as they were, a return leaves one
  value more, and a failure leaves nothing less.
-/
def Outcome.Respects (m : Machine) : Outcome → Prop
| .done .finished left =>
    left.stack = m.stack ∧ left.scopes.depth = m.scopes.depth
| .done .returned left => ∃ v, left.stack = v :: m.stack
| .failed e left =>
    e.isMisuse = false ∧
      m.stack <:+ left.stack ∧
      m.scopes.depth ≤ left.scopes.depth
| .unfinished => True

/- An orderly run respects the machine that it began from. -/
theorem Outcome.Orderly.respects
    {m : Machine}
    {outcome : Outcome}
    (h : outcome.Orderly P m.state m.stack) :
    outcome.Respects m := by
  cases outcome with
  | done ending left =>
      cases ending with
      | finished => exact ⟨h.1, h.2.reach.depth⟩
      | returned => exact h.1
  | failed e left =>
      rcases h with ⟨hMisuse, hStack, opened, hLeads⟩
      have hDepth : left.scopes.depth = m.scopes.depth + opened :=
        hLeads.reach.depth
      exact ⟨hMisuse, hStack, by omega⟩
  | unfinished => exact trivial

/-
  A session ran any programs. Whatever is compiled and run
  next respects its machine.
-/
theorem Session.Reached.respects_execute
    {s : Session}
    (h : s.Reached)
    (hMark : s.mark ≤ f.routines)
    (hCode : p.compile f = .ok code g)
    (bound : Nat) :
    (s.machine.execute bound code).Respects s.machine := by
  rcases h.covered.pad hMark with ⟨lib, hSound, hAll⟩
  have hOrderly :
      (s.machine.execute bound code).Orderly _ s.machine.state
        s.machine.stack :=
    Program.orderly_run hCode hSound hAll bound s.machine.stack
  exact hOrderly.respects

/-
  After a program that failed inside a block, with an operand
  and a scope left over, another comes to its end.
-/
theorem Session.Reached.respects_execute_failed :
    ∃ s code g n left,
      Session.Reached s ∧
        s.machine.stack = [.ofBool true] ∧
        s.machine.scopes.depth = 2 ∧
        Program.compile
            [.define "z" (.variable "true" ⟨1, 1⟩) ⟨1, 1⟩]
            ⟨0, s.mark⟩ =
          .ok code g ∧
        s.machine.execute n code = .done .finished left ∧
        left.stack = [.ofBool true] ∧
        left.scopes.depth = 2 := by
  have hFirst :
      ∃ code g e s,
        Program.compile
            [.ifThen (.variable "true" ⟨1, 1⟩)
              [.expr
                (.binary .add (.variable "true" ⟨1, 1⟩)
                  (.variable "y" ⟨1, 1⟩) ⟨1, 1⟩)] ⟨1, 1⟩] ⟨0, 0⟩ =
          .ok code g ∧
        Session.execute 9 ⟨(Session.new {} []).machine, g.routines⟩
            code =
          some (e, s) ∧
        s.machine.stack = [.ofBool true] ∧
        s.machine.scopes.depth = 2 ∧
        ∃ code g left,
          Program.compile
              [.define "z" (.variable "true" ⟨1, 1⟩) ⟨1, 1⟩]
              ⟨0, s.mark⟩ =
            .ok code g ∧
          s.machine.execute 9 code = .done .finished left :=
    ⟨_, _, _, _, rfl, rfl, rfl, rfl, _, _, _, rfl, rfl⟩
  rcases hFirst with
    ⟨first, f, e, s, hFirst, hFails, hStack, hDepth, code, g, left,
      hCode, hDone⟩
  have hMark : (Session.new {} []).mark ≤ Fresh.routines ⟨0, 0⟩ :=
    Nat.le_refl 0
  have hReached : s.Reached :=
    .ran (.new {} []) hMark hFirst hFails
  have hRespects :=
    Session.Reached.respects_execute hReached (Nat.le_refl s.mark)
      hCode 9
  rw [hDone] at hRespects
  rcases hRespects with ⟨hSame, hLevel⟩
  exact ⟨s, code, g, 9, left, hReached, hStack, hDepth, hCode, hDone,
    hSame.trans hStack, hLevel.trans hDepth⟩

end StackScript
