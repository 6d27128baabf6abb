import StackScript.Proofs.Machine.Visiting
import StackScript.Proofs.Meaning.Safety

/-
  Calls keep the frame of the caller.

  The body of a function runs on the operands and the scopes
  of its caller. However it ends, the caller goes on behind
  its call, as deep as it was and in scopes of the same
  names; if the function gives a result, the operands are
  those below the arguments, and the result.

  Key definitions include:
    * `Machine.KeepsFrame`
    * `Passage.Frames`
    * `Session.Held`

  Key theorems include:
    * `Library.Sound.orderly_body`
    * `Library.Sound.frames_pass`
    * `Session.Reached.frames_call`
-/

namespace StackScript

variable {lib : Library}
variable {count : Nat}
variable {p : Program}
variable {code : Code}
variable {f g : Fresh}

------------------------------------------------------------
-- Bodies of Functions
------------------------------------------------------------

/- The functions in the code of one of a library belong to it. -/
theorem Library.Sound.has_routines (hSound : lib.Sound count) :
    Routine.Closed (lib.Has count) := by
  rintro r ⟨hMark, hSame⟩ q hq
  rcases hSound r.mark hMark with
    ⟨s, body, t, hEmits, _, hLast, hCode, hKnows⟩
  rw [Library.Has.code_eq ⟨hMark, hSame⟩] at hCode
  rw [hCode] at hq
  have hBody : q ∈ body.routines := by
    simpa [Code.routines_append] using hq
  have hLess := hEmits.mark_lt q hBody
  exact ⟨by omega, hKnows q hBody⟩

/- Every run of a function of a library is orderly. -/
theorem Library.Sound.orderly_body
    {r : Routine}
    {σ : State}
    (hSound : lib.Sound count)
    (hHas : lib.Has count r)
    (hAll : σ.scopes.All (lib.Has count))
    (bound : Nat)
    (stack : Stack) :
    (Machine.run bound r.code (σ.at 0 stack)).Orderly
      (lib.Has count) σ stack := by
  by_cases hRun :
      Machine.run bound r.code (σ.at 0 stack) = .unfinished
  · rw [hRun]
    exact trivial
  rcases hSound r.mark hHas.1 with
    ⟨s, body, t, hEmits, hFirst, _, hCode, hKnows⟩
  rw [hHas.code_eq] at hCode
  have hOffers := hSound.closed r hHas
  have hSteady := Library.steady_call hSound.closed bound
  have hKeeps :=
    Stmt.frames_evalAll hSteady bound _ _ hOffers σ hAll
  have hHolds : Code.Holds r.code 0 body :=
    ⟨Code.pushed .null ++ Code.bare .ret, by rw [hCode]; simp⟩
  have hLength : 0 + body.length < r.code.length := by
    rw [hCode]
    simp
  have hWithin : Loop.Within r.code σ.scopes.depth none := by
    intro l hl
    cases hl
  have hCalls :
      CallsFollow True (lib.Has count) bound (lib.call bound) :=
    Library.callsFollow hSound (fun hFalse => absurd trivial hFalse)
      bound
  have hFollows :=
    hEmits.follows hSteady hCalls
      (fun hFalse => absurd trivial hFalse) (hFirst ▸ hOffers)
      hKnows hWithin hHolds hLength hAll stack
  rw [hFirst, Nat.zero_add] at hFollows
  rcases hFollows with hFollows | ⟨_, n, e, left, hFails, hRest⟩
  · generalize
      Stmt.evalAll lib (lib.call bound) bound (lib.first r.mark)
        (lib.body r.mark) σ = result at hKeeps hFollows
    cases result with
    | ok signal τ =>
        rcases hFollows with ⟨after, hReach, hArrive⟩
        rcases hKeeps with ⟨opened, _, hLeads⟩
        rcases done_of_arrives hCode hReach hArrive with
          ⟨n, pc, hDone⟩
        rw [Machine.run_unique hRun (by rw [hDone]; simp), hDone]
        exact ⟨⟨_, rfl⟩, opened, hLeads⟩
    | error stop τ =>
        rcases hKeeps with ⟨hMisuse, opened, hLeads⟩
        cases stop with
        | failed e =>
            rcases hFollows with ⟨n, left, hFails, hLeaves⟩
            rw [Machine.run_unique hRun (by rw [hFails]; simp),
              hFails]
            exact ⟨hMisuse e rfl, hLeaves.1, hLeaves.leads hLeads⟩
        | unfinished => exact absurd hFollows hRun
        | meaningless => exact hFollows.elim
  · rw [Machine.run_unique hRun (by rw [hFails]; simp), hFails]
    exact hRest

------------------------------------------------------------
-- Frames
------------------------------------------------------------

/-
  A machine after a call as far as it is that of the caller:
  it stands behind the call, with as many open calls and in
  scopes of the same names.
-/
structure Machine.KeepsFrame
    (m after : Machine) : Prop where
  pc : after.pc = m.pc + 3
  calls : after.calls = m.calls
  depth : after.scopes.depth = m.scopes.depth
  names : after.scopes.shape = m.scopes.shape

/-
  What a call with a number of arguments keeps. When the
  callee gives a result, it takes the place of the arguments.
-/
def Passage.Frames
    (arguments : Nat)
    (m : Machine) :
    Passage → Prop
| .goesOn after =>
    m.KeepsFrame after ∧
      arguments ≤ m.stack.length ∧
      ∃ v, after.stack = v :: m.stack.drop arguments
| .ends _ _ => False
| .fails _ after => m.KeepsFrame after
| .unfinished => True

/- Closing what is above the old depth brings back the names. -/
theorem Scopes.Over.shape_truncate
    {opened : Nat}
    {s t : Scopes}
    (h : s.push.Over opened t) :
    (t.truncate s.depth).shape = s.shape := by
  have hDepth := h.depth
  rw [Scopes.depth_push] at hDepth
  have hPos : 0 < s.depth := by simp [Scopes.depth]
  rcases h with ⟨inner, more, hLength, hShape⟩
  have hDrop : t.depth - s.depth = (inner ++ [more]).length := by
    simp [hLength]
    omega
  have hSplit : t.shape = (inner ++ [more]) ++ s.shape := by
    rw [hShape]
    simp [Scopes.push, Scope.names, Scopes.shape, Scopes.toList]
  unfold Scopes.truncate
  rw [Scopes.shape_close (by omega), hSplit, hDrop, List.drop_left]

/- A caller resumes in its frame after an orderly callee. -/
theorem Machine.keepsFrame_resumed
    {P : Routine → Prop}
    {opened : Nat}
    {m middle after : Machine}
    {scopes : Scopes}
    (hMiddle : middle = { m with pc := m.pc + 3, stack := middle.stack })
    (hOver : m.scopes.push.Over 0 scopes)
    (hLeads :
      (middle.entered scopes).state.Leads P opened after.state) :
    m.KeepsFrame (middle.resumed after) := by
  have hShape :
      ((middle.resumed after).scopes).shape = m.scopes.shape := by
    have hAll := (hOver.trans hLeads.reach).shape_truncate
    rw [hMiddle]
    exact hAll
  refine ⟨?_, ?_, ?_, hShape⟩
  · rw [hMiddle]
    rfl
  · rw [hMiddle]
    rfl
  · rw [← Scopes.length_shape, hShape, Scopes.length_shape]

/- A call with too few operands fails where it stands. -/
theorem Machine.call_short
    {m : Machine}
    {name : String}
    {arguments : Nat}
    (hName : Registry.standard.lookup name = none)
    (hShort : m.stack.length < arguments) :
    ∃ e, call name arguments m = .error e m := by
  rw [call, hName]
  change ∃ e, EStateM.bind (callee name) _ m = .error e m
  rw [EStateM.bind, callee_eq]
  cases m.scopes.get? name with
  | none => exact ⟨_, rfl⟩
  | some v =>
      cases v with
      | routine r =>
          change
            ∃ e, (if m.maxCalls ≤ m.calls then _ else _ : Action Flow)
              m = .error e m
          split
          · exact ⟨_, rfl⟩
          · refine ⟨.stackUnderflow arguments m.stack.length, ?_⟩
            change
              EStateM.bind
                (EStateM.bind
                  (Action.lift (m.stack.popMany arguments)) _) _ m = _
            rw [Stack.popMany, Stack.checkSize, if_pos hShort]
            rfl
      | _ => exact ⟨_, rfl⟩

/-
  A call of a name that is no built-in function fails where
  it stands, or it takes its arguments and enters a function.
-/
theorem Machine.step_call
    {stream : Code}
    {m : Machine}
    {name : String}
    {arguments : Nat}
    (hAt : stream.Holds m.pc (Code.called name arguments))
    (hName : Registry.standard.lookup name = none) :
    (∃ e, step stream m = .error e { m with pc := m.pc + 3 }) ∨
      ∃ r, m.state.callee name = .ok r ∧
        arguments ≤ m.stack.length ∧
        step stream m =
          .ok (.enter r (m.stack.take arguments).reverse)
            { m with
              pc := m.pc + 3
              stack := m.stack.drop arguments } := by
  have hStep :
      step stream (m.state.at m.pc m.stack) =
        call name arguments (m.state.at (m.pc + 3) m.stack) :=
    step_called hAt
  change
    (∃ e, step stream (m.state.at m.pc m.stack) = _) ∨
      ∃ r, _ ∧ _ ∧ step stream (m.state.at m.pc m.stack) = _
  rw [hStep]
  by_cases hEnough : arguments ≤ m.stack.length
  · have hCall :
        call name (m.stack.take arguments).reverse.length
            (m.state.at (m.pc + 3)
              ((m.stack.take arguments).reverse.reverse
                ++ m.stack.drop arguments)) =
          _ :=
      call_routine hName
    rw [List.reverse_reverse, List.take_append_drop,
      List.length_reverse, List.length_take_of_le hEnough] at hCall
    cases hCallee : m.state.callee name with
    | error e =>
        rw [hCallee] at hCall
        exact .inl ⟨e, hCall⟩
    | ok r =>
        rw [hCallee] at hCall
        exact .inr ⟨r, rfl, hEnough, hCall⟩
  · exact .inl (call_short hName (Nat.lt_of_not_le hEnough))

/- Every call from a machine of a library's functions keeps its frame. -/
theorem Library.Sound.frames_pass
    {stream : Code}
    {m : Machine}
    {name : String}
    {arguments : Nat}
    (hSound : lib.Sound count)
    (hAll : m.All (lib.Has count))
    (hAt : stream.Holds m.pc (Code.called name arguments))
    (hName : Registry.standard.lookup name = none)
    (bound : Nat) :
    (m.pass bound stream).Frames arguments m := by
  have hHere : m.KeepsFrame { m with pc := m.pc + 3 } :=
    ⟨rfl, rfl, rfl, rfl⟩
  unfold Machine.pass
  rcases Machine.step_call hAt hName with
    ⟨e, hStep⟩ | ⟨r, hCallee, hEnough, hStep⟩
  · rw [hStep]
    exact hHere
  · rw [hStep]
    dsimp only
    have hArguments :
        ∀ v ∈ (m.stack.take arguments).reverse,
          v.All (lib.Has count) := fun v hv =>
      hAll.stack v (List.mem_of_mem_take (List.mem_reverse.1 hv))
    have hRoutine : lib.Has count r := by
      have hProper : Proper (lib.Has count) (m.state.callee name) :=
        Eval.proper_callee hAll.scopes name
      rw [hCallee] at hProper
      exact hProper
    cases hBind :
        Machine.bindParameters r.parameters
          (m.stack.take arguments).reverse m.scopes.push with
    | error e => exact ⟨rfl, rfl, rfl, rfl⟩
    | ok scopes =>
        have hBound :=
          Scopes.bindParameters_keeps hAll.scopes.push hArguments
            hBind
        have hOrderly :
            (Machine.run bound r.code
                ((m.state.entered scopes).at 0
                  (m.stack.drop arguments))).Orderly _ _ _ :=
          hSound.orderly_body hRoutine hBound.1 bound _
        dsimp only
        generalize hBody :
          Machine.run bound r.code (Machine.entered _ scopes) = outcome
        have hSame :
            Machine.run bound r.code
                ((m.state.entered scopes).at 0
                  (m.stack.drop arguments)) =
              outcome :=
          hBody
        rw [hSame] at hOrderly
        cases outcome with
        | unfinished => exact trivial
        | failed e after =>
            rcases hOrderly with ⟨_, _, opened, hLeads⟩
            exact Machine.keepsFrame_resumed rfl hBound.2 hLeads
        | done ending after =>
            cases ending with
            | finished =>
                rcases hOrderly with ⟨hStack, hLeads⟩
                refine ⟨?_, hEnough, .null, ?_⟩
                · exact Machine.keepsFrame_resumed rfl hBound.2 hLeads
                · change Value.null :: after.stack = _
                  rw [hStack]
            | returned =>
                rcases hOrderly with ⟨⟨v, hStack⟩, opened, hLeads⟩
                refine ⟨?_, hEnough, v, hStack⟩
                exact Machine.keepsFrame_resumed rfl hBound.2 hLeads

------------------------------------------------------------
-- Sessions
------------------------------------------------------------

namespace Session

/-
  Every function in the variables and the operands of a
  session has the code of some tree.
-/
def Held (s : Session) : Prop :=
  ∃ lib : Library,
    lib.Sound s.mark ∧ s.machine.All (lib.Has s.mark)

/- The functions of the machine belong to a larger library. -/
theorem Held.pad
    {s : Session}
    (h : s.Held)
    (hLe : s.mark ≤ count) :
    ∃ lib : Library,
      lib.Sound count ∧ s.machine.All (lib.Has count) := by
  rcases h with ⟨lib, hSound, hAll⟩
  rcases hSound.pad hLe with ⟨larger, hLarger, hHas⟩
  exact ⟨larger, hLarger, hAll.mono hHas⟩

end Session

/- The functions of a compiled program belong to its library. -/
theorem Program.has_routines
    (hCode : p.compile f = .ok code g)
    (hSound : lib.Sound f.routines) :
    ∀ r ∈ code.routines,
      (lib.extend f.routines p code).Has g.routines r := by
  rcases Program.emits_of_compile hCode with ⟨body, hEmits, hBody⟩
  intro r hr
  rw [hBody] at hr
  have hInside : r ∈ body.routines := by
    simpa [Code.routines_append] using hr
  have hKnows : (lib.extend f.routines p code).Knows body := by
    apply (Library.sound_extend hSound hEmits _).2
    rw [hBody, Word.functionsAll_append]
    exact List.append_nil _
  exact ⟨hEmits.mark_lt r hInside, hKnows r hInside⟩

/- A machine of a library's functions, with those of a program. -/
theorem Machine.All.extend
    {m : Machine}
    (hCode : p.compile f = .ok code g)
    (h : m.All (lib.Has f.routines)) :
    m.All ((lib.extend f.routines p code).Has g.routines) := by
  rcases Program.emits_of_compile hCode with ⟨body, hEmits, _⟩
  have hNumbers := hEmits.numbers
  exact h.mono fun r hr => hr.extend (by omega)

namespace Session

/- What a session runs leaves it held. -/
theorem Held.ran
    {s t : Session}
    {bound : Nat}
    {error : Option EvalError}
    (h : s.Held)
    (hMark : s.mark ≤ f.routines)
    (hCode : p.compile f = .ok code g)
    (hRun :
      execute bound { s with mark := g.routines } code =
        some (error, t)) :
    t.Held := by
  rcases h.pad hMark with ⟨lib, hSound, hAll⟩
  rcases execute_eq_some hRun with ⟨hSame, hOutcome⟩
  have hLarger := Program.sound_extend hCode hSound
  have hStart :
      Machine.All ((lib.extend f.routines p code).Has g.routines)
        { s.machine with pc := 0 } :=
    ⟨(hAll.extend hCode).scopes, (hAll.extend hCode).stack⟩
  have hLeft :=
    hStart.run hLarger.has_routines
      (Program.has_routines hCode hSound) bound
  refine ⟨lib.extend f.routines p code, ?_, ?_⟩
  · rw [hSame]
    exact hLarger
  · rw [hSame]
    rcases hOutcome with ⟨ending, hDone⟩ | ⟨e, hFailed⟩
    · unfold Machine.execute at hDone
      rw [hDone] at hLeft
      exact hLeft
    · unfold Machine.execute at hFailed
      rw [hFailed] at hLeft
      exact hLeft

/- Every session that is reached is held. -/
theorem Reached.held
    {s : Session}
    (h : s.Reached) :
    s.Held := by
  induction h with
  | new config input =>
      refine ⟨.empty, Library.sound_empty, Scopes.all_initial, ?_⟩
      intro v hv
      cases hv
  | ran _ hMark hCode hRun ih => exact ih.ran hMark hCode hRun
  | hosted _ host ih =>
      rcases ih with ⟨lib, hSound, hAll⟩
      exact ⟨lib, hSound, hAll.scopes, hAll.stack⟩

/-
  A session ran any programs, and another is compiled and
  run. Wherever that run comes to a call of a name that is
  no built-in function, at any depth, the call keeps the
  frame of its caller.
-/
theorem Reached.frames_call
    {s : Session}
    {stream : Code}
    {m : Machine}
    {name : String}
    {arguments : Nat}
    (h : s.Reached)
    (hMark : s.mark ≤ f.routines)
    (hCode : p.compile f = .ok code g)
    (hVisits :
      Machine.Visits code { s.machine with pc := 0 } stream m)
    (hAt : stream.Holds m.pc (Code.called name arguments))
    (hName : Registry.standard.lookup name = none)
    (bound : Nat) :
    (m.pass bound stream).Frames arguments m := by
  rcases h.held.pad hMark with ⟨lib, hSound, hAll⟩
  have hLarger := Program.sound_extend hCode hSound
  have hStart :
      Machine.All ((lib.extend f.routines p code).Has g.routines)
        { s.machine with pc := 0 } :=
    ⟨(hAll.extend hCode).scopes, (hAll.extend hCode).stack⟩
  have hHere :=
    hVisits.all hLarger.has_routines hStart
      (Program.has_routines hCode hSound)
  exact hLarger.frames_pass hHere hAt hName bound

end Session

/-
  One function calls another in the middle of a sum, which
  returns from inside a loop and a branch.
-/
def Program.nesting : Program :=
  [.function "f" ["x"]
    [.whileLoop (.variable "x" ⟨1, 1⟩)
      [.ifThen (.variable "x" ⟨1, 1⟩)
        [.ret (some (.variable "x" ⟨1, 1⟩)) ⟨1, 1⟩] ⟨1, 1⟩]
      ⟨1, 1⟩] ⟨1, 1⟩,
    .function "h" ["y"]
      [.ret
        (some
          (.binary .add (.variable "y" ⟨1, 1⟩)
            (.call "f" [.variable "y" ⟨1, 1⟩] ⟨1, 1⟩) ⟨1, 1⟩))
        ⟨1, 1⟩] ⟨1, 1⟩,
    .expr (.call "h" [.variable "true" ⟨1, 1⟩] ⟨1, 1⟩)]

/- The operand that waits for the sum is still below the result. -/
theorem Session.Reached.frames_call_nested :
    ∃ code g stream m after,
      Program.nesting.compile ⟨0, 0⟩ = .ok code g ∧
        Machine.Visits code (Machine.new {} []) stream m ∧
        stream.Holds m.pc (Code.called "f" 1) ∧
        Registry.standard.lookup "f" = none ∧
        m.calls = 1 ∧
        m.stack = [.ofBool true, .ofBool true] ∧
        m.pass 30 stream = .goesOn after ∧
        m.KeepsFrame after ∧
        ∃ v, after.stack = [v, .ofBool true] := by
  have hRun :
      ∃ code g stream m after,
        Program.nesting.compile ⟨0, 0⟩ = .ok code g ∧
          Machine.Visits code (Machine.new {} []) stream m ∧
          stream.Holds m.pc (Code.called "f" 1) ∧
          m.calls = 1 ∧
          m.stack = [.ofBool true, .ofBool true] ∧
          m.pass 30 stream = .goesOn after :=
    ⟨_, _, _, _, _, rfl,
      .next rfl (.next rfl (.next rfl (.next rfl (.next rfl
        (.next rfl (.next rfl (.inside rfl rfl
          (.next rfl (.next rfl .here))))))))),
      ⟨_, rfl⟩, rfl, rfl, rfl⟩
  rcases hRun with
    ⟨code, g, stream, m, after, hCode, hVisits, hAt, hCalls, hStack,
      hPass⟩
  have hMark : (Session.new {} []).mark ≤ Fresh.routines ⟨0, 0⟩ :=
    Nat.le_refl 0
  have hName : Registry.standard.lookup "f" = none := by decide
  have hFrames :=
    Session.Reached.frames_call (.new {} []) hMark hCode hVisits hAt hName 30
  rw [hPass] at hFrames
  rcases hFrames with ⟨hKeeps, _, v, hAfter⟩
  rw [hStack] at hAfter
  exact ⟨code, g, stream, m, after, hCode, hVisits, hAt, hName,
    hCalls, hStack, hPass, hKeeps, v, hAfter⟩

end StackScript
