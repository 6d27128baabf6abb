import StackScript.Proofs.Meaning.Statement

/-
  Calls do what they mean.

  A library is sound when the value of each of its functions
  holds the code of the function's body. Runs of calls then
  follow calls, by induction on how deep they may go.

  Key definitions include:
    * `Library.Sound`
    * `Library.Has`
    * `Library.IsPlain`

  Correctness is proven by:
    * `Library.callsFollow`
-/

namespace StackScript

------------------------------------------------------------
-- Sound Libraries
------------------------------------------------------------

/-
  A function of a library, which has its name and parameters
  from the tree, has the code that is made from its body
  there, and the library has the functions declared in it.
-/
def Library.SoundAt
    (lib : Library)
    (k : Nat) : Prop :=
  ∃ s body t,
    Stmt.EmitsAll 0 none (lib.body k) s body t ∧
      s.routines = lib.first k ∧
      t.routines = k ∧
      lib.code k = body ++ Code.pushed .null ++ Code.bare .ret ∧
      lib.Knows body

/- The first functions of a library have the code of their bodies. -/
def Library.Sound
    (lib : Library)
    (count : Nat) : Prop :=
  ∀ k, k < count → lib.SoundAt k

/- A function is one of the first of a library. -/
def Library.Has
    (lib : Library)
    (count : Nat)
    (r : Routine) : Prop :=
  r.mark < count ∧ lib.routine r.mark = r

theorem Library.Has.code_eq
    {lib : Library}
    {count : Nat}
    {r : Routine}
    (h : lib.Has count r) :
    lib.code r.mark = r.code :=
  congrArg Routine.code h.2

/- A library that has no function yet. -/
def Library.empty : Library where
  declared _ := ⟨"", [], 0, []⟩
  code _ := []

theorem Library.sound_empty : Library.empty.Sound 0 := by
  intro k hk
  omega

variable {clash : Prop}
variable {lib : Library}
variable {count bound : Nat}

/- A library has its own functions. -/
theorem Library.offers_has
    (lib : Library)
    {first size : Nat}
    (hEnd : first + size ≤ count) :
    lib.Offers (lib.Has count) first size := by
  intro k _ hLast
  have hLess : k < count := by omega
  exact ⟨hLess, rfl⟩

/- The functions within a function come before it. -/
theorem Library.Sound.closed (h : lib.Sound count) :
    lib.Closed (lib.Has count) := by
  rintro r ⟨hMark, _⟩
  rcases h r.mark hMark with ⟨s, body, t, hEmits, hStart, hEnd, _⟩
  have hNumbers := hEmits.numbers
  exact lib.offers_has (by omega)

------------------------------------------------------------
-- Ends of Calls
------------------------------------------------------------

variable {P : Routine → Prop}
variable {code : Code}
variable {pc : Nat}
variable {stack : Stack}
variable {σ τ : State}

/- Closing scopes closes a hidden one first. -/
theorem Scopes.truncate_hide
    {s : Scopes}
    {number depth : Nat}
    {v : Value}
    (h : depth ≤ s.depth) :
    (s.hide number v).truncate depth = s.truncate depth := by
  have hDepth : (s.hide number v).depth = s.depth + 1 :=
    Scopes.over_hide.depth
  unfold truncate
  rw [hDepth, show s.depth + 1 - depth = s.depth - depth + 1 by omega]
  rfl

/- The state of a caller that resumes. -/
theorem Machine.state_resumed
    (σ : State)
    (pc : Nat)
    (stack : Stack)
    (left : Machine) :
    ((σ.at pc stack).resumed left).state =
      σ.resumed left.state :=
  rfl

/- A failure of a function is one of its caller. -/
theorem Machine.Leaves.resumed
    {left : Machine}
    (h : left.Leaves τ stack)
    (hDepth : σ.scopes.depth ≤ τ.scopes.depth) :
    ((σ.at pc stack).resumed left).Leaves (σ.resumed τ) stack := by
  rcases h with ⟨hStack, hState⟩
  refine ⟨hStack, .inl ?_⟩
  rw [Machine.state_resumed]
  rcases hState with rfl | ⟨number, v, _, hState⟩
  · rfl
  · rw [hState]
    have hScopes :
        (τ.scopes.hide number v).truncate σ.scopes.depth =
          τ.scopes.truncate σ.scopes.depth :=
      Scopes.truncate_hide hDepth
    unfold State.resumed State.inScopes
    dsimp only
    rw [hScopes]

/-
  The code of a function returns the result of its body.
-/
theorem done_of_arrives
    {body : Code}
    {signal : Signal}
    {m after : Machine}
    (hCode : code = body ++ Code.pushed .null ++ Code.bare .ret)
    (hReach : Machine.Reaches code m after)
    (hArrive :
      Signal.Arrives code body.length none stack signal τ after) :
    ∃ bound pc,
      Machine.run bound code m =
        .done .returned (τ.at pc (signal.result :: stack)) := by
  cases signal with
  | next =>
      cases hArrive
      have hNull : code.Holds body.length (Code.pushed .null) := by
        rw [hCode]
        exact Code.holds_of_eq rfl
      have hRet : code.Holds (body.length + 2) (Code.bare .ret) := by
        have hAt :
            code.Holds 0 (body ++ Code.pushed .null ++ Code.bare .ret) :=
          ⟨[], by rw [hCode]; simp⟩
        exact hAt.right (by simp)
      have hPushed :=
        hReach.trans (.of_next (Machine.step_pushed hNull))
      rcases hPushed.stops (Machine.step_ret hRet) with ⟨bound, hRun⟩
      exact ⟨bound, _, hRun⟩
  | breakLoop =>
      rcases hArrive with ⟨l, hl, _⟩
      cases hl
  | continueLoop =>
      rcases hArrive with ⟨l, hl, _⟩
      cases hl
  | ret v =>
      rcases hArrive with ⟨pc, hAt, rfl⟩
      rcases hReach.stops (Machine.step_ret hAt) with ⟨bound, hRun⟩
      exact ⟨bound, _, hRun⟩

------------------------------------------------------------
-- Calls
------------------------------------------------------------

/-
  A call of a function of the program follows the function
  if a run of its code follows its body.
-/
theorem follows_enclosed
    {r : Routine}
    {body : Code}
    {arguments : List Value}
    {scopes : Scopes}
    {x : Eval Signal}
    {m : Machine}
    (hStep :
      Machine.step code m =
        .ok (.enter r arguments) (σ.at pc stack))
    (hBind :
      Machine.bindParameters r.parameters arguments
        σ.scopes.push = .ok scopes)
    (hCode : r.code = body ++ Code.pushed .null ++ Code.bare .ret)
    (hOver : σ.scopes.push.Over 0 scopes)
    (hKeeps :
      Eval.Keeps P (Signal.Fits P) (σ.entered scopes)
        (x (σ.entered scopes)))
    (hBody :
      Follows clash P r.code bound stack (σ.entered scopes)
        ((σ.entered scopes).at 0 stack)
        (Signal.Arrives r.code body.length none stack)
        (x (σ.entered scopes))) :
    Follows clash P code (bound + 1) stack σ m
      (Arrives pc (· :: stack)) (Eval.enclosed scopes x σ) := by
  unfold Eval.enclosed
  have hEntered :
      (σ.at pc stack).entered scopes =
        (σ.entered scopes).at 0 stack :=
    rfl
  rcases hBody with hBody | ⟨hClash, n, e, left, hFails, hRest⟩
  · left
    cases hResult : x (σ.entered scopes) with
    | ok signal τ =>
        rw [hResult] at hBody
        rcases hBody with ⟨after, hReach, hArrive⟩
        rcases done_of_arrives hCode hReach hArrive with
          ⟨n, stop, hDone⟩
        exact ⟨_, .of_call hStep hBind hDone, rfl⟩
    | error stop τ =>
        rw [hResult] at hBody hKeeps
        rcases hKeeps with ⟨_, opened, hLeads⟩
        have hDepth : σ.scopes.depth ≤ τ.scopes.depth := by
          rw [(hOver.trans hLeads.reach).of_push.depth]
          omega
        cases stop with
        | failed e =>
            rcases hBody with ⟨n, left, hFails, hLeaves⟩
            refine ⟨n + 1, (σ.at pc stack).resumed left, ?_,
              hLeaves.resumed hDepth⟩
            rw [Machine.run_enter hStep hBind, hEntered, hFails]
        | unfinished =>
            change Machine.run (bound + 1) code m = .unfinished
            rw [Machine.run_enter hStep hBind, hEntered, hBody]
        | meaningless => exact hBody
  · right
    rcases hRest with ⟨hError, hStack, opened, hLeads⟩
    refine ⟨hClash, n + 1, e, (σ.at pc stack).resumed left, ?_,
      hError, hStack, 0, Eval.leads_resumed hOver hLeads⟩
    rw [Machine.run_enter hStep hBind, hEntered, hFails]

/- A call of a built-in function follows it. -/
theorem follows_builtin
    {name : String}
    {mode : Mode}
    {f : Builtin}
    {arguments : List Value}
    (hName : Registry.standard.lookup name = some (mode, f))
    (hAt : code.Holds pc (Code.called name arguments.length)) :
    Follows clash P code bound stack σ
      (σ.at pc (arguments.reverse ++ stack))
      (Arrives (pc + 3) (· :: stack))
      (Eval.builtin name f arguments σ) := by
  have hStep :
      Machine.step code (σ.at pc (arguments.reverse ++ stack)) = _ :=
    (Machine.step_called hAt).trans (Machine.call_builtin hName)
  unfold Eval.builtin
  cases hResult : f.run σ.scopes arguments σ.host with
  | ok result host =>
      rw [hResult] at hStep
      exact (Follows.of_arrive rfl).of_next hStep
  | error e host =>
      rw [hResult] at hStep
      exact .of_failed hAt (by simp [Code.called]) hStep
        (leaves_at (List.suffix_refl _))

/- Names in the bodies of functions are plain. -/
def Library.IsPlain
    (lib : Library)
    (count : Nat) : Prop :=
  ∀ k, k < count → Plain (Stmt.identifiersAll (lib.body k))

theorem Library.isPlain_empty : Library.empty.IsPlain 0 := by
  intro k hk
  omega

/- A call of a function of the library follows it. -/
theorem follows_invoke
    {name : String}
    {arguments : List Value}
    (hSound : lib.Sound count)
    (hPlain : ¬ clash → lib.IsPlain count)
    (hCalls :
      CallsFollow clash (lib.Has count) bound (lib.call bound))
    (hName : Registry.standard.lookup name = none)
    (hAt : code.Holds pc (Code.called name arguments.length))
    (hAll : σ.scopes.All (lib.Has count))
    (hArguments : ∀ v ∈ arguments, v.All (lib.Has count)) :
    Follows clash (lib.Has count) code (bound + 1) stack σ
      (σ.at pc (arguments.reverse ++ stack))
      (Arrives (pc + 3) (· :: stack))
      (Eval.invoke name arguments
        (fun r =>
          Stmt.evalAll lib (lib.call bound) bound
            (lib.first r.mark) (lib.body r.mark)) σ) := by
  have hSteady := Library.steady_call hSound.closed bound
  have hStep :
      Machine.step code (σ.at pc (arguments.reverse ++ stack)) = _ :=
    (Machine.step_called hAt).trans (Machine.call_routine hName)
  have hSome : Code.called name arguments.length ≠ [] := by
    simp [Code.called]
  rw [Eval.invoke_eq]
  have hHas := Eval.proper_callee hAll name
  cases hCallee : σ.callee name with
  | error e =>
      rw [hCallee] at hStep
      exact .of_failed hAt hSome hStep
        (leaves_at (List.suffix_append _ _))
  | ok r =>
      rw [hCallee] at hStep hHas
      rcases hHas with ⟨hMark, hSame⟩
      rcases hSound r.mark hMark with
        ⟨s, body, t, hEmits, hFirst, _, hCode, hKnows⟩
      rw [Library.Has.code_eq ⟨hMark, hSame⟩] at hCode
      have hOffers := hSound.closed r ⟨hMark, hSame⟩
      have hProper :=
        Eval.proper_bindParameters hAll.push hArguments r.parameters
      dsimp only
      cases hBind :
          Machine.bindParameters r.parameters arguments
            σ.scopes.push with
      | error e =>
          left
          refine ⟨1, _, Machine.run_enter_error hStep hBind, ?_⟩
          exact leaves_at (List.suffix_refl _)
      | ok scopes =>
          rw [hBind] at hProper
          have hFrames :=
            Stmt.frames_evalAll hSteady bound _ _ hOffers
          apply follows_enclosed hStep hBind hCode hProper.2
            (hFrames _ hProper.1)
          have hLength : 0 + body.length < r.code.length := by
            rw [hCode]
            simp
          have hHolds : Code.Holds r.code 0 body :=
            ⟨Code.pushed .null ++ Code.bare .ret, by
              rw [hCode]; simp⟩
          have hWithin :
              Loop.Within r.code (σ.entered scopes).scopes.depth
                none := by
            intro l hl
            cases hl
          have hBody :=
            hEmits.follows hSteady hCalls
              (fun hc => hPlain hc r.mark hMark)
              (hFirst ▸ hOffers) hKnows hWithin hHolds hLength
              hProper.1 stack
          rw [hFirst, Nat.zero_add] at hBody
          exact hBody

/- Runs of calls follow calls, however deep they go. -/
theorem Library.callsFollow
    (hSound : lib.Sound count)
    (hPlain : ¬ clash → lib.IsPlain count)
    (bound : Nat) :
    CallsFollow clash (lib.Has count) bound (lib.call bound) := by
  induction bound with
  | zero =>
      intro code pc name arguments stack σ _ _ _
      exact .inl rfl
  | succ bound ih =>
      intro code pc name arguments stack σ hAt hAll hArguments
      rw [Library.call]
      cases hName : Registry.standard.lookup name with
      | some entry =>
          rcases entry with ⟨mode, f⟩
          exact follows_builtin hName hAt
      | none =>
          exact follows_invoke hSound hPlain ih hName hAt hAll
            hArguments

end StackScript
