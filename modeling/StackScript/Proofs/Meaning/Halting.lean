import StackScript.Proofs.Machine.Raising
import StackScript.Proofs.Meaning.Safety

/-
  Programs without loops come to an end.

  An evaluation is cut off by its bound only in a loop or in
  calls that are nested deeper than the bound. Where there
  are no loops, a bound that is larger than the number of
  calls that may still be opened is never reached: calls
  that go deeper fail before that.

  Key definitions include:
    * `Stmt.loopFree`
    * `Eval.Halts`

  Key theorems include:
    * `Stmt.halts_evalAll`
    * `Library.halts_call`
    * `Program.exists_end`
    * `Program.halts_of_loopFree`
-/

namespace StackScript

------------------------------------------------------------
-- Programs without Loops
------------------------------------------------------------

mutual

/- No loop is in a statement, nor in functions declared there. -/
def Stmt.loopFree : Stmt → Bool
| .function _ _ body _ => Stmt.loopFreeAll body
| .ifThen _ body _ => Stmt.loopFreeAll body
| .ifElse _ body otherwise _ =>
    Stmt.loopFreeAll body && Stmt.loopFreeAll otherwise
| .whileLoop .. | .forLoop .. => false
| _ => true

/- No loop is in some statements. -/
def Stmt.loopFreeAll : List Stmt → Bool
| [] => true
| s :: ss => s.loopFree && Stmt.loopFreeAll ss

end

mutual

/- Functions that are declared where no loop is have none. -/
theorem Stmt.loopFree_declared
    (first : Nat)
    (s : Stmt)
    (h : s.loopFree = true) :
    ∀ d ∈ s.declared first, Stmt.loopFreeAll d.body = true := by
  match s with
  | .function name parameters body place =>
      rw [Stmt.loopFree] at h
      rw [Stmt.declared]
      intro d hd
      rcases List.mem_append.1 hd with hd | hd
      · exact Stmt.loopFree_declaredAll first body h d hd
      · cases List.mem_singleton.1 hd
        exact h
  | .ifThen condition body place =>
      exact Stmt.loopFree_declaredAll first body h
  | .ifElse condition body otherwise place =>
      rw [Stmt.loopFree, Bool.and_eq_true] at h
      rw [Stmt.declared]
      intro d hd
      rcases List.mem_append.1 hd with hd | hd
      · exact Stmt.loopFree_declaredAll first body h.1 d hd
      · exact Stmt.loopFree_declaredAll _ otherwise h.2 d hd
  | .whileLoop .. => cases h
  | .forLoop .. => cases h
  | .expr _ | .declare _ _ | .define _ _ _ | .ret _ _
  | .breakLoop _ | .continueLoop _ =>
      intro d hd
      cases hd

theorem Stmt.loopFree_declaredAll
    (first : Nat)
    (ss : List Stmt)
    (h : Stmt.loopFreeAll ss = true) :
    ∀ d ∈ Stmt.declaredAll first ss,
      Stmt.loopFreeAll d.body = true := by
  match ss with
  | [] =>
      intro d hd
      cases hd
  | s :: ss =>
      rw [Stmt.loopFreeAll, Bool.and_eq_true] at h
      rw [Stmt.declaredAll]
      intro d hd
      rcases List.mem_append.1 hd with hd | hd
      · exact s.loopFree_declared first h.1 d hd
      · exact Stmt.loopFree_declaredAll _ ss h.2 d hd

end

variable {lib : Library}
variable {count bound : Nat}
variable {p : Program}
variable {code : Code}
variable {f g : Fresh}

/- No function of a library has a loop. -/
def Library.LoopFree
    (lib : Library)
    (count : Nat) : Prop :=
  ∀ k, k < count → Stmt.loopFreeAll (lib.body k) = true

/- Functions of a program without loops add none. -/
theorem Library.LoopFree.extend
    {s t : Fresh}
    {body : Code}
    (h : lib.LoopFree s.routines)
    (hEmits : Stmt.EmitsAll 0 none p s body t)
    (hFree : Stmt.loopFreeAll p = true) :
    (lib.extend s.routines p code).LoopFree t.routines := by
  intro k hk
  by_cases hOld : k < s.routines
  · rw [Library.body_extend hOld]
    exact h k hOld
  · have hNumbers := hEmits.numbers
    rcases lib.exists_declared p code (Nat.not_lt.1 hOld)
        (by omega : k < s.routines + Stmt.functionsAll p) with
      ⟨d, hDeclared, hBody⟩
    rw [hBody]
    exact Stmt.loopFree_declaredAll _ p hFree d hDeclared

/- There is a library for any count of functions, without loops. -/
theorem Library.exists_loopFree (count : Nat) :
    ∃ lib : Library, lib.Sound count ∧ lib.LoopFree count := by
  induction count with
  | zero =>
      refine ⟨.empty, sound_empty, ?_⟩
      intro k hk
      omega
  | succ count ih =>
      rcases ih with ⟨lib, hSound, hFree⟩
      have hEmits :
          Stmt.EmitsAll 0 none [.function "" [] [] ⟨1, 1⟩]
            ⟨0, count⟩ _ (Fresh.define ⟨0, count⟩) :=
        .cons (.function .nil) .nil
      exact ⟨_, (sound_extend hSound hEmits rfl).1,
        hFree.extend hEmits rfl⟩

------------------------------------------------------------
-- Evaluations That End
------------------------------------------------------------

/- Fewer calls may still be opened than a bound. -/
def State.HasRoom
    (room : Nat)
    (σ : State) : Prop :=
  σ.calls ≤ σ.maxCalls ∧ σ.maxCalls < σ.calls + room

namespace Eval

variable {P : Routine → Prop}
variable {α β : Type}
variable {room : Nat}
variable {x : Eval α}
variable {f : α → Eval β}

/- An evaluation that is never cut off. -/
def Finite (x : Eval α) : Prop :=
  ∀ σ, Ends (x σ)

/- One that is not where few enough calls may be opened. -/
def Halts
    (P : Routine → Prop)
    (room : Nat)
    (x : Eval α) : Prop :=
  ∀ σ, σ.scopes.All P → σ.HasRoom room → Ends (x σ)

theorem Finite.halts (h : Finite x) :
    Halts P room x :=
  fun σ _ _ => h σ

theorem finite_pure (a : α) :
    Finite (pure a) :=
  fun _ => trivial

theorem finite_lift (result : Except EvalError α) :
    Finite (lift result) := by
  intro σ
  cases result with
  | ok a => exact trivial
  | error e => exact trivial

theorem finite_demand (part : Option α) :
    Finite (demand part) := by
  intro σ
  cases part with
  | none => exact trivial
  | some a => exact trivial

theorem Finite.bind
    (hx : Finite x)
    (hf : ∀ a, Finite (f a)) :
    Finite (x >>= f) := by
  intro σ
  have hFirst := hx σ
  change Ends (EStateM.bind x f σ)
  unfold EStateM.bind
  cases hResult : x σ with
  | ok a τ => exact hf a τ
  | error stop τ =>
      rw [hResult] at hFirst
      cases stop with
      | unfinished => exact hFirst
      | failed e => exact trivial
      | meaningless => exact trivial

/- What follows begins with as many open calls. -/
theorem Halts.bind
    {good : Nat → α → Prop}
    (hx : Halts P room x)
    (hFrames : Frames P good x)
    (hf : ∀ opened a, good opened a → Halts P room (f a)) :
    Halts P room (x >>= f) := by
  intro σ hAll hRoom
  have hFirst := hx σ hAll hRoom
  have hKeeps := hFrames σ hAll
  change Ends (EStateM.bind x f σ)
  unfold EStateM.bind
  cases hResult : x σ with
  | ok a τ =>
      rw [hResult] at hKeeps
      rcases hKeeps with ⟨opened, hGood, hLeads⟩
      apply hf opened a hGood τ hLeads.all
      unfold State.HasRoom at hRoom ⊢
      rw [hLeads.calls, hLeads.maxCalls]
      exact hRoom
  | error stop τ =>
      rw [hResult] at hFirst
      cases stop with
      | unfinished => exact hFirst
      | failed e => exact trivial
      | meaningless => exact trivial

theorem finite_load (name : String) :
    Finite (load name) :=
  fun σ => finite_lift (σ.scopes.lookup name) σ

theorem finite_onScopes (f : Scopes → Except EvalError Scopes) :
    Finite (onScopes f) := by
  intro σ
  change Ends (EStateM.bind (lift (f σ.scopes)) _ σ)
  cases f σ.scopes with
  | ok scopes => exact trivial
  | error e => exact trivial

theorem finite_combine
    (f : Combination)
    (left right : Value) :
    Finite (combine f left right) :=
  fun σ => finite_lift (f σ.host.precision left right) σ

theorem finite_update
    (f : Combination)
    (name : String) :
    Finite (update f name) := by
  refine (finite_load name).bind fun old => ?_
  refine (finite_combine _ _ _).bind fun new => ?_
  refine (finite_onScopes _).bind fun _ => ?_
  exact finite_pure _

theorem finite_builtin
    (name : String)
    (f : Builtin)
    (arguments : List Value) :
    Finite (builtin name f arguments) := by
  intro σ
  unfold builtin
  cases f.run σ.scopes arguments σ.host with
  | ok result host => exact trivial
  | error e host => exact trivial

theorem Halts.inBlock
    {body : Eval Signal}
    (h : Halts P room body) :
    Halts P room (inBlock body) := by
  intro σ hAll hRoom
  have hBody := h (σ.inScopes σ.scopes.push) hAll.push hRoom
  change Ends (EStateM.bind body _ (σ.inScopes σ.scopes.push))
  unfold EStateM.bind
  cases hResult : body (σ.inScopes σ.scopes.push) with
  | ok signal τ => cases signal <;> exact trivial
  | error stop τ =>
      rw [hResult] at hBody
      cases stop with
      | unfinished => exact hBody
      | failed e => exact trivial
      | meaningless => exact trivial

/- A call opens one of the calls that may be opened. -/
theorem halts_invoke
    {name : String}
    {arguments : List Value}
    {body : Routine → Eval Signal}
    (hArguments : ∀ v ∈ arguments, v.All P)
    (hBody : ∀ r, P r → Halts P room (body r)) :
    Halts P (room + 1) (invoke name arguments body) := by
  intro σ hAll hRoom
  rw [invoke_eq]
  have hCallee := proper_callee hAll name
  cases hRoutine : σ.callee name with
  | error e => exact trivial
  | ok r =>
      rw [hRoutine] at hCallee
      have hBind :=
        proper_bindParameters hAll.push hArguments r.parameters
      dsimp only
      cases hScopes :
          Machine.bindParameters r.parameters arguments
            σ.scopes.push with
      | error e => exact trivial
      | ok scopes =>
          rw [hScopes] at hBind
          have hOpen : σ.calls < σ.maxCalls := by
            unfold State.callee at hRoutine
            split at hRoutine
            · split at hRoutine
              · cases hRoutine
              · omega
            · cases hRoutine
            · cases hRoutine
          have hInside : (σ.entered scopes).HasRoom room := by
            rcases hRoom with ⟨_, hLess⟩
            constructor
            · exact hOpen
            · change σ.maxCalls < σ.calls + 1 + room
              omega
          have hEnds :=
            hBody r hCallee (σ.entered scopes) hBind.1 hInside
          dsimp only
          unfold enclosed
          cases hResult : body r (σ.entered scopes) with
          | ok signal τ => exact trivial
          | error stop τ =>
              rw [hResult] at hEnds
              cases stop with
              | unfinished => exact hEnds
              | failed e => exact trivial
              | meaningless => exact trivial

end Eval

------------------------------------------------------------
-- Trees
------------------------------------------------------------

variable {P : Routine → Prop}
variable {room : Nat}
variable {call : String → List Value → Eval Value}

/- Calls halt where few enough may be opened. -/
def CallsHalt
    (P : Routine → Prop)
    (room : Nat)
    (call : String → List Value → Eval Value) : Prop :=
  ∀ name arguments, (∀ v ∈ arguments, v.All P) →
    Eval.Halts P room (call name arguments)

mutual

/- An expression halts if calls do. -/
theorem Expr.halts_eval
    (hSteady : Steadies P call)
    (hCall : CallsHalt P room call)
    (e : Expr) :
    Eval.Halts P room (e.eval call) := by
  match e with
  | .literal text place =>
      rw [Expr.eval]
      exact ((Eval.finite_demand _).bind fun _ =>
        Eval.finite_pure _).halts
  | .string text place =>
      rw [Expr.eval]
      exact (Eval.finite_pure _).halts
  | .variable name place =>
      rw [Expr.eval]
      exact (Eval.finite_load name).halts
  | .binary operator a b place =>
      rw [Expr.eval]
      refine (Eval.finite_demand _).halts.bind
        (Eval.steady_demand fun _ _ => trivial) fun _ op _ => ?_
      refine (a.halts_eval hSteady hCall).bind
        (a.steady_eval hSteady) fun _ left _ => ?_
      refine (b.halts_eval hSteady hCall).bind
        (b.steady_eval hSteady) fun _ right _ => ?_
      exact (Eval.finite_combine op left right).halts
  | .logical operator a b place =>
      unfold Expr.eval
      have hRight :
          Eval.Halts P room
            (b.eval call >>= fun v =>
              pure (Value.ofBool !v.isZero)) :=
        (b.halts_eval hSteady hCall).bind (b.steady_eval hSteady)
          fun _ v _ => (Eval.finite_pure _).halts
      split
      · refine (a.halts_eval hSteady hCall).bind
          (a.steady_eval hSteady) fun _ left _ => ?_
        split
        · exact (Eval.finite_pure _).halts
        · exact hRight
      · refine (a.halts_eval hSteady hCall).bind
          (a.steady_eval hSteady) fun _ left _ => ?_
        split
        · exact hRight
        · exact (Eval.finite_pure _).halts
      · exact fun _ _ _ => trivial
  | .unary operator a place =>
      rw [Expr.eval]
      split
      · exact a.halts_eval hSteady hCall
      · split
        · refine ((Eval.finite_demand _).bind fun name => ?_).halts
          refine (Eval.finite_update _ name).bind fun w => ?_
          exact Eval.finite_pure _
        · refine (Eval.finite_demand _).halts.bind
            (Eval.steady_demand fun _ _ => trivial) fun _ op _ => ?_
          refine (a.halts_eval hSteady hCall).bind
            (a.steady_eval hSteady) fun _ v _ => ?_
          exact (Eval.finite_lift _).halts
  | .post operator a place =>
      rw [Expr.eval]
      split
      · refine ((Eval.finite_demand _).bind fun name => ?_).halts
        refine (Eval.finite_update _ name).bind fun w => ?_
        exact Eval.finite_pure _
      · exact fun _ _ _ => trivial
  | .assignment name value place =>
      rw [Expr.eval]
      refine (value.halts_eval hSteady hCall).bind
        (value.steady_eval hSteady) fun _ v _ => ?_
      exact ((Eval.finite_onScopes _).bind fun _ =>
        Eval.finite_pure v).halts
  | .call name arguments place =>
      rw [Expr.eval]
      refine (Expr.halts_evalAll hSteady hCall arguments).bind
        (Expr.steady_evalAll hSteady arguments) ?_
      rintro opened vs ⟨_, hvs⟩
      exact hCall name vs hvs

/- Expressions in a row do, too. -/
theorem Expr.halts_evalAll
    (hSteady : Steadies P call)
    (hCall : CallsHalt P room call)
    (es : List Expr) :
    Eval.Halts P room (Expr.evalAll call es) := by
  match es with
  | [] =>
      rw [Expr.evalAll]
      exact (Eval.finite_pure _).halts
  | e :: es =>
      rw [Expr.evalAll]
      refine (e.halts_eval hSteady hCall).bind
        (e.steady_eval hSteady) fun _ v _ => ?_
      refine (Expr.halts_evalAll hSteady hCall es).bind
        (Expr.steady_evalAll hSteady es) fun _ vs _ => ?_
      exact (Eval.finite_pure _).halts

end

mutual

/- A statement without loops halts if calls do. -/
theorem Stmt.halts_eval
    (hSteady : Steadies P call)
    (hCall : CallsHalt P room call)
    (bound first : Nat)
    (s : Stmt)
    (hLib : lib.Offers P first s.functions)
    (hFree : s.loopFree = true) :
    Eval.Halts P room (s.eval lib call bound first) := by
  match s with
  | .expr e =>
      rw [Stmt.eval]
      exact (e.halts_eval hSteady hCall).bind
        (e.steady_eval hSteady) fun _ _ _ =>
          (Eval.finite_pure _).halts
  | .declare name place =>
      rw [Stmt.eval]
      exact ((Eval.finite_onScopes _).bind fun _ =>
        Eval.finite_pure _).halts
  | .define name value place =>
      rw [Stmt.eval]
      refine (Eval.finite_onScopes _).halts.bind
        (Eval.steady_declare name) fun _ _ _ => ?_
      refine (value.halts_eval hSteady hCall).bind
        (value.steady_eval hSteady) fun _ v _ => ?_
      exact ((Eval.finite_onScopes _).bind fun _ =>
        Eval.finite_pure _).halts
  | .function name parameters body place =>
      rw [Stmt.eval]
      refine ((Eval.finite_onScopes _).bind fun _ => ?_).halts
      exact (Eval.finite_onScopes _).bind fun _ =>
        Eval.finite_pure _
  | .ret none place =>
      rw [Stmt.eval]
      exact (Eval.finite_pure _).halts
  | .ret (some e) place =>
      rw [Stmt.eval]
      exact (e.halts_eval hSteady hCall).bind
        (e.steady_eval hSteady) fun _ _ _ =>
          (Eval.finite_pure _).halts
  | .ifThen condition body place =>
      rw [Stmt.eval]
      rw [Stmt.loopFree] at hFree
      have hBody : lib.Offers P first (Stmt.functionsAll body) :=
        hLib
      refine (condition.halts_eval hSteady hCall).bind
        (condition.steady_eval hSteady) fun _ v _ => ?_
      split
      · exact (Eval.finite_pure _).halts
      · exact (Stmt.halts_evalAll hSteady hCall bound first body
          hBody hFree).inBlock
  | .ifElse condition body otherwise place =>
      rw [Stmt.eval]
      rw [Stmt.loopFree, Bool.and_eq_true] at hFree
      rw [Stmt.functions] at hLib
      refine (condition.halts_eval hSteady hCall).bind
        (condition.steady_eval hSteady) fun _ v _ => ?_
      split
      · exact (Stmt.halts_evalAll hSteady hCall bound _ otherwise
          (hLib.within (by omega) (by omega)) hFree.2).inBlock
      · exact (Stmt.halts_evalAll hSteady hCall bound first body
          (hLib.within (by omega) (by omega)) hFree.1).inBlock
  | .whileLoop .. => cases hFree
  | .forLoop .. => cases hFree
  | .breakLoop place =>
      rw [Stmt.eval]
      exact (Eval.finite_pure _).halts
  | .continueLoop place =>
      rw [Stmt.eval]
      exact (Eval.finite_pure _).halts

/- Statements in a row do, too. -/
theorem Stmt.halts_evalAll
    (hSteady : Steadies P call)
    (hCall : CallsHalt P room call)
    (bound first : Nat)
    (ss : List Stmt)
    (hLib : lib.Offers P first (Stmt.functionsAll ss))
    (hFree : Stmt.loopFreeAll ss = true) :
    Eval.Halts P room (Stmt.evalAll lib call bound first ss) := by
  match ss with
  | [] =>
      rw [Stmt.evalAll]
      exact (Eval.finite_pure _).halts
  | s :: ss =>
      rw [Stmt.evalAll]
      rw [Stmt.functionsAll] at hLib
      rw [Stmt.loopFreeAll, Bool.and_eq_true] at hFree
      have hFirst : lib.Offers P first s.functions :=
        hLib.within (by omega) (by omega)
      refine (s.halts_eval hSteady hCall bound first hFirst
        hFree.1).bind (s.frames_eval hSteady bound first hFirst)
        fun _ signal _ => ?_
      cases signal with
      | next =>
          exact Stmt.halts_evalAll hSteady hCall bound _ ss
            (hLib.within (by omega) (by omega)) hFree.2
      | _ => exact (Eval.finite_pure _).halts

end

------------------------------------------------------------
-- Calls and Programs
------------------------------------------------------------

/- Calls within the bound halt where no function has a loop. -/
theorem Library.halts_call
    (hSound : lib.Sound count)
    (hFree : lib.LoopFree count)
    (bound : Nat) :
    CallsHalt (lib.Has count) bound (lib.call bound) := by
  induction bound with
  | zero =>
      intro name arguments _ σ _ hRoom
      have hNone := hRoom.2
      have hSome := hRoom.1
      omega
  | succ bound ih =>
      intro name arguments hArguments
      rw [Library.call]
      split
      · exact (Eval.finite_builtin name _ arguments).halts
      · apply Eval.halts_invoke hArguments
        intro r hr
        exact Stmt.halts_evalAll
          (Library.steady_call hSound.closed bound) ih bound _ _
          (hSound.closed r hr) (hFree r.mark hr.1)

/-
  A run of a program without loops, on a machine whose
  functions have none, comes to an end.
-/
theorem Program.exists_end
    {m : Machine}
    (hCode : p.compile f = .ok code g)
    (hProgram : Stmt.loopFreeAll p = true)
    (hSound : lib.Sound f.routines)
    (hFree : lib.LoopFree f.routines)
    (hAll : m.scopes.All (lib.Has f.routines))
    (hCalls : m.calls ≤ m.maxCalls) :
    ∃ n, m.execute n code ≠ .unfinished := by
  let room := m.maxCalls + 1
  have hSound' := Program.sound_extend hCode hSound
  have hAll' := Program.all_extend hCode hAll
  rcases Program.emits_of_compile hCode with ⟨body, hEmits, hBody⟩
  have hFree' :
      (lib.extend f.routines p code).LoopFree g.routines :=
    hFree.extend hEmits hProgram
  have hNumbers := hEmits.numbers
  have hEnds :
      Eval.Ends
        (p.eval (lib.extend f.routines p code) room f.routines
          m.state) := by
    apply Stmt.halts_evalAll
      (Library.steady_call hSound'.closed room)
      (Library.halts_call hSound' hFree' room) room _ p
      (Library.offers_has _ (by omega)) hProgram m.state hAll'
    constructor
    · exact hCalls
    · change m.maxCalls < m.calls + (m.maxCalls + 1)
      omega
  have hStart : m.state.scopes.All (lib.Has f.routines) := hAll
  rcases
      Program.follows_eval True hCode hSound
        (fun hFalse => absurd trivial hFalse) hStart room m.stack with
    ⟨body, hBody, hFollows⟩
  rcases hFollows.split with hFollows | ⟨n, e, left, hFails, _⟩
  · rcases realizes_of_follows hBody hFollows hEnds with
      ⟨n, hRealizes⟩
    refine ⟨n, fun hNone => ?_⟩
    have hRun :
        Machine.run n code (m.state.at 0 m.stack) = .unfinished :=
      hNone
    rw [hRun] at hRealizes
    cases hRealizes
  · refine ⟨n, fun hNone => ?_⟩
    have hRun :
        Machine.run n code (m.state.at 0 m.stack) = .unfinished :=
      hNone
    rw [hRun] at hFails
    cases hFails

/-
  A program without loops is run on a new machine, with any
  limit on open calls. The run comes to an end or fails; and
  if it would ever have more calls open under a higher limit,
  it fails because all its calls are open.
-/
theorem Program.halts_of_loopFree
    (config : Config)
    (input : List UInt8)
    (hCode : p.compile f = .ok code g)
    (hFree : Stmt.loopFreeAll p = true) :
    (∃ n,
      (∃ ending left,
        (Machine.new config input).execute n code =
          .done ending left) ∨
        ∃ e left,
          (Machine.new config input).execute n code =
            .failed e left) ∧
      ∀ limit stream m,
        config.maxCalls ≤ limit →
        Machine.Visits code
          (Machine.new { config with maxCalls := limit } input)
          stream m →
        config.maxCalls < m.calls →
        ∃ n left,
          (Machine.new config input).execute n code =
            .failed (.stackOverflow config.maxCalls) left := by
  constructor
  · rcases Library.exists_loopFree f.routines with
      ⟨lib, hSound, hLibrary⟩
    have hEnds :
        ∃ n, (Machine.new config input).execute n code ≠
          .unfinished :=
      Program.exists_end hCode hFree hSound hLibrary
        Scopes.all_initial (Nat.zero_le _)
    rcases hEnds with ⟨n, hEnd⟩
    refine ⟨n, ?_⟩
    cases hRun : (Machine.new config input).execute n code with
    | done ending left => exact .inl ⟨ending, left, rfl⟩
    | failed e left => exact .inr ⟨e, left, rfl⟩
    | unfinished => exact absurd hRun hEnd
  · intro limit stream m hLe hVisits hDeep
    have hScopes : Scopes.initial.Twin Eq Scopes.initial :=
      ⟨.cons ⟨rfl, .number⟩
        (.cons ⟨rfl, .number⟩ (.cons ⟨rfl, .null⟩ .nil)), .nil⟩
    have hRaised :
        (Machine.new config input).Raised 0 config.maxCalls limit
          (Machine.new { config with maxCalls := limit } input) :=
      ⟨.nil, hScopes, rfl, ⟨rfl, rfl⟩, rfl⟩
    exact hVisits.overflows hLe (Nat.zero_le _) hRaised hDeep

/- A function that calls itself without end. -/
def Program.recurring : Program :=
  [.function "f" [] [.ret (some (.call "f" [] ⟨1, 1⟩)) ⟨1, 1⟩]
      ⟨1, 1⟩,
    .expr (.call "f" [] ⟨1, 1⟩)]

/- With two open calls allowed, the third is refused. -/
theorem Program.halts_of_loopFree_recurring :
    ∃ code g stream m,
      Program.recurring.compile ⟨0, 0⟩ = .ok code g ∧
        Stmt.loopFreeAll Program.recurring = true ∧
        Machine.Visits code (Machine.new { maxCalls := 3 } []) stream
          m ∧
        m.calls = 3 ∧
        ∃ n left,
          (Machine.new { maxCalls := 2 } []).execute n code =
            .failed (.stackOverflow 2) left := by
  have hRun :
      ∃ code g stream m,
        Program.recurring.compile ⟨0, 0⟩ = .ok code g ∧
          Machine.Visits code (Machine.new { maxCalls := 3 } [])
            stream m ∧
          m.calls = 3 :=
    ⟨_, _, _, _, rfl,
      .next rfl (.next rfl (.next rfl (.inside rfl rfl
        (.inside rfl rfl (.inside rfl rfl .here))))), rfl⟩
  rcases hRun with ⟨code, g, stream, m, hCode, hVisits, hDeep⟩
  have hFree : Stmt.loopFreeAll Program.recurring = true := by
    decide
  have hFails :=
    (Program.halts_of_loopFree { maxCalls := 2 } [] hCode hFree).2 3
      stream m (by decide) hVisits (by rw [hDeep]; decide)
  exact ⟨code, g, stream, m, hCode, hFree, hVisits, hDeep, hFails⟩

end StackScript
