import StackScript.Proofs.Machine.Results
import StackScript.Proofs.Meaning.Evaluate

/-
  What an evaluation leaves as it was.

  Whatever an evaluation does, it never asks for what the
  machine cannot give, it closes the scopes it opens unless
  it fails or returns, it adds names to no scope but the
  innermost, and it makes up no function values.

  Key definitions include:
    * `State.Leads`
    * `Eval.Frames`, `Eval.Steady`

  Key theorems include:
    * `Expr.steady_eval`
    * `Stmt.frames_eval`
    * `Library.steady_call`
-/

namespace StackScript

variable {P : Routine → Prop}
variable {α β : Type}

------------------------------------------------------------
-- Operators
------------------------------------------------------------

namespace Operator

/- The operations in code compute what the operators mean. -/
theorem compute?_eq (operator : Operator) :
    operator.compute? = operator.binaryOp?.map Op.combine := by
  cases operator <;> rfl

theorem alter?_eq (operator : Operator) :
    operator.alter? = operator.unaryOp?.map Op.alter := by
  cases operator <;> rfl

theorem step?_eq (operator : Operator) :
    operator.step? =
      if operator.isStep then some (Code.stepOp operator).combine
      else none := by
  cases operator <;> rfl

variable {operator : Operator}
variable {f : Combination}

theorem exists_combine (h : operator.compute? = some f) :
    ∃ op : Op, op.combine = f := by
  rw [compute?_eq] at h
  obtain ⟨op, _, hOp⟩ := Option.map_eq_some_iff.1 h
  exact ⟨op, hOp⟩

theorem exists_step (h : operator.step? = some f) :
    ∃ op : Op, op.combine = f := by
  rw [step?_eq] at h
  split at h
  · exact ⟨_, Option.some.inj h⟩
  · cases h

theorem exists_alter
    {g : Value → Except EvalError Value}
    (h : operator.alter? = some g) :
    ∃ op : Op, op.alter = g := by
  rw [alter?_eq] at h
  obtain ⟨op, _, hOp⟩ := Option.map_eq_some_iff.1 h
  exact ⟨op, hOp⟩

end Operator

------------------------------------------------------------
-- Evaluations
------------------------------------------------------------

/-
  A state that began as another: its scopes did, and it has
  no functions without a property.
-/
structure State.Leads
    (P : Routine → Prop)
    (opened : Nat)
    (σ τ : State) : Prop where
  reach : σ.scopes.Over opened τ.scopes
  all : τ.scopes.All P
  calls : τ.calls = σ.calls
  maxCalls : τ.maxCalls = σ.maxCalls

theorem State.Leads.refl
    {σ : State}
    (h : σ.scopes.All P) :
    σ.Leads P 0 σ :=
  ⟨.refl, h, rfl, rfl⟩

theorem State.Leads.trans
    {opened : Nat}
    {σ τ υ : State}
    (hFirst : σ.Leads P 0 τ)
    (hThen : τ.Leads P opened υ) :
    σ.Leads P opened υ where
  reach := hFirst.reach.trans hThen.reach
  all := hThen.all
  calls := hThen.calls.trans hFirst.calls
  maxCalls := hThen.maxCalls.trans hFirst.maxCalls

/-
  A result of an evaluation that began in a state: a good
  value with a number of scopes left open, or an error that
  is no misuse.
-/
def Eval.Keeps
    (P : Routine → Prop)
    (good : Nat → α → Prop)
    (σ : State) :
    EStateM.Result Stop State α → Prop
| .ok a τ => ∃ opened, good opened a ∧ σ.Leads P opened τ
| .error stop τ =>
    (∀ e, stop = .failed e → e.isMisuse = false) ∧
      ∃ opened, σ.Leads P opened τ

/- An evaluation that keeps to its frame, wherever it begins. -/
def Eval.Frames
    (P : Routine → Prop)
    (good : Nat → α → Prop)
    (x : Eval α) : Prop :=
  ∀ σ, σ.scopes.All P → Eval.Keeps P good σ (x σ)

/- One that also leaves no scope open. -/
def Eval.Steady
    (P : Routine → Prop)
    (good : α → Prop) :
    Eval α → Prop :=
  Eval.Frames P fun opened a => opened = 0 ∧ good a

/- A return may leave scopes open, nothing else does. -/
def Signal.Fits
    (P : Routine → Prop) :
    Nat → Signal → Prop
| _, .ret v => v.All P
| opened, _ => opened = 0

namespace Eval

variable {good : α → Prop}

/- What is kept later in a frame was kept from its start. -/
theorem Keeps.after
    {fine : Nat → α → Prop}
    {σ τ : State}
    {result : EStateM.Result Stop State α}
    (hLeads : σ.Leads P 0 τ)
    (h : Keeps P fine τ result) :
    Keeps P fine σ result := by
  cases result with
  | ok a υ =>
      rcases h with ⟨opened, hFine, hThen⟩
      exact ⟨opened, hFine, hLeads.trans hThen⟩
  | error stop υ =>
      rcases h with ⟨hError, opened, hThen⟩
      exact ⟨hError, opened, hLeads.trans hThen⟩

/- One evaluation after another keeps what both keep. -/
theorem Keeps.bind
    {fine : Nat → α → Prop}
    {further : Nat → β → Prop}
    {σ : State}
    {x : Eval α}
    {f : α → Eval β}
    (hx : Keeps P fine σ (x σ))
    (hf :
      ∀ opened a τ, fine opened a → σ.Leads P opened τ →
        Keeps P further σ (f a τ)) :
    Keeps P further σ ((x >>= f) σ) := by
  change Keeps P further σ (EStateM.bind x f σ)
  unfold EStateM.bind
  cases hResult : x σ with
  | ok a τ =>
      rw [hResult] at hx
      rcases hx with ⟨opened, hFine, hLeads⟩
      exact hf opened a τ hFine hLeads
  | error stop τ =>
      rw [hResult] at hx
      exact hx

theorem Steady.bind
    {x : Eval α}
    {f : α → Eval β}
    {further : Nat → β → Prop}
    (hx : Steady P good x)
    (hf : ∀ a, good a → Frames P further (f a)) :
    Frames P further (x >>= f) := by
  intro σ hAll
  apply (hx σ hAll).bind
  rintro opened a τ ⟨rfl, hGood⟩ hLeads
  exact (hf a hGood τ hLeads.all).after hLeads

theorem frames_pure
    {fine : Nat → α → Prop}
    {a : α}
    (h : fine 0 a) :
    Frames P fine (pure a) :=
  fun _ hAll => ⟨0, h, .refl hAll⟩

theorem steady_pure
    {a : α}
    (h : good a) :
    Steady P good (pure a) :=
  frames_pure ⟨rfl, h⟩

theorem frames_unfinished {fine : Nat → α → Prop} :
    Frames P fine (throw .unfinished) := by
  intro σ hAll
  refine ⟨?_, 0, .refl hAll⟩
  intro e he
  cases he

theorem frames_meaningless {fine : Nat → α → Prop} :
    Frames P fine (throw .meaningless) := by
  intro σ hAll
  refine ⟨?_, 0, .refl hAll⟩
  intro e he
  cases he

theorem steady_lift
    {result : Except EvalError α}
    (h : Proper good result) :
    Steady P good (lift result) := by
  intro σ hAll
  cases result with
  | ok a => exact ⟨0, ⟨rfl, h⟩, .refl hAll⟩
  | error e =>
      refine ⟨?_, 0, .refl hAll⟩
      intro e' he
      cases he
      exact h

theorem steady_demand
    {part : Option α}
    (h : ∀ a ∈ part, good a) :
    Steady P good (demand part) := by
  cases part with
  | none => exact frames_meaningless
  | some a => exact steady_pure (h a rfl)

------------------------------------------------------------
-- Variables
------------------------------------------------------------

/- Changing scopes does to the frame what it does to them. -/
theorem keeps_onScopes
    {opened : Nat}
    {fine : Nat → Unit → Prop}
    {f : Scopes → Except EvalError Scopes}
    {σ : State}
    (hAll : σ.scopes.All P)
    (hFine : fine opened ())
    (h :
      Proper (fun t => t.All P ∧ σ.scopes.Over opened t)
        (f σ.scopes)) :
    Keeps P fine σ (onScopes f σ) := by
  change
    Keeps P fine σ (EStateM.bind (lift (f σ.scopes)) _ σ)
  cases hResult : f σ.scopes with
  | ok t =>
      rw [hResult] at h
      exact ⟨opened, hFine, h.2, h.1, rfl, rfl⟩
  | error e =>
      rw [hResult] at h
      refine ⟨?_, 0, .refl hAll⟩
      intro e' he
      cases he
      exact h

theorem steady_load (name : String) :
    Steady P (Value.All P) (load name) := by
  intro σ hAll
  have hLookup :
      Proper (Value.All P) (σ.scopes.lookup name) := by
    cases hResult : σ.scopes.lookup name with
    | ok v => exact hAll.lookup hResult
    | error e =>
        unfold Scopes.lookup at hResult
        split at hResult
        · cases hResult
        · cases hResult
          rfl
  exact steady_lift hLookup σ hAll

theorem steady_store
    {name : String}
    {v : Value}
    (hValue : v.All P) :
    Steady P (fun _ => True) (store name v) := by
  intro σ hAll
  have hAssign :
      Proper (fun t => t.All P ∧ σ.scopes.Over 0 t)
        (σ.scopes.assign name v) := by
    cases hResult : σ.scopes.assign name v with
    | ok t =>
        have hKeeps := Scopes.assign_keeps hAll hValue hResult
        exact ⟨hKeeps.1, Scopes.over_of_shape_eq hKeeps.2⟩
    | error e =>
        unfold Scopes.assign at hResult
        repeat' split at hResult
        all_goals cases hResult
        all_goals rfl
  exact keeps_onScopes hAll ⟨rfl, trivial⟩ hAssign

theorem steady_declare (name : String) :
    Steady P (fun _ => True) (declare name) := by
  intro σ hAll
  have hNull : Value.null.All P := by
    intro r hr
    cases hr
  have hDeclare :
      Proper (fun t => t.All P ∧ σ.scopes.Over 0 t)
        (σ.scopes.declare name .null) := by
    cases hResult : σ.scopes.declare name .null with
    | ok t =>
        exact ⟨hAll.declare hNull hResult,
          Scopes.over_declare hResult⟩
    | error e =>
        unfold Scopes.declare at hResult
        split at hResult
        · cases hResult
          rfl
        · cases hResult
  exact keeps_onScopes hAll ⟨rfl, trivial⟩ hDeclare

theorem steady_combine
    (op : Op)
    (left right : Value) :
    Steady P (Value.All P) (combine op.combine left right) := by
  intro σ hAll
  exact steady_lift
    (op.proper_combine σ.host.precision left right) σ hAll

theorem steady_update
    (op : Op)
    (name : String) :
    Steady P (fun w => w.1.All P ∧ w.2.All P)
      (update op.combine name) := by
  refine (steady_load name).bind fun old hOld => ?_
  refine (steady_combine op _ _).bind fun new hNew => ?_
  refine (steady_store hNew).bind fun _ _ => ?_
  exact steady_pure ⟨hOld, hNew⟩

------------------------------------------------------------
-- Blocks and Loops
------------------------------------------------------------

/- What begins in a new scope ends one scope further in. -/
theorem leads_of_push
    {opened : Nat}
    {σ τ : State}
    (h : (σ.inScopes σ.scopes.push).Leads P opened τ) :
    σ.Leads P (opened + 1) τ :=
  ⟨h.reach.of_push, h.all, h.calls, h.maxCalls⟩

/- Closing a scope that was opened. -/
theorem leads_close
    {opened : Nat}
    {σ τ : State}
    (h : σ.Leads P (opened + 1) τ) :
    σ.Leads P opened (τ.inScopes (τ.scopes.close 1)) :=
  ⟨h.reach.close (Nat.le_add_left 1 opened), h.all.close, h.calls,
    h.maxCalls⟩

theorem frames_inBlock
    {body : Eval Signal}
    (h : Frames P (Signal.Fits P) body) :
    Frames P (Signal.Fits P) (inBlock body) := by
  intro σ hAll
  have hBody := h (σ.inScopes σ.scopes.push) hAll.push
  change
    Keeps P (Signal.Fits P) σ
      (EStateM.bind body _ (σ.inScopes σ.scopes.push))
  unfold EStateM.bind
  cases hResult : body (σ.inScopes σ.scopes.push) with
  | error stop τ =>
      rw [hResult] at hBody
      rcases hBody with ⟨hError, opened, hLeads⟩
      exact ⟨hError, opened + 1, leads_of_push hLeads⟩
  | ok signal τ =>
      rw [hResult] at hBody
      rcases hBody with ⟨opened, hFits, hLeads⟩
      cases signal with
      | ret v =>
          exact ⟨opened + 1, hFits, leads_of_push hLeads⟩
      | _ =>
          cases hFits
          exact ⟨0, rfl, leads_close (leads_of_push hLeads)⟩

/- The statement that follows is run only after `next`. -/
theorem frames_andThen
    {x : Eval Signal}
    {f : Signal → Eval Signal}
    (hx : Frames P (Signal.Fits P) x)
    (hNext : Frames P (Signal.Fits P) (f .next))
    (hOther : ∀ signal, signal ≠ .next → f signal = pure signal) :
    Frames P (Signal.Fits P) (x >>= f) := by
  intro σ hAll
  apply (hx σ hAll).bind
  intro opened signal τ hFits hLeads
  cases signal with
  | next =>
      cases hFits
      exact (hNext τ hLeads.all).after hLeads
  | _ =>
      rw [hOther _ (by simp)]
      exact ⟨opened, hFits, hLeads⟩

theorem frames_repeated
    {test : Eval Bool}
    {body : Eval Signal}
    {update : Eval Unit}
    (hTest : Steady P (fun _ => True) test)
    (hBody : Frames P (Signal.Fits P) body)
    (hUpdate : Steady P (fun _ => True) update)
    (bound : Nat) :
    Frames P (Signal.Fits P) (repeated test body update bound) := by
  induction bound with
  | zero => exact frames_unfinished
  | succ bound ih =>
      unfold repeated
      refine hTest.bind fun again _ => ?_
      split
      · intro σ hAll
        have hAgain :
            Frames P (Signal.Fits P)
              (update >>= fun _ =>
                repeated test body update bound) :=
          hUpdate.bind fun _ _ => ih
        apply (hBody σ hAll).bind
        intro opened signal τ hFits hLeads
        cases signal with
        | breakLoop => exact ⟨opened, hFits, hLeads⟩
        | ret v => exact ⟨opened, hFits, hLeads⟩
        | next =>
            cases hFits
            exact (hAgain τ hLeads.all).after hLeads
        | continueLoop =>
            cases hFits
            exact (hAgain τ hLeads.all).after hLeads
      · exact frames_pure rfl

------------------------------------------------------------
-- Calls
------------------------------------------------------------

theorem steady_builtin
    (name : String)
    (f : Builtin)
    (arguments : List Value) :
    Steady P (Value.All P) (builtin name f arguments) := by
  intro σ hAll
  unfold builtin
  cases hResult : f.run σ.scopes arguments σ.host with
  | error e host =>
      refine ⟨?_, 0, .refl, hAll, rfl, rfl⟩
      intro e' he
      cases he
      rfl
  | ok result host =>
      refine ⟨0, ⟨rfl, ?_⟩, .refl, hAll, rfl, rfl⟩
      have hGives :=
        Builtin.gives_run hAll arguments f σ.host result host hResult
      cases result with
      | none =>
          intro r hr
          cases hr
      | some v => exact hGives v rfl

/- Scopes in which a body runs stand over those of the caller. -/
theorem leads_resumed
    {opened : Nat}
    {σ τ : State}
    {scopes : Scopes}
    (hOver : σ.scopes.push.Over 0 scopes)
    (h : (σ.entered scopes).Leads P opened τ) :
    σ.Leads P 0 (σ.resumed τ) :=
  ⟨(hOver.trans h.reach).of_push.truncate, h.all.close, rfl,
    h.maxCalls⟩

theorem steady_enclosed
    {σ : State}
    {scopes : Scopes}
    {body : Eval Signal}
    (hAll : scopes.All P)
    (hOver : σ.scopes.push.Over 0 scopes)
    (h : Frames P (Signal.Fits P) body) :
    Keeps P (fun opened v => opened = 0 ∧ v.All P) σ
      (enclosed scopes body σ) := by
  have hBody := h (σ.entered scopes) hAll
  unfold enclosed
  cases hResult : body (σ.entered scopes) with
  | error stop τ =>
      rw [hResult] at hBody
      rcases hBody with ⟨hError, opened, hLeads⟩
      exact ⟨hError, 0, leads_resumed hOver hLeads⟩
  | ok signal τ =>
      rw [hResult] at hBody
      rcases hBody with ⟨opened, hFits, hLeads⟩
      refine ⟨0, ⟨rfl, ?_⟩, leads_resumed hOver hLeads⟩
      cases signal with
      | ret v => exact hFits
      | _ =>
          intro r hr
          cases hr

/- The function that a call enters is one of a variable. -/
theorem proper_callee
    {σ : State}
    (hAll : σ.scopes.All P)
    (name : String) :
    Proper P (σ.callee name) := by
  unfold State.callee
  split
  · rename_i r hGet
    split
    · rfl
    · exact hAll.get? hGet r rfl
  · rfl
  · rfl

/- Parameters fail only to be declared. -/
theorem proper_bindParameters
    {s : Scopes}
    {arguments : List Value}
    (hAll : s.All P)
    (hArguments : ∀ v ∈ arguments, v.All P)
    (parameters : List String) :
    Proper (fun t => t.All P ∧ s.Over 0 t)
      (Machine.bindParameters parameters arguments s) := by
  cases hResult :
      Machine.bindParameters parameters arguments s with
  | ok t => exact Scopes.bindParameters_keeps hAll hArguments hResult
  | error e =>
      change e.isMisuse = false
      clear hAll hArguments
      induction parameters generalizing s arguments with
      | nil => cases hResult
      | cons p ps ih =>
          unfold Machine.bindParameters at hResult
          cases hDeclare :
              s.declare p (arguments.head?.getD .undefined) with
          | ok s' =>
              rw [hDeclare] at hResult
              change
                Machine.bindParameters ps arguments.tail s' = _
                  at hResult
              exact ih hResult
          | error e' =>
              rw [hDeclare] at hResult
              cases hResult
              unfold Scopes.declare at hDeclare
              split at hDeclare
              · cases hDeclare
                rfl
              · cases hDeclare

/- The machine binds parameters in the same way. -/
theorem bindArguments_eq
    (parameters : List String)
    (arguments : List Value)
    (s : Scopes) :
    bindArguments parameters arguments s =
      Machine.bindParameters parameters arguments s := by
  induction parameters generalizing arguments s with
  | nil => rfl
  | cons p ps ih =>
      cases arguments with
      | nil =>
          simp only [bindArguments, Machine.bindParameters, List.head?_nil,
            Option.getD_none, List.tail_nil, ih]
      | cons v vs =>
          simp only [bindArguments, Machine.bindParameters, List.head?_cons,
            Option.getD_some, List.tail_cons, ih]

/- A call fails, or it runs the body of the function it finds. -/
theorem invoke_eq
    (name : String)
    (arguments : List Value)
    (body : Routine → Eval Signal)
    (σ : State) :
    invoke name arguments body σ =
      match σ.callee name with
      | .error e => .error (.failed e) σ
      | .ok r =>
          match
            Machine.bindParameters r.parameters arguments
              σ.scopes.push
          with
          | .error e => .error (.failed e) σ
          | .ok scopes => enclosed scopes (body r) σ := by
  change EStateM.bind (lift (σ.callee name)) _ σ = _
  cases σ.callee name with
  | error e => rfl
  | ok r =>
      change
        EStateM.bind
          (lift
            (bindArguments r.parameters arguments
              σ.scopes.push)) _ σ = _
      rw [bindArguments_eq]
      dsimp only
      cases
        Machine.bindParameters r.parameters arguments
          σ.scopes.push with
      | error e => rfl
      | ok scopes => rfl

theorem steady_invoke
    {name : String}
    {arguments : List Value}
    {body : Routine → Eval Signal}
    (hArguments : ∀ v ∈ arguments, v.All P)
    (hBody : ∀ r, P r → Frames P (Signal.Fits P) (body r)) :
    Steady P (Value.All P) (invoke name arguments body) := by
  intro σ hAll
  have hFails (e : EvalError) (he : e.isMisuse = false) :
      Keeps P (fun opened v => opened = 0 ∧ Value.All P v) σ
        (.error (.failed e) σ) := by
    refine ⟨?_, 0, .refl hAll⟩
    intro e' he'
    cases he'
    exact he
  rw [invoke_eq]
  have hCallee := proper_callee hAll name
  cases hRoutine : σ.callee name with
  | error e =>
      rw [hRoutine] at hCallee
      exact hFails e hCallee
  | ok r =>
      rw [hRoutine] at hCallee
      have hBind :=
        proper_bindParameters hAll.push hArguments r.parameters
      dsimp only
      cases hScopes :
          Machine.bindParameters r.parameters arguments
            σ.scopes.push with
      | error e =>
          rw [hScopes] at hBind
          exact hFails e hBind
      | ok scopes =>
          rw [hScopes] at hBind
          exact steady_enclosed hBind.1 hBind.2 (hBody r hCallee)

end Eval

------------------------------------------------------------
-- Expressions
------------------------------------------------------------

/- Calls keep to their frames. -/
def Steadies
    (P : Routine → Prop)
    (call : String → List Value → Eval Value) : Prop :=
  ∀ name arguments, (∀ v ∈ arguments, v.All P) →
    Eval.Steady P (Value.All P) (call name arguments)

variable {call : String → List Value → Eval Value}

/- One and zero are no functions. -/
theorem Value.all_ofBool (b : Bool) :
    (Value.ofBool b).All P := by
  intro r hr
  cases hr

mutual

/- An expression keeps to its frame if calls do. -/
theorem Expr.steady_eval
    (hCall : Steadies P call)
    (e : Expr) :
    Eval.Steady P (Value.All P) (e.eval call) := by
  match e with
  | .literal text place =>
      rw [Expr.eval]
      have hText :
          Eval.Steady P (fun c => ∀ r, c ≠ .routine r)
            (Eval.demand (Constant.ofText? text)) := by
        apply Eval.steady_demand
        rintro c hc r rfl
        exact Constant.ofText?_ne_routine hc
      refine hText.bind fun c hc => Eval.steady_pure ?_
      intro r hr
      cases c with
      | routine r' => exact absurd rfl (hc r')
      | _ => cases hr
  | .string text place =>
      rw [Expr.eval]
      apply Eval.steady_pure
      intro r hr
      cases hr
  | .variable name place =>
      rw [Expr.eval]
      exact Eval.steady_load name
  | .binary operator a b place =>
      rw [Expr.eval]
      refine (Eval.steady_demand fun _ => operator.exists_combine).bind ?_
      rintro _ ⟨op, rfl⟩
      refine (a.steady_eval hCall).bind fun left _ => ?_
      refine (b.steady_eval hCall).bind fun right _ => ?_
      exact Eval.steady_combine op left right
  | .logical operator a b place =>
      unfold Expr.eval
      have hRight :
          Eval.Steady P (Value.All P)
            (b.eval call >>= fun v =>
              pure (Value.ofBool !v.isZero)) :=
        (b.steady_eval hCall).bind fun v _ =>
          Eval.steady_pure (Value.all_ofBool _)
      split
      · refine (a.steady_eval hCall).bind fun left _ => ?_
        split
        · exact Eval.steady_pure (Value.all_ofBool _)
        · exact hRight
      · refine (a.steady_eval hCall).bind fun left _ => ?_
        split
        · exact hRight
        · exact Eval.steady_pure (Value.all_ofBool _)
      · exact Eval.frames_meaningless
  | .unary operator a place =>
      rw [Expr.eval]
      split
      · exact a.steady_eval hCall
      · split
        · rename_i hStep
          rcases operator.exists_step hStep with ⟨op, rfl⟩
          refine (Eval.steady_demand fun _ _ => trivial).bind
            fun name _ => ?_
          refine (Eval.steady_update op name).bind fun w hw => ?_
          exact Eval.steady_pure hw.2
        · refine
            (Eval.steady_demand fun _ => operator.exists_alter).bind ?_
          rintro _ ⟨op, rfl⟩
          refine (a.steady_eval hCall).bind fun v _ => ?_
          exact Eval.steady_lift (op.proper_alter v)
  | .post operator a place =>
      rw [Expr.eval]
      split
      · rename_i hStep
        rcases operator.exists_step hStep with ⟨op, rfl⟩
        refine (Eval.steady_demand fun _ _ => trivial).bind
          fun name _ => ?_
        refine (Eval.steady_update op name).bind fun w hw => ?_
        exact Eval.steady_pure hw.1
      · exact Eval.frames_meaningless
  | .assignment name value place =>
      rw [Expr.eval]
      refine (value.steady_eval hCall).bind fun v hv => ?_
      refine (Eval.steady_store hv).bind fun _ _ => ?_
      exact Eval.steady_pure hv
  | .call name arguments place =>
      rw [Expr.eval]
      refine (Expr.steady_evalAll hCall arguments).bind
        fun vs hvs => ?_
      exact hCall name vs hvs

/- Expressions in a row do, too. -/
theorem Expr.steady_evalAll
    (hCall : Steadies P call)
    (es : List Expr) :
    Eval.Steady P (fun vs => ∀ v ∈ vs, v.All P)
      (Expr.evalAll call es) := by
  match es with
  | [] =>
      rw [Expr.evalAll]
      apply Eval.steady_pure
      intro v hv
      cases hv
  | e :: es =>
      rw [Expr.evalAll]
      refine (e.steady_eval hCall).bind fun v hv => ?_
      refine (Expr.steady_evalAll hCall es).bind fun vs hvs => ?_
      apply Eval.steady_pure
      intro w hw
      rcases List.mem_cons.1 hw with rfl | hw
      · exact hv
      · exact hvs w hw

end

------------------------------------------------------------
-- Statements
------------------------------------------------------------

theorem Expr.steady_test
    (hCall : Steadies P call)
    (e? : Option Expr) :
    Eval.Steady P (fun _ => True) (Expr.test call e?) := by
  cases e? with
  | none => exact Eval.steady_pure trivial
  | some e =>
      refine (e.steady_eval hCall).bind fun v _ => ?_
      exact Eval.steady_pure trivial

theorem Expr.steady_perform
    (hCall : Steadies P call)
    (e? : Option Expr) :
    Eval.Steady P (fun _ => True) (Expr.perform call e?) := by
  cases e? with
  | none => exact Eval.steady_pure trivial
  | some e =>
      refine (e.steady_eval hCall).bind fun v _ => ?_
      exact Eval.steady_pure trivial

/- The functions with numbers in a range have a property. -/
def Library.Offers
    (lib : Library)
    (P : Routine → Prop)
    (first count : Nat) : Prop :=
  ∀ k, first ≤ k → k < first + count → P (lib.routine k)

theorem Library.Offers.within
    {lib : Library}
    {first count start size : Nat}
    (h : lib.Offers P first count)
    (hStart : first ≤ start)
    (hEnd : start + size ≤ first + count) :
    lib.Offers P start size :=
  fun k hLe hLt => h k (by omega) (by omega)

variable {lib : Library}

mutual

/- A statement keeps to its frame if calls do. -/
theorem Stmt.frames_eval
    (hCall : Steadies P call)
    (bound first : Nat)
    (s : Stmt)
    (hLib : lib.Offers P first s.functions) :
    Eval.Frames P (Signal.Fits P)
      (s.eval lib call bound first) := by
  match s with
  | .expr e =>
      rw [Stmt.eval]
      refine (e.steady_eval hCall).bind fun _ _ => ?_
      exact Eval.frames_pure rfl
  | .declare name place =>
      rw [Stmt.eval]
      refine (Eval.steady_declare name).bind fun _ _ => ?_
      exact Eval.frames_pure rfl
  | .define name value place =>
      rw [Stmt.eval]
      refine (Eval.steady_declare name).bind fun _ _ => ?_
      refine (value.steady_eval hCall).bind fun v hv => ?_
      refine (Eval.steady_store hv).bind fun _ _ => ?_
      exact Eval.frames_pure rfl
  | .function name parameters body place =>
      rw [Stmt.eval]
      have hRoutine :
          (Value.routine
            (lib.routine (first + Stmt.functionsAll body))).All P := by
        intro r hr
        cases hr
        apply hLib
        · omega
        · rw [Stmt.functions]
          omega
      refine (Eval.steady_declare name).bind fun _ _ => ?_
      refine (Eval.steady_store hRoutine).bind fun _ _ => ?_
      exact Eval.frames_pure rfl
  | .ret none place =>
      rw [Stmt.eval]
      apply Eval.frames_pure
      intro r hr
      cases hr
  | .ret (some e) place =>
      rw [Stmt.eval]
      refine (e.steady_eval hCall).bind fun v hv => ?_
      exact Eval.frames_pure hv
  | .ifThen condition body place =>
      rw [Stmt.eval]
      have hBody : lib.Offers P first (Stmt.functionsAll body) :=
        hLib
      refine (condition.steady_eval hCall).bind fun v _ => ?_
      split
      · exact Eval.frames_pure rfl
      · exact Eval.frames_inBlock
          (Stmt.frames_evalAll hCall bound first body hBody)
  | .ifElse condition body otherwise place =>
      rw [Stmt.eval]
      rw [Stmt.functions] at hLib
      refine (condition.steady_eval hCall).bind fun v _ => ?_
      split
      · exact Eval.frames_inBlock
          (Stmt.frames_evalAll hCall bound _ otherwise
            (hLib.within (by omega) (by omega)))
      · exact Eval.frames_inBlock
          (Stmt.frames_evalAll hCall bound first body
            (hLib.within (by omega) (by omega)))
  | .whileLoop condition body place =>
      rw [Stmt.eval]
      have hBody : lib.Offers P first (Stmt.functionsAll body) :=
        hLib
      exact Eval.frames_repeated
        (Expr.steady_test hCall (some condition))
        (Eval.frames_inBlock
          (Stmt.frames_evalAll hCall bound first body hBody))
        (Eval.steady_pure trivial) bound
  | .forLoop initial condition update body place =>
      rw [Stmt.eval]
      rw [Stmt.functions] at hLib
      apply Eval.frames_inBlock
      apply Eval.frames_andThen
      · exact initial.frames_eval hCall bound first
          (hLib.within (by omega) (by omega))
      · exact Eval.frames_repeated
          (Expr.steady_test hCall condition)
          (Eval.frames_inBlock
            (Stmt.frames_evalAll hCall bound _ body
              (hLib.within (by omega) (by omega))))
          (Expr.steady_perform hCall update) bound
      · intro signal hSignal
        cases signal with
        | next => exact absurd rfl hSignal
        | _ => rfl
  | .breakLoop place =>
      rw [Stmt.eval]
      exact Eval.frames_pure rfl
  | .continueLoop place =>
      rw [Stmt.eval]
      exact Eval.frames_pure rfl

/- Statements in a row do, too. -/
theorem Stmt.frames_evalAll
    (hCall : Steadies P call)
    (bound first : Nat)
    (ss : List Stmt)
    (hLib : lib.Offers P first (Stmt.functionsAll ss)) :
    Eval.Frames P (Signal.Fits P)
      (Stmt.evalAll lib call bound first ss) := by
  match ss with
  | [] =>
      rw [Stmt.evalAll]
      exact Eval.frames_pure rfl
  | s :: ss =>
      rw [Stmt.evalAll]
      rw [Stmt.functionsAll] at hLib
      apply Eval.frames_andThen
      · exact s.frames_eval hCall bound first
          (hLib.within (by omega) (by omega))
      · exact Stmt.frames_evalAll hCall bound _ ss
          (hLib.within (by omega) (by omega))
      · intro signal hSignal
        cases signal with
        | next => exact absurd rfl hSignal
        | _ => rfl

end

------------------------------------------------------------
-- Calls of Functions
------------------------------------------------------------

/-
  The functions declared in the body of a function with a
  property have it, too.
-/
def Library.Closed
    (lib : Library)
    (P : Routine → Prop) : Prop :=
  ∀ r, P r →
    lib.Offers P (lib.first r.mark)
      (Stmt.functionsAll (lib.body r.mark))

/- Calls keep to their frames, however deep they go. -/
theorem Library.steady_call
    (hLib : lib.Closed P)
    (bound : Nat) :
    Steadies P (lib.call bound) := by
  induction bound with
  | zero =>
      intro name arguments _
      exact Eval.frames_unfinished
  | succ bound ih =>
      intro name arguments hArguments
      rw [Library.call]
      split
      · exact Eval.steady_builtin name _ arguments
      · apply Eval.steady_invoke hArguments
        intro r hr
        exact Stmt.frames_evalAll ih bound _ _ (hLib r hr)

end StackScript
