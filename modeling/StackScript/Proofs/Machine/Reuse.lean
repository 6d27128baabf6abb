import Mathlib.Logic.Relation
import StackScript.Proofs.Machine.Moving
import StackScript.Proofs.Machine.Raising

/-
  A machine that executes stream after stream.

  The streams are any lists of words, and each may end well
  or fail anywhere, also inside of calls. Afterwards no call
  is open, so a failed recursion leaves as many calls to
  later streams as there were; while a stream runs, no more
  calls are open than may be. The limit never changes, the
  precision stays allowed, and the global scope stays there
  with its constants.

  Key definitions include:
    * `Scopes.Changes`
    * `Machine.Reused`
    * `Machine.Intact`

  Key theorems include:
    * `Machine.evolves_run`
    * `Machine.Visits.within`
    * `Machine.Reused.intact`
-/

namespace StackScript

------------------------------------------------------------
-- Constants
------------------------------------------------------------

/- A setting of a name does not touch another one. -/
theorem Scope.get?_set_of_ne
    {s : Scope}
    {name other : String}
    {v : Value}
    (h : other ≠ name) :
    Scope.get? (Scope.set name v s) other = s.get? other := by
  induction s with
  | nil => rfl
  | cons entry s ih =>
      rcases entry with ⟨n, w⟩
      unfold Scope.get? at ih ⊢
      unfold Scope.set
      split
      · rename_i hName
        subst hName
        have hOther : (other == n) = false := beq_eq_false_iff_ne.2 h
        rw [List.lookup_cons, List.lookup_cons, hOther]
      · rw [List.lookup_cons, List.lookup_cons, ih]

namespace Scopes

variable {s t : Scopes}
variable {op : Op}
variable {name : String}
variable {v : Value}

/- The outermost scope. -/
def global (s : Scopes) : Scope :=
  s.outer.getLastD s.top

theorem global_cons
    {top scope : Scope}
    {outer : List Scope} :
    global ⟨top, scope :: outer⟩ = global ⟨scope, outer⟩ :=
  List.getLastD_cons

/- An assignment in outer scopes keeps other names of the last. -/
theorem get?_getLastD_of_setIn?
    {other : String}
    {scopes after : List Scope}
    (hOther : name ≠ other)
    (h : setIn? other v scopes = some after)
    (top : Scope) :
    (after.getLastD top).get? name =
      (scopes.getLastD top).get? name := by
  induction scopes generalizing after top with
  | nil => cases h
  | cons scope scopes ih =>
      unfold setIn? at h
      split at h
      · cases h
        cases scopes with
        | nil => exact Scope.get?_set_of_ne hOther
        | cons next scopes => rfl
      · rcases Option.map_eq_some_iff.1 h with ⟨rest, hRest, rfl⟩
        rw [List.getLastD_cons, List.getLastD_cons]
        exact ih hRest scope

/- What one operation does keeps the global constants. -/
theorem Change.get?_global
    (hChange : s.Change op t)
    (hConstant : name ∈ constants)
    (h : s.global.get? name = some v) :
    t.global.get? name = some v := by
  rcases s with ⟨top, outer⟩
  cases hChange with
  | same => exact h
  | push =>
      change (global ⟨[], top :: outer⟩).get? name = some v
      rw [global_cons]
      exact h
  | pop hPop =>
      cases outer with
      | nil => cases hPop
      | cons scope outer =>
          cases hPop
          rw [global_cons] at h
          exact h
  | @declare _ _ declared w hDeclare =>
      unfold Scopes.declare at hDeclare
      split at hDeclare
      · cases hDeclare
      · rename_i hNew
        cases hDeclare
        cases outer with
        | cons scope outer => exact h
        | nil =>
            have hOther : name ≠ declared := by
              rintro rfl
              apply hNew
              unfold Scope.has
              change top.get? name = some v at h
              rw [h]
              rfl
            change List.lookup name ((declared, w) :: top) = some v
            rw [List.lookup_cons, beq_eq_false_iff_ne.2 hOther]
            exact h
  | @assign _ _ assigned w hAssign =>
      unfold Scopes.assign at hAssign
      split at hAssign
      · cases hAssign
      · rename_i hFree
        have hOther : name ≠ assigned := by
          rintro rfl
          exact hFree hConstant
        split at hAssign
        · cases hAssign
          cases outer with
          | nil => exact (Scope.get?_set_of_ne hOther).trans h
          | cons scope outer => exact h
        · cases hOuter : setIn? assigned w outer with
          | none =>
              rw [hOuter] at hAssign
              cases hAssign
          | some after =>
              rw [hOuter] at hAssign
              cases hAssign
              exact (get?_getLastD_of_setIn? hOther hOuter top).trans h

/- Scopes that come of others by what operations do to them. -/
abbrev Changes : Scopes → Scopes → Prop :=
  Relation.ReflTransGen fun s t => ∃ op, s.Change op t

theorem Change.changes (h : s.Change op t) : s.Changes t :=
  .single ⟨op, h⟩

theorem Changes.get?_global
    (hChanges : s.Changes t)
    (hConstant : name ∈ constants)
    (h : s.global.get? name = some v) :
    t.global.get? name = some v := by
  induction hChanges with
  | refl => exact h
  | tail _ hLast ih =>
      rcases hLast with ⟨op, hChange⟩
      exact hChange.get?_global hConstant ih

/- Scopes are closed one after the other. -/
theorem changes_close
    (n : Nat)
    (s : Scopes) :
    s.Changes (s.close n) := by
  induction n generalizing s with
  | zero => exact .refl
  | succ n ih =>
      rcases s with ⟨top, outer⟩
      cases outer with
      | nil => exact .refl
      | cons scope outer =>
          have hPop : pop ⟨top, scope :: outer⟩ = .ok ⟨scope, outer⟩ :=
            rfl
          exact (Change.pop hPop).changes.trans (ih ⟨scope, outer⟩)

/- Parameters are declared one after the other. -/
theorem changes_bindParameters
    {parameters : List String}
    {arguments : List Value}
    (h : Machine.bindParameters parameters arguments s = .ok t) :
    s.Changes t := by
  induction parameters generalizing arguments s with
  | nil =>
      cases h
      exact .refl
  | cons p ps ih =>
      unfold Machine.bindParameters at h
      cases hDeclare :
          s.declare p (arguments.head?.getD .undefined) with
      | error e =>
          rw [hDeclare] at h
          cases h
      | ok middle =>
          rw [hDeclare] at h
          exact (Change.declare hDeclare).changes.trans (ih h)

end Scopes

------------------------------------------------------------
-- Runs
------------------------------------------------------------

/- What an instruction leaves has a property, failed or not. -/
def Passage.Leaving (P : Machine → Prop) : Passage → Prop
| .goesOn m => P m
| .ends _ m => P m
| .fails _ m => P m
| .unfinished => True

/- What a run leaves has a property, failed or not. -/
def Outcome.Leaving (P : Machine → Prop) : Outcome → Prop
| .done _ m => P m
| .failed _ m => P m
| .unfinished => True

variable {P Q : Machine → Prop}

theorem Outcome.Leaving.mono
    {outcome : Outcome}
    (h : outcome.Leaving P)
    (hWeaker : ∀ m, P m → Q m) :
    outcome.Leaving Q := by
  cases outcome with
  | done ending m => exact hWeaker m h
  | failed e m => exact hWeaker m h
  | unfinished => exact trivial

namespace Machine

variable {code stream : Code}
variable {m middle after last : Machine}
variable {bound : Nat}
variable {r : Routine}
variable {arguments : List Value}

/-
  A property of all that steps leave and of all that callers
  take over, where a function that fails leaves the machine
  like one that gives a result.
-/
theorem leaving_pass
    (hStep : StackScript.Leaving P (step code m))
    (hCall :
      ∀ r arguments middle scopes,
        step code m = .ok (.enter r arguments) middle →
          bindParameters r.parameters arguments middle.scopes.push =
              .ok scopes →
            (run bound r.code (middle.entered scopes)).Leaving
              fun left =>
                ∀ ending,
                  P (middle.resumed (left.withResult ending))) :
    (pass bound code m).Leaving P := by
  unfold pass
  cases hResult : step code m with
  | error e middle =>
      rw [hResult] at hStep
      exact hStep
  | ok flow middle =>
      rw [hResult] at hStep
      cases flow with
      | next => exact hStep
      | stop ending => exact hStep
      | enter r arguments =>
          dsimp only
          cases hBind :
              bindParameters r.parameters arguments
                middle.scopes.push with
          | error e => exact hStep
          | ok scopes =>
              have hBody := hCall r arguments middle scopes hResult hBind
              dsimp only
              cases hRun : run bound r.code (middle.entered scopes) with
              | unfinished => exact trivial
              | failed e left =>
                  rw [hRun] at hBody
                  exact hBody .returned
              | done ending left =>
                  rw [hRun] at hBody
                  exact hBody ending

/- A property of what an instruction and all behind it leave. -/
theorem leaving_run_succ
    (hHere : P m)
    (hPass : (pass bound code m).Leaving P)
    (hRest :
      ∀ after, pass bound code m = .goesOn after → P after →
        (run bound code after).Leaving P) :
    (run (bound + 1) code m).Leaving P := by
  rw [run_succ]
  split
  · exact hHere
  · cases hResult : pass bound code m with
    | unfinished => exact trivial
    | ends ending after =>
        rw [hResult] at hPass
        exact hPass
    | fails e after =>
        rw [hResult] at hPass
        exact hPass
    | goesOn after =>
        rw [hResult] at hPass
        exact hRest after hResult hPass

/- The same machine, but for what instructions change. -/
abbrev Evolves : Machine → Machine → Prop :=
  Moves Scopes.Changes

theorem Evolves.trans
    (hFirst : m.Evolves middle)
    (hThen : middle.Evolves after) :
    m.Evolves after :=
  ⟨hThen.calls.trans hFirst.calls,
    hThen.maxCalls.trans hFirst.maxCalls,
    hFirst.precise.trans hThen.precise,
    hFirst.scopes.trans hThen.scopes⟩

theorem evolves_step
    (code : Code)
    (m : Machine) :
    StackScript.Leaving m.Evolves (step code m) := by
  apply (moves_step code m).mono
  intro after h
  refine ⟨h.calls, h.maxCalls, h.precise, ?_⟩
  rcases h.scopes with hSame | ⟨i, _, hChange⟩
  · rw [hSame]
  · exact hChange.changes

/- What a function does to the machine, its call included. -/
theorem Evolves.resumed
    {scopes : Scopes}
    {left : Machine}
    (h : m.Evolves middle)
    (hBind :
      bindParameters r.parameters arguments middle.scopes.push =
        .ok scopes)
    (hBody : (middle.entered scopes).Evolves left) :
    m.Evolves (middle.resumed left) := by
  have hEntered : middle.scopes.Changes scopes :=
    .head ⟨.pushScope, .push⟩ (Scopes.changes_bindParameters hBind)
  have hClosed :
      left.scopes.Changes
        (left.scopes.truncate middle.scopes.depth) :=
    Scopes.changes_close _ _
  exact ⟨h.calls, hBody.maxCalls.trans h.maxCalls,
    h.precise.trans hBody.precise,
    h.scopes.trans (hEntered.trans (hBody.scopes.trans hClosed))⟩

theorem Evolves.withResult
    (h : m.Evolves after)
    (ending : Ending) :
    m.Evolves (after.withResult ending) := by
  cases ending with
  | finished => exact ⟨h.calls, h.maxCalls, h.precise, h.scopes⟩
  | returned => exact h

theorem evolves_pass
    (hRuns :
      ∀ (r : Routine) m, (run bound r.code m).Leaving m.Evolves)
    (m : Machine) :
    (pass bound code m).Leaving m.Evolves := by
  have hStep := evolves_step code m
  apply leaving_pass hStep
  intro r arguments middle scopes hEnter hBind
  rw [hEnter] at hStep
  apply (hRuns r (middle.entered scopes)).mono
  intro left hBody ending
  exact Evolves.resumed hStep hBind (hBody.withResult ending)

/-
  A run leaves as many open calls as there were, so what a
  function leaves has one more than its caller had.
-/
theorem evolves_run
    (bound : Nat)
    (code : Code)
    (m : Machine) :
    (run bound code m).Leaving m.Evolves := by
  induction bound generalizing code m with
  | zero => exact trivial
  | succ bound ih =>
      apply leaving_run_succ ⟨rfl, rfl, .inl rfl, .refl⟩
      · exact evolves_pass (fun r m => ih r.code m) m
      · intro after _ hAfter
        exact (ih code after).mono fun left hLeft =>
          Evolves.trans hAfter hLeft

------------------------------------------------------------
-- Open Calls
------------------------------------------------------------

/- A machine is the same with its limit as with its limit. -/
theorem Raised.self (m : Machine) :
    m.Raised m.calls m.maxCalls m.maxCalls m := by
  have hValue (v : Value) : v.Twin Eq v := by
    cases v with
    | routine r => exact .routine rfl
    | _ => exact .same (by simp)
  have hScope (s : Scope) : Scope.Twin Eq s s :=
    List.forall₂_same.2 fun entry _ => ⟨rfl, hValue entry.2⟩
  exact ⟨List.forall₂_same.2 fun v _ => hValue v,
    ⟨hScope _, List.forall₂_same.2 fun s _ => hScope s⟩,
    rfl, ⟨rfl, rfl⟩, rfl⟩

/- A function is entered only while more calls may be open. -/
theorem calls_lt_of_enter
    (h : step code m = .ok (.enter r arguments) after) :
    m.calls < m.maxCalls := by
  rcases raises_step (Nat.le_refl m.maxCalls) code m m
      (Raised.self m) with ⟨left, hError⟩ | hPaired
  · rw [h] at hError
    cases hError
  · rw [h] at hPaired
    exact hPaired.1.2 r arguments rfl

/- One machine comes of another, maybe inside of calls. -/
structure Within (m last : Machine) : Prop where
  calls : last.calls ≤ m.maxCalls
  maxCalls : last.maxCalls = m.maxCalls
  precise : Builtin.Precise m.host last.host
  scopes : m.scopes.Changes last.scopes

theorem Within.of_evolves
    (h : m.Evolves after)
    (hLast : after.Within last) :
    m.Within last :=
  ⟨h.maxCalls ▸ hLast.calls, hLast.maxCalls.trans h.maxCalls,
    h.precise.trans hLast.precise, h.scopes.trans hLast.scopes⟩

/- A run opens no more calls than it may. -/
theorem Visits.within
    (h : Visits code m stream last)
    (hCalls : m.calls ≤ m.maxCalls) :
    m.Within last := by
  induction h with
  | here => exact ⟨hCalls, rfl, .inl rfl, .refl⟩
  | @past code stream m after last bound hPass _ ih =>
      have hAfter : (pass bound code m).Leaving m.Evolves :=
        evolves_pass (fun r m => evolves_run bound r.code m) m
      rw [hPass] at hAfter
      have hEvolves : m.Evolves after := hAfter
      have hCalls' : after.calls ≤ after.maxCalls := by
        rw [hEvolves.calls, hEvolves.maxCalls]
        exact hCalls
      exact .of_evolves hEvolves (ih hCalls')
  | @inside code stream m middle last r arguments scopes hStep hBind
      _ ih =>
      have hMiddle := evolves_step code m
      rw [hStep] at hMiddle
      have hEvolves : m.Evolves middle := hMiddle
      have hRoom : m.calls < m.maxCalls := calls_lt_of_enter hStep
      have hCalls' : middle.calls + 1 ≤ middle.maxCalls := by
        rw [hEvolves.calls, hEvolves.maxCalls]
        exact hRoom
      have hInside : (middle.entered scopes).Within last := ih hCalls'
      have hEntered : middle.scopes.Changes scopes :=
        .head ⟨.pushScope, .push⟩
          (Scopes.changes_bindParameters hBind)
      exact .of_evolves hEvolves
        ⟨hInside.calls, hInside.maxCalls, hInside.precise,
          hEntered.trans hInside.scopes⟩

------------------------------------------------------------
-- Reuse
------------------------------------------------------------

variable {config : Config}

/- The machines between streams that any words make up. -/
inductive Reused (config : Config) : Machine → Prop
| new (input : List UInt8) :
    Reused config (.new config input)
| done
    {m after : Machine}
    {bound : Nat}
    {code : Code}
    {ending : Ending}
    (h : Reused config m)
    (hRun : m.execute bound code = .done ending after) :
    Reused config after
| failed
    {m after : Machine}
    {bound : Nat}
    {code : Code}
    {e : EvalError}
    (h : Reused config m)
    (hRun : m.execute bound code = .failed e after) :
    Reused config after

/- What no stream can do to a machine. -/
structure Intact
    (config : Config)
    (m : Machine) : Prop where
  maxCalls : m.maxCalls = config.maxCalls
  precision :
    1 ≤ config.precision ∧
        config.precision ≤ maxPrecision →
      1 ≤ m.host.precision ∧
        m.host.precision ≤ maxPrecision
  depth : 0 < m.scopes.depth
  isTrue : m.scopes.global.get? "true" = some (.number .one)
  isFalse :
    m.scopes.global.get? "false" = some (.number (.zero false))
  isNull : m.scopes.global.get? "null" = some .null

theorem intact_new
    (config : Config)
    (input : List UInt8) :
    (Machine.new config input).Intact config :=
  ⟨rfl, fun h => h, Nat.succ_pos 0, rfl, rfl, rfl⟩

theorem Intact.changed
    (h : m.Intact config)
    (hMax : after.maxCalls = m.maxCalls)
    (hPrecise : Builtin.Precise m.host after.host)
    (hScopes : m.scopes.Changes after.scopes) :
    after.Intact config := by
  refine ⟨hMax.trans h.maxCalls, ?_, Nat.succ_pos _,
    hScopes.get?_global (by decide) h.isTrue,
    hScopes.get?_global (by decide) h.isFalse,
    hScopes.get?_global (by decide) h.isNull⟩
  intro hConfig
  rcases hPrecise with hSame | hSet
  · rw [hSame]
    exact h.precision hConfig
  · exact hSet

theorem Intact.evolved
    (h : m.Intact config)
    (hEvolves : m.Evolves after) :
    after.Intact config :=
  h.changed hEvolves.maxCalls hEvolves.precise hEvolves.scopes

/- A stream that ends or fails leaves no call open. -/
theorem Intact.executed
    (h : m.Intact config)
    (hNone : m.calls = 0)
    (bound : Nat)
    (code : Code) :
    (m.execute bound code).Leaving fun after =>
      after.calls = 0 ∧ after.Intact config := by
  have hStart : Intact config { m with pc := 0 } := { h with }
  apply (evolves_run bound code { m with pc := 0 }).mono
  intro after hEvolves
  exact ⟨hEvolves.calls.trans hNone, hStart.evolved hEvolves⟩

theorem Reused.between (h : Reused config m) :
    m.calls = 0 ∧ m.Intact config := by
  induction h with
  | new input => exact ⟨rfl, intact_new config input⟩
  | @done m after bound code ending _ hRun ih =>
      have hLeft := ih.2.executed ih.1 bound code
      rw [hRun] at hLeft
      exact hLeft
  | @failed m after bound code e _ hRun ih =>
      have hLeft := ih.2.executed ih.1 bound code
      rw [hRun] at hLeft
      exact hLeft

/-
  Between streams no call is open, and a machine that is
  visited while the next stream runs has no more open calls
  than it may, also after it opens another one.
-/
theorem Reused.intact
    (h : Reused config m) :
    m.calls = 0 ∧ m.Intact config ∧
      ∀ code stream last,
        Visits code { m with pc := 0 } stream last →
          last.calls ≤ config.maxCalls ∧ last.Intact config ∧
            ∀ r arguments after,
              step stream last = .ok (.enter r arguments) after →
                after.calls + 1 ≤ config.maxCalls := by
  rcases h.between with ⟨hNone, hIntact⟩
  have hStart : Intact config { m with pc := 0 } := { hIntact with }
  refine ⟨hNone, hIntact, ?_⟩
  intro code stream last hVisits
  have hWithin : Within { m with pc := 0 } last := by
    apply hVisits.within
    change m.calls ≤ m.maxCalls
    rw [hNone]
    exact Nat.zero_le _
  have hMax : m.maxCalls = config.maxCalls := hIntact.maxCalls
  refine ⟨hMax ▸ hWithin.calls,
    hStart.changed hWithin.maxCalls hWithin.precise hWithin.scopes, ?_⟩
  intro r arguments after hEnter
  have hStep := evolves_step stream last
  rw [hEnter] at hStep
  have hEvolves : last.Evolves after := hStep
  have hRoom : last.calls < last.maxCalls := calls_lt_of_enter hEnter
  have hLimit : last.maxCalls = config.maxCalls :=
    hWithin.maxCalls.trans hMax
  rw [hEvolves.calls, ← hLimit]
  exact hRoom

end Machine

/- A function that calls itself by a name, and a call of it. -/
def Code.recurring : Code :=
  Code.named .alloc "f" ++
    Code.pushed (.routine ⟨0, "f", [], Code.called "f" 0⟩) ++
    Code.named .store "f" ++ Code.called "f" 0

/-
  After a recursion that failed because both calls were open
  the next stream opens two calls again.
-/
theorem Machine.Reused.intact_recurring :
    ∃ m stream last,
      (Machine.new ⟨2, 20⟩ []).execute 9 Code.recurring =
          .failed (.stackOverflow 2) m ∧
        Visits (Code.called "f" 0) { m with pc := 0 } stream last ∧
        last.calls = 2 ∧ m.calls = 0 ∧ last.calls ≤ 2 ∧
        last.Intact ⟨2, 20⟩ := by
  have hRun :
      ∃ m stream last,
        (Machine.new ⟨2, 20⟩ []).execute 9 Code.recurring =
            .failed (.stackOverflow 2) m ∧
          Visits (Code.called "f" 0) { m with pc := 0 } stream last ∧
          last.calls = 2 :=
    ⟨_, _, _, rfl, .inside rfl rfl (.inside rfl rfl .here), rfl⟩
  rcases hRun with ⟨m, stream, last, hFailed, hVisits, hCalls⟩
  have hReused : Reused ⟨2, 20⟩ m :=
    .failed (.new []) hFailed
  rcases Machine.Reused.intact hReused with ⟨hNone, _, hInside⟩
  rcases hInside _ stream last hVisits with ⟨hMost, hIntact, _⟩
  exact ⟨m, stream, last, hFailed, hVisits, hCalls, hNone, hMost,
    hIntact⟩

end StackScript
