import StackScript.Proofs.Machine.Visiting

/-
  Raising the limit on open calls.

  A machine that may open more calls does the same as one
  that may open fewer, until the latter fails because all its
  calls are open. A run that needs more open calls than there
  may be therefore ends in that failure.

  Key definitions include:
    * `Machine.Raised`
    * `Passage.Raises`, `Outcome.Raises`

  Key theorems include:
    * `Machine.raises_step`
    * `Machine.raises_run`
    * `Machine.Visits.overflows`
-/

namespace StackScript

variable {c low high : Nat}
variable {α β γ δ : Type}
variable {Q : α → β → Prop}
variable {Q' : γ → δ → Prop}

------------------------------------------------------------
-- Two Limits
------------------------------------------------------------

/- Some calls are open, of fewer and of more that may be. -/
def Limits
    (c low high : Nat)
    (a b : Nat × Nat) : Prop :=
  a = (c, low) ∧ b = (c, high)

/- The same machine with a lower and a higher limit. -/
abbrev Machine.Raised (c low high : Nat) :
    Machine → Machine → Prop :=
  Machine.Twin Eq (Limits c low high) 0

/-
  The action with the lower limit fails because all calls
  are open, or it does what the one with the higher does.
-/
def Action.Raises
    (c low high : Nat)
    (Q : α → β → Prop)
    (x : Action α)
    (y : Action β) : Prop :=
  ∀ m m', m.Raised c low high m' →
    (∃ left, x m = .error (.stackOverflow low) left) ∨
      Paired (Machine.Raised c low high) (EvalError.Alike Eq) Q
        (x m) (y m')

namespace Action

theorem Raises.of_pairs
    {x : Action α}
    {y : Action β}
    (h : Action.Pairs Eq (Limits c low high) 0 Q x y) :
    Raises c low high Q x y :=
  fun m m' hRaised => .inr (h m m' hRaised)

theorem Raises.bind
    {x : Action α}
    {y : Action β}
    {f : α → Action γ}
    {g : β → Action δ}
    (hx : Action.Pairs Eq (Limits c low high) 0 Q x y)
    (hf : ∀ a b, Q a b → Raises c low high Q' (f a) (g b)) :
    Raises c low high Q' (x >>= f) (y >>= g) := by
  intro m m' hRaised
  have hFirst := hx m m' hRaised
  change
    (∃ left, EStateM.bind x f m = _) ∨
      Paired _ _ _ (EStateM.bind x f m) (EStateM.bind y g m')
  unfold EStateM.bind
  cases hLeft : x m with
  | ok a after =>
      cases hRight : y m' with
      | ok b after' =>
          rw [hLeft, hRight] at hFirst
          exact hf a b hFirst.1 after after' hFirst.2
      | error e after' =>
          rw [hLeft, hRight] at hFirst
          exact hFirst.elim
  | error e after =>
      cases hRight : y m' with
      | ok b after' =>
          rw [hLeft, hRight] at hFirst
          exact hFirst.elim
      | error e' after' =>
          rw [hLeft, hRight] at hFirst
          exact .inr hFirst

end Action

theorem Routine.tagged_eq : Routine.Tagged Eq := by
  rintro r _ rfl
  exact ⟨rfl, rfl, rfl⟩

namespace Machine

variable {code stream : Code}
variable {m m' after last : Machine}
variable {bound : Nat}

/- Going on alike; a function is entered within the lower limit. -/
def FlowRaised
    (c low : Nat)
    (flow flow' : Flow) : Prop :=
  flow.Twin Eq flow' ∧
    ∀ r arguments, flow = .enter r arguments → c < low

theorem raises_call
    (hLe : low ≤ high)
    (name : String)
    (arguments : Nat) :
    Action.Raises c low high (FlowRaised c low) (call name arguments)
      (call name arguments) := by
  have hNext : FlowRaised c low .next .next := ⟨.next, by simp⟩
  cases hName : Registry.standard.lookup name with
  | some entry =>
      exact .of_pairs
        (pairs_call_builtin Routine.tagged_eq hNext hName arguments)
  | none =>
      unfold call
      rw [hName]
      apply Action.Raises.bind (pairs_callee name)
      rintro r r' hRoutine
      apply Action.Raises.bind pairs_get
      intro m m' hRaised
      rcases hRaised.counts with ⟨hLow, hHigh⟩
      injection hLow with hCalls hMax
      injection hHigh with hCalls' hMax'
      rw [hCalls, hMax, hCalls', hMax']
      by_cases hFull : low ≤ c
      · intro n n' _
        rw [if_pos hFull]
        exact .inl ⟨n, rfl⟩
      · rw [if_neg hFull, if_neg (by omega)]
        apply Action.Raises.of_pairs
        apply (Action.pairs_popMany arguments).bind
        intro values values' hValues
        refine pairs_pure ⟨.enter hRoutine hValues, ?_⟩
        intro _ _ _
        omega

theorem raises_perform
    {i i' : Instruction}
    (hLe : low ≤ high)
    (hTwin : i.Twin Eq 0 i') :
    Action.Raises c low high (FlowRaised c low) (perform code i)
      (perform code i') := by
  by_cases hOp : i.op = .call
  · have hOp' : i'.op = .call := hTwin.op.trans hOp
    unfold perform
    rw [hOp, hOp']
    apply Action.Raises.bind (Action.pairs_decoded (hTwin.name 0))
    rintro name _ rfl
    apply Action.Raises.bind (Action.pairs_decoded (hTwin.count 1))
    rintro arguments _ rfl
    exact raises_call hLe name arguments
  · apply Action.Raises.of_pairs
    apply pairs_perform Routine.tagged_eq (fun _ _ => Iff.rfl) hTwin
    · exact ⟨.next, by simp⟩
    · exact fun ending => ⟨.stop ending, by simp⟩
    · exact fun _ _ hCall => absurd hCall hOp

theorem raises_step
    (hLe : low ≤ high)
    (code : Code) :
    Action.Raises c low high (FlowRaised c low) (step code)
      (step code) := by
  have hSelf : code.SelfRelated Eq := fun _ _ => rfl
  apply Action.Raises.bind pairs_get
  intro m m' hRaised
  have hPlace : m'.pc = m.pc := hRaised.pc
  rw [hPlace]
  apply Action.Raises.bind
    (Action.pairs_decoded (hSelf.agree_fetch m.pc))
  intro i i' hTwin
  have hGoTo :
      Action.Pairs Eq (Limits c low high) 0 (fun _ _ => True)
        (Action.goTo i.next) (Action.goTo (i.next + 0)) :=
    Action.pairs_goTo i.next
  rw [← hTwin.next] at hGoTo
  apply Action.Raises.bind hGoTo
  intro _ _ _
  exact raises_perform hLe hTwin

end Machine

------------------------------------------------------------
-- Runs
------------------------------------------------------------

/-
  What is passed with the lower limit where the higher goes
  on or ends: the same, unless all calls are open.
-/
inductive Passage.Raises (c low high : Nat) :
    Passage → Passage → Prop
| goesOn
    {m m' : Machine}
    (h : m.Raised c low high m') :
    Raises c low high (.goesOn m) (.goesOn m')
| ends
    {ending : Ending}
    {m m' : Machine}
    (h : m.Raised c low high m') :
    Raises c low high (.ends ending m) (.ends ending m')
| overflow
    {left : Machine}
    {p : Passage} :
    Raises c low high (.fails (.stackOverflow low) left) p
| fails
    {p : Passage}
    {e : EvalError}
    {m' : Machine} :
    Raises c low high p (.fails e m')
| unfinished
    {p : Passage} :
    Raises c low high p .unfinished

/- The same for whole runs. -/
inductive Outcome.Raises (c low high : Nat) :
    Outcome → Outcome → Prop
| done
    {ending : Ending}
    {m m' : Machine}
    (h : m.Raised c low high m') :
    Raises c low high (.done ending m) (.done ending m')
| overflow
    {left : Machine}
    {o : Outcome} :
    Raises c low high (.failed (.stackOverflow low) left) o
| failed
    {o : Outcome}
    {e : EvalError}
    {m' : Machine} :
    Raises c low high o (.failed e m')
| unfinished
    {o : Outcome} :
    Raises c low high o .unfinished

namespace Machine

variable {code stream : Code}
variable {m m' after last : Machine}
variable {bound : Nat}

/- The state in which a function starts, with one more open call. -/
theorem Raised.entered
    {scopes scopes' : Scopes}
    (h : m.Raised c low high m')
    (hScopes : scopes.Twin Eq scopes') :
    (m.entered scopes).Raised (c + 1) low high
      (m'.entered scopes') := by
  rcases h.counts with ⟨hLow, hHigh⟩
  injection hLow with hCalls hMax
  injection hHigh with hCalls' hMax'
  refine ⟨h.stack, hScopes, rfl, ⟨?_, ?_⟩, h.host⟩
  · change (m.calls + 1, m.maxCalls) = (c + 1, low)
    rw [hCalls, hMax]
  · change (m'.calls + 1, m'.maxCalls) = (c + 1, high)
    rw [hCalls', hMax']

theorem Raised.resumed
    {after' : Machine}
    (h : m.Raised c low high m')
    (hAfter : after.Raised (c + 1) low high after') :
    (m.resumed after).Raised c low high (m'.resumed after') := by
  rcases h.counts with ⟨hLow, hHigh⟩
  rcases hAfter.counts with ⟨hLow', hHigh'⟩
  injection hLow with hCalls _
  injection hHigh with hCalls' _
  injection hLow' with _ hMax
  injection hHigh' with _ hMax'
  refine ⟨hAfter.stack, ?_, h.pc, ⟨?_, ?_⟩, hAfter.host⟩
  · change
      (after.scopes.truncate m.scopes.depth).Twin Eq
        (after'.scopes.truncate m'.scopes.depth)
    rw [h.scopes.depth]
    exact hAfter.scopes.truncate _
  · change (m.calls, after.maxCalls) = (c, low)
    rw [hCalls, hMax]
  · change (m'.calls, after'.maxCalls) = (c, high)
    rw [hCalls', hMax']

theorem Raised.withResult
    {ending : Ending}
    (h : m.Raised c low high m') :
    (m.withResult ending).Raised c low high
      (m'.withResult ending) := by
  cases ending with
  | returned => exact h
  | finished => exact { h with stack := .cons .null h.stack }

/- Passing an instruction, if runs of functions do the same. -/
theorem raises_pass
    (hLe : low ≤ high)
    (hRuns :
      ∀ {r : Routine} {m m' : Machine}, c < low →
        m.Raised (c + 1) low high m' →
        (run bound r.code m).Raises (c + 1) low high
          (run bound r.code m'))
    (h : m.Raised c low high m') :
    (pass bound code m).Raises c low high (pass bound code m') := by
  unfold pass
  rcases raises_step hLe code m m' h with ⟨left, hLeft⟩ | hStep
  · rw [hLeft]
    exact .overflow
  · cases hLeft : step code m with
    | error e middle =>
        cases hRight : step code m' with
        | error e' middle' => exact .fails
        | ok flow' middle' =>
            rw [hLeft, hRight] at hStep
            exact hStep.elim
    | ok flow middle =>
        cases hRight : step code m' with
        | error e' middle' => exact .fails
        | ok flow' middle' =>
            rw [hLeft, hRight] at hStep
            rcases hStep with ⟨⟨hFlow, hRoom⟩, hMiddle⟩
            cases hFlow with
            | next => exact .goesOn hMiddle
            | stop ending => exact .ends hMiddle
            | @enter r _ arguments arguments' hRoutine hArguments =>
                cases hRoutine
                have hBind :=
                  hMiddle.scopes.push.bindParameters hArguments
                    r.parameters
                dsimp only
                cases hBound' :
                    bindParameters r.parameters arguments'
                      middle'.scopes.push with
                | error e' => exact .fails
                | ok scopes' =>
                    cases hBound :
                        bindParameters r.parameters arguments
                          middle.scopes.push with
                    | error e =>
                        rw [hBound, hBound'] at hBind
                        exact hBind.elim
                    | ok scopes =>
                        rw [hBound, hBound'] at hBind
                        have hBody :
                            (run bound r.code
                                (middle.entered scopes)).Raises
                              (c + 1) low high
                              (run bound r.code
                                (middle'.entered scopes')) :=
                          hRuns (hRoom r arguments rfl)
                            (hMiddle.entered hBind)
                        dsimp only
                        generalize
                          run bound r.code (middle.entered scopes) =
                            outcome at hBody ⊢
                        generalize
                          run bound r.code (middle'.entered scopes') =
                            outcome' at hBody ⊢
                        cases hBody with
                        | done hAfter =>
                            exact .goesOn
                              (hMiddle.resumed hAfter.withResult)
                        | overflow => exact .overflow
                        | failed => exact .fails
                        | unfinished => exact .unfinished

/- Runs end alike until all calls are open. -/
theorem raises_run
    (hLe : low ≤ high)
    (hCalls : c ≤ low)
    (h : m.Raised c low high m')
    (bound : Nat) :
    (run bound code m).Raises c low high (run bound code m') := by
  induction bound generalizing c code m m' with
  | zero => exact .unfinished
  | succ bound ih =>
      have hPlace : m'.pc = m.pc := h.pc
      rw [run_succ, run_succ, hPlace]
      split
      · exact .done h
      · have hPass :
            (pass bound code m).Raises c low high
              (pass bound code m') :=
          raises_pass hLe (fun hRoom hBody => ih hRoom hBody) h
        generalize pass bound code m = p at hPass ⊢
        generalize pass bound code m' = p' at hPass ⊢
        cases hPass with
        | goesOn hAfter => exact ih hCalls hAfter
        | ends hAfter => exact .done hAfter
        | overflow => exact .overflow
        | fails => exact .failed
        | unfinished => exact .unfinished

/-
  A run that visits a machine with more open calls than the
  lower limit fails under the lower limit.
-/
theorem Visits.overflows
    (hVisits : Visits code m' stream last)
    (hLe : low ≤ high)
    (hCalls : c ≤ low)
    (h : m.Raised c low high m')
    (hDeep : low < last.calls) :
    ∃ bound left,
      run bound code m = .failed (.stackOverflow low) left := by
  induction hVisits generalizing c m with
  | here =>
      rcases h.counts with ⟨_, hHigh⟩
      injection hHigh with hOpen _
      omega
  | @past code stream m' after' last bound hPass' _ ih =>
      have hSome : (code.drop m.pc).isEmpty = false := by
        have hPlace : m'.pc = m.pc := h.pc
        rw [← hPlace]
        exact isEmpty_of_pass hPass'
      have hPass :
          (pass bound code m).Raises c low high
            (pass bound code m') :=
        raises_pass hLe
          (fun hRoom hBody => raises_run hLe hRoom hBody bound) h
      rw [hPass'] at hPass
      generalize hLeft : pass bound code m = p at hPass
      cases hPass with
      | goesOn hAfter =>
          rcases ih hCalls hAfter hDeep with ⟨n, left, hRun⟩
          rcases (Reaches.of_pass hLeft).failed hRun with
            ⟨more, hMore⟩
          exact ⟨more, left, hMore⟩
      | @overflow left =>
          refine ⟨bound + 1, left, ?_⟩
          rw [run_succ, hSome, hLeft]
          rfl
  | @inside code stream m' middle' last r arguments' scopes' hStep'
      hBind' _ ih =>
      rcases raises_step hLe code m m' h with ⟨left, hLeft⟩ | hStep
      · refine ⟨1, left, ?_⟩
        have hPlace : m'.pc = m.pc := h.pc
        have hSome := isEmpty_of_step hStep'
        rw [hPlace] at hSome
        rw [run, hSome, hLeft]
        rfl
      · rw [hStep'] at hStep
        cases hLeft : step code m with
        | error e middle =>
            rw [hLeft] at hStep
            exact hStep.elim
        | ok flow middle =>
            rw [hLeft] at hStep
            rcases hStep with ⟨⟨hFlow, hRoom⟩, hMiddle⟩
            cases hFlow with
            | @enter _ _ arguments _ hRoutine hArguments =>
                cases hRoutine
                have hBind :=
                  hMiddle.scopes.push.bindParameters hArguments
                    r.parameters
                rw [hBind'] at hBind
                cases hBound :
                    bindParameters r.parameters arguments
                      middle.scopes.push with
                | error e =>
                    rw [hBound] at hBind
                    exact hBind.elim
                | ok scopes =>
                    rw [hBound] at hBind
                    rcases
                        ih (hRoom r arguments rfl)
                          (hMiddle.entered hBind) hDeep with
                      ⟨n, left, hRun⟩
                    refine ⟨n + 1, middle.resumed left, ?_⟩
                    rw [run_enter hLeft hBound, hRun]

end Machine
end StackScript
