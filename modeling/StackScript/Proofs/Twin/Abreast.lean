import StackScript.Proofs.Machine.Landing
import StackScript.Proofs.Meaning.Expression
import StackScript.Proofs.Twin.Outcome
import StackScript.Proofs.Twin.Rows

/-
  Two runs side by side.

  The streams are rows of the same pieces, a distance apart,
  and both machines stand at the same cut. A piece that is
  one instruction is passed alike. In a whole step that keeps
  the old value both machines go on by one instruction at a
  time, with hidden variables whose numbers may differ, and
  stand at the next cut, or fail alike. So both runs end
  alike, or both come to the ends of their rows.

  Key definitions include:
    * `Machine.Abreast`
    * `Code.Parallel`

  Key theorems include:
    * `HoldsOld.abreast`
    * `Code.Aligned.parallel`
    * `Machine.abreast_run`
-/

namespace StackScript

variable {w : Numbering}
variable {R : Routine → Routine → Prop}
variable {shift stop bound : Nat}
variable {opened : Prop}
variable {code code' : Code}

------------------------------------------------------------
-- Going on Side by Side
------------------------------------------------------------

/-
  Two runs with one bound end alike, and not behind a
  position where the first of them ends; or both come to that
  position, if something stands behind it.
-/
inductive Machine.Abreast
    (R : Routine → Routine → Prop)
    (shift : Nat)
    (opened : Prop)
    (stop bound : Nat)
    (code code' : Code)
    (m m' : Machine) : Prop
| ends
    (hOutcome :
      (Machine.run bound code m).Twin R shift
        (Machine.run bound code' m'))
    (hInside :
      ∀ ending left,
        Machine.run bound code m = .done ending left →
          left.pc ≤ stop)
| arrives
    {after after' : Machine}
    (hOpened : opened)
    (hLeft : Machine.Reaches code m after)
    (hRight : Machine.Reaches code' m' after')
    (hTwin : after.Twin R Eq shift after')
    (hPlace : after.pc = stop)

namespace Machine.Abreast

variable {m m' after after' : Machine}
variable {e e' : EvalError}

/- Without steps nothing has ended. -/
theorem zero :
    Abreast R shift opened stop 0 code code' m m' :=
  .ends .unfinished nofun

/- Both go on after a passage. -/
theorem goesOn
    (hLeft : pass bound code m = .goesOn after)
    (hRight : pass bound code' m' = .goesOn after')
    (h : Abreast R shift opened stop bound code code' after after') :
    Abreast R shift opened stop (bound + 1) code code' m m' := by
  have hRun :
      run (bound + 1) code m = run bound code after := by
    rw [run_succ, isEmpty_of_pass hLeft, hLeft]
    rfl
  have hRun' :
      run (bound + 1) code' m' = run bound code' after' := by
    rw [run_succ, isEmpty_of_pass hRight, hRight]
    rfl
  cases h with
  | ends hOutcome hInside =>
      rw [← hRun, ← hRun'] at hOutcome
      rw [← hRun] at hInside
      exact .ends hOutcome hInside
  | arrives hOpened hAfter hAfter' hTwin hPlace =>
      exact .arrives hOpened ((Reaches.of_pass hLeft).trans hAfter)
        ((Reaches.of_pass hRight).trans hAfter') hTwin hPlace

/- Both go on after a step, with any smaller bound. -/
theorem next
    (hLeft : step code m = .ok .next after)
    (hRight : step code' m' = .ok .next after')
    (h :
      ∀ less, less < bound →
        Abreast R shift opened stop less code code' after after') :
    Abreast R shift opened stop bound code code' m m' := by
  cases bound with
  | zero => exact .zero
  | succ bound =>
      have hPass : pass bound code m = .goesOn after := by
        unfold pass
        rw [hLeft]
      have hPass' : pass bound code' m' = .goesOn after' := by
        unfold pass
        rw [hRight]
      exact .goesOn hPass hPass' (h bound (Nat.lt_succ_self bound))

/- Both fail in a step. -/
theorem failed
    {piece piece' : Code}
    (hAt : code.Holds m.pc piece)
    (hAt' : code'.Holds m'.pc piece')
    (hPiece : piece ≠ [] ∧ piece' ≠ [])
    (hLeft : step code m = .error e after)
    (hRight : step code' m' = .error e' after')
    (hError : e.Alike R e')
    (h : after.LeftTwin R shift after') :
    Abreast R shift opened stop bound code code' m m' := by
  cases bound with
  | zero => exact .zero
  | succ bound =>
      have hRun : run (bound + 1) code m = .failed e after :=
        run_error hAt hPiece.1 hLeft
      have hRun' : run (bound + 1) code' m' = .failed e' after' :=
        run_error hAt' hPiece.2 hRight
      refine .ends ?_ ?_
      · rw [hRun, hRun']
        exact .failed hError h
      · rw [hRun]
        exact nofun

/- Both pass an instruction alike, and go on abreast. -/
theorem of_pass
    (hSome : (code.drop m.pc).isEmpty = false)
    (hSome' : (code'.drop m'.pc).isEmpty = false)
    (hPass :
      (pass bound code m).Twin R shift (pass bound code' m'))
    (hEnds :
      ∀ ending left, pass bound code m = .ends ending left →
        left.pc ≤ stop)
    (hLess :
      ∀ after after', pass bound code m = .goesOn after →
        after.Twin R Eq shift after' →
        Abreast R shift opened stop bound code code' after after') :
    Abreast R shift opened stop (bound + 1) code code' m m' := by
  have hRun :
      run (bound + 1) code m =
        (pass bound code m).outcome bound code := by
    rw [run_succ, hSome]
    rfl
  have hRun' :
      run (bound + 1) code' m' =
        (pass bound code' m').outcome bound code' := by
    rw [run_succ, hSome']
    rfl
  generalize hLeft : pass bound code m = left
    at hPass hEnds hLess hRun
  generalize hRight : pass bound code' m' = right at hPass hRun'
  cases hPass with
  | goesOn hAfter => exact .goesOn hLeft hRight (hLess _ _ rfl hAfter)
  | ends h =>
      refine .ends ?_ ?_
      · rw [hRun, hRun']
        exact .done h
      · rw [hRun]
        rintro ending left ⟨⟩
        exact hEnds _ _ rfl
  | fails hError h =>
      refine .ends ?_ ?_
      · rw [hRun, hRun']
        exact .failed hError h
      · rw [hRun]
        exact nofun
  | unfinished =>
      refine .ends ?_ ?_
      · rw [hRun, hRun']
        exact .unfinished
      · rw [hRun]
        exact nofun

end Machine.Abreast

------------------------------------------------------------
-- Steps That Keep the Old Value
------------------------------------------------------------

/- States whose machines are twins. -/
structure State.Twin
    (R : Routine → Routine → Prop)
    (σ σ' : State) : Prop where
  scopes : σ.scopes.Twin R σ'.scopes
  counts : (σ.calls, σ.maxCalls) = (σ'.calls, σ'.maxCalls)
  host : σ'.host = σ.host

section Hidden

variable {σ σ' : State}
variable {stack stack' : Stack}
variable {pc pc' number number' : Nat}
variable {operator : Operator}
variable {name : String}
variable {v v' : Value}

/- The machines of twin states with twin operands. -/
theorem State.Twin.at
    {scopes scopes' : Scopes}
    (h : σ.Twin R σ')
    (hStack : Value.Twins R stack stack')
    (hScopes : scopes.Twin R scopes')
    (hPlace : pc' = pc + shift) :
    ((σ.inScopes scopes).at pc stack).Twin R Eq shift
      ((σ'.inScopes scopes').at pc' stack') :=
  ⟨hStack, hScopes, hPlace, h.counts, h.host⟩

/- The same with twin values in hidden variables. -/
theorem State.Twin.hiding
    (h : σ.Twin R σ')
    (hStack : Value.Twins R stack stack')
    (hValue : v.Twin R v')
    (hPlace : pc' = pc + shift) :
    ((σ.hiding number v).at pc stack).LeftTwin R shift
      ((σ'.hiding number' v').at pc' stack') :=
  ⟨hStack, .hidden h.scopes hValue, hPlace, h.counts, h.host⟩

namespace HoldsOld

variable (hOld : HoldsOld code pc operator name number)
variable (hName : name ≠ hiddenName number)

include hOld

/- The hidden variable is declared in a scope of its own. -/
theorem step_alloc :
    Machine.step code
        ((σ.inScopes σ.scopes.push).at (pc + 1) stack) =
      .ok .next ((σ.hiding number .null).at (pc + 3) stack) :=
  Machine.step_alloc hOld.alloc

/- The hidden variable is given the value on the stack. -/
theorem step_hold (u : Value) :
    Machine.step code
        ((σ.hiding number u).at (pc + 5) (v :: stack)) =
      .ok .next ((σ.hiding number v).at (pc + 7) stack) := by
  have hAssign :
      (σ.hiding number u).scopes.assign (hiddenName number) v =
        .ok (σ.scopes.hide number v) :=
    Scopes.assign_hidden
  rw [Machine.step_store hOld.hold, hAssign]
  rfl

/- The old value is loaded from the hidden variable. -/
theorem step_fetch :
    Machine.step code ((σ.hiding number v).at (pc + 14) stack) =
      .ok .next
        ((σ.hiding number v).at (pc + 16) (v :: stack)) := by
  have hFound :
      (σ.hiding number v).scopes.lookup (hiddenName number) = .ok v :=
    Scopes.lookup_hidden
  rw [Machine.step_load hOld.fetch, hFound]

include hName

/- The variable is loaded as if nothing were hidden. -/
theorem step_save :
    Machine.step code ((σ.hiding number v).at (pc + 3) stack) =
      match σ.scopes.lookup name with
      | .ok old =>
          .ok .next ((σ.hiding number v).at (pc + 5) (old :: stack))
      | .error e =>
          .error e ((σ.hiding number v).at (pc + 5) stack) := by
  have hFound :
      (σ.hiding number v).scopes.lookup name =
        σ.scopes.lookup name :=
    Scopes.lookup_hide hName
  have hStep :
      Machine.step code ((σ.hiding number v).at (pc + 3) stack) = _ :=
    Machine.step_load hOld.save
  rw [hFound] at hStep
  exact hStep

/- So it is for the second time. -/
theorem step_load
    {old : Value}
    (hLookup : σ.scopes.lookup name = .ok old) :
    Machine.step code ((σ.hiding number v).at (pc + 7) stack) =
      .ok .next
        ((σ.hiding number v).at (pc + 9) (old :: stack)) := by
  have hFound :
      (σ.hiding number v).scopes.lookup name = .ok old :=
    (Scopes.lookup_hide hName).trans hLookup
  rw [Machine.step_load hOld.load, hFound]

/- The variable is set as if nothing were hidden. -/
theorem step_store (new : Value) :
    Machine.step code
        ((σ.hiding number v).at (pc + 12) (new :: stack)) =
      match σ.scopes.assign name new with
      | .ok scopes =>
          .ok .next
            (((σ.inScopes scopes).hiding number v).at (pc + 14) stack)
      | .error e =>
          .error e ((σ.hiding number v).at (pc + 14) stack) := by
  have hAssign :
      (σ.hiding number v).scopes.assign name new =
        (σ.scopes.assign name new).map (·.hide number v) :=
    Scopes.assign_hide hName
  rw [Machine.step_store hOld.store, hAssign]
  cases σ.scopes.assign name new <;> rfl

variable (hOld' : HoldsOld code' pc' operator name number')
variable (hName' : name ≠ hiddenName number')
variable (hPlace : pc' = pc + shift)
variable (hTags : Routine.Tagged R)
variable (hTwin : σ.Twin R σ')
variable (hStack : Value.Twins R stack stack')

include hOld' hName' hPlace hTags hTwin hStack

/- The new value is stored, and the old one left on the stack. -/
theorem abreast_apply
    (hValue : v.Twin R v')
    (h :
      ∀ less, less < bound → ∀ scopes scopes',
        scopes.Twin R scopes' →
        Machine.Abreast R shift opened stop less code code'
          ((σ.inScopes scopes).at (pc + 17) (v :: stack))
          ((σ'.inScopes scopes').at (pc' + 17) (v' :: stack'))) :
    Machine.Abreast R shift opened stop bound code code'
      ((σ.hiding number v).at (pc + 11) (.number .one :: v :: stack))
      ((σ'.hiding number' v').at (pc' + 11)
        (.number .one :: v' :: stack')) := by
  rcases operator.exists_stepOp with ⟨o, hOp⟩
  have hNew :
      Agree (EvalError.Twin R) (Value.Twin R)
        ((Code.stepOp operator).combine σ.host.precision v
          (.number .one))
        ((Code.stepOp operator).combine σ.host.precision v'
          (.number .one)) :=
    Machine.agree_combine hTags hValue .number _ _
  have hStep :
      Machine.step code
        ((σ.hiding number v).at (pc + 11)
          (.number .one :: v :: stack)) = _ :=
    Machine.step_binary hOp hOld.apply
  have hStep' :
      Machine.step code'
        ((σ'.hiding number' v').at (pc' + 11)
          (.number .one :: v' :: stack')) = _ :=
    Machine.step_binary hOp hOld'.apply
  have hHost : (σ.hiding number v).host = σ.host := rfl
  have hHost' : (σ'.hiding number' v').host = σ.host := hTwin.host
  rw [hHost] at hStep
  rw [hHost'] at hStep'
  generalize Op.combine _ σ.host.precision v _ = new at hNew hStep
  generalize Op.combine _ σ.host.precision v' _ = new' at hNew hStep'
  rcases new with e | new <;> rcases new' with e' | new'
  · exact .failed hOld.apply hOld'.apply ⟨nofun, nofun⟩ hStep hStep'
      (.inl hNew) (hTwin.hiding hStack hValue (by omega))
  · exact hNew.elim
  · exact hNew.elim
  refine .next hStep hStep' fun fewer hFewer => ?_
  have hScopes :
      Agree Eq (Scopes.Twin R) (σ.scopes.assign name new)
        (σ'.scopes.assign name new') :=
    hTwin.scopes.assign hNew name
  have hStore :
      Machine.step code
        ((σ.hiding number v).at (pc + 12) (new :: stack)) = _ :=
    hOld.step_store hName new
  have hStore' :
      Machine.step code'
        ((σ'.hiding number' v').at (pc' + 12) (new' :: stack')) = _ :=
    hOld'.step_store hName' new'
  generalize σ.scopes.assign name new = scopes at hScopes hStore
  generalize σ'.scopes.assign name new' = scopes' at hScopes hStore'
  rcases scopes with e | scopes <;> rcases scopes' with e' | scopes'
  · cases hScopes
    exact .failed hOld.store hOld'.store ⟨nofun, nofun⟩ hStore hStore'
      (.inl (.same e)) (hTwin.hiding hStack hValue (by omega))
  · exact hScopes.elim
  · exact hScopes.elim
  refine .next hStore hStore' fun fewer' hFewer' => ?_
  refine .next hOld.step_fetch hOld'.step_fetch
    fun fewer'' hFewer'' => ?_
  refine .next (Machine.step_popScope hOld.pop)
    (Machine.step_popScope hOld'.pop) fun least hLeast => ?_
  exact h least (by omega) scopes scopes' hScopes

/- Both stand behind such a step in the end, or fail in it. -/
theorem abreast
    (h :
      ∀ less, less < bound → ∀ after after',
        after.Twin R Eq shift after' → after.pc = pc + 17 →
        Machine.Abreast R shift opened stop less code code' after
          after') :
    Machine.Abreast R shift opened stop bound code code'
      (σ.at pc stack) (σ'.at pc' stack') := by
  refine .next (Machine.step_pushScope hOld.push)
    (Machine.step_pushScope hOld'.push) fun fewer hFewer => ?_
  refine .next hOld.step_alloc hOld'.step_alloc
    fun fewer' hFewer' => ?_
  have hLookup :
      Agree Eq (Value.Twin R) (σ.scopes.lookup name)
        (σ'.scopes.lookup name) :=
    hTwin.scopes.lookup name
  have hSave :
      Machine.step code ((σ.hiding number .null).at (pc + 3) stack) = _ :=
    hOld.step_save hName
  have hSave' :
      Machine.step code'
        ((σ'.hiding number' .null).at (pc' + 3) stack') = _ :=
    hOld'.step_save hName'
  cases hFound : σ.scopes.lookup name with
  | error e =>
      cases hFound' : σ'.scopes.lookup name with
      | ok old' =>
          rw [hFound, hFound'] at hLookup
          exact hLookup.elim
      | error e' =>
          rw [hFound, hFound'] at hLookup
          rw [hFound] at hSave
          rw [hFound'] at hSave'
          cases hLookup
          exact .failed hOld.save hOld'.save ⟨nofun, nofun⟩ hSave
            hSave' (.inl (.same e))
            (hTwin.hiding hStack .null (by omega))
  | ok old =>
      cases hFound' : σ'.scopes.lookup name with
      | error e =>
          rw [hFound, hFound'] at hLookup
          exact hLookup.elim
      | ok old' =>
          rw [hFound, hFound'] at hLookup
          rw [hFound] at hSave
          rw [hFound'] at hSave'
          refine .next hSave hSave' fun k₁ h₁ => ?_
          refine .next (hOld.step_hold .null) (hOld'.step_hold .null)
            fun k₂ h₂ => ?_
          refine .next (hOld.step_load hName hFound)
            (hOld'.step_load hName' hFound') fun k₃ h₃ => ?_
          refine .next (Machine.step_pushed hOld.one)
            (Machine.step_pushed hOld'.one) fun k₄ h₄ => ?_
          apply hOld.abreast_apply hName hOld' hName' hPlace hTags
            hTwin hStack hLookup
          intro less hLess scopes scopes' hScopes
          exact h less (by omega) _ _
            (hTwin.at (.cons hLookup hStack) hScopes (by omega)) rfl

end HoldsOld

end Hidden

------------------------------------------------------------
-- Parallel Streams
------------------------------------------------------------

/-
  What stands at a cut of two streams: a piece whose end and
  whose targets are cuts, or the end of both, or the place
  up to which they are compared.
-/
inductive Code.Stands
    (w : Numbering)
    (R : Routine → Routine → Prop)
    (shift : Nat)
    (opened : Prop)
    (stop : Nat)
    (cut : Nat → Prop)
    (code code' : Code)
    (k : Nat) : Prop
| piece
    {piece piece' : Code}
    (hPiece : Code.Piece w R shift piece piece')
    (hLeft : code.Holds k piece)
    (hRight : code'.Holds (k + shift) piece')
    (hNext : cut (k + piece.length))
    (hInside : k + piece.length ≤ stop)
    (hTargets :
      ∀ t ∈ piece.targets,
        cut t ∧ t ≤ stop ∧
          (t + shift < code'.length ↔ t < code.length))
| ended
    (hStop : k = stop)
    (hLeft : code.drop k = [])
    (hRight : code'.drop (k + shift) = [])
| opened
    (hStop : k = stop)
    (hOpened : opened)

/- The targets of a stream are those of its words. -/
theorem Code.mem_targets {t : Nat} :
    t ∈ code.targets ↔ .target t ∈ code := by
  unfold Code.targets
  rw [List.mem_filterMap]
  constructor
  · rintro ⟨word, hMem, hWord⟩
    split at hWord
    · cases hWord
      exact hMem
    · cases hWord
  · intro hMem
    exact ⟨_, hMem, rfl⟩

/- Two streams with the same at every cut. -/
def Code.Parallel
    (w : Numbering)
    (R : Routine → Routine → Prop)
    (shift : Nat)
    (opened : Prop)
    (stop : Nat)
    (cut : Nat → Prop)
    (code code' : Code) : Prop :=
  ∀ k, cut k → Code.Stands w R shift opened stop cut code code' k

namespace Code.Aligned

variable {c c' front rest rest' : Code}

/- A cut of a whole is not behind its end. -/
theorem le_of_cut
    {k : Nat}
    (h : Code.Cut w R shift k c c') :
    k ≤ c.length := by
  rcases h with ⟨a, a', b, b', rfl, _, _, _, rfl⟩
  simp

/-
  Aligned code is parallel, with any code in front of the
  second and more behind both or behind none.
-/
theorem parallel
    (h : Code.Aligned w R shift (fun _ => False) 0 c c')
    (hFront : front.length = shift)
    (hRest :
      (rest = [] ∧ rest' = []) ∨
        (opened ∧ rest ≠ [] ∧ rest' ≠ [])) :
    Code.Parallel w R shift opened c.length
      (Code.Cut w R shift · c c') (c ++ rest)
      (front ++ (c' ++ rest')) := by
  have hLength := h.row.length_eq
  have hTarget :
      ∀ t ∈ c.targets,
        Code.Cut w R shift t c c' ∧ t ≤ c.length ∧
          (t + shift < (front ++ (c' ++ rest')).length ↔
            t < (c ++ rest).length) := by
    intro t ht
    rcases h.lands t ht with hNone | ⟨k, hEq, hCut⟩
    · exact hNone.elim
    · rw [Nat.zero_add] at hEq
      subst hEq
      have hMost := le_of_cut hCut
      refine ⟨hCut, hMost, ?_⟩
      simp only [List.length_append]
      rcases hRest with ⟨rfl, rfl⟩ | ⟨_, hMore, hMore'⟩
      · simp only [List.length_nil]
        omega
      · have hSome := List.length_pos_iff.2 hMore
        have hSome' := List.length_pos_iff.2 hMore'
        omega
  rintro k ⟨a, a', b, b', rfl, rfl, hBefore, hBehind, rfl⟩
  have hSame := hBefore.length_eq
  cases hBehind with
  | nil =>
      rcases hRest with ⟨rfl, rfl⟩ | ⟨hOpened, _, _⟩
      · refine .ended (by simp) (by simp) ?_
        apply List.drop_eq_nil_of_le
        simp only [List.length_append, List.length_nil]
        omega
      · exact .opened (by simp) hOpened
  | @cons piece piece' d d' hPiece hOthers =>
      refine .piece hPiece ⟨d ++ rest, ?_⟩ ⟨d' ++ rest', ?_⟩ ?_ ?_ ?_
      · rw [List.append_assoc, List.drop_left, List.append_assoc]
      · have hDrop :
            (front ++ (a' ++ (piece' ++ d') ++ rest')).drop
                (a.length + shift) =
              (front ++ a' ++ (piece' ++ d' ++ rest')).drop
                (front ++ a').length := by
          simp only [List.append_assoc, List.length_append]
          congr 1
          omega
        rw [hDrop, List.drop_left, List.append_assoc]
      · refine ⟨a ++ piece, a' ++ piece', d, d', ?_, ?_,
          hBefore.join (.piece hPiece), hOthers, List.length_append⟩
        · rw [List.append_assoc]
        · rw [List.append_assoc]
      · simp only [List.length_append]
        omega
      · intro t ht
        apply hTarget
        rw [Code.targets_append, Code.targets_append]
        simp [ht]

/- The same with nothing in front and nothing behind. -/
theorem parallel_alone
    (h : Code.Aligned w R 0 (fun _ => False) 0 c c') :
    Code.Parallel w R 0 opened c.length (Code.Cut w R 0 · c c') c
      c' := by
  have hBoth :
      Code.Parallel w R 0 opened c.length (Code.Cut w R 0 · c c')
        (c ++ []) ([] ++ (c' ++ [])) :=
    h.parallel rfl (.inl ⟨rfl, rfl⟩)
  rwa [List.append_nil, List.append_nil, List.nil_append] at hBoth

end Code.Aligned

------------------------------------------------------------
-- Runs
------------------------------------------------------------

/-
  The streams of two functions are one stream with functions
  that are related to themselves, or they are parallel.
-/
def Code.Enters
    (w : Numbering)
    (R : Routine → Routine → Prop)
    (code code' : Code) : Prop :=
  (code' = code ∧ code.SelfRelated R) ∨
    ∃ stop cut,
      Code.Parallel w R 0 False stop cut code code' ∧ cut 0

namespace Machine

variable {cut : Nat → Prop}
variable {m m' : Machine}

/- One instruction is passed alike, and leads to a cut. -/
theorem abreast_single
    {o : Op}
    {operands operands' : Code}
    (hTags : Routine.Tagged R)
    (hRuns : RunsAlike R bound)
    (hTwin : m.Twin R Eq shift m')
    (hArity : operands.length = o.arity)
    (hWords : List.Forall₂ (Word.Twin R shift) operands operands')
    (hLeft : code.Holds m.pc (.ofOp o :: operands))
    (hRight : code'.Holds (m.pc + shift) (.ofOp o :: operands'))
    (hNext : cut (m.pc + 1 + operands.length))
    (hInside : m.pc + 1 + operands.length ≤ stop)
    (hTargets :
      ∀ t, .target t ∈ operands →
        cut t ∧ t ≤ stop ∧
          (t + shift < code'.length ↔ t < code.length))
    (hLess :
      ∀ after after', after.Twin R Eq shift after' → cut after.pc →
        Abreast R shift opened stop bound code code' after after') :
    Abreast R shift opened stop (bound + 1) code code' m m' := by
  have hArity' : operands'.length = o.arity := by
    rw [← hWords.length_eq, hArity]
  have hFetch : code.fetch m.pc = .ok ⟨o, m.pc, operands⟩ :=
    Code.fetch_of_holds hLeft hArity
  have hFetch' :
      code'.fetch m'.pc = .ok ⟨o, m.pc + shift, operands'⟩ := by
    rw [hTwin.pc]
    exact Code.fetch_of_holds hRight hArity'
  have hInstruction :
      Instruction.Twin R shift ⟨o, m.pc, operands⟩
        ⟨o, m.pc + shift, operands'⟩ :=
    ⟨rfl, rfl, hWords⟩
  have hTarget :
      ∀ t, Instruction.target ⟨o, m.pc, operands⟩ 0 = .ok t →
        cut t ∧ t ≤ stop ∧
          (t + shift < code'.length ↔ t < code.length) := by
    intro t ht
    apply hTargets
    unfold Instruction.target at ht
    split at ht
    · rename_i hWord
      cases ht
      exact List.mem_of_getElem? hWord
    · cases ht
  have hStep :
      Paired (Machine.Twin R Eq shift) (EvalError.Alike R)
        (Flow.Twin R) (step code m) (step code' m') := by
    rw [step_of_fetch hFetch, step_of_fetch hFetch']
    exact pairs_perform hTags (fun t ht => (hTarget t ht).2.2)
      hInstruction .next .stop
      (fun name arguments _ =>
        pairs_call hTags (fun _ _ hSame => hSame.symm) name arguments)
      _ _ { hTwin with pc := hInstruction.next }
  have hSome : (code.drop m.pc).isEmpty = false := by
    rcases hLeft with ⟨rest, hDrop⟩
    rw [hDrop]
    rfl
  have hSome' : (code'.drop m'.pc).isEmpty = false := by
    rcases hRight with ⟨rest, hDrop⟩
    rw [hTwin.pc, hDrop]
    rfl
  refine .of_pass hSome hSome' (twin_pass hTags hRuns hStep) ?_ ?_
  · intro ending left hEnds
    rcases pc_of_ends hFetch hEnds with hPlace | hPlace
    · rw [hPlace]
      exact hInside
    · exact (hTarget _ hPlace).2.1
  · intro after after' hPass hAfter
    apply hLess after after' hAfter
    rcases pc_of_pass hFetch hPass with hPlace | hPlace
    · rw [hPlace]
      exact hNext
    · exact (hTarget _ hPlace).1

/- Both machines at a cut go on, or stand where they end. -/
theorem abreast_succ
    (hTags : Routine.Tagged R)
    (hPlain : ∀ name n, w.plain name → name ≠ hiddenName n)
    (hRuns : RunsAlike R bound)
    (hParallel : Code.Parallel w R shift opened stop cut code code')
    (hCut : cut m.pc)
    (hTwin : m.Twin R Eq shift m')
    (hLess :
      ∀ less, less ≤ bound → ∀ after after',
        after.Twin R Eq shift after' → cut after.pc →
        Abreast R shift opened stop less code code' after after') :
    Abreast R shift opened stop (bound + 1) code code' m m' := by
  cases hParallel m.pc hCut with
  | opened hStop hOpened =>
      exact .arrives hOpened .refl .refl hTwin hStop
  | ended hStop hLeft hRight =>
      rw [← hTwin.pc] at hRight
      have hRun : run (bound + 1) code m = .done .finished m := by
        rw [run_succ, hLeft]
        rfl
      have hRun' : run (bound + 1) code' m' = .done .finished m' := by
        rw [run_succ, hRight]
        rfl
      refine .ends ?_ ?_
      · rw [hRun, hRun']
        exact .done hTwin
      · rw [hRun]
        rintro ending left ⟨⟩
        exact Nat.le_of_eq hStop
  | piece hPiece hLeft hRight hNext hInside hTargets =>
      cases hPiece with
      | @single o operands operands' hArity hWords =>
          have hSame :
              m.pc + (Word.ofOp o :: operands).length =
                m.pc + 1 + operands.length := by
            rw [List.length_cons]
            omega
          rw [hSame] at hNext hInside
          refine abreast_single hTags hRuns hTwin hArity hWords hLeft
            hRight hNext hInside ?_ (hLess bound (Nat.le_refl bound))
          intro t ht
          apply hTargets
          exact Code.mem_targets.2 (List.mem_cons_of_mem _ ht)
      | @block operator name n n' hName hHidden =>
          have hStates : m.state.Twin R m'.state :=
            ⟨hTwin.scopes, hTwin.counts, hTwin.host⟩
          have hOld' :
              HoldsOld code' m'.pc operator name n' := by
            rw [hTwin.pc]
            exact holdsOld_of_holds hRight
          apply (holdsOld_of_holds hLeft).abreast
            (hPlain name n hName) hOld' (hPlain name n' hName)
            hTwin.pc hTags hStates hTwin.stack
          intro less hSmaller after after' hAfter hPlace
          apply hLess less (by omega) after after' hAfter
          rw [hPlace]
          exact hNext

/- Related functions run alike, as do runs of parallel streams. -/
theorem abreast_run
    (hTags : Routine.Tagged R)
    (hPlain : ∀ name n, w.plain name → name ≠ hiddenName n)
    (hEnter : ∀ r r', R r r' → Code.Enters w R r.code r'.code)
    (hParallel : Code.Parallel w R shift opened stop cut code code')
    (hCut : cut m.pc)
    (hTwin : m.Twin R Eq shift m')
    (bound : Nat) :
    Abreast R shift opened stop bound code code' m m' := by
  -- Runs of one stream, and those of two, call each other.
  have hBoth (bound : Nat) :
      (∀ {code m m'},
        Code.SelfRelated R code → Machine.Twin R Eq 0 m m' →
          (run bound code m).Twin R 0 (run bound code m')) ∧
      ∀ {shift opened stop cut code code' m m'},
        Code.Parallel w R shift opened stop cut code code' →
          cut m.pc → Machine.Twin R Eq shift m m' →
          Abreast R shift opened stop bound code code' m m' := by
    induction bound using Nat.strongRecOn with
    | ind bound ih =>
        cases bound with
        | zero => exact ⟨fun _ _ => .unfinished, fun _ _ _ => .zero⟩
        | succ bound =>
            have hPast := ih bound (Nat.lt_succ_self bound)
            have hRuns : RunsAlike R bound := by
              intro r r' m m' hRelated hZero hStart
              rcases hEnter r r' hRelated with
                ⟨hSame, hSelf⟩ | ⟨stop, cut, hParallel, hCut⟩
              · rw [hSame]
                exact hPast.1 hSelf hStart
              · rw [← hZero] at hCut
                cases hPast.2 hParallel hCut hStart with
                | ends hOutcome _ => exact hOutcome
                | arrives hOpened => exact hOpened.elim
            refine ⟨fun hSelf hStart => ?_, fun hBeside hAt hStart => ?_⟩
            · exact twin_run_succ hTags hRuns hSelf hStart
                (hPast.1 hSelf)
            · apply abreast_succ hTags hPlain hRuns hBeside hAt hStart
              intro less hLe after after' hAfter hAfterAt
              exact (ih less (Nat.lt_succ_of_le hLe)).2 hBeside hAfterAt
                hAfter
  exact (hBoth bound).2 hParallel hCut hTwin

end Machine

end StackScript
