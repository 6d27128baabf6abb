import StackScript.Proofs.Meaning.Hidden
import StackScript.Proofs.Printed.Words
import StackScript.Proofs.Twin.Rows

/-
  The code of an expression and of the same one elsewhere.

  The same tree, with its places forgotten, at a position
  that is a distance away and with other fresh numbers, has
  code that is aligned with its own, or is refused for the
  same reason. Jump targets are the distance apart, and
  hidden names are related like the fresh numbers.

  Key definitions include:
    * `CompileError.Same`
    * `Emit.Pairs`

  Key theorems include:
    * `Code.aligned_both`, `Code.aligned_either`
    * `Expr.pairs_emit`
-/

namespace StackScript

------------------------------------------------------------
-- Errors
------------------------------------------------------------

/- An error with its place forgotten. -/
def CompileError.unplaced : CompileError → CompileError
| .breakOutsideLoop _ => .breakOutsideLoop .start
| .continueOutsideLoop _ => .continueOutsideLoop .start
| .unknownOperator kind operator _ =>
    .unknownOperator kind operator .start
| .invalidUpdateTarget operator kind _ =>
    .invalidUpdateTarget operator kind .start
| .invalidLiteral text _ => .invalidLiteral text .start

/- Two errors differ in their places alone. -/
def CompileError.Same (e f : CompileError) : Prop :=
  f.unplaced = e.unplaced

/- Paired from linked fresh numbers on. -/
abbrev Emit.Pairs
    {α β : Type}
    (w : Numbering)
    (Q : α → β → Prop)
    (x : Emit α)
    (y : Emit β) : Prop :=
  StackScript.Pairs w.Links CompileError.Same Q x y

variable {w : Numbering}
variable {R : Routine → Routine → Prop}
variable {shift start start' : Nat}
variable {exits : Nat → Prop}
variable {keep : Bool}

------------------------------------------------------------
-- Parts of Code
------------------------------------------------------------

namespace Code

variable {left left' right right' : Code}
variable {name : String}

theorem aligned_pushIf
    {a : Constant}
    (h : ∀ r, a ≠ .routine r) :
    Aligned w R shift exits start (pushIf keep a) (pushIf keep a) := by
  cases keep with
  | true => exact aligned_constant h
  | false => exact aligned_row .nil rfl

theorem aligned_dropUnless :
    Aligned w R shift exits start (dropUnless keep)
      (dropUnless keep) := by
  cases keep with
  | true => exact aligned_row .nil rfl
  | false => exact aligned_bare rfl

theorem aligned_loadIf :
    Aligned w R shift exits start (loadIf keep name)
      (loadIf keep name) := by
  cases keep with
  | true => exact aligned_named rfl
  | false => exact aligned_row .nil rfl

theorem aligned_step (operator : Operator) :
    Aligned w R shift exits start (step operator name)
      (step operator name) := by
  have hOp : (stepOp operator).arity = 0 := by
    unfold stepOp
    split <;> rfl
  have hOne : ∀ r, Constant.number .one ≠ .routine r := nofun
  have hLoad :
      Aligned w R shift exits start (named .load name)
        (named .load name) :=
    aligned_named rfl
  exact ((hLoad.thenConstant hOne).thenBare hOp).thenNamed rfl

/- A conjunction jumps behind its parts, inside itself. -/
theorem aligned_both
    (hStart : start' = start + shift)
    (hLeft : Aligned w R shift exits start left left')
    (hRight :
      Aligned w R shift exits (start + left.length + 2) right
        right') :
    Aligned w R shift exits start (both start left right)
      (both start' left' right') := by
  have hFirst := hLeft.row.length_eq
  have hSecond := hRight.row.length_eq
  have hOne : ∀ r, Constant.number .one ≠ .routine r := nofun
  have hZero : ∀ r, Constant.number (.zero false) ≠ .routine r :=
    nofun
  unfold both
  dsimp only
  generalize hFails : start + left.length + right.length + 8 = fails
  generalize hFails' :
    start' + left'.length + right'.length + 8 = fails'
  have hKnown :
      ∀ x, exits x → exits x ∨ x = fails ∨ x = fails + 2 :=
    fun _ => .inl
  have hTest :
      Aligned w R shift _ start (left ++ jump .jz fails)
        (left' ++ jump .jz fails') :=
    (hLeft.mono hKnown).thenJump rfl (by omega) (.inr (.inl rfl))
  have hTests :
      Aligned w R shift _ start
        (left ++ jump .jz fails ++ right ++ jump .jz fails)
        (left' ++ jump .jz fails' ++ right' ++ jump .jz fails') :=
    (hTest.join (hRight.mono hKnown) (by simp; omega)).thenJump rfl
      (by omega) (.inr (.inl rfl))
  have hFront :
      Aligned w R shift _ start
        (left ++ jump .jz fails ++ right ++ jump .jz fails
          ++ pushed (.number .one) ++ jump .jmp (fails + 2))
        (left' ++ jump .jz fails' ++ right' ++ jump .jz fails'
          ++ pushed (.number .one) ++ jump .jmp (fails' + 2)) :=
    (hTests.thenConstant hOne).thenJump rfl (by omega) (.inr (.inr rfl))
  have hWhole := hFront.thenConstant hZero
  apply hWhole.settle
  rintro x (hExit | rfl | rfl)
  · exact .inl hExit
  · refine .inr (cutAt_front hFront.row ?_ (by simp; omega))
    exact (Beside.piece (piece_pushed (twin_constant hZero)))
  · exact .inr (cutAt_end hWhole.row (by simp; omega))

/- A disjunction jumps to its second part and behind its parts. -/
theorem aligned_either
    (hStart : start' = start + shift)
    (hLeft : Aligned w R shift exits start left left')
    (hRight :
      Aligned w R shift exits (start + left.length + 6) right
        right') :
    Aligned w R shift exits start (either start left right)
      (either start' left' right') := by
  have hFirst := hLeft.row.length_eq
  have hSecond := hRight.row.length_eq
  have hOne : ∀ r, Constant.number .one ≠ .routine r := nofun
  have hZero : ∀ r, Constant.number (.zero false) ≠ .routine r :=
    nofun
  unfold either
  dsimp only
  generalize hMiddle : start + left.length + 6 = second at hRight ⊢
  generalize hMiddle' : start' + left'.length + 6 = second'
  generalize hFails : second + right.length + 6 = fails
  generalize hFails' : second' + right'.length + 6 = fails'
  have hKnown :
      ∀ x, exits x →
        exits x ∨ x = second ∨ x = fails ∨ x = fails + 2 :=
    fun _ => .inl
  have hTest :
      Aligned w R shift _ start (left ++ jump .jz second)
        (left' ++ jump .jz second') :=
    (hLeft.mono hKnown).thenJump rfl (by omega) (.inr (.inl rfl))
  have hHolds :
      Aligned w R shift _ start
        (left ++ jump .jz second ++ pushed (.number .one)
          ++ jump .jmp (fails + 2))
        (left' ++ jump .jz second' ++ pushed (.number .one)
          ++ jump .jmp (fails' + 2)) :=
    (hTest.thenConstant hOne).thenJump rfl (by omega)
      (.inr (.inr (.inr rfl)))
  have hOther :
      Aligned w R shift _ second (right ++ jump .jz fails)
        (right' ++ jump .jz fails') :=
    (hRight.mono hKnown).thenJump rfl (by omega)
      (.inr (.inr (.inl rfl)))
  have hBehind :
      Aligned w R shift _ second
        (right ++ jump .jz fails ++ pushed (.number .one)
          ++ jump .jmp (fails + 2))
        (right' ++ jump .jz fails' ++ pushed (.number .one)
          ++ jump .jmp (fails' + 2)) :=
    (hOther.thenConstant hOne).thenJump rfl (by omega)
      (.inr (.inr (.inr rfl)))
  have hLast : Beside w R shift (pushed (.number (.zero false))) _ :=
    .piece (piece_pushed (twin_constant hZero))
  have hFront := hHolds.join hBehind (by simp; omega)
  have hWhole := hFront.thenConstant hZero
  simp only [← List.append_assoc] at hWhole hFront
  apply hWhole.settle
  rintro x (hExit | rfl | rfl | rfl)
  · exact .inl hExit
  · have hCut : CutAt w R shift start x _ _ :=
      (cutAt_front hHolds.row hBehind.row (by simp; omega)).left hLast
    simp only [← List.append_assoc] at hCut
    exact .inr hCut
  · exact .inr (cutAt_front hFront.row hLast (by simp; omega))
  · exact .inr (cutAt_end hWhole.row (by simp; omega))

end Code

------------------------------------------------------------
-- Expressions
------------------------------------------------------------

theorem Expr.unplacedAll_length (es : List Expr) :
    (Expr.unplacedAll es).length = es.length := by
  induction es with
  | nil => rfl
  | cons e es ih => rw [Expr.unplacedAll, List.length_cons, ih]; rfl

/- The variable that is stepped is the same, or there is none. -/
theorem Expr.pairs_updateTarget
    (e : Expr)
    (operator : Operator) :
    Emit.Pairs w (fun name name' => name' = name ∧ name ∈ e.identifiers)
      (e.updateTarget operator) (e.unplaced.updateTarget operator) := by
  cases e with
  | «variable» name place =>
      exact pairs_pure ⟨rfl, List.mem_singleton_self name⟩
  | _ => exact pairs_throw rfl

/- Hidden names that are taken in both are related. -/
theorem Emit.pairs_temporary :
    Emit.Pairs w
      (fun hidden hidden' =>
        ∃ n n', w.hidden n n' ∧ hidden = hiddenName n ∧
          hidden' = hiddenName n')
      Emit.temporary Emit.temporary := by
  intro s s' hLinks
  exact ⟨⟨_, _, hLinks.hidden, rfl, rfl⟩, hLinks.hide⟩

theorem Emit.pairs_mark :
    Emit.Pairs w w.mark Emit.mark Emit.mark := by
  intro s s' hLinks
  exact ⟨hLinks.mark, hLinks.define⟩

mutual

/- An expression and the same elsewhere have aligned code. -/
theorem Expr.pairs_emit
    (e : Expr)
    {start start' : Nat}
    {keep : Bool}
    (hNames : ∀ name ∈ e.identifiers, w.plain name)
    (hStart : start' = start + shift) :
    Emit.Pairs w (Code.Aligned w R shift exits start)
      (e.emit start keep) (e.unplaced.emit start' keep) := by
  match e with
  | .literal text place =>
      rw [Expr.unplaced, Expr.emit, Expr.emit]
      cases hText : Constant.ofText? text with
      | none => exact pairs_throw rfl
      | some c =>
          apply pairs_pure
          apply Code.aligned_pushIf
          rintro r rfl
          exact Constant.ofText?_ne_routine hText
  | .string text place =>
      rw [Expr.unplaced, Expr.emit, Expr.emit]
      exact pairs_pure (Code.aligned_pushIf nofun)
  | .variable name place =>
      rw [Expr.unplaced, Expr.emit, Expr.emit]
      exact pairs_pure
        ((Code.aligned_named rfl).join Code.aligned_dropUnless rfl)
  | .binary operator a b place =>
      rw [Expr.identifiers, List.forall_mem_append] at hNames
      rw [Expr.unplaced, Expr.emit, Expr.emit]
      cases hOp : operator.binaryOp? with
      | none => exact pairs_throw rfl
      | some op =>
          have hBare := Operator.arity_of_binaryOp? hOp
          apply (a.pairs_emit hNames.1 hStart).bind
          intro left left' hLeft
          have hLength := hLeft.row.length_eq
          apply (b.pairs_emit hNames.2 (by omega)).bind
          intro right right' hRight
          exact pairs_pure
            (((hLeft.join hRight rfl).thenBare hBare).join
              Code.aligned_dropUnless rfl)
  | .logical operator a b place =>
      rw [Expr.identifiers, List.forall_mem_append] at hNames
      rw [Expr.unplaced]
      cases operator
      case and =>
        rw [Expr.emit, Expr.emit]
        apply (a.pairs_emit hNames.1 hStart).bind
        intro left left' hLeft
        have hLength := hLeft.row.length_eq
        apply (b.pairs_emit hNames.2 (by omega)).bind
        intro right right' hRight
        exact pairs_pure
          ((Code.aligned_both hStart hLeft hRight).join
            Code.aligned_dropUnless rfl)
      case or =>
        rw [Expr.emit, Expr.emit]
        apply (a.pairs_emit hNames.1 hStart).bind
        intro left left' hLeft
        have hLength := hLeft.row.length_eq
        apply (b.pairs_emit hNames.2 (by omega)).bind
        intro right right' hRight
        exact pairs_pure
          ((Code.aligned_either hStart hLeft hRight).join
            Code.aligned_dropUnless rfl)
      all_goals exact pairs_throw rfl
  | .unary operator a place =>
      rw [Expr.identifiers] at hNames
      rw [Expr.unplaced, Expr.emit, Expr.emit]
      split
      · exact a.pairs_emit hNames hStart
      split
      · apply (a.pairs_updateTarget operator).bind
        rintro name _ ⟨rfl, _⟩
        exact pairs_pure
          ((Code.aligned_step operator).join Code.aligned_loadIf rfl)
      · cases hOp : operator.unaryOp? with
        | none => exact pairs_throw rfl
        | some op =>
            have hBare := Operator.arity_of_unaryOp? hOp
            apply (a.pairs_emit hNames hStart).bind
            intro argument argument' hArgument
            exact pairs_pure
              ((hArgument.thenBare hBare).join Code.aligned_dropUnless
                rfl)
  | .post operator a place =>
      rw [Expr.identifiers] at hNames
      rw [Expr.unplaced, Expr.emit, Expr.emit]
      split
      · apply (a.pairs_updateTarget operator).bind
        rintro _ name ⟨rfl, hMem⟩
        cases keep with
        | true =>
            apply Emit.pairs_temporary.bind
            rintro _ _ ⟨n, n', hHidden, rfl, rfl⟩
            exact pairs_pure
              (Code.aligned_piece (.block (hNames name hMem) hHidden)
                rfl)
        | false => exact pairs_pure (Code.aligned_step operator)
      · exact pairs_throw rfl
  | .assignment name value place =>
      rw [Expr.identifiers, List.forall_mem_cons] at hNames
      rw [Expr.unplaced, Expr.emit, Expr.emit]
      apply (value.pairs_emit hNames.2 hStart).bind
      intro code code' hValue
      exact pairs_pure
        ((hValue.thenNamed rfl).join Code.aligned_loadIf rfl)
  | .call name arguments place =>
      rw [Expr.identifiers, List.forall_mem_cons] at hNames
      rw [Expr.unplaced, Expr.emit, Expr.emit,
        Expr.unplacedAll_length]
      apply (Expr.pairs_emitAll arguments hNames.2 hStart).bind
      intro code code' hArguments
      exact pairs_pure
        ((hArguments.join
          (Code.aligned_piece (Code.piece_called _) rfl) rfl).join
          Code.aligned_dropUnless rfl)

/- So have expressions in a row. -/
theorem Expr.pairs_emitAll
    (es : List Expr)
    {start start' : Nat}
    (hNames : ∀ name ∈ Expr.identifiersAll es, w.plain name)
    (hStart : start' = start + shift) :
    Emit.Pairs w (Code.Aligned w R shift exits start)
      (Expr.emitAll start es)
      (Expr.emitAll start' (Expr.unplacedAll es)) := by
  match es with
  | [] => exact pairs_pure (Code.aligned_row .nil rfl)
  | e :: es =>
      rw [Expr.identifiersAll, List.forall_mem_append] at hNames
      rw [Expr.unplacedAll, Expr.emitAll, Expr.emitAll]
      apply (e.pairs_emit hNames.1 hStart).bind
      intro first first' hFirst
      have hLength := hFirst.row.length_eq
      apply (Expr.pairs_emitAll es hNames.2 (by omega)).bind
      intro others others' hOthers
      exact pairs_pure (hFirst.join hOthers rfl)

end

end StackScript
