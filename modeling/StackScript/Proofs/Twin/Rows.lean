import StackScript.Proofs.Stream.WellFormed
import StackScript.Proofs.Twin.Machine

/-
  Two streams in step.

  Two streams are beside each other when they are rows of the
  same pieces: instructions that are twins, and whole steps
  that keep the old value in a hidden variable, whose numbers
  may differ. Between two pieces is a cut. Code is aligned
  when its jumps lead to cuts, or to known exits.

  Key definitions include:
    * `Numbering`
    * `Code.Piece`, `Code.Beside`
    * `Code.Cut`
    * `Code.Aligned`

  Key theorems include:
    * `Code.Aligned.join`
    * `Code.Aligned.settle`
-/

namespace StackScript

/-
  How the numbers of hidden names and the marks of functions
  are related in two emissions, and which names the trees
  may have.
-/
structure Numbering where
  hidden : Nat → Nat → Prop
  mark : Nat → Nat → Prop
  plain : String → Prop
  hidden_succ : ∀ {n n'}, hidden n n' → hidden (n + 1) (n' + 1)
  mark_succ : ∀ {n n'}, mark n n' → mark (n + 1) (n' + 1)

/- Fresh numbers that are related. -/
structure Numbering.Links
    (w : Numbering)
    (s s' : Fresh) : Prop where
  hidden : w.hidden s.temporaries s'.temporaries
  mark : w.mark s.routines s'.routines

variable {w : Numbering}
variable {R : Routine → Routine → Prop}
variable {shift : Nat}

namespace Numbering.Links

variable {s s' : Fresh}

theorem hide (h : w.Links s s') : w.Links s.hide s'.hide :=
  ⟨w.hidden_succ h.hidden, h.mark⟩

theorem define (h : w.Links s s') : w.Links s.define s'.define :=
  ⟨h.hidden, w.mark_succ h.mark⟩

end Numbering.Links

namespace Code

------------------------------------------------------------
-- Pieces
------------------------------------------------------------

/- One instruction, or one step that keeps the old value. -/
inductive Piece
    (w : Numbering)
    (R : Routine → Routine → Prop)
    (shift : Nat) :
    Code → Code → Prop
| single
    {o : Op}
    {operands operands' : Code}
    (hArity : operands.length = o.arity)
    (hWords : List.Forall₂ (Word.Twin R shift) operands operands') :
    Piece w R shift (.ofOp o :: operands) (.ofOp o :: operands')
| block
    {operator : Operator}
    {name : String}
    {n n' : Nat}
    (hName : w.plain name)
    (hHidden : w.hidden n n') :
    Piece w R shift (stepKeepingOld operator name (hiddenName n))
      (stepKeepingOld operator name (hiddenName n'))

/- Rows of the same pieces. -/
inductive Beside
    (w : Numbering)
    (R : Routine → Routine → Prop)
    (shift : Nat) :
    Code → Code → Prop
| nil : Beside w R shift [] []
| cons
    {piece piece' c c' : Code}
    (hPiece : Piece w R shift piece piece')
    (hRest : Beside w R shift c c') :
    Beside w R shift (piece ++ c) (piece' ++ c')

variable {c c' d d' : Code}
variable {name : String}

theorem piece_bare
    {o : Op}
    (h : o.arity = 0) :
    Piece w R shift (bare o) (bare o) :=
  .single h.symm .nil

theorem piece_named
    {o : Op}
    (h : o.arity = 1) :
    Piece w R shift (named o name) (named o name) :=
  .single h.symm (.cons (.name name) .nil)

theorem piece_pushed
    {a a' : Constant}
    (h : (Value.ofConstant a).Twin R (Value.ofConstant a')) :
    Piece w R shift (pushed a) (pushed a') :=
  .single rfl (.cons (.const h) .nil)

theorem piece_jump
    {o : Op}
    {target target' : Nat}
    (h : o.arity = 1)
    (hTarget : target' = target + shift) :
    Piece w R shift (jump o target) (jump o target') := by
  subst hTarget
  exact .single h.symm (.cons (.target target) .nil)

theorem piece_called (arguments : Nat) :
    Piece w R shift (called name arguments) (called name arguments) :=
  .single rfl (.cons (.name name) (.cons (.count arguments) .nil))

/- A constant that is no function is its own twin. -/
theorem twin_constant
    {a : Constant}
    (h : ∀ r, a ≠ .routine r) :
    (Value.ofConstant a).Twin R (Value.ofConstant a) := by
  apply Value.Twin.same
  cases a with
  | routine r => exact absurd rfl (h r)
  | _ => simp [Value.ofConstant]

theorem Piece.length_eq
    (h : Piece w R shift c c') :
    c'.length = c.length := by
  cases h with
  | single _ hWords =>
      rw [List.length_cons, List.length_cons, hWords.length_eq]
  | block => rfl

namespace Beside

theorem piece (h : Piece w R shift c c') :
    Beside w R shift c c' := by
  have hOne := cons h nil
  rwa [List.append_nil, List.append_nil] at hOne

theorem length_eq
    (h : Beside w R shift c c') :
    c'.length = c.length := by
  induction h with
  | nil => rfl
  | cons hPiece _ ih =>
      rw [List.length_append, List.length_append, hPiece.length_eq, ih]

/- Two rows make one. -/
theorem join
    (hFront : Beside w R shift c c')
    (hBack : Beside w R shift d d') :
    Beside w R shift (c ++ d) (c' ++ d') := by
  induction hFront with
  | nil => exact hBack
  | cons hPiece _ ih =>
      rw [List.append_assoc, List.append_assoc]
      exact ih.cons hPiece

end Beside

------------------------------------------------------------
-- Cuts
------------------------------------------------------------

/- Both streams can be cut at a position, between two pieces. -/
def Cut
    (w : Numbering)
    (R : Routine → Routine → Prop)
    (shift k : Nat)
    (c c' : Code) : Prop :=
  ∃ a a' b b', c = a ++ b ∧ c' = a' ++ b' ∧
    Beside w R shift a a' ∧ Beside w R shift b b' ∧ a.length = k

variable {k : Nat}

theorem cut_zero (h : Beside w R shift c c') :
    Cut w R shift 0 c c' :=
  ⟨[], [], c, c', rfl, rfl, .nil, h, rfl⟩

theorem cut_length (h : Beside w R shift c c') :
    Cut w R shift c.length c c' :=
  ⟨c, c', [], [], (List.append_nil c).symm, (List.append_nil c').symm,
    h, .nil, rfl⟩

theorem Cut.left
    (h : Cut w R shift k c c')
    (hBack : Beside w R shift d d') :
    Cut w R shift k (c ++ d) (c' ++ d') := by
  rcases h with ⟨a, a', b, b', rfl, rfl, hFront, hRest, hLength⟩
  exact ⟨a, a', b ++ d, b' ++ d', List.append_assoc ..,
    List.append_assoc .., hFront, hRest.join hBack, hLength⟩

theorem Cut.right
    (h : Cut w R shift k d d')
    (hFront : Beside w R shift c c') :
    Cut w R shift (c.length + k) (c ++ d) (c' ++ d') := by
  rcases h with ⟨a, a', b, b', rfl, rfl, hInner, hRest, hLength⟩
  refine ⟨c ++ a, c' ++ a', b, b', ?_, ?_, hFront.join hInner, hRest, ?_⟩
  · rw [List.append_assoc]
  · rw [List.append_assoc]
  · rw [List.length_append, hLength]

/- A position is a cut of code that stands at `start`. -/
def CutAt
    (w : Numbering)
    (R : Routine → Routine → Prop)
    (shift start x : Nat)
    (c c' : Code) : Prop :=
  ∃ k, x = start + k ∧ Cut w R shift k c c'

/- A cut between a front and what is behind it. -/
theorem cutAt_front
    {start x : Nat}
    (hFront : Beside w R shift c c')
    (hBack : Beside w R shift d d')
    (hEq : x = start + c.length) :
    CutAt w R shift start x (c ++ d) (c' ++ d') :=
  ⟨c.length, hEq, (cut_length hFront).left hBack⟩

/- The end of code is a cut of it. -/
theorem cutAt_end
    {start x : Nat}
    (h : Beside w R shift c c')
    (hEq : x = start + c.length) :
    CutAt w R shift start x c c' :=
  ⟨c.length, hEq, cut_length h⟩

/- The start of code is a cut of it. -/
theorem cutAt_start
    {start x : Nat}
    (h : Beside w R shift c c')
    (hEq : x = start) :
    CutAt w R shift start x c c' :=
  ⟨0, hEq, cut_zero h⟩

theorem CutAt.left
    {start x : Nat}
    (h : CutAt w R shift start x c c')
    (hBack : Beside w R shift d d') :
    CutAt w R shift start x (c ++ d) (c' ++ d') := by
  rcases h with ⟨k, hEq, hCut⟩
  exact ⟨k, hEq, hCut.left hBack⟩

------------------------------------------------------------
-- Alignment
------------------------------------------------------------

/-
  Rows of the same pieces, of which the first stands at
  `start`, and every jump of it leads to a cut or an exit.
-/
structure Aligned
    (w : Numbering)
    (R : Routine → Routine → Prop)
    (shift : Nat)
    (exits : Nat → Prop)
    (start : Nat)
    (c c' : Code) : Prop where
  row : Beside w R shift c c'
  lands :
    ∀ x ∈ c.targets, exits x ∨ CutAt w R shift start x c c'

variable {exits others : Nat → Prop}
variable {start stop : Nat}

/- Pieces without jumps lead nowhere. -/
theorem aligned_row
    (h : Beside w R shift c c')
    (hTargets : c.targets = []) :
    Aligned w R shift exits start c c' := by
  refine ⟨h, ?_⟩
  intro x hx
  rw [hTargets] at hx
  cases hx

theorem aligned_piece
    (h : Piece w R shift c c')
    (hTargets : c.targets = []) :
    Aligned w R shift exits start c c' :=
  aligned_row (.piece h) hTargets

theorem aligned_bare
    {o : Op}
    (h : o.arity = 0) :
    Aligned w R shift exits start (bare o) (bare o) :=
  aligned_piece (piece_bare h) rfl

theorem aligned_named
    {o : Op}
    (h : o.arity = 1) :
    Aligned w R shift exits start (named o name) (named o name) :=
  aligned_piece (piece_named h) rfl

theorem aligned_constant
    {a : Constant}
    (h : ∀ r, a ≠ .routine r) :
    Aligned w R shift exits start (pushed a) (pushed a) :=
  aligned_piece (piece_pushed (twin_constant h)) rfl

/- A jump leads to an exit. -/
theorem aligned_jump
    {o : Op}
    {target target' : Nat}
    (h : o.arity = 1)
    (hTarget : target' = target + shift)
    (hExit : exits target) :
    Aligned w R shift exits start (jump o target)
      (jump o target') := by
  refine ⟨.piece (piece_jump h hTarget), ?_⟩
  intro x hx
  rw [targets_jump, List.mem_singleton] at hx
  rw [hx]
  exact .inl hExit

namespace Aligned

/- Code behind other code is aligned with it. -/
theorem join
    (hFront : Aligned w R shift exits start c c')
    (hBack : Aligned w R shift exits stop d d')
    (hStop : stop = start + c.length) :
    Aligned w R shift exits start (c ++ d) (c' ++ d') := by
  refine ⟨hFront.row.join hBack.row, ?_⟩
  intro x hx
  rw [targets_append] at hx
  rcases List.mem_append.1 hx with hx | hx
  · rcases hFront.lands x hx with hExit | ⟨k, hEq, hCut⟩
    · exact .inl hExit
    · exact .inr ⟨k, hEq, hCut.left hBack.row⟩
  · rcases hBack.lands x hx with hExit | ⟨k, hEq, hCut⟩
    · exact .inl hExit
    · refine .inr ⟨c.length + k, ?_, hCut.right hFront.row⟩
      rw [hEq, hStop, Nat.add_assoc]

theorem mono
    (h : Aligned w R shift exits start c c')
    (hExits : ∀ x, exits x → others x) :
    Aligned w R shift others start c c' := by
  refine ⟨h.row, ?_⟩
  intro x hx
  rcases h.lands x hx with hExit | hCut
  · exact .inl (hExits x hExit)
  · exact .inr hCut

theorem thenJump
    {o : Op}
    {target target' : Nat}
    (hFront : Aligned w R shift exits start c c')
    (h : o.arity = 1)
    (hTarget : target' = target + shift)
    (hExit : exits target) :
    Aligned w R shift exits start (c ++ jump o target)
      (c' ++ jump o target') :=
  hFront.join (aligned_jump h hTarget hExit) rfl

theorem thenBare
    {o : Op}
    (hFront : Aligned w R shift exits start c c')
    (h : o.arity = 0) :
    Aligned w R shift exits start (c ++ bare o) (c' ++ bare o) :=
  hFront.join (aligned_bare h) rfl

theorem thenNamed
    {o : Op}
    (hFront : Aligned w R shift exits start c c')
    (h : o.arity = 1) :
    Aligned w R shift exits start (c ++ named o name)
      (c' ++ named o name) :=
  hFront.join (aligned_named h) rfl

theorem thenConstant
    {a : Constant}
    (hFront : Aligned w R shift exits start c c')
    (h : ∀ r, a ≠ .routine r) :
    Aligned w R shift exits start (c ++ pushed a) (c' ++ pushed a) :=
  hFront.join (aligned_constant h) rfl

/- Exits that are cuts of the whole need not be known. -/
theorem settle
    (h : Aligned w R shift others start c c')
    (hExits :
      ∀ x, others x → exits x ∨ CutAt w R shift start x c c') :
    Aligned w R shift exits start c c' := by
  refine ⟨h.row, ?_⟩
  intro x hx
  rcases h.lands x hx with hExit | hCut
  · exact hExits x hExit
  · exact .inr hCut

end Aligned

end Code
end StackScript
