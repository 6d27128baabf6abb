import StackScript.Proofs.Twin.Streams

/-
  Streams with other labels.

  Names and the marks of functions are labels that can be
  changed all over a stream. Two emissions of one program
  whose hidden names and marks become the same when they are
  changed give streams that become the same.

  Key definitions include:
    * `Word.relabeled`
    * `Code.SameUnder`
    * `Numbering.Agrees`

  Key theorems include:
    * `Code.Beside.sameUnder`
    * `Program.pairs_compile`
    * `Program.compile_of_unplaced`
-/

namespace StackScript

------------------------------------------------------------
-- Labels
------------------------------------------------------------

section Labels

variable (rename : String → String)
variable (remark : Nat → Nat)

mutual

/- A word with other names and other marks of functions. -/
def Word.relabeled : Word → Word
| .op code => .op code
| .const c => .const c.relabeled
| .name text => .name (rename text)
| .target position => .target position
| .count n => .count n

/- A constant with other labels in a function. -/
def Constant.relabeled : Constant → Constant
| .null => .null
| .number n => .number n
| .integer i => .integer i
| .decimal d => .decimal d
| .text s => .text s
| .routine r => .routine r.relabeled

/- A function with another mark and other labels inside. -/
def Routine.relabeled : Routine → Routine
| ⟨mark, name, parameters, code⟩ =>
    ⟨remark mark, name, parameters, Word.relabeledAll code⟩

/- Words with other labels. -/
def Word.relabeledAll : List Word → List Word
| [] => []
| w :: ws => w.relabeled :: Word.relabeledAll ws

end

/- Two streams that other labels make the same. -/
def Code.SameUnder (c c' : Code) : Prop :=
  Word.relabeledAll rename remark c' =
    Word.relabeledAll rename remark c

/- Two functions that other labels make the same. -/
def Routine.SameUnder (r r' : Routine) : Prop :=
  r'.relabeled rename remark = r.relabeled rename remark

variable {rename : String → String}
variable {remark : Nat → Nat}

theorem Word.relabeledAll_append (ws vs : List Word) :
    Word.relabeledAll rename remark (ws ++ vs) =
      Word.relabeledAll rename remark ws
        ++ Word.relabeledAll rename remark vs := by
  induction ws with
  | nil => rfl
  | cons w ws ih =>
      rw [List.cons_append, Word.relabeledAll, Word.relabeledAll, ih,
        List.cons_append]

end Labels

mutual

/- Labels that are not changed leave a word as it is. -/
theorem Word.relabeled_id (w : Word) :
    w.relabeled id id = w := by
  match w with
  | .const c => rw [Word.relabeled, c.relabeled_id]
  | .op _ | .name _ | .target _ | .count _ => rfl

theorem Constant.relabeled_id (c : Constant) :
    c.relabeled id id = c := by
  match c with
  | .routine r => rw [Constant.relabeled, r.relabeled_id]
  | .null | .number _ | .integer _ | .decimal _ | .text _ => rfl

theorem Routine.relabeled_id (r : Routine) :
    r.relabeled id id = r := by
  match r with
  | ⟨mark, name, parameters, code⟩ =>
      rw [Routine.relabeled, Word.relabeledAll_id code, id]

theorem Word.relabeledAll_id (ws : List Word) :
    Word.relabeledAll id id ws = ws := by
  match ws with
  | [] => rfl
  | w :: ws =>
      rw [Word.relabeledAll, w.relabeled_id, Word.relabeledAll_id ws]

end

------------------------------------------------------------
-- Rows
------------------------------------------------------------

section Rows

variable {rename : String → String}
variable {remark : Nat → Nat}
variable {w : Numbering}
variable {c c' : Code}

/- Constants of twin values have the same labels or get them. -/
theorem Constant.relabeled_of_twin
    {a a' : Constant}
    (h :
      (Value.ofConstant a).Twin (Routine.SameUnder rename remark)
        (Value.ofConstant a')) :
    a'.relabeled rename remark = a.relabeled rename remark := by
  cases a with
  | routine r =>
      cases a' with
      | routine r' =>
          cases h with
          | same hNone => rfl
          | routine hSame =>
              rw [Constant.relabeled, Constant.relabeled, hSame]
      | _ => cases h
  | _ =>
      cases a' with
      | _ =>
          cases h
          try rfl

theorem Word.relabeled_of_twin
    {v v' : Word}
    (h : v.Twin (Routine.SameUnder rename remark) 0 v') :
    v'.relabeled rename remark = v.relabeled rename remark := by
  cases h with
  | const h =>
      rw [Word.relabeled, Word.relabeled,
        Constant.relabeled_of_twin h]
  | _ => rfl

theorem Word.relabeledAll_of_twins
    {ws vs : List Word}
    (h :
      List.Forall₂ (Word.Twin (Routine.SameUnder rename remark) 0) ws
        vs) :
    Word.relabeledAll rename remark vs =
      Word.relabeledAll rename remark ws := by
  induction h with
  | nil => rfl
  | cons hFirst _ ih =>
      rw [Word.relabeledAll, Word.relabeledAll,
        Word.relabeled_of_twin hFirst, ih]

/- Related hidden names and marks become the same labels. -/
structure Numbering.Agrees
    (w : Numbering)
    (rename : String → String)
    (remark : Nat → Nat) : Prop where
  hidden :
    ∀ n n', w.hidden n n' →
      rename (hiddenName n') = rename (hiddenName n)
  mark : ∀ n n', w.mark n n' → remark n' = remark n

/- Rows of the same pieces become the same streams. -/
theorem Code.Beside.sameUnder
    (h : Code.Beside w (Routine.SameUnder rename remark) 0 c c')
    (hAgrees : w.Agrees rename remark) :
    c.SameUnder rename remark c' := by
  induction h with
  | nil => rfl
  | cons hPiece _ ih =>
      unfold Code.SameUnder at ih ⊢
      rw [Word.relabeledAll_append, Word.relabeledAll_append, ih]
      congr 1
      cases hPiece with
      | single _ hWords =>
          rw [Word.relabeledAll, Word.relabeledAll,
            Word.relabeledAll_of_twins hWords]
      | @block operator name n n' _ hHidden =>
          unfold Code.stepKeepingOld
          simp only [Word.relabeledAll_append, Code.named,
            Word.relabeledAll, Word.relabeled,
            hAgrees.hidden n n' hHidden]

/- Functions made from one body become the same. -/
theorem Numbering.Agrees.admits
    (h : w.Agrees rename remark) :
    w.Admits (Routine.SameUnder rename remark) := by
  intro stmts mark mark' s s' t t' c c' name parameters _ _ _ _ hBody
    hMark
  have hSame := hBody.row.sameUnder h
  unfold Code.SameUnder at hSame
  unfold Routine.SameUnder
  simp only [Routine.relabeled, Word.relabeledAll_append, hSame,
    h.mark mark mark' hMark]

end Rows

------------------------------------------------------------
-- Programs
------------------------------------------------------------

section Programs

variable {rename : String → String}
variable {remark : Nat → Nat}
variable {w : Numbering}

/- A program and the same without places become the same code. -/
theorem Program.pairs_compile
    (hAgrees : w.Agrees rename remark)
    (p : Program)
    (hNames : ∀ name ∈ Stmt.identifiersAll p, w.plain name) :
    Emit.Pairs w (Code.SameUnder rename remark) p.compile
      p.unplaced.compile := by
  rw [p.compile_eq, Program.compile_eq]
  apply (Stmt.pairs_emitAll hAgrees.admits p hNames
    (Nat.add_zero 0).symm).bind
  intro code code' hCode
  exact pairs_pure
    ((hCode.thenBare (o := .halt) rfl).row.sameUnder hAgrees)

/- The same numbers, and names of any kind. -/
def Numbering.same : Numbering where
  hidden n n' := n' = n
  mark n n' := n' = n
  plain _ := True
  hidden_succ h := congrArg Nat.succ h
  mark_succ h := congrArg Nat.succ h

theorem Numbering.same_agrees : Numbering.same.Agrees id id where
  hidden _ _ h := congrArg hiddenName h
  mark _ _ h := h

/- Code that the same numbers pair with code is that code. -/
theorem Emit.eq_ok_iff_of_same
    {x y : Emit Code}
    {f g : Fresh}
    {code : Code}
    (h : Emit.Pairs Numbering.same (Code.SameUnder id id) x y) :
    y f = .ok code g ↔ x f = .ok code g := by
  have hBoth := h f f ⟨rfl, rfl⟩
  cases hLeft : x f with
  | error e s =>
      cases hRight : y f with
      | error e' s' => exact ⟨nofun, nofun⟩
      | ok c' s' =>
          rw [hLeft, hRight] at hBoth
          exact hBoth.elim
  | ok c s =>
      cases hRight : y f with
      | error e' s' =>
          rw [hLeft, hRight] at hBoth
          exact hBoth.elim
      | ok c' s' =>
          rw [hLeft, hRight] at hBoth
          rcases hBoth with ⟨hSame, hHidden, hMark⟩
          unfold Code.SameUnder at hSame
          rw [Word.relabeledAll_id, Word.relabeledAll_id] at hSame
          cases s
          cases s'
          cases hHidden
          cases hMark
          rw [hSame]

/- Code that is made without places is made with them. -/
theorem Program.compile_of_unplaced
    {p : Program}
    {f g : Fresh}
    {code : Code}
    (h : p.unplaced.compile f = .ok code g) :
    p.compile f = .ok code g :=
  (Emit.eq_ok_iff_of_same
    (p.pairs_compile Numbering.same_agrees fun _ _ => trivial)).1 h

end Programs

end StackScript
