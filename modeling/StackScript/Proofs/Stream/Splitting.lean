import StackScript.Proofs.Stream.Position

/-
  Streams that split into instructions.

  `Code.WellFormed` says that a stream consists of whole
  instructions whose operands are of the kind that the
  machine asks for, and that every jump target is the
  position of one of them. `Code.Starts` are the positions
  that are met when a stream is decoded from its first word
  on; a row of whole instructions leads from one start to
  another.

  Main declarations:
    * `Code.Splits`, `Code.WellFormed`, `Code.Contains`
    * `Code.Starts`
    * `Code.Splits.exists_pc`
    * `Code.Starts.across`
-/

namespace StackScript

------------------------------------------------------------
-- Well-Formed Streams
------------------------------------------------------------

/- The operands are of the kind that the machine asks for. -/
def Instruction.Apt (i : Instruction) : Prop :=
  match i.op with
  | .push => ∃ c, i.constant 0 = .ok c
  | .load | .store | .alloc => ∃ name, i.name 0 = .ok name
  | .jmp | .jz => ∃ target, i.target 0 = .ok target
  | .call =>
      (∃ name, i.name 0 = .ok name) ∧
        ∃ arguments, i.count 1 = .ok arguments
  | _ => True

namespace Code

/- All jump targets among some words. -/
def targets (code : Code) : List Nat :=
  code.filterMap fun
    | .target t => some t
    | _ => none

/-
  From a position to its end, the stream is just these
  instructions, one behind the other.
-/
inductive Splits (code : Code) : Nat → List Instruction → Prop
| nil : Splits code code.length []
| cons
    {pc i rest}
    (hFetch : code.fetch pc = .ok i)
    (hRest : Splits code i.next rest) :
    Splits code pc (i :: rest)

/-
  The stream consists of apt instructions, and every jump
  target in it is the position of one of them.
-/
def WellFormed (code : Code) : Prop :=
  ∃ instructions,
    code.Splits 0 instructions ∧
      (∀ i ∈ instructions, i.Apt) ∧
      ∀ t ∈ code.targets,
        t < code.length ∧ ∃ i ∈ instructions, i.pc = t

/- The stream itself, and the streams of functions in it. -/
inductive Contains (code : Code) : Code → Prop
| self : Contains code code
| inside
    {stream : Code}
    {r : Routine}
    (hStream : Contains code stream)
    (hConst : Word.const (.routine r) ∈ stream) :
    Contains code r.code

------------------------------------------------------------
-- Starts of Instructions
------------------------------------------------------------

/- The positions that are met from the first, by apt instructions. -/
inductive Starts (code : Code) : Nat → Prop
| first : Starts code 0
| next
    {pc i}
    (hStart : Starts code pc)
    (hFetch : code.fetch pc = .ok i)
    (hApt : i.Apt) :
    Starts code i.next

/- What is fetched stands at the position it was fetched from. -/
theorem pc_of_fetch
    {code : Code}
    {pc : Nat}
    {i : Instruction}
    (h : code.fetch pc = .ok i) :
    i.pc = pc := by
  unfold fetch at h
  split at h
  · split at h
    · cases h
    · dsimp only at h
      split at h
      · cases h
      · cases h
        rfl
  · cases h

/- The instructions between two starts. -/
inductive Between (code : Code) :
    Nat → List Instruction → Nat → Prop
| nil {pc} : Between code pc [] pc
| snoc
    {pc stop front i}
    (hFront : Between code pc front stop)
    (hFetch : code.fetch stop = .ok i)
    (hApt : i.Apt) :
    Between code pc (front ++ [i]) i.next

/- Every start is met along some instructions. -/
theorem Starts.between
    {code : Code}
    {stop : Nat}
    (h : code.Starts stop) :
    ∃ front, Between code 0 front stop := by
  induction h with
  | first => exact ⟨[], .nil⟩
  | next _ hFetch hApt ih =>
      rcases ih with ⟨front, hFront⟩
      exact ⟨_, hFront.snoc hFetch hApt⟩

/- What lies between a start and the end splits the stream. -/
theorem Between.splits
    {code : Code}
    {pc stop : Nat}
    {front rest : List Instruction}
    (h : Between code pc front stop)
    (hRest : code.Splits stop rest) :
    code.Splits pc (front ++ rest) := by
  induction h generalizing rest with
  | nil => exact hRest
  | snoc _ hFetch _ ih =>
      rw [List.append_assoc]
      exact ih (.cons hFetch hRest)

/- The instructions between two starts are apt. -/
theorem Between.apt
    {code : Code}
    {pc stop : Nat}
    {front : List Instruction}
    (h : Between code pc front stop) :
    ∀ i ∈ front, i.Apt := by
  induction h with
  | nil => exact fun _ hMem => absurd hMem List.not_mem_nil
  | snoc _ _ hApt ih =>
      intro i hMem
      rcases List.mem_append.1 hMem with hFront | hLast
      · exact ih i hFront
      · rw [List.mem_singleton.1 hLast]
        exact hApt

/-
  A stream splits in one way only, so it splits from every
  start on, and the part behind a start belongs to the whole.
-/
theorem Splits.of_starts
    {code : Code}
    {all : List Instruction}
    {stop : Nat}
    (hAll : code.Splits 0 all)
    (h : code.Starts stop) :
    ∃ rest, code.Splits stop rest ∧ ∀ i ∈ rest, i ∈ all := by
  induction h with
  | first => exact ⟨all, hAll, fun _ hMem => hMem⟩
  | @next pc i _ hFetch _ ih =>
      rcases ih with ⟨rest, hRest, hSub⟩
      cases hRest with
      | nil =>
          unfold fetch at hFetch
          rw [List.drop_length] at hFetch
          cases hFetch
      | cons hFetch' hRest =>
          rw [hFetch] at hFetch'
          cases hFetch'
          exact ⟨_, hRest, fun j hMem =>
            hSub j (List.mem_cons_of_mem _ hMem)⟩

/- A start inside the stream is the position of an instruction. -/
theorem Splits.exists_pc
    {code : Code}
    {all : List Instruction}
    {stop : Nat}
    (hAll : code.Splits 0 all)
    (h : code.Starts stop)
    (hStop : stop < code.length) :
    ∃ i ∈ all, i.pc = stop := by
  rcases hAll.of_starts h with ⟨rest, hRest, hSub⟩
  cases hRest with
  | nil => exact absurd hStop (Nat.lt_irrefl _)
  | @cons _ i _ hFetch hRest =>
      exact ⟨i, hSub i List.mem_cons_self, pc_of_fetch hFetch⟩

------------------------------------------------------------
-- Rows of Instructions
------------------------------------------------------------

/- Some words are one whole, apt instruction wherever they stand. -/
def Single (piece : Code) : Prop :=
  ∃ o operands,
    piece = .ofOp o :: operands ∧
      operands.length = o.arity ∧
      ∀ pc, (⟨o, pc, operands⟩ : Instruction).Apt

/- Some words are a row of whole instructions. -/
inductive Laid : Code → Prop
| nil : Laid []
| append
    {front piece : Code}
    (hFront : Laid front)
    (hPiece : Single piece) :
    Laid (front ++ piece)

theorem single_bare
    {o : Op}
    (h : o.arity = 0) :
    Single (bare o) := by
  refine ⟨o, [], rfl, h.symm, fun pc => ?_⟩
  cases o <;> trivial

theorem single_named
    {o : Op}
    {name : String}
    (h : o = .load ∨ o = .store ∨ o = .alloc) :
    Single (named o name) := by
  rcases h with rfl | rfl | rfl <;>
    exact ⟨_, _, rfl, rfl, fun _ => ⟨name, rfl⟩⟩

theorem single_pushed (c : Constant) :
    Single (pushed c) :=
  ⟨_, _, rfl, rfl, fun _ => ⟨c, rfl⟩⟩

theorem single_jump
    {o : Op}
    {target : Nat}
    (h : o = .jmp ∨ o = .jz) :
    Single (jump o target) := by
  rcases h with rfl | rfl <;>
    exact ⟨_, _, rfl, rfl, fun _ => ⟨target, rfl⟩⟩

theorem single_called
    (name : String)
    (arguments : Nat) :
    Single (called name arguments) :=
  ⟨_, _, rfl, rfl, fun _ => ⟨⟨name, rfl⟩, ⟨arguments, rfl⟩⟩⟩

namespace Laid

theorem single
    {piece : Code}
    (h : Single piece) :
    Laid piece :=
  nil.append h

/- Two rows make one. -/
theorem join
    {front piece : Code}
    (hFront : Laid front)
    (hPiece : Laid piece) :
    Laid (front ++ piece) := by
  induction hPiece with
  | nil => simpa using hFront
  | append _ hSingle ih =>
      rw [← List.append_assoc]
      exact ih.append hSingle

end Laid

/- Behind a row that stands at a start is a start. -/
theorem Starts.across
    {code piece : Code}
    {start stop : Nat}
    (hStart : code.Starts start)
    (hAt : code.Holds start piece)
    (hLaid : Laid piece)
    (hStop : stop = start + piece.length) :
    code.Starts stop := by
  subst hStop
  induction hLaid with
  | nil => exact hStart
  | @append front piece _ hPiece ih =>
      rcases hPiece with ⟨o, operands, rfl, hArity, hApt⟩
      have hFetch := fetch_of_holds (hAt.right rfl) hArity
      have hNext := (ih hAt.left).next hFetch (hApt _)
      simp only [Instruction.next] at hNext
      rw [List.length_append, List.length_cons]
      have hEnd :
          start + (front.length + (operands.length + 1)) =
            start + front.length + 1 + operands.length := by
        omega
      rw [hEnd]
      exact hNext

end Code
end StackScript
