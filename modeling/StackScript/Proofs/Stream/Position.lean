import StackScript.Code.Fetch
import StackScript.Proofs.Emission.Derivation

/-
  Where code stands in a stream.

  `Code.Holds` says that some words stand at a position of a
  stream. Code that is put together from pieces holds each
  of them behind those in front of it, and an operation that
  stands with its operands is fetched with them.

  Key theorems include:
    * `Code.Holds.left`, `Code.Holds.right`
    * `Code.fetch_of_holds`
-/

namespace StackScript
namespace Code

------------------------------------------------------------
-- Pieces of a Stream
------------------------------------------------------------

/- Some words stand at a position of a stream. -/
def Holds
    (code : Code)
    (pc : Nat)
    (piece : Code) : Prop :=
  ∃ rest, code.drop pc = piece ++ rest

/- What stands between a front and a rest. -/
theorem holds_of_eq
    {code front piece rest : Code}
    (h : code = front ++ piece ++ rest) :
    code.Holds front.length piece := by
  refine ⟨rest, ?_⟩
  rw [h, List.append_assoc, List.drop_left]

namespace Holds

variable {code piece other : Code}
variable {pc stop : Nat}

/- The first of two pieces stands where both do. -/
theorem left
    (h : code.Holds pc (piece ++ other)) :
    code.Holds pc piece := by
  rcases h with ⟨rest, hRest⟩
  exact ⟨other ++ rest, by rw [hRest, List.append_assoc]⟩

/- The second of two pieces stands behind the first. -/
theorem right
    (h : code.Holds pc (piece ++ other))
    (hStop : stop = pc + piece.length) :
    code.Holds stop other := by
  rcases h with ⟨rest, hRest⟩
  refine ⟨rest, ?_⟩
  rw [hStop, ← List.drop_drop, hRest, List.append_assoc,
    List.drop_left]

end Holds

------------------------------------------------------------
-- Fetching
------------------------------------------------------------

/- An operation is fetched with the operands behind it. -/
theorem fetch_of_holds
    {code operands : Code}
    {pc : Nat}
    {o : Op}
    (h : code.Holds pc (.ofOp o :: operands))
    (hArity : operands.length = o.arity) :
    code.fetch pc = .ok ⟨o, pc, operands⟩ := by
  rcases h with ⟨rest, hRest⟩
  have hTake : (operands ++ rest).take o.arity = operands := by
    rw [← hArity, List.take_left]
  simp [fetch, hRest, Word.ofOp, hTake, hArity]

end Code
end StackScript
