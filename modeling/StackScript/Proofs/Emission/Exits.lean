import StackScript.Code.Emit
import StackScript.Proofs.Grammar.Derivation

/-
  The `break` and `continue` of a program.

  Each of them either stands in the body of a loop of its
  function or is stray. They are listed in the order of the
  tree, which is the order of the tokens that the tree is
  derived from.

  Key definitions include:
    * `Exit`
    * `Stmt.exits`
    * `Program.stray?`
    * `Token.exits`

  Key theorems include:
    * `Expr.Derives.exits_eq`
    * `Stmt.DerivesItems.marks_exits`
-/

namespace StackScript

------------------------------------------------------------
-- Exits
------------------------------------------------------------

/-
  A `break`, or else a `continue`, and whether it stands in
  the body of a loop of its function.
-/
structure Exit where
  breaks : Bool
  place : Location
  enclosed : Bool
deriving DecidableEq, Repr

namespace Exit

/- What is wrong with it outside of all loops. -/
def error (x : Exit) : CompileError :=
  if x.breaks then .breakOutsideLoop x.place
  else .continueOutsideLoop x.place

/- What it is and where, without what is around it. -/
def mark (x : Exit) : Bool × Location :=
  (x.breaks, x.place)

/- It stands in no loop. -/
def stray (x : Exit) : Bool :=
  !x.enclosed

end Exit

mutual

/-
  The exits of a statement that stands inside a loop of its
  function or outside all, in the order of the text. What a
  loop does first is not part of its body.
-/
def Stmt.exits :
    Bool → Stmt → List Exit
| _, .expr _ | _, .declare .. | _, .define .. | _, .ret .. => []
| _, .function _ _ body _ => Stmt.exitsAll false body
| inside, .ifThen _ body _ => Stmt.exitsAll inside body
| inside, .ifElse _ body otherwise _ =>
    Stmt.exitsAll inside body ++ Stmt.exitsAll inside otherwise
| _, .whileLoop _ body _ => Stmt.exitsAll true body
| inside, .forLoop initial _ _ body _ =>
    initial.exits inside ++ Stmt.exitsAll true body
| inside, .breakLoop place => [⟨true, place, inside⟩]
| inside, .continueLoop place => [⟨false, place, inside⟩]

/- The exits of some statements. -/
def Stmt.exitsAll :
    Bool → List Stmt → List Exit
| _, [] => []
| inside, s :: ss => s.exits inside ++ Stmt.exitsAll inside ss

end

/- The exits of a program, which begins outside all loops. -/
def Program.exits (p : Program) : List Exit :=
  Stmt.exitsAll false p

/- The first exit of a program that stands in no loop. -/
def Program.stray? (p : Program) : Option Exit :=
  p.exits.find? Exit.stray

------------------------------------------------------------
-- Exits in the Text
------------------------------------------------------------

namespace Token

/- The exit that a token is. -/
def exit? (t : Token) : Option (Bool × Location) :=
  if t.isKeyword "break" then some (true, t.location)
  else if t.isKeyword "continue" then some (false, t.location)
  else none

/- The exits among some tokens, in their order. -/
def exits (ts : List Token) : List (Bool × Location) :=
  ts.filterMap exit?

@[simp] theorem exits_nil : exits [] = [] :=
  rfl

@[simp] theorem exits_append
    (ts us : List Token) :
    exits (ts ++ us) = exits ts ++ exits us :=
  List.filterMap_append

variable {t : Token}
variable {ts : List Token}

/- A token that is no keyword is no exit. -/
theorem exits_cons_of_kind
    (h : t.kind ≠ .keyword) :
    exits (t :: ts) = exits ts := by
  have hNot : ∀ text, t.isKeyword text = false := by
    intro text
    simp [isKeyword, is, h]
  apply List.filterMap_cons_none
  simp [exit?, hNot]

theorem exits_cons_of_isOperator
    {text : String}
    (h : t.isOperator text = true) :
    exits (t :: ts) = exits ts := by
  apply exits_cons_of_kind
  intro hKind
  simp [isOperator, is, hKind] at h

theorem exits_cons_of_isSeparator
    {text : String}
    (h : t.isSeparator text = true) :
    exits (t :: ts) = exits ts := by
  apply exits_cons_of_kind
  intro hKind
  simp [isSeparator, is, hKind] at h

/- Nor is a keyword that is neither `break` nor `continue`. -/
theorem exits_cons_of_isKeyword
    {text : String}
    (h : t.isKeyword text = true)
    (hBreak : text ≠ "break")
    (hContinue : text ≠ "continue") :
    exits (t :: ts) = exits ts := by
  have hText : t.text = text := by
    simp only [isKeyword, is, Bool.and_eq_true, beq_iff_eq] at h
    exact h.2
  apply List.filterMap_cons_none
  simp [exit?, isKeyword, is, hText, hBreak, hContinue]

theorem exits_of_break
    (h : t.isKeyword "break" = true) :
    exits [t] = [(true, t.location)] := by
  simp [exits, exit?, h]

theorem exits_of_continue
    (h : t.isKeyword "continue" = true) :
    exits [t] = [(false, t.location)] := by
  have hBreak : t.isKeyword "break" = false := by
    simp only [isKeyword, is, Bool.and_eq_true, beq_iff_eq] at h
    simp [isKeyword, is, h.2]
  simp [exits, exit?, h, hBreak]

end Token

open Token

mutual

/- There is no exit in an expression. -/
theorem Expr.Derives.exits_eq :
    ∀ {level : Level} {ts : List Token} {e : Expr},
      Expr.Derives level ts e → Token.exits ts = []
| _, _, _, .tighter hNext => hNext.exits_eq
| _, _, _, .assign hTarget hToken hValue
| _, _, _, .compound hTarget _ hToken hValue => by
    rw [exits_append, exits_cons_of_isOperator hToken,
      hTarget.exits_eq, hValue.exits_eq, List.append_nil]
| _, _, _, .rightward _ hLeft hToken hRight
| _, _, _, .leftward _ hLeft hToken hRight => by
    rw [exits_append, exits_cons_of_isOperator hToken,
      hLeft.exits_eq, hRight.exits_eq, List.append_nil]
| _, _, _, .sign _ hToken hArgument => by
    rw [exits_cons_of_isOperator hToken, hArgument.exits_eq]
| _, _, _, .stepBefore _ hToken hTarget => by
    rw [exits_cons_of_isOperator hToken, hTarget.exits_eq]
| _, _, _, .stepAfter _ hTarget hToken => by
    rw [exits_append, exits_cons_of_isOperator hToken,
      hTarget.exits_eq, exits_nil, List.append_nil]
| _, _, _, .literal hKind
| _, _, _, .string hKind
| _, _, _, .variable hKind =>
    exits_cons_of_kind (by simp [hKind])
| _, _, _, .group hOpen hInner hClose => by
    rw [exits_append, exits_cons_of_isOperator hOpen,
      exits_cons_of_isOperator hClose, hInner.exits_eq, exits_nil,
      List.append_nil]
| _, _, _, .emptyCall hKind hOpen hClose => by
    rw [exits_cons_of_kind (by simp [hKind]),
      exits_cons_of_isOperator hOpen,
      exits_cons_of_isOperator hClose, exits_nil]
| _, _, _, .call hKind hOpen hArguments hClose => by
    rw [List.cons_append, List.cons_append,
      exits_cons_of_kind (by simp [hKind]),
      exits_cons_of_isOperator hOpen, exits_append,
      exits_cons_of_isOperator hClose, hArguments.exits_eq,
      exits_nil, List.append_nil]

theorem Expr.DerivesList.exits_eq :
    ∀ {ts : List Token} {es : List Expr},
      Expr.DerivesList ts es → Token.exits ts = []
| _, _, .one hFirst => hFirst.exits_eq
| _, _, .more hFirst hComma hOthers => by
    rw [exits_append, exits_cons_of_isSeparator hComma,
      hFirst.exits_eq, hOthers.exits_eq, List.append_nil]

end

theorem Expr.DerivesOption.exits_eq
    {ts : List Token}
    {e : Option Expr}
    (h : Expr.DerivesOption ts e) :
    Token.exits ts = [] := by
  cases h with
  | none => rfl
  | some h => exact h.exits_eq

theorem DerivesNames.exits_eq
    {ts : List Token}
    {names : List String}
    (h : DerivesNames ts names) :
    Token.exits ts = [] := by
  induction h with
  | one hKind => exact exits_cons_of_kind (by simp [hKind])
  | more hKind hComma _ ih =>
      rw [exits_cons_of_kind (by simp [hKind]),
        exits_cons_of_isSeparator hComma, ih]

theorem DerivesParameters.exits_eq
    {ts : List Token}
    {names : List String}
    (h : DerivesParameters ts names) :
    Token.exits ts = [] := by
  rcases h.1 with ⟨rfl, _⟩ | hNames
  · rfl
  · exact hNames.exits_eq

mutual

/- The exits of a statement stand in its tokens in their order. -/
theorem Stmt.Derives.marks_exits :
    ∀ {ts : List Token} {s : Stmt},
      Stmt.Derives ts s →
        ∀ inside, (s.exits inside).map Exit.mark = Token.exits ts
| _, _, .expr h, inside => by
    rw [h.exits_eq]
    rfl
| _, _, .declare hNew hKind, inside => by
    rw [exits_cons_of_isKeyword hNew (by decide) (by decide),
      exits_cons_of_kind (by simp [hKind])]
    rfl
| _, _, .define hNew hKind hEquals hValue, inside => by
    rw [exits_cons_of_isKeyword hNew (by decide) (by decide),
      exits_cons_of_kind (by simp [hKind]),
      exits_cons_of_isOperator hEquals, hValue.exits_eq]
    rfl
| _, _, .ifThen hIf hOpen hCondition hClose hBody, inside => by
    rw [exits_append,
      exits_cons_of_isKeyword hIf (by decide) (by decide),
      exits_cons_of_isOperator hOpen, hCondition.exits_eq,
      exits_cons_of_isOperator hClose, List.nil_append,
      ← hBody.marks_exits inside]
    rfl
| _, _, .ifElse hIf hOpen hCondition hClose hBody hElse hOther,
    inside => by
    rw [exits_append, exits_append,
      exits_cons_of_isKeyword hIf (by decide) (by decide),
      exits_cons_of_isOperator hOpen, hCondition.exits_eq,
      exits_cons_of_isOperator hClose, List.nil_append,
      exits_cons_of_isKeyword hElse (by decide) (by decide),
      ← hBody.marks_exits inside, ← hOther.marks_exits inside]
    exact List.map_append
| _, _, .whileLoop hWhile hOpen hCondition hClose hBody, inside => by
    rw [exits_append,
      exits_cons_of_isKeyword hWhile (by decide) (by decide),
      exits_cons_of_isOperator hOpen, hCondition.exits_eq,
      exits_cons_of_isOperator hClose, List.nil_append,
      ← hBody.marks_exits true]
    rfl
| _, _, .forLoop hFor hOpen hInitial hFirst hCondition hSecond
    hUpdate hClose hBody, inside => by
    rw [exits_append, exits_append, exits_append,
      exits_cons_of_isKeyword hFor (by decide) (by decide),
      exits_cons_of_isOperator hOpen,
      exits_cons_of_isSeparator hFirst, hCondition.exits_eq,
      exits_cons_of_isSeparator hSecond, hUpdate.exits_eq,
      exits_cons_of_isOperator hClose, List.append_nil,
      List.append_nil, ← hInitial.marks_exits inside,
      ← hBody.marks_exits true]
    exact List.map_append
| _, _, .function hFunction hKind hOpen hParameters hClose hBody,
    inside => by
    rw [exits_append,
      exits_cons_of_isKeyword hFunction (by decide) (by decide),
      exits_cons_of_kind (by simp [hKind]),
      exits_cons_of_isOperator hOpen, hParameters.exits_eq,
      exits_cons_of_isOperator hClose, List.nil_append,
      ← hBody.marks_exits false]
    rfl
| _, _, .ret hReturn hArgument hEnd, inside => by
    rw [exits_append,
      exits_cons_of_isKeyword hReturn (by decide) (by decide),
      hArgument.exits_eq, exits_cons_of_isSeparator hEnd]
    rfl
| _, _, .breakLoop hBreak, inside => by
    rw [exits_of_break hBreak]
    rfl
| _, _, .continueLoop hContinue, inside => by
    rw [exits_of_continue hContinue]
    rfl

theorem Stmt.DerivesOther.marks_exits :
    ∀ {ts : List Token} {body : List Stmt},
      Stmt.DerivesOther ts body →
        ∀ inside,
          (Stmt.exitsAll inside body).map Exit.mark = Token.exits ts
| _, _, .block h, inside => h.marks_exits inside
| _, _, .chained _ h, inside => by
    rw [← h.marks_exits inside, Stmt.exitsAll, Stmt.exitsAll,
      List.append_nil]

theorem Stmt.DerivesBlock.marks_exits :
    ∀ {ts : List Token} {body : List Stmt},
      Stmt.DerivesBlock ts body →
        ∀ inside,
          (Stmt.exitsAll inside body).map Exit.mark = Token.exits ts
| _, _, .braces hOpen hItems hClose, inside => by
    rw [exits_append, exits_cons_of_isOperator hOpen,
      exits_cons_of_isOperator hClose, exits_nil, List.append_nil,
      ← hItems.marks_exits inside]

theorem Stmt.DerivesItems.marks_exits :
    ∀ {ts : List Token} {body : List Stmt},
      Stmt.DerivesItems ts body →
        ∀ inside,
          (Stmt.exitsAll inside body).map Exit.mark = Token.exits ts
| _, _, .nil, inside => rfl
| _, _, .empty hEmpty hOthers, inside => by
    rw [exits_cons_of_isSeparator hEmpty, hOthers.marks_exits inside]
| _, _, .cons hFirst hOthers, inside => by
    rw [exits_append, ← hFirst.marks_exits inside,
      ← hOthers.marks_exits inside]
    exact List.map_append

end

end StackScript
