import StackScript.Proofs.Cache.Codec
import StackScript.Proofs.Emission.Derivation
import StackScript.Proofs.Meaning.Numbering

/-
  The constants and the functions of compiled code.

  The floating-point numbers that are pushed are small whole
  ones and the decimals have places after their point. The
  functions are numbered in the order in which they end. So
  compiled code without a decimal zero comes back from its
  stored form as it was.

  Key definitions include:
    * `Constant.Emitted`
    * `Constant.NonZero`

  Key theorems include:
    * `Program.each_emitted`
    * `Program.recalledAll_of_compile`
-/

namespace StackScript

------------------------------------------------------------
-- Constants
------------------------------------------------------------

/- The constants that are made from source texts. -/
inductive Constant.Emitted : Constant → Prop
| null :
    Constant.Emitted .null
| number
    {i : Int}
    (h : i.natAbs < 2 ^ 53) :
    Constant.Emitted (.number (.ofInt i))
| integer
    {i : Int} :
    Constant.Emitted (.integer i)
| decimal
    {d : Decimal}
    (h : 0 < d.scale) :
    Constant.Emitted (.decimal d)
| text
    {s : String} :
    Constant.Emitted (.text s)

namespace Constant

theorem emitted_one : Emitted (.number .one) :=
  .number (i := 1) (by decide)

theorem emitted_zero : Emitted (.number (.zero false)) :=
  .number (i := 0) (by decide)

theorem emitted_ofInt (i : Int) : Emitted (ofInt i) := by
  unfold ofInt
  by_cases h : -maxSafe ≤ i ∧ i ≤ maxSafe
  · rw [if_pos h]
    unfold maxSafe at h
    exact .number (by omega)
  · rw [if_neg h]
    exact .integer

/- A point has digits behind it. -/
theorem scale_pos_of_fraction?
    {negative : Bool}
    {cs : List Char}
    {d : Decimal}
    (h : fraction? negative cs = some d) :
    0 < d.scale := by
  unfold fraction? at h
  dsimp only at h
  split at h
  · cases h
  · rename_i point places hRest
    split at h
    · split at h
      · rename_i hWhole hPlaces
        have hSome : places ≠ [] := by
          rintro rfl
          cases hPlaces
        have hLength := List.length_pos_iff.2 hSome
        cases h
        exact Int.natCast_pos.2 hLength
      · cases h
    · cases h

/- What a numeric text denotes is one of these constants. -/
theorem emitted_of_ofText?
    {text : String}
    {c : Constant}
    (h : ofText? text = some c) :
    Emitted c := by
  unfold ofText? unsigned? at h
  dsimp only at h
  split at h
  · rcases Option.map_eq_some_iff.1 h with ⟨n, _, rfl⟩
    exact emitted_ofInt _
  · rcases Option.map_eq_some_iff.1 h with ⟨n, _, rfl⟩
    exact emitted_ofInt _
  · split at h
    · cases h
      exact emitted_ofInt _
    · rcases Option.map_eq_some_iff.1 h with ⟨d, hFraction, rfl⟩
      exact .decimal (scale_pos_of_fraction? hFraction)

theorem Emitted.isWhole
    {c : Constant}
    (h : Emitted c) :
    IsWhole c := by
  rintro n rfl
  cases h with
  | number hSmall => exact Binary64.isWhole_ofInt hSmall

end Constant

------------------------------------------------------------
-- Each Constant
------------------------------------------------------------

section

variable {p q r : Constant → Prop}

mutual

/- A property that follows from two others. -/
theorem Word.Each.combine
    (hImp : ∀ c, p c → q c → r c)
    (w : Word)
    (hFirst : w.Each p)
    (hSecond : w.Each q) :
    w.Each r := by
  match w with
  | .op code => trivial
  | .const c =>
      rw [Word.Each] at hFirst hSecond ⊢
      exact Constant.Each.combine hImp c hFirst hSecond
  | .name text => trivial
  | .target t => trivial
  | .count n => trivial

theorem Constant.Each.combine
    (hImp : ∀ c, p c → q c → r c)
    (c : Constant)
    (hFirst : c.Each p)
    (hSecond : c.Each q) :
    c.Each r := by
  match c with
  | .routine f =>
      rw [Constant.Each] at hFirst hSecond ⊢
      exact Routine.Each.combine hImp f hFirst hSecond
  | .null => exact hImp _ hFirst hSecond
  | .number n => exact hImp _ hFirst hSecond
  | .integer i => exact hImp _ hFirst hSecond
  | .decimal d => exact hImp _ hFirst hSecond
  | .text s => exact hImp _ hFirst hSecond

theorem Routine.Each.combine
    (hImp : ∀ c, p c → q c → r c)
    (f : Routine)
    (hFirst : f.Each p)
    (hSecond : f.Each q) :
    f.Each r := by
  match f with
  | ⟨mark, name, parameters, code⟩ =>
      rw [Routine.Each] at hFirst hSecond ⊢
      exact Word.EachAll.combine hImp code hFirst hSecond

theorem Word.EachAll.combine
    (hImp : ∀ c, p c → q c → r c)
    (ws : List Word)
    (hFirst : Word.EachAll p ws)
    (hSecond : Word.EachAll q ws) :
    Word.EachAll r ws := by
  match ws with
  | [] => trivial
  | w :: ws =>
      rw [Word.EachAll] at hFirst hSecond ⊢
      exact ⟨Word.Each.combine hImp w hFirst.1 hSecond.1,
        Word.EachAll.combine hImp ws hFirst.2 hSecond.2⟩

end

namespace Code

@[simp]
theorem each_append {c d : Code} :
    Word.EachAll p (c ++ d) ↔
      Word.EachAll p c ∧ Word.EachAll p d := by
  induction c with
  | nil =>
      rw [List.nil_append, Word.EachAll, true_and]
  | cons w c ih =>
      rw [List.cons_append, Word.EachAll, Word.EachAll, ih,
        and_assoc]

@[simp]
theorem each_bare (o : Op) :
    Word.EachAll p (bare o) :=
  ⟨trivial, trivial⟩

@[simp]
theorem each_named
    (o : Op)
    (name : String) :
    Word.EachAll p (named o name) :=
  ⟨trivial, trivial, trivial⟩

@[simp]
theorem each_jump
    (o : Op)
    (target : Nat) :
    Word.EachAll p (jump o target) :=
  ⟨trivial, trivial, trivial⟩

@[simp]
theorem each_called
    (name : String)
    (arguments : Nat) :
    Word.EachAll p (called name arguments) :=
  ⟨trivial, trivial, trivial, trivial⟩

theorem each_pushed
    {c : Constant}
    (h : c.Each p) :
    Word.EachAll p (pushed c) :=
  ⟨trivial, h, trivial⟩

theorem each_pushIf
    {c : Constant}
    (keep : Bool)
    (h : c.Each p) :
    Word.EachAll p (pushIf keep c) := by
  cases keep with
  | true => exact each_pushed h
  | false => trivial

@[simp]
theorem each_dropUnless (keep : Bool) :
    Word.EachAll p (dropUnless keep) := by
  cases keep with
  | true => trivial
  | false => exact each_bare .pop

@[simp]
theorem each_loadIf
    (keep : Bool)
    (name : String) :
    Word.EachAll p (loadIf keep name) := by
  cases keep with
  | true => exact each_named .load name
  | false => trivial

@[simp]
theorem each_scoped {body : Code} :
    Word.EachAll p (Code.scoped body) ↔ Word.EachAll p body := by
  simp [Code.scoped]

@[simp]
theorem each_exit
    (l : Loop)
    (target : Nat) :
    Word.EachAll p (exit l target) := by
  have hPops (n : Nat) :
      Word.EachAll p
        (List.replicate n (bare .popScope)).flatten := by
    induction n with
    | zero => trivial
    | succ n ih =>
        rw [List.replicate_succ, List.flatten_cons]
        exact each_append.2 ⟨each_bare .popScope, ih⟩
  exact each_append.2 ⟨hPops l.opened, each_jump .jmp target⟩

end Code

end

------------------------------------------------------------
-- Emission
------------------------------------------------------------

section

variable {left right : Code}

@[simp]
theorem Code.each_one :
    Word.EachAll Constant.Emitted (Code.pushed (.number .one)) :=
  Code.each_pushed Constant.emitted_one

@[simp]
theorem Code.each_zero :
    Word.EachAll Constant.Emitted
      (Code.pushed (.number (.zero false))) :=
  Code.each_pushed Constant.emitted_zero

@[simp]
theorem Code.each_step
    (operator : Operator)
    (name : String) :
    Word.EachAll Constant.Emitted (Code.step operator name) := by
  simp [Code.step]

@[simp]
theorem Code.each_both
    {start : Nat} :
    Word.EachAll Constant.Emitted (Code.both start left right) ↔
      Word.EachAll Constant.Emitted left ∧
        Word.EachAll Constant.Emitted right := by
  simp [Code.both]

@[simp]
theorem Code.each_either
    {start : Nat} :
    Word.EachAll Constant.Emitted (Code.either start left right) ↔
      Word.EachAll Constant.Emitted left ∧
        Word.EachAll Constant.Emitted right := by
  simp [Code.either]

end

/- A constant that is no function is all there is in it. -/
theorem Constant.Emitted.each
    {c : Constant}
    (h : Constant.Emitted c) :
    c.Each Constant.Emitted := by
  cases h with
  | null => exact .null
  | number hSmall => exact .number hSmall
  | integer => exact .integer
  | decimal hScale => exact .decimal hScale
  | text => exact .text

mutual

/- The constants that an expression pushes. -/
theorem Expr.Emits.each
    {start : Nat}
    {keep : Bool}
    {e : Expr}
    {s t : Fresh}
    {c : Code}
    (h : Expr.Emits start keep e s c t) :
    Word.EachAll Constant.Emitted c := by
  cases h with
  | literal hText =>
      exact Code.each_pushIf keep
        (Constant.emitted_of_ofText? hText).each
  | string => exact Code.each_pushIf keep Constant.Emitted.text.each
  | «variable» => simp
  | binary _ hLeft hRight => simp [hLeft.each, hRight.each]
  | both hLeft hRight => simp [hLeft.each, hRight.each]
  | either hLeft hRight => simp [hLeft.each, hRight.each]
  | plus hArgument => exact hArgument.each
  | stepped => simp
  | unary _ _ _ hArgument => simp [hArgument.each]
  | keptPost => simp [Code.stepKeepingOld]
  | droppedPost => simp
  | assignment hValue => simp [hValue.each]
  | call hArguments => simp [hArguments.each]

/- The constants that expressions in a row push. -/
theorem Expr.EmitsAll.each
    {start : Nat}
    {es : List Expr}
    {s t : Fresh}
    {c : Code}
    (h : Expr.EmitsAll start es s c t) :
    Word.EachAll Constant.Emitted c := by
  cases h with
  | nil => trivial
  | cons hFirst hOthers => simp [hFirst.each, hOthers.each]

end

theorem Expr.EmitsTest.each
    {start leave : Nat}
    {condition : Option Expr}
    {s t : Fresh}
    {c : Code}
    (h : Expr.EmitsTest start leave condition s c t) :
    Word.EachAll Constant.Emitted c := by
  cases h with
  | missing => trivial
  | present hTest => simp [hTest.each]

theorem Expr.EmitsUpdate.each
    {start : Nat}
    {update : Option Expr}
    {s t : Fresh}
    {c : Code}
    (h : Expr.EmitsUpdate start update s c t) :
    Word.EachAll Constant.Emitted c := by
  cases h with
  | missing => trivial
  | present hUpdate => exact hUpdate.each

mutual

/- The constants that a statement pushes. -/
theorem Stmt.Emits.each
    {start : Nat}
    {loop : Option Loop}
    {stmt : Stmt}
    {s t : Fresh}
    {c : Code}
    (h : Stmt.Emits start loop stmt s c t) :
    Word.EachAll Constant.Emitted c := by
  have hNull : Word.EachAll Constant.Emitted (Code.pushed .null) :=
    Code.each_pushed Constant.Emitted.null.each
  cases h with
  | expr hExpr => exact hExpr.each
  | declare => simp
  | define hValue => simp [hValue.each]
  | @function _ _ name parameters _ _ _ body t hBody =>
      have hRoutine :
          Word.EachAll Constant.Emitted
            (Code.pushed
              (.routine
                ⟨t.routines, name, parameters,
                  body ++ Code.pushed .null ++ Code.bare .ret⟩)) := by
        apply Code.each_pushed
        rw [Constant.Each, Routine.Each]
        simp [hBody.each, hNull]
      exact Code.each_append.2
        ⟨Code.each_append.2 ⟨Code.each_named _ _, hRoutine⟩,
          Code.each_named _ _⟩
  | retNull => simp [hNull]
  | ret hValue => simp [hValue.each]
  | ifThen hTest hBody => simp [hTest.each, hBody.each]
  | ifElse hTest hBody hOther =>
      simp [hTest.each, hBody.each, hOther.each]
  | whileLoop hTest hBody _ => simp [hTest.each, hBody.each]
  | forLoop hInitial _ hTest hBody _ hUpdate _ =>
      simp [hInitial.each, hTest.each, hBody.each, hUpdate.each]
  | breakLoop => simp
  | continueLoop => simp

/- The constants that statements in a row push. -/
theorem Stmt.EmitsAll.each
    {start : Nat}
    {loop : Option Loop}
    {stmts : List Stmt}
    {s t : Fresh}
    {c : Code}
    (h : Stmt.EmitsAll start loop stmts s c t) :
    Word.EachAll Constant.Emitted c := by
  cases h with
  | nil => trivial
  | cons hFirst hOthers => simp [hFirst.each, hOthers.each]

end

------------------------------------------------------------
-- Coming Back
------------------------------------------------------------

/- A constant that comes back as it was, if it is a decimal. -/
def Constant.Kept (c : Constant) : Prop :=
  ∀ d, c = .decimal d → d.restored = d

/- A constant that is no decimal zero. -/
def Constant.NonZero (c : Constant) : Prop :=
  ∀ d, c = .decimal d → d.digits ≠ 0

/- A decimal with places after its point is kept if it is not zero. -/
theorem Constant.Emitted.kept
    {c : Constant}
    (h : Constant.Emitted c)
    (hNonZero : c.NonZero) :
    c.Kept := by
  rintro d rfl
  cases h with
  | decimal hScale =>
      exact Decimal.restored_of_pos (hNonZero d rfl) hScale

/- What comes back of words in a row. -/
theorem Word.recalledAll_append
    (n : Nat)
    (c d : Code) :
    Word.recalledAll n (c ++ d) =
      ((Word.recalledAll n c).1
          ++ (Word.recalledAll (Word.recalledAll n c).2 d).1,
        (Word.recalledAll (Word.recalledAll n c).2 d).2) := by
  induction c generalizing n with
  | nil => rfl
  | cons w c ih =>
      rw [List.cons_append, Word.recalledAll, ih, Word.recalledAll]
      rfl

/- Code that comes back as it was, and the numbers it uses up. -/
def Code.Returns
    (n m : Nat)
    (code : Code) : Prop :=
  Word.recalledAll n code = (code, m)

theorem Code.Returns.append
    {n m k : Nat}
    {c d : Code}
    (hFirst : c.Returns n m)
    (hThen : d.Returns m k) :
    Code.Returns n k (c ++ d) := by
  unfold Code.Returns at *
  rw [Word.recalledAll_append, hFirst, hThen]

/- Code without functions comes back and uses up no number. -/
theorem Code.returns_of_routines
    {code : Code}
    (n : Nat)
    (hNone : code.routines = [])
    (hKept : Word.EachAll Constant.Kept code) :
    code.Returns n n := by
  unfold Code.Returns
  induction code with
  | nil => rfl
  | cons w code ih =>
      rw [Word.EachAll] at hKept
      have hWord : w.recalled n = (w, n) := by
        match w with
        | .op code => rfl
        | .name text => rfl
        | .target t => rfl
        | .count k => rfl
        | .const .null => rfl
        | .const (.number x) => rfl
        | .const (.integer i) => rfl
        | .const (.text s) => rfl
        | .const (.decimal d) =>
            have hSame : d.restored = d := hKept.1 d rfl
            rw [Word.recalled, Constant.recalled, hSame]
        | .const (.routine r) => cases hNone
      have hRest : Code.routines code = [] := by
        rw [← List.singleton_append, Code.routines_append] at hNone
        exact (List.append_eq_nil_iff.1 hNone).2
      rw [Word.recalledAll, hWord, ih hRest hKept.2]

/- A function comes back marked by the number after those in it. -/
theorem Code.returns_pushed_routine
    {n m : Nat}
    {name : String}
    {parameters : List String}
    {code : Code}
    (h : code.Returns n m) :
    Code.Returns n (m + 1)
      (Code.pushed (.routine ⟨m, name, parameters, code⟩)) := by
  unfold Code.Returns at *
  have hOp : (Word.ofOp .push).recalled n = (.ofOp .push, n) := rfl
  have hConst :
      (Word.const (.routine ⟨m, name, parameters, code⟩)).recalled
          n =
        (.const (.routine ⟨m, name, parameters, code⟩), m + 1) := by
    rw [Word.recalled, Constant.recalled, Routine.recalled, h]
  unfold Code.pushed
  rw [Word.recalledAll, hOp, Word.recalledAll, hConst,
    Word.recalledAll]

section

variable {s t : Fresh}
variable {c : Code}

/- Instructions that push nothing come back. -/
theorem Code.returns_bare
    (n : Nat)
    (o : Op) :
    (Code.bare o).Returns n n :=
  Code.returns_of_routines n (by simp) (by simp)

theorem Code.returns_named
    (n : Nat)
    (o : Op)
    (name : String) :
    (Code.named o name).Returns n n :=
  Code.returns_of_routines n (by simp) (by simp)

theorem Code.returns_jump
    (n : Nat)
    (o : Op)
    (target : Nat) :
    (Code.jump o target).Returns n n :=
  Code.returns_of_routines n (by simp) (by simp)

theorem Code.Returns.within
    {n m : Nat}
    (h : c.Returns n m) :
    (Code.scoped c).Returns n m :=
  ((Code.returns_bare n .pushScope).append h).append
    (Code.returns_bare m .popScope)

/- The code of an expression comes back. -/
theorem Expr.Emits.returns
    {start : Nat}
    {keep : Bool}
    {e : Expr}
    (h : Expr.Emits start keep e s c t)
    (hKept : Word.EachAll Constant.Kept c) :
    c.Returns s.routines t.routines := by
  rw [h.numbers]
  exact Code.returns_of_routines _ h.routines_eq_nil hKept

theorem Expr.EmitsTest.returns
    {start leave : Nat}
    {condition : Option Expr}
    (h : Expr.EmitsTest start leave condition s c t)
    (hKept : Word.EachAll Constant.Kept c) :
    c.Returns s.routines t.routines := by
  rw [h.numbers]
  exact Code.returns_of_routines _ h.routines_eq_nil hKept

theorem Expr.EmitsUpdate.returns
    {start : Nat}
    {update : Option Expr}
    (h : Expr.EmitsUpdate start update s c t)
    (hKept : Word.EachAll Constant.Kept c) :
    c.Returns s.routines t.routines := by
  rw [h.numbers]
  exact Code.returns_of_routines _ h.routines_eq_nil hKept

end

mutual

/- The code of a statement comes back. -/
theorem Stmt.Emits.returns
    {start : Nat}
    {loop : Option Loop}
    {stmt : Stmt}
    {s t : Fresh}
    {c : Code}
    (h : Stmt.Emits start loop stmt s c t)
    (hKept : Word.EachAll Constant.Kept c) :
    c.Returns s.routines t.routines := by
  cases h with
  | expr hExpr => exact hExpr.returns hKept
  | declare => exact Code.returns_named _ _ _
  | define hValue =>
      simp only [Code.each_append] at hKept
      exact ((Code.returns_named _ _ _).append
        (hValue.returns hKept.1.2)).append
          (Code.returns_named _ _ _)
  | @function _ _ name parameters _ _ _ body t hBody =>
      rw [Code.each_append, Code.each_append] at hKept
      have hInner :
          Word.EachAll Constant.Kept
            (body ++ Code.pushed .null ++ Code.bare .ret) :=
        hKept.1.2.2.1
      simp only [Code.each_append] at hInner
      have hEnd :
          Code.Returns t.routines t.routines
            (Code.pushed .null ++ Code.bare .ret) :=
        Code.returns_of_routines _ rfl
          (Code.each_append.2 ⟨hInner.1.2, hInner.2⟩)
      have hCode :
          Code.Returns s.routines t.routines
            (body ++ Code.pushed .null ++ Code.bare .ret) := by
        rw [List.append_assoc]
        exact (hBody.returns hInner.1.1).append hEnd
      exact ((Code.returns_named _ _ _).append
        (Code.returns_pushed_routine hCode)).append
          (Code.returns_named _ _ _)
  | retNull =>
      exact Code.returns_of_routines _ rfl hKept
  | ret hValue =>
      rw [Code.each_append] at hKept
      exact (hValue.returns hKept.1).append (Code.returns_bare _ _)
  | ifThen hTest hBody =>
      simp only [Code.each_append, Code.each_scoped] at hKept
      exact ((hTest.returns hKept.1.1).append
        (Code.returns_jump _ _ _)).append
          (hBody.returns hKept.2).within
  | ifElse hTest hBody hOther =>
      simp only [Code.each_append, Code.each_scoped] at hKept
      exact ((((hTest.returns hKept.1.1.1.1).append
        (Code.returns_jump _ _ _)).append
          (hBody.returns hKept.1.1.2).within).append
            (Code.returns_jump _ _ _)).append
              (hOther.returns hKept.2).within
  | whileLoop hTest hBody _ =>
      simp only [Code.each_append, Code.each_scoped] at hKept
      exact (((hTest.returns hKept.1.1.1).append
        (Code.returns_jump _ _ _)).append
          (hBody.returns hKept.1.2).within).append
            (Code.returns_jump _ _ _)
  | forLoop hInitial _ hTest hBody _ hUpdate _ =>
      simp only [Code.each_append, Code.each_scoped] at hKept
      exact ((((((Code.returns_bare _ _).append
        (hInitial.returns hKept.1.1.1.1.1.2)).append
          (hTest.returns hKept.1.1.1.1.2)).append
            (hBody.returns hKept.1.1.1.2).within).append
              (hUpdate.returns hKept.1.1.2)).append
                (Code.returns_jump _ _ _)).append
                  (Code.returns_bare _ _)
  | breakLoop =>
      exact Code.returns_of_routines _ (by simp) hKept
  | continueLoop =>
      exact Code.returns_of_routines _ (by simp) hKept

/- The code of statements in a row comes back. -/
theorem Stmt.EmitsAll.returns
    {start : Nat}
    {loop : Option Loop}
    {stmts : List Stmt}
    {s t : Fresh}
    {c : Code}
    (h : Stmt.EmitsAll start loop stmts s c t)
    (hKept : Word.EachAll Constant.Kept c) :
    c.Returns s.routines t.routines := by
  cases h with
  | nil => rfl
  | cons hFirst hOthers =>
      rw [Code.each_append] at hKept
      exact (hFirst.returns hKept.1).append (hOthers.returns hKept.2)

end

------------------------------------------------------------
-- Programs
------------------------------------------------------------

section

variable {p : Program}
variable {code : Code}
variable {s t : Fresh}

/- The constants of a compiled program. -/
theorem Program.each_emitted (h : p.compile s = .ok code t) :
    Word.EachAll Constant.Emitted code := by
  rcases Program.emits_of_compile h with ⟨body, hBody, rfl⟩
  exact Code.each_append.2 ⟨hBody.each, Code.each_bare .halt⟩

/- A compiled program without a decimal zero comes back. -/
theorem Program.recalledAll_of_compile
    (h : p.compile s = .ok code t)
    (hNonZero : Word.EachAll Constant.NonZero code) :
    Word.recalledAll s.routines code = (code, t.routines) := by
  have hKept : Word.EachAll Constant.Kept code :=
    Word.EachAll.combine (fun c hEmitted => hEmitted.kept) code
      (Program.each_emitted h) hNonZero
  rcases Program.emits_of_compile h with ⟨body, hBody, rfl⟩
  rw [Code.each_append] at hKept
  exact (hBody.returns hKept.1).append (Code.returns_bare _ _)

end

end StackScript
