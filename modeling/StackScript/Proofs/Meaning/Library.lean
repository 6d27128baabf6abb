import StackScript.Proofs.Meaning.Call

/-
  Libraries of compiled programs.

  The functions that a tree declares, and those that its code
  holds, are listed in the order of their numbers. A library
  is extended by the functions of a program, each as the tree
  declares it, together with the code that was made for it,
  and stays sound.

  Key definitions include:
    * `Stmt.declared`
    * `Word.functions`
    * `Library.extend`

  Key theorems include:
    * `Library.sound_extend`
-/

namespace StackScript

------------------------------------------------------------
-- Lists of Functions
------------------------------------------------------------

mutual

/-
  The functions that a statement declares, where the first of
  them has a given number.
-/
def Stmt.declared :
    Nat → Stmt → List Declaration
| first, .function name parameters body _ =>
    Stmt.declaredAll first body ++ [⟨name, parameters, first, body⟩]
| first, .ifThen _ body _ => Stmt.declaredAll first body
| first, .ifElse _ body otherwise _ =>
    Stmt.declaredAll first body
      ++ Stmt.declaredAll (first + Stmt.functionsAll body) otherwise
| first, .whileLoop _ body _ => Stmt.declaredAll first body
| first, .forLoop initial _ _ body _ =>
    initial.declared first
      ++ Stmt.declaredAll (first + initial.functions) body
| _, _ => []

/- The functions that some statements declare. -/
def Stmt.declaredAll :
    Nat → List Stmt → List Declaration
| _, [] => []
| first, s :: ss =>
    s.declared first ++ Stmt.declaredAll (first + s.functions) ss

end

mutual

/- There are as many of them as were counted. -/
theorem Stmt.length_declared
    (first : Nat)
    (s : Stmt) :
    (s.declared first).length = s.functions := by
  match s with
  | .function _ _ body _ =>
      rw [Stmt.declared, Stmt.functions, List.length_append,
        Stmt.length_declaredAll]
      rfl
  | .ifThen _ body _ => exact Stmt.length_declaredAll first body
  | .ifElse _ body otherwise _ =>
      rw [Stmt.declared, Stmt.functions, List.length_append,
        Stmt.length_declaredAll, Stmt.length_declaredAll]
  | .whileLoop _ body _ => exact Stmt.length_declaredAll first body
  | .forLoop initial _ _ body _ =>
      rw [Stmt.declared, Stmt.functions, List.length_append,
        initial.length_declared, Stmt.length_declaredAll]
  | .expr _ => rfl
  | .declare _ _ => rfl
  | .define _ _ _ => rfl
  | .ret _ _ => rfl
  | .breakLoop _ => rfl
  | .continueLoop _ => rfl

theorem Stmt.length_declaredAll
    (first : Nat)
    (ss : List Stmt) :
    (Stmt.declaredAll first ss).length = Stmt.functionsAll ss := by
  match ss with
  | [] => rfl
  | s :: ss =>
      rw [Stmt.declaredAll, Stmt.functionsAll, List.length_append,
        s.length_declared, Stmt.length_declaredAll]

end

mutual

/- The functions in a word, those within others first. -/
def Word.functions : Word → List Routine
| .const c => c.functions
| _ => []

/- The functions in a constant. -/
def Constant.functions : Constant → List Routine
| .routine r => r.functions
| _ => []

/- A function, after those within it. -/
def Routine.functions : Routine → List Routine
| ⟨mark, name, parameters, code⟩ =>
    Word.functionsAll code ++ [⟨mark, name, parameters, code⟩]

/- The functions in some words. -/
def Word.functionsAll : List Word → List Routine
| [] => []
| w :: ws => w.functions ++ Word.functionsAll ws

end

/- The functions in a stream are those in the ones it pushes. -/
theorem Word.functionsAll_eq (code : Code) :
    Word.functionsAll code =
      code.routines.flatMap Routine.functions := by
  induction code with
  | nil => rfl
  | cons w ws ih =>
      rw [Word.functionsAll, ih]
      cases w with
      | const c =>
          cases c with
          | routine r => rfl
          | _ => rfl
      | _ => rfl

theorem Word.functionsAll_append (code other : Code) :
    Word.functionsAll (code ++ other) =
      Word.functionsAll code ++ Word.functionsAll other := by
  rw [functionsAll_eq, functionsAll_eq, functionsAll_eq,
    Code.routines_append, List.flatMap_append]

/- Code that pushes no function has none. -/
theorem Word.functionsAll_of_routines
    {code : Code}
    (h : code.routines = []) :
    Word.functionsAll code = [] := by
  rw [functionsAll_eq, h]
  rfl

mutual

/- The code of a statement has as many functions as it declares. -/
theorem Stmt.Emits.length_functions
    {start : Nat}
    {loop : Option Loop}
    {stmt : Stmt}
    {s t : Fresh}
    {piece : Code}
    (h : Stmt.Emits start loop stmt s piece t) :
    (Word.functionsAll piece).length = stmt.functions := by
  cases h with
  | expr hExpr =>
      rw [Word.functionsAll_of_routines hExpr.routines_eq_nil]
      rfl
  | declare => rfl
  | define hValue =>
      have hNone := hValue.routines_eq_nil
      rw [Word.functionsAll_of_routines (by simp [hNone])]
      rfl
  | @function _ _ _ _ stmts _ _ body _ hBody =>
      have hLength := hBody.length_functions
      rw [Word.functionsAll_eq] at hLength ⊢
      rw [Stmt.functions, ← hLength]
      simp [Routine.functions, Word.functionsAll_eq]
  | retNull => rfl
  | ret hValue =>
      have hNone := hValue.routines_eq_nil
      rw [Word.functionsAll_of_routines (by simp [hNone])]
      rfl
  | ifThen hTest hBody =>
      rw [Stmt.functions, ← hBody.length_functions]
      simp [Word.functionsAll_eq, hTest.routines_eq_nil]
  | ifElse hTest hBody hOther =>
      rw [Stmt.functions, ← hBody.length_functions,
        ← hOther.length_functions]
      simp [Word.functionsAll_eq, hTest.routines_eq_nil]
  | whileLoop hTest hBody _ =>
      rw [Stmt.functions, ← hBody.length_functions]
      simp [Word.functionsAll_eq, hTest.routines_eq_nil]
  | forLoop hInitial _ hTest hBody _ hUpdate _ =>
      rw [Stmt.functions, ← hInitial.length_functions,
        ← hBody.length_functions]
      simp [Word.functionsAll_eq, hTest.routines_eq_nil,
        hUpdate.routines_eq_nil]
  | breakLoop =>
      rw [Word.functionsAll_of_routines (by simp)]
      rfl
  | continueLoop =>
      rw [Word.functionsAll_of_routines (by simp)]
      rfl

theorem Stmt.EmitsAll.length_functions
    {start : Nat}
    {loop : Option Loop}
    {stmts : List Stmt}
    {s t : Fresh}
    {piece : Code}
    (h : Stmt.EmitsAll start loop stmts s piece t) :
    (Word.functionsAll piece).length = Stmt.functionsAll stmts := by
  cases h with
  | nil => rfl
  | cons hFirst hOthers =>
      rw [Stmt.functionsAll, ← hFirst.length_functions,
        ← hOthers.length_functions, Word.functionsAll_append,
        List.length_append]

end

------------------------------------------------------------
-- Listed Functions
------------------------------------------------------------

/-
  A library has some declarations, and the code of some
  values, from a number on.
-/
structure Library.Lists
    (lib : Library)
    (first : Nat)
    (values : List Routine)
    (declarations : List Declaration) : Prop where
  code : ∀ i r, values[i]? = some r → lib.code (first + i) = r.code
  declared :
    ∀ i d, declarations[i]? = some d → lib.declared (first + i) = d

variable {lib : Library}

theorem Library.Lists.split
    {first n : Nat}
    {values others : List Routine}
    {declarations rest : List Declaration}
    (h : lib.Lists first (values ++ others) (declarations ++ rest))
    (hValues : values.length = n)
    (hDeclared : declarations.length = n) :
    lib.Lists first values declarations ∧
      lib.Lists (first + n) others rest := by
  refine ⟨⟨?_, ?_⟩, ⟨?_, ?_⟩⟩
  · intro i r hr
    have hLess := (List.getElem?_eq_some_iff.1 hr).1
    exact h.code i r ((List.getElem?_append_left hLess).trans hr)
  · intro i d hd
    have hLess := (List.getElem?_eq_some_iff.1 hd).1
    exact h.declared i d ((List.getElem?_append_left hLess).trans hd)
  · intro i r hr
    rw [Nat.add_assoc]
    apply h.code
    rw [List.getElem?_append_right (by omega), hValues,
      Nat.add_sub_cancel_left]
    exact hr
  · intro i d hd
    rw [Nat.add_assoc]
    apply h.declared
    rw [List.getElem?_append_right (by omega), hDeclared,
      Nat.add_sub_cancel_left]
    exact hd

/- The functions with numbers in a range are sound. -/
def Library.SoundFrom
    (lib : Library)
    (first last : Nat) : Prop :=
  ∀ k, first ≤ k → k < last → lib.SoundAt k

theorem Library.SoundFrom.join
    {first middle last : Nat}
    (hFirst : lib.SoundFrom first middle)
    (hThen : lib.SoundFrom middle last) :
    lib.SoundFrom first last := by
  intro k hLe hLt
  by_cases hMiddle : k < middle
  · exact hFirst k hLe hMiddle
  · exact hThen k (by omega) hLt

mutual

/- A library that lists the functions of a statement is sound there. -/
theorem Stmt.Emits.sound
    {start : Nat}
    {loop : Option Loop}
    {stmt : Stmt}
    {s t : Fresh}
    {piece : Code}
    (h : Stmt.Emits start loop stmt s piece t)
    (hLists :
      lib.Lists s.routines (Word.functionsAll piece)
        (stmt.declared s.routines)) :
    lib.SoundFrom s.routines t.routines ∧ lib.Knows piece := by
  have hNone (hSame : t.routines = s.routines)
      (hNo : piece.routines = []) :
      lib.SoundFrom s.routines t.routines ∧ lib.Knows piece := by
    refine ⟨?_, Library.knows_of_routines hNo⟩
    intro k hLe hLt
    omega
  cases h with
  | expr hExpr =>
      exact hNone hExpr.numbers hExpr.routines_eq_nil
  | declare => exact hNone rfl (by simp)
  | define hValue =>
      exact hNone hValue.numbers (by simp [hValue.routines_eq_nil])
  | @function _ _ name parameters stmts _ _ body u hBody =>
      have hFunctions :
          Word.functionsAll
              (Code.named .alloc name
                ++ Code.pushed
                  (.routine
                    ⟨u.routines, name, parameters,
                      body ++ Code.pushed .null ++ Code.bare .ret⟩)
                ++ Code.named .store name) =
            Word.functionsAll body
              ++ [⟨u.routines, name, parameters,
                body ++ Code.pushed .null ++ Code.bare .ret⟩] := by
        simp [Word.functionsAll_eq, Routine.functions]
      rw [hFunctions, Stmt.declared] at hLists
      rcases hLists.split hBody.length_functions
          (Stmt.length_declaredAll _ stmts) with ⟨hInside, hLast⟩
      rcases hBody.sound hInside with ⟨hSound, hKnows⟩
      rw [← hBody.numbers] at hLast
      have hCode := hLast.code 0 _ rfl
      have hDeclared := hLast.declared 0 _ rfl
      rw [Nat.add_zero] at hCode hDeclared
      refine ⟨?_, ?_⟩
      · apply hSound.join
        intro k hLe hLt
        have hSame : k = u.routines := by
          change k < u.routines + 1 at hLt
          omega
        subst hSame
        have hFirst : lib.first u.routines = s.routines :=
          congrArg Declaration.first hDeclared
        have hStmts : lib.body u.routines = stmts :=
          congrArg Declaration.body hDeclared
        refine ⟨s, body, u, ?_, hFirst.symm, rfl, hCode, hKnows⟩
        rw [hStmts]
        exact hBody
      · intro r hr
        simp only [Code.routines_append, Code.routines_named,
          Code.routines_pushed_routine, List.nil_append,
          List.append_nil, List.mem_singleton] at hr
        rw [hr, Library.routine, hDeclared, hCode]
  | retNull => exact hNone rfl (by simp)
  | ret hValue =>
      exact hNone hValue.numbers (by simp [hValue.routines_eq_nil])
  | @ifThen _ _ _ stmts _ _ test u body _ hTest hBody =>
      have hTestNone := hTest.routines_eq_nil
      rw [Word.functionsAll_eq] at hLists
      simp only [Code.routines_append, hTestNone,
        Code.routines_jump, Code.routines_scoped, List.nil_append,
        ← Word.functionsAll_eq, ← hTest.numbers] at hLists ⊢
      rcases hBody.sound hLists with ⟨hSound, hKnows⟩
      refine ⟨hSound, ?_⟩
      simp [Library.knows_of_routines hTestNone, hKnows]
  | @ifElse _ _ _ stmts others _ _ test u body v other _
      hTest hBody hOther =>
      have hTestNone := hTest.routines_eq_nil
      rw [Word.functionsAll_eq, Stmt.declared] at hLists
      simp only [Code.routines_append, hTestNone,
        Code.routines_jump, Code.routines_scoped, List.nil_append,
        List.append_nil, List.flatMap_append,
        ← Word.functionsAll_eq, ← hTest.numbers] at hLists ⊢
      rcases hLists.split hBody.length_functions
          (Stmt.length_declaredAll _ stmts) with ⟨hHead, hTail⟩
      rw [← hBody.numbers] at hTail
      rcases hBody.sound hHead with ⟨hSound, hKnows⟩
      rcases hOther.sound hTail with ⟨hThen, hMore⟩
      refine ⟨hSound.join hThen, ?_⟩
      simp [Library.knows_of_routines hTestNone, hKnows, hMore]
  | @whileLoop _ _ _ stmts _ _ test u body _ _ hTest hBody _ =>
      have hTestNone := hTest.routines_eq_nil
      rw [Word.functionsAll_eq] at hLists
      simp only [Code.routines_append, hTestNone,
        Code.routines_jump, Code.routines_scoped, List.nil_append,
        List.append_nil, ← Word.functionsAll_eq,
        ← hTest.numbers] at hLists ⊢
      rcases hBody.sound hLists with ⟨hSound, hKnows⟩
      refine ⟨hSound, ?_⟩
      simp [Library.knows_of_routines hTestNone, hKnows]
  | @forLoop _ _ initial _ _ stmts _ _ first u test w body x last _
      _ _ _ hInitial _ hTest hBody _ hUpdate _ =>
      have hTestNone := hTest.routines_eq_nil
      have hLastNone := hUpdate.routines_eq_nil
      rw [Word.functionsAll_eq, Stmt.declared] at hLists
      simp only [Code.routines_append, hTestNone, hLastNone,
        Code.routines_jump, Code.routines_scoped,
        Code.routines_bare, List.nil_append, List.append_nil,
        List.flatMap_append, ← Word.functionsAll_eq] at hLists
      rcases hLists.split hInitial.length_functions
          (initial.length_declared _) with ⟨hHead, hTail⟩
      rw [← hInitial.numbers, ← hTest.numbers] at hTail
      rcases hInitial.sound hHead with ⟨hSound, hKnows⟩
      rcases hBody.sound hTail with ⟨hThen, hMore⟩
      rw [hTest.numbers] at hThen
      rw [hUpdate.numbers]
      refine ⟨hSound.join hThen, ?_⟩
      simp [Library.knows_of_routines hTestNone,
        Library.knows_of_routines hLastNone, hKnows, hMore]
  | breakLoop => exact hNone rfl (by simp)
  | continueLoop => exact hNone rfl (by simp)

theorem Stmt.EmitsAll.sound
    {start : Nat}
    {loop : Option Loop}
    {stmts : List Stmt}
    {s t : Fresh}
    {piece : Code}
    (h : Stmt.EmitsAll start loop stmts s piece t)
    (hLists :
      lib.Lists s.routines (Word.functionsAll piece)
        (Stmt.declaredAll s.routines stmts)) :
    lib.SoundFrom s.routines t.routines ∧ lib.Knows piece := by
  cases h with
  | nil =>
      refine ⟨?_, Library.knows_of_routines rfl⟩
      intro k hLe hLt
      omega
  | @cons _ _ stmt stmts _ u _ first others hFirst hOthers =>
      rw [Word.functionsAll_append, Stmt.declaredAll] at hLists
      rcases hLists.split hFirst.length_functions
          (stmt.length_declared _) with ⟨hHead, hTail⟩
      rw [← hFirst.numbers] at hTail
      rcases hFirst.sound hHead with ⟨hSound, hKnows⟩
      rcases hOthers.sound hTail with ⟨hThen, hMore⟩
      exact ⟨hSound.join hThen, Library.knows_append.2 ⟨hKnows, hMore⟩⟩

end

------------------------------------------------------------
-- Extensions
------------------------------------------------------------

/- A table with a list written over it from a place on. -/
def overlay
    {α : Type}
    (first : Nat)
    (values : List α)
    (table : Nat → α)
    (k : Nat) : α :=
  if k < first then table k
  else values.getD (k - first) (table k)

/-
  A library with the functions of a program added, which
  have the numbers from `first` on.
-/
def Library.extend
    (lib : Library)
    (first : Nat)
    (p : Program)
    (code : Code) : Library where
  declared := overlay first (Stmt.declaredAll first p) lib.declared
  code :=
    overlay first ((Word.functionsAll code).map Routine.code) lib.code

theorem overlay_of_lt
    {α : Type}
    {first k : Nat}
    {values : List α}
    {table : Nat → α}
    (h : k < first) :
    overlay first values table k = table k :=
  if_pos h

theorem overlay_add
    {α : Type}
    {first i : Nat}
    {values : List α}
    {table : Nat → α}
    {a : α}
    (h : values[i]? = some a) :
    overlay first values table (first + i) = a := by
  unfold overlay
  rw [if_neg (by omega), Nat.add_sub_cancel_left, List.getD, h]
  rfl

/- The functions that were added are listed. -/
theorem Library.lists_extend
    (lib : Library)
    (first : Nat)
    (p : Program)
    (code : Code) :
    (lib.extend first p code).Lists first (Word.functionsAll code)
      (Stmt.declaredAll first p) := by
  constructor
  · intro i r hr
    apply overlay_add
    rw [List.getElem?_map, hr]
    rfl
  · intro i d hd
    exact overlay_add hd

/- A function that was there before is as it was. -/
theorem Library.routine_extend
    {first k : Nat}
    {p : Program}
    {code : Code}
    (h : k < first) :
    (lib.extend first p code).routine k = lib.routine k := by
  have hDeclared :
      (lib.extend first p code).declared k = lib.declared k :=
    overlay_of_lt h
  have hCode : (lib.extend first p code).code k = lib.code k :=
    overlay_of_lt h
  rw [Library.routine, hDeclared, hCode]
  rfl

theorem Library.body_extend
    {first k : Nat}
    {p : Program}
    {code : Code}
    (h : k < first) :
    (lib.extend first p code).body k = lib.body k :=
  congrArg Declaration.body (overlay_of_lt h)

/- A function that was added has a body from the program. -/
theorem Library.exists_declared
    {first k : Nat}
    (p : Program)
    (code : Code)
    (hLe : first ≤ k)
    (hLess : k < first + Stmt.functionsAll p) :
    ∃ d ∈ Stmt.declaredAll first p,
      (lib.extend first p code).body k = d.body := by
  have hInside : k - first < (Stmt.declaredAll first p).length := by
    rw [Stmt.length_declaredAll]
    omega
  have hListed :=
    (lib.lists_extend first p code).declared (k - first) _
      (List.getElem?_eq_getElem hInside)
  rw [Nat.add_sub_cancel' hLe] at hListed
  exact ⟨_, List.getElem_mem hInside,
    congrArg Declaration.body hListed⟩

theorem Library.SoundAt.extend
    {first k : Nat}
    {p : Program}
    {code : Code}
    (h : lib.SoundAt k)
    (hLess : k < first) :
    (lib.extend first p code).SoundAt k := by
  rcases h with ⟨s, body, t, hEmits, hFirst, hLast, hCode, hKnows⟩
  have hStart : (lib.extend first p code).first k = lib.first k :=
    congrArg Declaration.first (overlay_of_lt hLess)
  have hSame : (lib.extend first p code).code k = lib.code k :=
    overlay_of_lt hLess
  unfold Library.SoundAt
  rw [Library.body_extend hLess, hStart, hSame]
  refine ⟨s, body, t, hEmits, hFirst, hLast, hCode, ?_⟩
  intro r hr
  have hUsed := hEmits.mark_lt r hr
  rw [Library.routine_extend (by omega)]
  exact hKnows r hr

/- A sound library stays sound with the functions of a program. -/
theorem Library.sound_extend
    {s t : Fresh}
    {p : Program}
    {body code : Code}
    (hSound : lib.Sound s.routines)
    (hEmits : Stmt.EmitsAll 0 none p s body t)
    (hCode : Word.functionsAll code = Word.functionsAll body) :
    (lib.extend s.routines p code).Sound t.routines ∧
      (lib.extend s.routines p code).Knows body := by
  have hLists := lib.lists_extend s.routines p code
  rw [hCode] at hLists
  rcases hEmits.sound hLists with ⟨hNew, hKnows⟩
  refine ⟨?_, hKnows⟩
  intro k hk
  by_cases hOld : k < s.routines
  · exact (hSound k hOld).extend hOld
  · exact hNew k (by omega) hk

mutual

/- The bodies of functions are as plain as where they stand. -/
theorem Stmt.plain_declared
    (first : Nat)
    (s : Stmt)
    (h : Plain s.identifiers) :
    ∀ d ∈ s.declared first, Plain (Stmt.identifiersAll d.body) := by
  match s with
  | .function name parameters body place =>
      rw [Stmt.identifiers, List.cons_append, plain_cons,
        plain_append] at h
      rw [Stmt.declared]
      intro d hd
      rcases List.mem_append.1 hd with hd | hd
      · exact Stmt.plain_declaredAll first body h.2.2 d hd
      · cases List.mem_singleton.1 hd
        exact h.2.2
  | .ifThen condition body place =>
      rw [Stmt.identifiers, plain_append] at h
      exact Stmt.plain_declaredAll first body h.2
  | .ifElse condition body otherwise place =>
      rw [Stmt.identifiers, plain_append, plain_append] at h
      rw [Stmt.declared]
      intro d hd
      rcases List.mem_append.1 hd with hd | hd
      · exact Stmt.plain_declaredAll first body h.1.2 d hd
      · exact Stmt.plain_declaredAll _ otherwise h.2 d hd
  | .whileLoop condition body place =>
      rw [Stmt.identifiers, plain_append] at h
      exact Stmt.plain_declaredAll first body h.2
  | .forLoop initial condition update body place =>
      rw [Stmt.identifiers, plain_append, plain_append,
        plain_append] at h
      rw [Stmt.declared]
      intro d hd
      rcases List.mem_append.1 hd with hd | hd
      · exact initial.plain_declared first h.1.1.1 d hd
      · exact Stmt.plain_declaredAll _ body h.2 d hd
  | .expr _ =>
      intro d hd
      cases hd
  | .declare _ _ =>
      intro d hd
      cases hd
  | .define _ _ _ =>
      intro d hd
      cases hd
  | .ret _ _ =>
      intro d hd
      cases hd
  | .breakLoop _ =>
      intro d hd
      cases hd
  | .continueLoop _ =>
      intro d hd
      cases hd

theorem Stmt.plain_declaredAll
    (first : Nat)
    (ss : List Stmt)
    (h : Plain (Stmt.identifiersAll ss)) :
    ∀ d ∈ Stmt.declaredAll first ss,
      Plain (Stmt.identifiersAll d.body) := by
  match ss with
  | [] =>
      intro d hd
      cases hd
  | s :: ss =>
      rw [Stmt.identifiersAll, plain_append] at h
      rw [Stmt.declaredAll]
      intro d hd
      rcases List.mem_append.1 hd with hd | hd
      · exact s.plain_declared first h.1 d hd
      · exact Stmt.plain_declaredAll _ ss h.2 d hd

end

/- A plain library stays plain with the functions of a plain program. -/
theorem Library.isPlain_extend
    {s t : Fresh}
    {p : Program}
    {body code : Code}
    (hPlain : lib.IsPlain s.routines)
    (hEmits : Stmt.EmitsAll 0 none p s body t)
    (hNames : Plain (Stmt.identifiersAll p)) :
    (lib.extend s.routines p code).IsPlain t.routines := by
  intro k hk
  by_cases hOld : k < s.routines
  · rw [Library.body_extend hOld]
    exact hPlain k hOld
  · have hNumbers := hEmits.numbers
    rcases lib.exists_declared p code (Nat.not_lt.1 hOld)
        (by omega : k < s.routines + Stmt.functionsAll p) with
      ⟨d, hDeclared, hBody⟩
    rw [hBody]
    exact Stmt.plain_declaredAll _ p hNames d hDeclared

/- A function that a library has stays in it. -/
theorem Library.Has.extend
    {first count : Nat}
    {p : Program}
    {code : Code}
    {r : Routine}
    (h : lib.Has first r)
    (hLe : first ≤ count) :
    (lib.extend first p code).Has count r := by
  rcases h with ⟨hLess, hSame⟩
  refine ⟨by omega, ?_⟩
  exact (Library.routine_extend hLess).trans hSame

end StackScript
