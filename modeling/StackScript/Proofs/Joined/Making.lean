import StackScript.Proofs.Grammar.Naming
import StackScript.Proofs.Joined.Reading
import StackScript.Proofs.Twin.Abreast
import StackScript.Proofs.Twin.Labels

/-
  Code of two texts and of both together.

  The code of the whole is that of its parts in a row, each
  without its halt. The second part is moved by the length of
  the first, and its hidden names go on counting where those
  of the first part stop. So functions that both make may
  differ in the numbers of hidden names.

  Key definitions include:
    * `unnumbered`
    * `Routine.Renumbered`
    * `Routine.Moved`, `Code.Moved`

  Key theorems include:
    * `Routine.Moved.renumbered`, `Routine.Moved.enters`
    * `build_joined`
-/

namespace StackScript

------------------------------------------------------------
-- Numbers of Hidden Names
------------------------------------------------------------

/- A name starts like a hidden one and goes on with digits. -/
def isHidden (name : String) : Bool :=
  hiddenStart.isPrefixOf name.toList
    && (name.toList.drop hiddenStart.length).all Char.isDigit

/- A name, or what all hidden names start with. -/
def unnumbered (name : String) : String :=
  if isHidden name then String.ofList hiddenStart else name

theorem isHidden_hiddenName (number : Nat) :
    isHidden (hiddenName number) = true := by
  have hName :
      (hiddenName number).toList =
        hiddenStart ++ Nat.toDigits 10 number := by
    have hText :
        hiddenName number = "__$temp" ++ toString number :=
      rfl
    rw [hText, String.toList_append, Nat.toString_eq_repr,
      Nat.toList_repr]
    rfl
  unfold isHidden
  rw [hName, List.drop_left, Bool.and_eq_true, List.isPrefixOf_iff_prefix,
    List.all_eq_true]
  exact ⟨List.prefix_append _ _, fun _ hDigit =>
    Nat.isDigit_of_mem_toDigits (by omega) (by omega) hDigit⟩

/- Functions that differ in the numbers of hidden names alone. -/
def Routine.Renumbered : Routine → Routine → Prop :=
  Routine.SameUnder unnumbered id

/- The same marks, and hidden names of any numbers. -/
def Numbering.renumbered : Numbering where
  hidden _ _ := True
  mark n n' := n' = n
  plain name := ¬ hiddenStart <+: name.toList
  hidden_succ _ := trivial
  mark_succ h := congrArg Nat.succ h

theorem Numbering.renumbered_agrees :
    Numbering.renumbered.Agrees unnumbered id where
  hidden n n' _ := by
    unfold unnumbered
    rw [isHidden_hiddenName, isHidden_hiddenName, if_pos rfl, if_pos rfl]
  mark _ _ h := h

/- Names in programs differ from hidden ones of any number. -/
theorem Numbering.renumbered_plain
    (name : String)
    (number : Nat)
    (h : Numbering.renumbered.plain name) :
    name ≠ hiddenName number :=
  ne_hiddenName h number

------------------------------------------------------------
-- Functions
------------------------------------------------------------

/- Statements that make code make aligned code elsewhere. -/
theorem Stmt.aligned_emitAll
    {w : Numbering}
    {R : Routine → Routine → Prop}
    {stmts : List Stmt}
    {s s' t : Fresh}
    {c : Code}
    (hAdmits : w.Admits R)
    (hNames : ∀ name ∈ Stmt.identifiersAll stmts, w.plain name)
    (hLinks : w.Links s s')
    (hEmit : Stmt.emitAll 0 none stmts s = .ok c t)
    (shift : Nat) :
    ∃ c' t',
      Stmt.emitAll shift none (Stmt.unplacedAll stmts) s' =
          .ok c' t' ∧
        Code.Aligned w R shift (fun _ => False) 0 c c' ∧
        w.Links t t' := by
  have hPairs :
      Emit.Pairs w (Code.Aligned w R shift (Loop.Exits none) 0)
        (Stmt.emitAll 0 none stmts)
        (Stmt.emitAll shift none (Stmt.unplacedAll stmts)) :=
    Stmt.pairs_emitAll hAdmits stmts hNames (Nat.zero_add shift).symm
  have hBoth := hPairs s s' hLinks
  rw [hEmit] at hBoth
  cases hResult :
      Stmt.emitAll shift none (Stmt.unplacedAll stmts) s' with
  | error e t' =>
      rw [hResult] at hBoth
      exact hBoth.elim
  | ok c' t' =>
      rw [hResult] at hBoth
      exact ⟨c', t', rfl, hBoth.1.closed, hBoth.2⟩

/-
  The same function with a property, or two that are made of
  the same statements, where other hidden names are in use.
-/
inductive Routine.Moved
    (P : Routine → Prop) :
    Routine → Routine → Prop
| same
    {r : Routine}
    (h : P r) :
    Moved P r r
| made
    {stmts : List Stmt}
    {s s' t t' : Fresh}
    {c c' : Code}
    {mark : Nat}
    {name : String}
    {parameters : List String}
    (hNames : Plain (Stmt.identifiersAll stmts))
    (hLinks : Numbering.renumbered.Links s s')
    (hLeft : Stmt.emitAll 0 none stmts s = .ok c t)
    (hRight :
      Stmt.emitAll 0 none (Stmt.unplacedAll stmts) s' = .ok c' t') :
    Moved P
      ⟨mark, name, parameters,
        c ++ Code.pushed .null ++ Code.bare .ret⟩
      ⟨mark, name, parameters,
        c' ++ Code.pushed .null ++ Code.bare .ret⟩

/- Code that is aligned with the same a distance away. -/
abbrev Code.Moved
    (P : Routine → Prop)
    (shift : Nat) :
    Code → Code → Prop :=
  Code.Aligned Numbering.renumbered (Routine.Moved P) shift
    (fun _ => False) 0

namespace Routine

variable {P : Routine → Prop}
variable {r r' : Routine}

theorem tagged_moved : Tagged (Moved P) := by
  intro r r' h
  cases h with
  | same | made => exact ⟨rfl, rfl, rfl⟩

/- Functions that two emissions make of a body are moved. -/
theorem admits_moved : Numbering.renumbered.Admits (Moved P) := by
  intro stmts mark mark' s s' t t' c c' name parameters hNames hLinks
    hLeft hRight _ hMark
  cases hMark
  exact .made hNames hLinks hLeft hRight

/- So they differ in the numbers of hidden names alone. -/
theorem Moved.renumbered
    (h : Moved P r r') :
    Renumbered r r' := by
  cases h with
  | same => rfl
  | @made stmts s s' t t' c c' mark name parameters hNames hLinks hLeft
      hRight =>
      have hAdmits : Numbering.renumbered.Admits Renumbered :=
        Numbering.renumbered_agrees.admits
      rcases Stmt.aligned_emitAll hAdmits hNames hLinks hLeft 0 with
        ⟨_, _, hSame, hBody, _⟩
      rw [hRight] at hSame
      cases hSame
      exact hAdmits name parameters hNames hLinks hLeft hRight hBody rfl

/- The streams of moved functions are the same, or parallel. -/
theorem Moved.enters
    (hClosed : Routine.Closed P)
    (h : Moved P r r') :
    Code.Enters Numbering.renumbered (Moved P) r.code r'.code := by
  cases h with
  | same h => exact .inl ⟨rfl, fun q hq => .same (hClosed r h q hq)⟩
  | @made stmts s s' t t' c c' mark name parameters hNames hLinks hLeft
      hRight =>
      rcases Stmt.aligned_emitAll (@admits_moved P) hNames hLinks hLeft 0
        with ⟨_, _, hSame, hBody, _⟩
      rw [hRight] at hSame
      cases hSame
      have hNull :
          Code.Moved P 0 (c ++ Code.pushed .null)
            (c' ++ Code.pushed .null) :=
        hBody.thenConstant fun r hEq => by cases hEq
      have hWhole :
          Code.Moved P 0 (c ++ Code.pushed .null ++ Code.bare .ret)
            (c' ++ Code.pushed .null ++ Code.bare .ret) :=
        hNull.thenBare rfl
      exact .inr ⟨_, _, hWhole.parallel_alone, Code.cut_zero hWhole.row⟩

end Routine

------------------------------------------------------------
-- Texts
------------------------------------------------------------

/- Statements in front of others are emitted before them. -/
theorem Stmt.emitAll_append
    {ss others : List Stmt}
    {loop : Option Loop}
    {start : Nat}
    {s t last : Fresh}
    {c d : Code}
    (hFirst : Stmt.emitAll start loop ss s = .ok c t)
    (hThen :
      Stmt.emitAll (start + c.length) loop others t = .ok d last) :
    Stmt.emitAll start loop (ss ++ others) s = .ok (c ++ d) last := by
  induction ss generalizing start s c with
  | nil =>
      cases hFirst
      exact hThen
  | cons stmt ss ih =>
      rw [Stmt.emitAll] at hFirst
      rw [List.cons_append, Stmt.emitAll]
      change EStateM.bind (stmt.emit start loop) _ s = _ at hFirst ⊢
      unfold EStateM.bind at hFirst ⊢
      cases hStmt : stmt.emit start loop s with
      | error e s' =>
          rw [hStmt] at hFirst
          cases hFirst
      | ok a s' =>
          rw [hStmt] at hFirst
          change
            EStateM.bind (Stmt.emitAll (start + a.length) loop ss) _ s' =
              _ at hFirst
          unfold EStateM.bind at hFirst
          cases hMore : Stmt.emitAll (start + a.length) loop ss s' with
          | error e s'' =>
              rw [hMore] at hFirst
              cases hFirst
          | ok b s'' =>
              rw [hMore] at hFirst
              cases hFirst
              rw [List.length_append, ← Nat.add_assoc] at hThen
              have hOthers := ih hMore hThen
              change
                EStateM.bind
                  (Stmt.emitAll (start + a.length) loop (ss ++ others)) _
                  s' = _
              unfold EStateM.bind
              rw [hOthers, List.append_assoc]
              rfl

/- The body of a program's code stands in front of a halt. -/
theorem Program.emitAll_of_compile
    {p : Program}
    {code : Code}
    {f g : Fresh}
    (h : p.compile f = .ok code g) :
    ∃ body,
      Stmt.emitAll 0 none p f = .ok body g ∧
        code = body ++ Code.bare .halt := by
  rw [p.compile_eq] at h
  change EStateM.bind (Stmt.emitAll 0 none p) _ f = _ at h
  unfold EStateM.bind at h
  cases hBody : Stmt.emitAll 0 none p f with
  | error e g' =>
      rw [hBody] at h
      cases h
  | ok body g' =>
      rw [hBody] at h
      cases h
      exact ⟨body, rfl, rfl⟩

/- A text that is built was read and compiled. -/
theorem exists_of_build
    {source : String}
    {code : Code}
    {mark next : Nat}
    (h : build mark source = (.ok code, next)) :
    ∃ p g,
      Program.parse (Token.scan source) = .ok p ∧
        Program.compile p ⟨0, mark⟩ = .ok code g ∧
        g.routines = next := by
  unfold build at h
  cases hParse : Program.parse (Token.scan source) with
  | error e =>
      rw [hParse] at h
      cases h
  | ok p =>
      rw [hParse] at h
      dsimp only at h
      cases hCode : p.compile ⟨0, mark⟩ with
      | error e g =>
          rw [hCode] at h
          cases h
      | ok made g =>
          rw [hCode] at h
          cases h
          exact ⟨p, g, rfl, hCode, rfl⟩

/- A text that is read and compiled is built. -/
theorem build_of_compile
    {source : String}
    {code : Code}
    {mark : Nat}
    {p : Program}
    {g : Fresh}
    (hParse : Program.parse (Token.scan source) = .ok p)
    (hCode : p.compile ⟨0, mark⟩ = .ok code g) :
    build mark source = (.ok code, g.routines) := by
  unfold build
  rw [hParse]
  dsimp only
  rw [hCode]

/-
  Two texts that are built one after the other are built as
  one, and the code of the whole is aligned with theirs.
-/
theorem build_joined
    {first second : String}
    {code₁ code₂ : Code}
    {mark middle last : Nat}
    (P : Routine → Prop)
    (hFirst : build mark first = (.ok code₁, middle))
    (hSecond : build middle second = (.ok code₂, last)) :
    ∃ body₁ body₂ front back,
      code₁ = body₁ ++ Code.bare .halt ∧
        code₂ = body₂ ++ Code.bare .halt ∧
        Code.Moved P 0 body₁ front ∧
        Code.Moved P front.length body₂ back ∧
        build mark (joined first second) =
          (.ok (front ++ (back ++ Code.bare .halt)), last) := by
  rcases exists_of_build hFirst with ⟨p, g, hParse, hCode, hMark⟩
  rcases exists_of_build hSecond with ⟨q, k, hParse', hCode', hMark'⟩
  rcases Program.parse_joined hParse hParse'
      (Token.spellings_joined (Program.allKnown_of_parse hParse)) with
    ⟨whole, hWhole, hSame⟩
  rcases Program.emitAll_of_compile hCode with ⟨body₁, hBody, rfl⟩
  rcases Program.emitAll_of_compile hCode' with ⟨body₂, hBody', rfl⟩
  have hAdmits : Numbering.renumbered.Admits (Routine.Moved P) :=
    Routine.admits_moved
  have hStart : Numbering.renumbered.Links ⟨0, mark⟩ ⟨0, mark⟩ :=
    ⟨trivial, rfl⟩
  rcases Stmt.aligned_emitAll hAdmits (Program.plain_of_parse hParse)
      hStart hBody 0 with
    ⟨front, t, hFront, hAligned, hLinks⟩
  have hNext : Numbering.renumbered.Links ⟨0, middle⟩ t :=
    ⟨trivial, hLinks.mark.trans hMark⟩
  rcases Stmt.aligned_emitAll hAdmits (Program.plain_of_parse hParse')
      hNext hBody' front.length with
    ⟨back, u, hBack, hAligned', hLinks'⟩
  rw [← Nat.zero_add front.length] at hBack
  have hBoth := Stmt.emitAll_append hFront hBack
  have hUnplaced :
      Stmt.unplacedAll whole =
        Stmt.unplacedAll p ++ Stmt.unplacedAll q := by
    rw [hSame, Stmt.unplacedAll_eq_map, List.map_append,
      ← Stmt.unplacedAll_eq_map, ← Stmt.unplacedAll_eq_map]
  have hCompile :
      (Program.unplaced whole).compile ⟨0, mark⟩ =
        .ok (front ++ (back ++ Code.bare .halt)) u := by
    rw [Program.compile_eq]
    change
      EStateM.bind (Stmt.emitAll 0 none (Stmt.unplacedAll whole)) _ _ =
        _
    unfold EStateM.bind
    rw [hUnplaced, hBoth, ← List.append_assoc]
    rfl
  have hBuild := build_of_compile hWhole
    (Program.compile_of_unplaced hCompile)
  have hLast : u.routines = last := hLinks'.mark.trans hMark'
  rw [hLast] at hBuild
  exact ⟨body₁, body₂, front, back, rfl, rfl, hAligned, hAligned',
    hBuild⟩

end StackScript
