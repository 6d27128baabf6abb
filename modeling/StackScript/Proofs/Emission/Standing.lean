import StackScript.Proofs.Emission.Drafting

/-
  Drafts with open targets.

  A draft is compared with the stream that is emitted for
  known positions, word by word. The two differ where a
  target is still open: at the sites that wait for the end
  of the innermost loop, where the emitted stream has the
  targets of that loop already, and at holes, which are the
  jumps that end further on. A hole that is filled in gets
  the target that the emitted stream has there.

  Key definitions include:
    * `LoopContext.Fits`
    * `Draft.Stands`
    * `Draft.Keeps`

  Key theorems include:
    * `Draft.Stands.jump`
    * `Draft.Stands.patchAll`
    * `Draft.Stands.unwindTo_eq`
    * `Draft.Stands.closeLoop`
-/

namespace StackScript

------------------------------------------------------------
-- Waiting Sites
------------------------------------------------------------

/- A word that is there stays when code is added behind. -/
theorem Code.getElem?_append_of_eq
    {code : Code}
    {i : Nat}
    {w : Word}
    (more : Code)
    (h : code[i]? = some w) :
    (code ++ more)[i]? = some w := by
  have hInside : i < code.length := (List.getElem?_eq_some_iff.1 h).1
  rw [List.getElem?_append_left hInside, h]

/-
  A context waits for the targets that a loop has in some
  code, and counts its scopes as the loop does.
-/
structure LoopContext.Fits
    (c : LoopContext)
    (l : Loop)
    (depth : Nat)
    (code : Code) : Prop where
  depth : c.depth + l.opened = depth
  breaks : ∀ site ∈ c.breaks, code[site]? = some (.target l.leave)
  continues : ∀ site ∈ c.continues, code[site]? = some (.target l.next)

theorem LoopContext.Fits.append
    {c : LoopContext}
    {l : Loop}
    {depth : Nat}
    {code : Code}
    (h : c.Fits l depth code)
    (more : Code) :
    c.Fits l depth (code ++ more) where
  depth := h.depth
  breaks site hSite := Code.getElem?_append_of_eq more (h.breaks site hSite)
  continues site hSite :=
    Code.getElem?_append_of_eq more (h.continues site hSite)

namespace Draft

variable {d d' : Draft}
variable {l : Loop}
variable {loop : Option Loop}
variable {holes : List Nat}
variable {code : Code}

/- The sites that wait for the end of the innermost loop. -/
def sites (d : Draft) : List Nat :=
  match d.loops with
  | [] => []
  | c :: _ => c.breaks ++ c.continues

/- The innermost loop of a draft is a given one, or there is none. -/
def Waits
    (d : Draft)
    (code : Code) :
    Option Loop → Prop
| none => d.loops = []
| some l => ∃ c loops, d.loops = c :: loops ∧ c.Fits l d.depth code

/-
  A draft is some code, up to the sites that wait and the
  holes.
-/
structure Stands
    (d : Draft)
    (loop : Option Loop)
    (holes : List Nat)
    (code : Code) : Prop where
  length : d.words.length = code.length
  same : ∀ i, i ∉ holes → i ∉ d.sites → d.words[i]? = code[i]?
  waits : d.Waits code loop

/- Nothing changes in the loops around the innermost one. -/
structure Keeps (d d' : Draft) : Prop where
  depth : d'.depth = d.depth
  outer : d'.loops.tail = d.loops.tail

theorem Keeps.refl (d : Draft) : d.Keeps d :=
  ⟨rfl, rfl⟩

theorem Keeps.trans
    {d'' : Draft}
    (h : d.Keeps d')
    (h' : d'.Keeps d'') : d.Keeps d'' :=
  ⟨h'.depth.trans h.depth, h'.outer.trans h.outer⟩

theorem Keeps.append
    (h : d.Keeps d')
    (code : Code) : d.Keeps (d'.append code) :=
  ⟨h.depth, h.outer⟩

/- A scope that is closed again leaves all as it was. -/
theorem Keeps.popScope (h : d.pushScope.Keeps d') :
    d.Keeps d'.popScope where
  depth := by
    have hDepth : d'.depth = d.depth + 1 := h.depth
    have hPopped : d'.popScope.depth = d'.depth - 1 := rfl
    omega
  outer := h.outer

theorem Waits.append
    (h : d.Waits code loop)
    (more : Code) :
    d.Waits (code ++ more) loop := by
  cases loop with
  | none => exact h
  | some l =>
      obtain ⟨c, loops, hLoops, hFits⟩ := h
      exact ⟨c, loops, hLoops, hFits.append more⟩

------------------------------------------------------------
-- Writing and Patching
------------------------------------------------------------

/- At the start nothing is open. -/
theorem stands_empty : empty.Stands none [] [] where
  length := rfl
  same _ _ _ := rfl
  waits := rfl

namespace Stands

/- Without a loop and holes, a draft is the code. -/
theorem words_eq (h : d.Stands none [] code) : d.words = code := by
  have hSites : d.sites = [] := by
    have hLoops : d.loops = [] := h.waits
    simp [sites, hLoops]
  refine List.ext_getElem? fun i => h.same i List.not_mem_nil ?_
  rw [hSites]
  exact List.not_mem_nil

/- What is written may differ from the code at new holes. -/
theorem append_of_eq
    {more piece : Code}
    {holes' : List Nat}
    (h : d.Stands loop holes code)
    (hLength : more.length = piece.length)
    (hHoles : ∀ i ∈ holes, i ∈ holes')
    (hSame : ∀ i, code.length + i ∉ holes' → more[i]? = piece[i]?) :
    (d.append more).Stands loop holes' (code ++ piece) where
  length := by
    rw [length_append, List.length_append, h.length, hLength]
  same i hHole hSite := by
    have hWords : (d.append more).words = d.words ++ more := rfl
    have hOld : i ∉ holes := fun hIn => hHole (hHoles i hIn)
    rw [hWords]
    by_cases hInside : i < code.length
    · rw [List.getElem?_append_left (h.length ▸ hInside),
        List.getElem?_append_left hInside]
      exact h.same i hOld hSite
    · have hBehind : code.length + (i - code.length) = i := by
        omega
      have hNew : code.length + (i - code.length) ∉ holes' := by
        rwa [hBehind]
      rw [List.getElem?_append_right (by have := h.length; omega),
        List.getElem?_append_right (by omega), h.length]
      exact hSame _ hNew
  waits := h.waits.append piece

protected theorem append
    (h : d.Stands loop holes code)
    (piece : Code) :
    (d.append piece).Stands loop holes (code ++ piece) :=
  h.append_of_eq rfl (fun _ hHole => hHole) fun _ _ => rfl

/- The order of the holes does not matter. -/
theorem swap
    {first second : Nat}
    (h : d.Stands loop (first :: second :: holes) code) :
    d.Stands loop (second :: first :: holes) code where
  length := h.length
  same i hHole := h.same i fun hIn =>
    hHole ((List.Perm.swap second first holes).mem_iff.1 hIn)
  waits := h.waits

/- A jump with an open target, whichever it will be. -/
theorem jump
    (h : d.Stands loop holes code)
    (o : Op)
    (target : Nat) :
    (d.append (Code.jump o Code.placeholder)).Stands loop
      ((d.words.length + 1) :: holes) (code ++ Code.jump o target) := by
  rw [h.length]
  refine h.append_of_eq rfl (fun _ hHole => List.mem_cons_of_mem _ hHole)
    fun i hHole => ?_
  match i with
  | 0 => rfl
  | 1 => exact absurd List.mem_cons_self hHole
  | i + 2 => rfl

/- The target of a jump stands behind its instruction. -/
theorem target_jump
    (h : d.Stands loop holes code)
    (o : Op)
    (target : Nat) :
    (code ++ Code.jump o target)[d.words.length + 1]? =
      some (.target target) := by
  have hSecond : code.length + 1 - code.length = 1 := by
    omega
  rw [h.length, List.getElem?_append_right (by omega), hSecond]
  rfl

/- A hole is filled in with what the code has there. -/
theorem patch
    {site target : Nat}
    (h : d.Stands loop (site :: holes) code)
    (hTarget : code[site]? = some (.target target)) :
    (d.patch site target).Stands loop holes code where
  length := (d.length_patch site target).trans h.length
  same i hHole hSite := by
    have hWords :
        (d.patch site target).words =
          d.words.set site (.target target) := rfl
    rw [hWords]
    by_cases hHere : i = site
    · have hInside : site < d.words.length :=
        h.length ▸ (List.getElem?_eq_some_iff.1 hTarget).1
      rw [hHere, List.getElem?_set_self hInside, hTarget]
    · rw [List.getElem?_set_ne (Ne.symm hHere)]
      refine h.same i (fun hIn => ?_) hSite
      exact (List.mem_cons.1 hIn).elim hHere hHole
  waits := h.waits

/- Some holes with one target are filled in. -/
theorem patchAll
    {sites : List Nat}
    {target : Nat}
    (h : d.Stands loop (sites ++ holes) code)
    (hTarget : ∀ site ∈ sites, code[site]? = some (.target target)) :
    (d.patchAll sites target).Stands loop holes code := by
  induction sites generalizing d with
  | nil => exact h
  | cons site sites ih =>
      exact ih (h.patch (hTarget site List.mem_cons_self)) fun s hs =>
        hTarget s (List.mem_cons_of_mem _ hs)

end Stands

@[simp]
theorem loops_patchAll
    (d : Draft)
    (sites : List Nat)
    (target : Nat) :
    (d.patchAll sites target).loops = d.loops := by
  induction sites generalizing d with
  | nil => rfl
  | cons site sites ih => exact ih _

@[simp]
theorem depth_patchAll
    (d : Draft)
    (sites : List Nat)
    (target : Nat) :
    (d.patchAll sites target).depth = d.depth := by
  induction sites generalizing d with
  | nil => rfl
  | cons site sites ih => exact ih _

theorem keeps_patchAll
    (d : Draft)
    (sites : List Nat)
    (target : Nat) :
    d.Keeps (d.patchAll sites target) :=
  ⟨d.depth_patchAll sites target,
    congrArg List.tail (d.loops_patchAll sites target)⟩

------------------------------------------------------------
-- Scopes and Loops
------------------------------------------------------------

namespace Stands

/- A loop counts a scope that is opened inside it. -/
theorem pushScope (h : d.Stands loop holes code) :
    d.pushScope.Stands (loop.map .enter) holes
      (code ++ Code.bare .pushScope) where
  length := (h.append _).length
  same := (h.append _).same
  waits := by
    cases loop with
    | none => exact h.waits
    | some l =>
        obtain ⟨c, loops, hLoops, hFits⟩ := (h.append _).waits
        have hDepth : c.depth + (l.opened + 1) = d.depth + 1 :=
          congrArg (· + 1) hFits.depth
        exact ⟨c, loops, hLoops, hDepth, hFits.breaks, hFits.continues⟩

theorem popScope (h : d.Stands (loop.map .enter) holes code) :
    d.popScope.Stands loop holes (code ++ Code.bare .popScope) where
  length := (h.append _).length
  same := (h.append _).same
  waits := by
    cases loop with
    | none => exact h.waits
    | some l =>
        obtain ⟨c, loops, hLoops, hFits⟩ := (h.append _).waits
        have hInner : c.depth + (l.opened + 1) = d.depth := hFits.depth
        have hDepth : c.depth + l.opened = d.depth - 1 := by
          omega
        exact ⟨c, loops, hLoops, hDepth, hFits.breaks, hFits.continues⟩

/-
  As many scopes are closed in front of a jump as the loop
  has opened.
-/
theorem unwindTo_eq
    {c : LoopContext}
    {loops : List LoopContext}
    (h : d.Stands (some l) holes code)
    (hLoops : d.loops = c :: loops) :
    d.unwindTo c.depth =
      d.append
        (List.replicate l.opened (Code.bare .popScope)).flatten := by
  obtain ⟨c', loops', hLoops', hFits⟩ := h.waits
  rw [hLoops] at hLoops'
  cases hLoops'
  have hOpened : d.depth - c.depth = l.opened := by
    have hDepth := hFits.depth
    omega
  rw [unwindTo, hOpened]

/- A hole that has come to the context of the loop is none. -/
theorem wait
    {c c' : LoopContext}
    {loops : List LoopContext}
    {site : Nat}
    (h : d.Stands (some l) (site :: holes) code)
    (hLoops : d.loops = c :: loops)
    (hFits : c'.Fits l d.depth code)
    (hSites :
      ∀ i, i ∈ site :: (c.breaks ++ c.continues) →
        i ∈ c'.breaks ++ c'.continues) :
    Stands { d with loops := c' :: loops } (some l) holes code ∧
      d.Keeps { d with loops := c' :: loops } := by
  refine ⟨⟨h.length, fun i hHole hSite => ?_, ?_⟩, rfl, ?_⟩
  · have hOld : d.sites = c.breaks ++ c.continues := by
      simp only [sites, hLoops]
    have hNew : i ∉ site :: (c.breaks ++ c.continues) :=
      fun hIn => hSite (hSites i hIn)
    rw [List.mem_cons, not_or] at hNew
    refine h.same i (fun hIn => ?_) ?_
    · exact (List.mem_cons.1 hIn).elim hNew.1 hHole
    · rw [hOld]
      exact hNew.2
  · exact ⟨c', loops, rfl, hFits⟩
  · rw [hLoops]
    rfl

/- A hole that leads out of the loop may wait for its end. -/
theorem addBreak
    {site : Nat}
    (h : d.Stands (some l) (site :: holes) code)
    (hTarget : code[site]? = some (.target l.leave)) :
    (d.addBreak site).Stands (some l) holes code ∧
      d.Keeps (d.addBreak site) := by
  obtain ⟨c, loops, hLoops, hFits⟩ := h.waits
  simp only [Draft.addBreak, hLoops]
  refine h.wait hLoops ⟨hFits.depth, fun s hs => ?_, hFits.continues⟩
    fun i hIn => ?_
  · rcases List.mem_append.1 hs with hOld | hNew
    · exact hFits.breaks s hOld
    · rw [List.mem_singleton.1 hNew, hTarget]
  · simp only [List.mem_cons, List.mem_append] at hIn ⊢
    grind

/- A hole that leads to the next round may wait likewise. -/
theorem addContinue
    {site : Nat}
    (h : d.Stands (some l) (site :: holes) code)
    (hTarget : code[site]? = some (.target l.next)) :
    (d.addContinue site).Stands (some l) holes code ∧
      d.Keeps (d.addContinue site) := by
  obtain ⟨c, loops, hLoops, hFits⟩ := h.waits
  simp only [Draft.addContinue, hLoops]
  refine h.wait hLoops ⟨hFits.depth, hFits.breaks, fun s hs => ?_⟩
    fun i hIn => ?_
  · rcases List.mem_append.1 hs with hOld | hNew
    · exact hFits.continues s hOld
    · rw [List.mem_singleton.1 hNew, hTarget]
  · simp only [List.mem_cons, List.mem_append] at hIn ⊢
    grind

/-
  Inside a new loop nothing waits yet; what waits for the
  loop around it is a hole.
-/
theorem openLoop
    (h : d.Stands loop holes code)
    (leave next : Nat) :
    d.openLoop.Stands (some ⟨leave, next, 0⟩) (d.sites ++ holes) code where
  length := h.length
  same i hHole _ := by
    rw [List.mem_append, not_or] at hHole
    exact h.same i hHole.2 hHole.1
  waits := by
    refine ⟨_, _, rfl, rfl, fun _ hSite => ?_, fun _ hSite => ?_⟩
    all_goals exact absurd hSite List.not_mem_nil

/- At the end of a loop, what waits for it gets its targets. -/
theorem closeLoop
    (h : d'.Stands (some l) (d.sites ++ holes) code)
    (hKeeps : d.openLoop.Keeps d')
    (hWaits : d.Waits code loop) :
    (d'.closeLoop l.next l.leave).Stands loop holes code ∧
      d.Keeps (d'.closeLoop l.next l.leave) := by
  obtain ⟨c, loops, hLoops, hFits⟩ := h.waits
  have hOuter : loops = d.loops := by
    have hTail := hKeeps.outer
    rwa [hLoops] at hTail
  have hDepth : d'.depth = d.depth := hKeeps.depth
  subst hOuter
  have hClosed :
      d'.closeLoop l.next l.leave =
        ({ d' with loops := d.loops }.patchAll c.breaks l.leave).patchAll
          c.continues l.next := by
    simp only [Draft.closeLoop, hLoops]
  have hPopped :
      Stands { d' with loops := d.loops } loop
        (c.breaks ++ (c.continues ++ holes)) code := by
    refine ⟨h.length, fun i hHole hSite => ?_, ?_⟩
    · have hSites : d'.sites = c.breaks ++ c.continues := by
        simp only [sites, hLoops]
      simp only [List.mem_append, not_or] at hHole
      refine h.same i ?_ ?_
      · rw [List.mem_append, not_or]
        exact ⟨hSite, hHole.2.2⟩
      · rw [hSites, List.mem_append, not_or]
        exact ⟨hHole.1, hHole.2.1⟩
    · cases loop with
      | none => exact hWaits
      | some outer =>
          obtain ⟨c', loops', hLoops', hFits'⟩ := hWaits
          exact ⟨c', loops', hLoops', hDepth ▸ hFits'⟩
  rw [hClosed]
  refine ⟨(hPopped.patchAll hFits.breaks).patchAll hFits.continues, ?_⟩
  have hFirst := keeps_patchAll { d' with loops := d.loops } c.breaks l.leave
  have hBoth := hFirst.trans (keeps_patchAll _ c.continues l.next)
  exact ⟨hBoth.depth.trans hDepth, hBoth.outer⟩

/- The exits of a loop are filled in as well. -/
theorem endLoop
    (exits : List Nat)
    (h : d'.Stands (some l) (d.sites ++ (exits ++ holes)) code)
    (hKeeps : d.openLoop.Keeps d')
    (hWaits : d.Waits code loop)
    (hExits : ∀ site ∈ exits, code[site]? = some (.target l.leave)) :
    ((d'.closeLoop l.next l.leave).patchAll exits l.leave).Stands
        loop holes code ∧
      d.Keeps ((d'.closeLoop l.next l.leave).patchAll exits l.leave) := by
  obtain ⟨hClosed, hClosedKeeps⟩ := h.closeLoop hKeeps hWaits
  exact ⟨hClosed.patchAll hExits,
    hClosedKeeps.trans (keeps_patchAll _ exits l.leave)⟩

end Stands

end Draft

end StackScript
