import StackScript.Files.Tree

/-
  Where paths lead.

  A path below a directory leads to a place right below the
  place of the directory. Making directories changes nothing
  that is there, opens the way to what lies in them, and a
  way that is not open is only missing.

  Key definitions include:
    * `Path.IsName`
    * `Files.resolve`

  Key theorems include:
    * `Path.parts_join`
    * `Files.follow_of_makeBelow`
    * `Files.follow_before_makeBelow`
    * `Files.read_of_write`
-/

namespace StackScript

------------------------------------------------------------
-- Splitting
------------------------------------------------------------

namespace Path

variable {mark : Char}

theorem splitAt_ne_nil (cs : List Char) :
    splitAt mark cs ≠ [] := by
  cases cs with
  | nil => simp [splitAt]
  | cons c cs =>
      unfold splitAt
      by_cases hMark : c = mark
      · simp [hMark]
      · rw [if_neg hMark]
        split
        · simp
        · simp

/- A mark divides what stands before it from what follows. -/
theorem splitAt_append
    (cs ds : List Char) :
    splitAt mark (cs ++ mark :: ds) =
      splitAt mark cs ++ splitAt mark ds := by
  induction cs with
  | nil => simp [splitAt]
  | cons c cs ih =>
      rw [List.cons_append, splitAt, splitAt, ih]
      by_cases hMark : c = mark
      · rw [if_pos hMark, if_pos hMark, List.cons_append]
      · rw [if_neg hMark, if_neg hMark]
        cases hParts : splitAt mark cs with
        | nil => exact absurd hParts (splitAt_ne_nil cs)
        | cons part parts => rfl

/- Without a mark all is one part. -/
theorem splitAt_of_not_mem
    {cs : List Char}
    (h : mark ∉ cs) :
    splitAt mark cs = [cs] := by
  induction cs with
  | nil => rfl
  | cons c cs ih =>
      rw [List.mem_cons, not_or] at h
      rw [splitAt, if_neg (Ne.symm h.1), ih h.2]

/- No part holds a mark. -/
theorem not_mem_of_mem_splitAt
    {cs part : List Char}
    (h : part ∈ splitAt mark cs) :
    mark ∉ part := by
  induction cs generalizing part with
  | nil =>
      rw [splitAt, List.mem_singleton] at h
      rw [h]
      exact List.not_mem_nil
  | cons c cs ih =>
      rw [splitAt] at h
      by_cases hMark : c = mark
      · rw [if_pos hMark, List.mem_cons] at h
        rcases h with rfl | h
        · exact List.not_mem_nil
        · exact ih h
      · rw [if_neg hMark] at h
        cases hParts : splitAt mark cs with
        | nil => exact absurd hParts (splitAt_ne_nil cs)
        | cons first others =>
            rw [hParts] at h ih
            rcases List.mem_cons.1 h with rfl | h
            · rw [List.mem_cons, not_or]
              exact ⟨Ne.symm hMark, ih List.mem_cons_self⟩
            · exact ih (List.mem_cons_of_mem _ h)

------------------------------------------------------------
-- Names
------------------------------------------------------------

/- A name that can stand for a file in a directory. -/
structure IsName (name : String) : Prop where
  noSlash : '/' ∉ name.toList
  some : name ≠ ""
  notHere : name ≠ "."
  notAbove : name ≠ ".."

variable {name : String}
variable (dir : String)

/- The parts of a path below a directory, all of them. -/
theorem allParts_join (h : IsName name) :
    ∃ front : List String,
      allParts (join dir name) = front ++ [name] ∧
        front.filter (fun part => part ≠ "" ∧ part ≠ ".") =
          parts dir := by
  have hName : splitAt '/' name.toList = [name.toList] :=
    splitAt_of_not_mem h.noSlash
  unfold join
  by_cases hEnd : dir = "" ∨ dir.toList.getLast? = some '/'
  · rw [if_pos hEnd]
    unfold parts allParts
    rw [String.toList_append]
    rcases hEnd with rfl | hSlash
    · refine ⟨[], ?_, rfl⟩
      rw [String.toList_empty, List.nil_append, hName]
      simp
    · rcases List.getLast?_eq_some_iff.1 hSlash with ⟨cs, hDir⟩
      refine ⟨(splitAt '/' cs).map String.ofList, ?_, ?_⟩
      · rw [hDir, List.append_assoc, List.singleton_append,
          splitAt_append, hName]
        simp
      · rw [hDir, splitAt_append, List.map_append,
          List.filter_append]
        simp [splitAt]
  · rw [if_neg hEnd]
    refine ⟨allParts dir, ?_, rfl⟩
    have hText :
        (dir ++ "/" ++ name).toList =
          dir.toList ++ '/' :: name.toList := by
      rw [String.toList_append, String.toList_append,
        List.append_assoc]
      rfl
    unfold allParts
    rw [hText, splitAt_append, hName, List.map_append]
    simp

/- A path below a directory has the name as its last part. -/
theorem parts_join (h : IsName name) :
    parts (join dir name) = parts dir ++ [name] := by
  rcases allParts_join dir h with ⟨front, hAll, hFront⟩
  unfold parts
  rw [hAll, List.filter_append, hFront]
  simp [parts, h.some, h.notHere]

/- It names no directory. -/
theorem namesDirectory_join (h : IsName name) :
    namesDirectory (join dir name) = false := by
  rcases allParts_join dir h with ⟨front, hAll, _⟩
  unfold namesDirectory
  rw [hAll, List.getLast?_concat]
  simp [h.some, h.notHere, h.notAbove]

/- It starts where the directory does. -/
theorem isAbsolute_join (h : IsName name) :
    isAbsolute (join dir name) = isAbsolute dir := by
  have hFirst : name.toList.head? ≠ some '/' := by
    intro hSlash
    exact h.noSlash (List.mem_of_head? hSlash)
  unfold isAbsolute join
  by_cases hNone : dir = ""
  · rw [if_pos (.inl hNone), hNone, String.toList_append]
    simp [hFirst]
  · have hSome : dir.toList ≠ [] := by
      rwa [ne_eq, String.toList_eq_nil_iff]
    rcases List.exists_cons_of_ne_nil hSome with ⟨c, cs, hText⟩
    split
    · rw [String.toList_append, hText]
      rfl
    · rw [String.toList_append, String.toList_append, hText]
      rfl

theorem join_ne_empty (h : IsName name) :
    join dir name ≠ "" := by
  intro hEmpty
  have hParts := parts_join dir h
  rw [hEmpty] at hParts
  have hNone : parts "" = [] := rfl
  rw [hNone] at hParts
  simp at hParts

/- The name of a file holds no slash. -/
theorem not_mem_fileName (p : Path) :
    '/' ∉ p.fileName.toList := by
  unfold fileName
  cases hLast : p.parts.getLast? with
  | none => simp
  | some part =>
      dsimp only
      by_cases hAbove : part = ".."
      · rw [if_pos hAbove]
        simp
      · rw [if_neg hAbove]
        have hMem :=
          (List.mem_filter.1 (List.mem_of_getLast? hLast)).1
        rcases List.mem_map.1 hMem with ⟨cs, hSplit, rfl⟩
        rw [String.toList_ofList]
        exact not_mem_of_mem_splitAt hSplit

/- What stands in front of the last point is part of the name. -/
theorem mem_of_mem_splitName
    {c : Char}
    {name : String}
    (h : c ∈ (splitName name).1.toList) :
    c ∈ name.toList := by
  unfold splitName at h
  dsimp only at h
  split at h
  · exact h
  · rename_i point front hDrop
    split at h
    · exact h
    · rw [String.toList_ofList, List.mem_reverse] at h
      have hMem : c ∈ point :: front := List.mem_cons_of_mem _ h
      rw [← hDrop] at hMem
      exact List.mem_reverse.1 (List.mem_of_mem_drop hMem)

/- Nor does the name without its extension. -/
theorem not_mem_stem (p : Path) :
    '/' ∉ p.stem.toList :=
  fun h => not_mem_fileName p (mem_of_mem_splitName h)

end Path

------------------------------------------------------------
-- Nodes
------------------------------------------------------------

namespace Files

variable {fs made : Files}
variable {place parts : List String}

/- Taking out one place leaves what is at the others. -/
theorem lookup_filter
    {other : List String}
    (nodes : List (List String × Node))
    (h : other ≠ place) :
    (nodes.filter (·.1 ≠ place)).lookup other =
      nodes.lookup other := by
  induction nodes with
  | nil => rfl
  | cons first nodes ih =>
      rcases first with ⟨spot, node⟩
      by_cases hSpot : spot = place
      · rw [List.filter_cons_of_neg (by simp [hSpot]), ih,
          List.lookup_cons, hSpot, beq_false_of_ne h]
      · rw [List.filter_cons_of_pos (by simp [hSpot]),
          List.lookup_cons, List.lookup_cons, ih]

/- A node that is put is at its place, and no other changes. -/
theorem node?_put
    (node : Node)
    (other : List String)
    (hPlace : place ≠ []) :
    (fs.put place node).node? other =
      if other = place then some node else fs.node? other := by
  unfold node? put
  by_cases hSame : other = place
  · rw [if_pos hSame, hSame, if_neg (by simpa using hPlace),
      List.lookup_cons_self]
  · rw [if_neg hSame, List.lookup_cons, beq_false_of_ne hSame]
    dsimp only
    rw [lookup_filter fs.nodes hSame]

------------------------------------------------------------
-- Ways
------------------------------------------------------------

/- The place that parts lead to from a directory. -/
def resolve :
    List String → List String → List String
| place, [] => place
| place, part :: parts =>
    if part = ".." then resolve place.dropLast parts
    else resolve (place ++ [part]) parts

/- A part that is not the last has to be a directory. -/
theorem follow_cons
    {part : String}
    (hPart : part ≠ "..")
    (hMore : parts ≠ []) :
    fs.follow place (part :: parts) =
      match fs.node? (place ++ [part]) with
      | some .directory => fs.follow (place ++ [part]) parts
      | some (.file ..) => .error .notDirectory
      | none => .error .noEntry := by
  rcases List.exists_cons_of_ne_nil hMore with ⟨next, more, rfl⟩
  rw [follow, if_neg hPart]
  dsimp only
  cases fs.node? (place ++ [part]) with
  | none => rfl
  | some node =>
      cases node with
      | directory => rfl
      | file text modified => rfl

/- A last part leads to a place, whatever is there. -/
theorem follow_last
    {part : String}
    (hPart : part ≠ "..") :
    fs.follow place [part] = .ok (place ++ [part]) := by
  rw [follow, if_neg hPart]

/- A way stays open where all directories stay. -/
theorem follow_mono
    {other : Files}
    {target : List String}
    (hKeeps :
      ∀ p, fs.node? p = some .directory →
        other.node? p = some .directory)
    (h : fs.follow place parts = .ok target) :
    other.follow place parts = .ok target := by
  induction parts generalizing place with
  | nil => exact h
  | cons part parts ih =>
      by_cases hAbove : part = ".."
      · rw [follow, if_pos hAbove] at h ⊢
        exact ih h
      by_cases hMore : parts = []
      · rw [hMore, follow_last hAbove] at h ⊢
        exact h
      rw [follow_cons hAbove hMore] at h ⊢
      cases hNode : fs.node? (place ++ [part]) with
      | none => simp [hNode] at h
      | some node =>
          cases node with
          | directory =>
              rw [hNode] at h
              rw [hKeeps _ hNode]
              exact ih h
          | file text modified => simp [hNode] at h

------------------------------------------------------------
-- Making Directories
------------------------------------------------------------

/- Making directories takes nothing away. -/
theorem node?_of_makeBelow
    {p : List String}
    {node : Node}
    (h : fs.makeBelow place parts = .ok made)
    (hNode : fs.node? p = some node) :
    made.node? p = some node := by
  induction parts generalizing fs place with
  | nil =>
      cases h
      exact hNode
  | cons part parts ih =>
      rw [makeBelow] at h
      by_cases hAbove : part = ".."
      · rw [if_pos hAbove] at h
        exact ih h hNode
      rw [if_neg hAbove] at h
      dsimp only at h
      split at h
      · exact ih h hNode
      · cases h
      · rename_i hNone
        apply ih h
        rw [node?_put _ _ (by simp), if_neg]
        · exact hNode
        · rintro rfl
          rw [hNone] at hNode
          cases hNode

/- The current directory stays. -/
theorem current_of_makeBelow
    (h : fs.makeBelow place parts = .ok made) :
    made.current = fs.current := by
  induction parts generalizing fs place with
  | nil =>
      cases h
      rfl
  | cons part parts ih =>
      rw [makeBelow] at h
      by_cases hAbove : part = ".."
      · rw [if_pos hAbove] at h
        exact ih h
      rw [if_neg hAbove] at h
      dsimp only at h
      split at h
      · exact ih h
      · cases h
      · exact (ih h).trans rfl

/- Directories that are made open the way to what lies in them. -/
theorem follow_of_makeBelow
    {name : String}
    (h : fs.makeBelow place parts = .ok made)
    (hName : name ≠ "..") :
    made.follow place (parts ++ [name]) =
      .ok (resolve place parts ++ [name]) := by
  induction parts generalizing fs place with
  | nil => exact follow_last hName
  | cons part parts ih =>
      rw [makeBelow] at h
      rw [List.cons_append, resolve]
      by_cases hAbove : part = ".."
      · rw [if_pos hAbove] at h ⊢
        rw [follow, if_pos hAbove]
        exact ih h
      rw [if_neg hAbove] at h ⊢
      rw [follow_cons hAbove (by simp)]
      dsimp only at h
      split at h
      · rename_i hNode
        rw [node?_of_makeBelow h hNode]
        exact ih h
      · cases h
      · have hThere :
            (fs.put (place ++ [part]) .directory).node?
                (place ++ [part]) =
              some .directory := by
          rw [node?_put _ _ (by simp), if_pos rfl]
        rw [node?_of_makeBelow h hThere]
        exact ih h

/-
  Where directories can be made, the way to what lies in
  them is open or something on it is missing.
-/
theorem follow_before_makeBelow
    {name : String}
    (h : fs.makeBelow place parts = .ok made)
    (hName : name ≠ "..") :
    fs.follow place (parts ++ [name]) =
        .ok (resolve place parts ++ [name]) ∨
      fs.follow place (parts ++ [name]) = .error .noEntry := by
  induction parts generalizing fs place with
  | nil => exact .inl (follow_last hName)
  | cons part parts ih =>
      rw [makeBelow] at h
      rw [List.cons_append, resolve]
      by_cases hAbove : part = ".."
      · rw [if_pos hAbove] at h ⊢
        rw [follow, if_pos hAbove]
        exact ih h
      rw [if_neg hAbove] at h ⊢
      rw [follow_cons hAbove (by simp)]
      dsimp only at h
      cases hNode : fs.node? (place ++ [part]) with
      | none => exact .inr rfl
      | some node =>
          rw [hNode] at h
          cases node with
          | directory => exact ih h
          | file text modified => cases h

/-
  A way that never goes up passes no place that lies deeper
  than its end.
-/
theorem node?_deep_of_makeBelow
    {p : List String}
    (h : fs.makeBelow place parts = .ok made)
    (hDown : ".." ∉ parts)
    (hDeep : place.length + parts.length < p.length) :
    made.node? p = fs.node? p := by
  induction parts generalizing fs place with
  | nil =>
      cases h
      rfl
  | cons part parts ih =>
      rw [List.mem_cons, not_or] at hDown
      rw [List.length_cons] at hDeep
      rw [makeBelow, if_neg (Ne.symm hDown.1)] at h
      have hNext :
          (place ++ [part]).length + parts.length < p.length := by
        rw [List.length_append, List.length_singleton]
        omega
      dsimp only at h
      split at h
      · exact ih h hDown.2 hNext
      · cases h
      · rw [ih h hDown.2 hNext, node?_put _ _ (by simp), if_neg]
        rintro rfl
        omega

------------------------------------------------------------
-- Writing Files
------------------------------------------------------------

/- What writing a file does where it succeeds. -/
theorem write_eq_ok
    {after : Files}
    {p : Path}
    {text : String}
    {modified : Nat}
    (h : fs.write p text modified = .ok after) :
    ∃ place,
      fs.locate p = .ok place ∧
        fs.node? place ≠ some .directory ∧
        p.namesDirectory = false ∧
        after = fs.put place (.file text modified) := by
  unfold write at h
  cases hLocate : fs.locate p with
  | error e =>
      rw [hLocate] at h
      cases h
  | ok place =>
      rw [hLocate] at h
      dsimp only [bind, Except.bind] at h
      split at h
      · cases h
      · split at h
        · cases h
        · rename_i hNode
          split at h
          · cases h
          · rename_i hFile
            cases h
            exact ⟨place, rfl, by simp [hNode], by simpa using hFile, rfl⟩
        · rename_i hNode
          split at h
          · cases h
          · rename_i hFile
            cases h
            exact ⟨place, rfl, by simp [hNode], by simpa using hFile, rfl⟩

/- A file that is written is read back at the same path. -/
theorem read_of_write
    {after : Files}
    {p : Path}
    {text : String}
    {modified : Nat}
    (h : fs.write p text modified = .ok after) :
    after.read p = .ok (text, modified) := by
  rcases write_eq_ok h with ⟨place, hLocate, hNode, hFile, rfl⟩
  have hPlace : place ≠ [] := by
    rintro rfl
    exact hNode rfl
  have hPut (other : List String) :
      (fs.put place (.file text modified)).node? other =
        if other = place then some (.file text modified)
        else fs.node? other :=
    node?_put _ other hPlace
  have hKeeps (q : List String)
      (hq : fs.node? q = some .directory) :
      (fs.put place (.file text modified)).node? q =
        some .directory := by
    rw [hPut, if_neg]
    · exact hq
    · rintro rfl
      exact hNode hq
  have hSame :
      (fs.put place (.file text modified)).locate p = .ok place := by
    unfold locate at hLocate ⊢
    by_cases hEmpty : p = ""
    · rw [if_pos hEmpty] at hLocate
      cases hLocate
    · rw [if_neg hEmpty] at hLocate ⊢
      exact follow_mono hKeeps hLocate
  unfold read find
  rw [hSame]
  dsimp only [bind, Except.bind]
  rw [hPut, if_pos rfl]
  dsimp only
  rw [hFile]
  rfl
end Files
end StackScript
