import StackScript.Cache.Store
import StackScript.Proofs.Files.Places

/-
  The directory of compiled scripts in the tree of files.

  Each stem has a place of its own in the directory. Where
  the directory can be made, an entry is stored without an
  error, and what is read back is what was stored last.

  Key definitions include:
    * `Cache.home`
    * `Cache.Writable`
    * `Cache.IsOpen`
    * `Cache.Spares`

  Key theorems include:
    * `Cache.read_pathFor`
    * `Cache.store_eq_ok`
-/

namespace StackScript
namespace Cache

------------------------------------------------------------
-- Places of Entries
------------------------------------------------------------

/- The name of the file for a stem. -/
def entryName (stem : String) : String :=
  stem ++ "." ++ extension

theorem pathFor_eq
    (cache : Cache)
    (script : Script) :
    cache.pathFor script =
      Path.join cache.dir (entryName script.stem) :=
  rfl

theorem toList_entryName (stem : String) :
    (entryName stem).toList =
      stem.toList ++ ['.', 'p', 'd', 'b', 'c'] := by
  unfold entryName
  rw [String.toList_append, String.toList_append,
    List.append_assoc]
  rfl

/- Different stems have different files. -/
theorem entryName_inj
    {stem other : String}
    (h : entryName stem = entryName other) :
    stem = other := by
  have hText := congrArg String.toList h
  rw [toList_entryName, toList_entryName] at hText
  exact String.toList_inj.1 (List.append_cancel_right hText)

theorem isName_entryName (script : Script) :
    Path.IsName (entryName script.stem) := by
  have hLength : 5 ≤ (entryName script.stem).toList.length := by
    rw [toList_entryName, List.length_append]
    exact Nat.le_add_left _ _
  have hShort :
      ∀ name : String, name.toList.length < 5 →
        entryName script.stem ≠ name := by
    rintro name hLess rfl
    omega
  refine ⟨?_, hShort "" (by decide), hShort "." (by decide),
    hShort ".." (by decide)⟩
  rw [toList_entryName, List.mem_append, not_or]
  exact ⟨Path.not_mem_stem script.path, by decide⟩

/- The place of the directory. -/
def home
    (cache : Cache)
    (fs : Files) : List String :=
  Files.resolve (fs.base cache.dir) (Path.parts cache.dir)

/- The place of the file for a stem. -/
def entryPlace
    (cache : Cache)
    (fs : Files)
    (stem : String) : List String :=
  cache.home fs ++ [entryName stem]

------------------------------------------------------------
-- The Directory
------------------------------------------------------------

/-
  The directory is there or can be made, and making it puts
  nothing into it.
-/
def Writable
    (cache : Cache)
    (fs : Files) : Prop :=
  ∃ made,
    fs.makeDirectories cache.dir = .ok made ∧
      made.node? (cache.home fs) = some .directory ∧
      ∀ name,
        made.node? (cache.home fs ++ [name]) =
          fs.node? (cache.home fs ++ [name])

/- The way into the directory is open. -/
def IsOpen
    (cache : Cache)
    (fs : Files) : Prop :=
  ∀ name, name ≠ ".." →
    fs.follow (fs.base cache.dir)
        (Path.parts cache.dir ++ [name]) =
      .ok (cache.home fs ++ [name])

/- A change of the tree that does not touch the directory. -/
structure Spares
    (cache : Cache)
    (fs other : Files) : Prop where
  base : other.base cache.dir = fs.base cache.dir
  entries :
    ∀ name,
      other.node? (cache.home fs ++ [name]) =
        fs.node? (cache.home fs ++ [name])
  way : cache.IsOpen fs → cache.IsOpen other

variable {cache : Cache}
variable {fs other : Files}
variable {script : Script}

theorem Spares.home_eq (h : cache.Spares fs other) :
    cache.home other = cache.home fs := by
  unfold home
  rw [h.base]

/- A path that never goes up can be used wherever it can be made. -/
theorem writable_of_down
    {made : Files}
    (hMade : fs.makeDirectories cache.dir = .ok made)
    (hThere : made.node? (cache.home fs) = some .directory)
    (hDown : ".." ∉ Path.parts cache.dir) :
    cache.Writable fs := by
  refine ⟨made, hMade, hThere, fun name => ?_⟩
  have hLength :
      ∀ (place parts : List String), ".." ∉ parts →
        (Files.resolve place parts).length =
          place.length + parts.length := by
    intro place parts
    induction parts generalizing place with
    | nil =>
        intro _
        rfl
    | cons part parts ih =>
        intro hNone
        rw [List.mem_cons, not_or] at hNone
        rw [Files.resolve, if_neg (Ne.symm hNone.1), ih _ hNone.2,
          List.length_append, List.length_singleton,
          List.length_cons]
        omega
  apply Files.node?_deep_of_makeBelow hMade hDown
  unfold home
  rw [List.length_append, hLength _ _ hDown,
    List.length_singleton]
  omega

------------------------------------------------------------
-- Reading
------------------------------------------------------------

/- What a node gives to a reader. -/
def contents : Option Node → Except OsError (String × Nat)
| none => .error .noEntry
| some .directory => .error .isDirectory
| some (.file text modified) => .ok (text, modified)

/- The path of an entry is followed as that of the directory. -/
theorem locate_pathFor :
    fs.locate (cache.pathFor script) =
      fs.follow (fs.base cache.dir)
        (Path.parts cache.dir ++ [entryName script.stem]) := by
  have hName := isName_entryName script
  unfold Files.locate Files.base
  rw [pathFor_eq, if_neg (Path.join_ne_empty _ hName),
    Path.isAbsolute_join _ hName, Path.parts_join _ hName]

/- What is read where the way to an entry is open. -/
theorem read_of_follow
    {place : List String}
    (h : fs.locate (cache.pathFor script) = .ok place) :
    fs.read (cache.pathFor script) = contents (fs.node? place) := by
  have hFile : Path.namesDirectory (cache.pathFor script) = false :=
    Path.namesDirectory_join _ (isName_entryName script)
  unfold Files.read Files.find
  rw [h]
  dsimp only [bind, Except.bind]
  cases fs.node? place with
  | none => rfl
  | some node =>
      cases node with
      | directory => rfl
      | file text modified =>
          dsimp only
          rw [hFile]
          rfl

/-
  What is read at the path of an entry is what is at its
  place: a way that is not open is only missing.
-/
theorem read_pathFor
    (hWritable : cache.Writable fs)
    (hWay :
      fs.node? (cache.entryPlace fs script.stem) = none ∨
        cache.IsOpen fs) :
    fs.read (cache.pathFor script) =
      contents (fs.node? (cache.entryPlace fs script.stem)) := by
  have hAbove := (isName_entryName script).notAbove
  rcases hWritable with ⟨made, hMade, _, _⟩
  rcases Files.follow_before_makeBelow hMade hAbove with
    hOpen | hMissing
  · exact read_of_follow (locate_pathFor.trans hOpen)
  · rcases hWay with hNone | hOpen
    · have hLocate := locate_pathFor.trans hMissing
      rw [hNone]
      unfold Files.read Files.find
      rw [hLocate]
      rfl
    · rw [hOpen _ hAbove] at hMissing
      cases hMissing

------------------------------------------------------------
-- Storing
------------------------------------------------------------

/- What storing an entry makes of the tree. -/
structure Stored
    (cache : Cache)
    (script : Script)
    (text : String)
    (fs after : Files) : Prop where
  base : after.base cache.dir = fs.base cache.dir
  entry :
    after.node? (cache.entryPlace fs script.stem) =
      some (.file text 0)
  others :
    ∀ name, name ≠ entryName script.stem →
      after.node? (cache.home fs ++ [name]) =
        fs.node? (cache.home fs ++ [name])
  way : cache.IsOpen after

theorem Stored.home_eq
    {text : String}
    (h : cache.Stored script text fs other) :
    cache.home other = cache.home fs := by
  unfold home
  rw [h.base]

/- A file is written where the way to it is open. -/
theorem write_of_follow
    {place : List String}
    (h : fs.locate (cache.pathFor script) = .ok place)
    (hParent : fs.node? place.dropLast = some .directory)
    (hPlace : fs.node? place ≠ some .directory)
    (text : String) :
    fs.write (cache.pathFor script) text 0 =
      .ok (fs.put place (.file text 0)) := by
  have hFile : Path.namesDirectory (cache.pathFor script) = false :=
    Path.namesDirectory_join _ (isName_entryName script)
  unfold Files.write Files.checkParent
  rw [h]
  dsimp only [bind, Except.bind]
  rw [hParent]
  dsimp only
  cases hNode : fs.node? place with
  | none =>
      dsimp only
      rw [hFile]
      rfl
  | some node =>
      cases node with
      | directory => exact absurd hNode hPlace
      | file old modified =>
          dsimp only
          rw [hFile]
          rfl

/- Where the directory can be made, an entry can be stored. -/
theorem store_eq_ok
    (hWritable : cache.Writable fs)
    (hEntry :
      fs.node? (cache.entryPlace fs script.stem) ≠
        some .directory)
    (code : Code) :
    ∃ after,
      cache.store fs script code = .ok after ∧
        cache.Stored script (encode script code) fs after := by
  have hAbove := (isName_entryName script).notAbove
  rcases hWritable with ⟨made, hMade, hThere, hSame⟩
  have hCurrent : made.current = fs.current :=
    Files.current_of_makeBelow hMade
  have hBase : made.base cache.dir = fs.base cache.dir := by
    unfold Files.base
    rw [hCurrent]
  have hLocate :
      made.locate (cache.pathFor script) =
        .ok (cache.entryPlace fs script.stem) := by
    rw [locate_pathFor, hBase]
    exact Files.follow_of_makeBelow hMade hAbove
  have hParent :
      made.node? (cache.entryPlace fs script.stem).dropLast =
        some .directory := by
    unfold entryPlace
    rw [List.dropLast_concat]
    exact hThere
  have hPlace :
      made.node? (cache.entryPlace fs script.stem) ≠
        some .directory := by
    unfold entryPlace at hEntry ⊢
    rwa [hSame]
  have hSome : cache.entryPlace fs script.stem ≠ [] := by
    simp [entryPlace]
  have hWrite :=
    write_of_follow hLocate hParent hPlace (encode script code)
  have hNode :
      ∀ p,
        (made.put (cache.entryPlace fs script.stem)
            (.file (encode script code) 0)).node? p =
          if p = cache.entryPlace fs script.stem then
            some (.file (encode script code) 0)
          else made.node? p :=
    fun p => Files.node?_put _ p hSome
  have hAfter :
      (made.put (cache.entryPlace fs script.stem)
        (.file (encode script code) 0)).base cache.dir =
          fs.base cache.dir :=
    hBase
  generalize made.put (cache.entryPlace fs script.stem)
    (.file (encode script code) 0) = after at *
  refine ⟨after, ?_, hAfter, ?_, ?_, ?_⟩
  · unfold store
    rw [hMade]
    dsimp only
    rw [hWrite]
  · rw [hNode, if_pos rfl]
  · intro name hName
    rw [hNode, if_neg, hSame]
    intro hPlaces
    exact hName (by simpa [entryPlace] using hPlaces)
  · intro name hUp
    unfold home
    rw [hAfter]
    apply Files.follow_mono _ (Files.follow_of_makeBelow hMade hUp)
    intro p hp
    rw [hNode, if_neg]
    · exact hp
    · rintro rfl
      exact hPlace hp

end Cache
end StackScript
