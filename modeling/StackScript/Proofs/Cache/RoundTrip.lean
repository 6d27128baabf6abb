import StackScript.Proofs.Cache.Codec
import StackScript.Proofs.Cache.Directory

/-
  Entries that are stored and read back.

  What comes back of code is the code itself, but for the
  marks of its functions and for the digits with which a
  decimal is written. Nothing is lost until the text of an
  entry has as many levels as the reader has for a limit.

  Key definitions include:
    * `Json.levels`
    * `Word.AlikeAll`
    * `Word.NarrowAll`

  Key theorems include:
    * `Word.alikeAll_recalledAll`
    * `Entry.fits_iff`
    * `Cache.read_of_store`
    * `Cache.read?_encode_iff`
-/

namespace StackScript

------------------------------------------------------------
-- Levels
------------------------------------------------------------

namespace Json

mutual

/- How many lists and objects lie inside each other. -/
def levels : Json → Nat
| .list items => levelsOfItems items + 1
| .object members => levelsOfMembers members + 1
| _ => 0

/- The most levels of an item. -/
def levelsOfItems : List Json → Nat
| [] => 0
| item :: items => max item.levels (levelsOfItems items)

/- The most levels of a member. -/
def levelsOfMembers : List (List Char × Json) → Nat
| [] => 0
| (_, value) :: members => max value.levels (levelsOfMembers members)

end

/- An object with one member is one level around it. -/
theorem levels_tagged
    (tag : String)
    (value : Json) :
    (tagged tag value).levels = value.levels + 1 := by
  simp [tagged, levels, levelsOfMembers]

/- Items without levels have none together. -/
theorem levelsOfItems_map
    {α : Type}
    {make : α → Json}
    (h : ∀ a, (make a).levels = 0)
    (as : List α) :
    levelsOfItems (as.map make) = 0 := by
  induction as with
  | nil => rw [List.map_nil, levelsOfItems]
  | cons a as ih => simp [levelsOfItems, h, ih]

theorem levels_ofText (text : String) :
    (ofText text).levels = 0 := by
  simp [ofText, levels]

theorem levels_ofNat (n : Nat) :
    (ofNat n).levels = 0 := by
  simp [ofNat, levels]

theorem levels_ofBinary64 (x : Binary64) :
    (ofBinary64 x).levels = 0 := by
  unfold ofBinary64
  split
  · simp [levels]
  · simp [levels]

theorem levels_ofBigInt (i : Int) :
    (ofBigInt i).levels = 2 := by
  simp [ofBigInt, ofInt, levels, levelsOfItems,
    levelsOfItems_map levels_ofNat]

end Json

------------------------------------------------------------
-- Narrow Code
------------------------------------------------------------

mutual

/- The positions and counts of a word have at most 64 bits. -/
def Word.Narrow : Word → Prop
| .const c => c.Narrow
| .target t => t < 2 ^ 64
| .count n => n < 2 ^ 64
| _ => True

/- So have those of a constant. -/
def Constant.Narrow : Constant → Prop
| .routine r => r.Narrow
| _ => True

/- So have those of a function. -/
def Routine.Narrow : Routine → Prop
| ⟨_, _, _, code⟩ => Word.NarrowAll code

/- So have those of some words. -/
def Word.NarrowAll : List Word → Prop
| [] => True
| w :: ws => w.Narrow ∧ Word.NarrowAll ws

end

/- A number of at most 64 bits is the largest one or below. -/
theorem le_maxWord_of_lt
    {n : Nat}
    (h : n < 2 ^ 64) :
    n ≤ maxWord := by
  unfold maxWord
  exact Nat.le_sub_one_of_lt h

/- A function is three levels around the words of its code. -/
theorem Routine.levels_toJson
    (mark : Nat)
    (name : String)
    (parameters : List String)
    (code : Code) :
    (Routine.toJson ⟨mark, name, parameters, code⟩).levels =
      Json.levelsOfItems (Word.toJsons code) + 3 := by
  have hNames :
      Json.levelsOfItems (parameters.map .ofText) = 0 :=
    Json.levelsOfItems_map Json.levels_ofText parameters
  rw [Routine.toJson]
  simp [Json.levels, Json.levelsOfMembers, Json.levels_ofText,
    Json.levels_tagged, hNames]

mutual

/- A narrow word fits where there are as many levels. -/
theorem Word.fits_iff
    (w : Word)
    (h : w.Narrow)
    (depth : Nat) :
    w.fits depth = true ↔ w.toJson.levels ≤ depth := by
  match depth, w with
  | 0, .op code => simp [Word.fits, Word.toJson, Json.levels_tagged]
  | 0, .const c => simp [Word.fits, Word.toJson, Json.levels_tagged]
  | 0, .name text => simp [Word.fits, Word.toJson, Json.levels_tagged]
  | 0, .target t => simp [Word.fits, Word.toJson, Json.levels_tagged]
  | 0, .count n => simp [Word.fits, Word.toJson, Json.levels_tagged]
  | depth + 1, .op code =>
      simp [Word.fits, Word.toJson, Json.levels_tagged,
        Json.levels_ofNat]
  | depth + 1, .const c =>
      rw [Word.Narrow] at h
      rw [Word.fits, Word.toJson, Json.levels_tagged,
        c.fits_iff h depth]
      omega
  | depth + 1, .name text =>
      simp [Word.fits, Word.toJson, Json.levels_tagged,
        Json.levels_ofText]
  | depth + 1, .target t =>
      simp [Word.fits, Word.toJson, Json.levels_tagged,
        Json.levels_ofNat, le_maxWord_of_lt h]
  | depth + 1, .count n =>
      simp [Word.fits, Word.toJson, Json.levels_tagged,
        Json.levels_ofNat, le_maxWord_of_lt h]

/- A narrow constant fits where there are as many levels. -/
theorem Constant.fits_iff
    (c : Constant)
    (h : c.Narrow)
    (depth : Nat) :
    c.fits depth = true ↔ c.toJson.levels ≤ depth := by
  match depth, c with
  | depth, .null =>
      simp [Constant.fits, Constant.toJson, Json.levels_ofText]
  | 0, .number x =>
      simp [Constant.fits, Constant.toJson, Json.levels_tagged]
  | 0, .integer i =>
      simp [Constant.fits, Constant.toJson, Json.levels_tagged]
  | 0, .decimal d =>
      simp [Constant.fits, Constant.toJson, Json.levels_tagged]
  | 0, .text s =>
      simp [Constant.fits, Constant.toJson, Json.levels_tagged]
  | 0, .routine r =>
      simp [Constant.fits, Constant.toJson, Json.levels_tagged]
  | depth + 1, .number x =>
      simp [Constant.fits, Constant.toJson, Json.levels_tagged,
        Json.levels_ofBinary64]
  | depth + 1, .integer i =>
      simp [Constant.fits, Constant.toJson, Json.levels_tagged,
        Json.levels_ofBigInt]
  | depth + 1, .decimal d =>
      simp [Constant.fits, Constant.toJson, Json.levels_tagged,
        Json.levels_ofText]
  | depth + 1, .text s =>
      simp [Constant.fits, Constant.toJson, Json.levels_tagged,
        Json.levels_ofText]
  | depth + 1, .routine r =>
      rw [Constant.Narrow] at h
      rw [Constant.fits, Constant.toJson, Json.levels_tagged,
        r.fits_iff h depth]
      omega

/- A narrow function fits where there are as many levels. -/
theorem Routine.fits_iff
    (r : Routine)
    (h : r.Narrow)
    (depth : Nat) :
    r.fits depth = true ↔ r.toJson.levels ≤ depth := by
  match r with
  | ⟨mark, name, parameters, code⟩ =>
      rw [Routine.Narrow] at h
      rw [Routine.fits, Bool.and_eq_true, decide_eq_true_eq,
        Word.fitsAll_iff code h, Routine.levels_toJson]
      omega

/- Narrow words fit where there are as many levels. -/
theorem Word.fitsAll_iff
    (ws : List Word)
    (h : Word.NarrowAll ws)
    (depth : Nat) :
    Word.fitsAll depth ws = true ↔
      Json.levelsOfItems (Word.toJsons ws) ≤ depth := by
  match ws with
  | [] => simp [Word.fitsAll, Word.toJsons, Json.levelsOfItems]
  | w :: ws =>
      rw [Word.NarrowAll] at h
      rw [Word.fitsAll, Bool.and_eq_true, w.fits_iff h.1,
        Word.fitsAll_iff ws h.2, Word.toJsons, Json.levelsOfItems]
      omega

end

/- An entry can be read back below the limit of levels. -/
theorem Entry.fits_iff
    {e : Entry}
    (hNarrow : Word.NarrowAll e.bytecode)
    (hTime : e.mtime < 2 ^ 64) :
    e.Fits ↔ e.toJson.levels < 128 := by
  have hLevels :
      e.toJson.levels =
        Json.levelsOfItems (Word.toJsons e.bytecode) + 3 := by
    unfold Entry.toJson Code.toJson
    simp [Json.levels, Json.levelsOfMembers, Json.levels_ofNat,
      Json.levels_ofText, Json.levels_tagged]
  have hMost : e.mtime ≤ maxWord := le_maxWord_of_lt hTime
  unfold Entry.Fits Code.fits
  rw [Bool.and_eq_true, decide_eq_true_eq,
    Word.fitsAll_iff e.bytecode hNarrow, hLevels]
  unfold maxNesting
  omega

------------------------------------------------------------
-- Like Code
------------------------------------------------------------

mutual

/-
  Two words are alike: marks of functions do not count, and
  decimals count by the number that they denote.
-/
def Word.Alike : Word → Word → Prop
| .op a, .op b => a = b
| .const c, .const d => c.Alike d
| .name a, .name b => a = b
| .target a, .target b => a = b
| .count a, .count b => a = b
| _, _ => False

/- Two constants are alike. -/
def Constant.Alike : Constant → Constant → Prop
| .null, .null => True
| .number x, .number y => x = y
| .integer i, .integer j => i = j
| .decimal d, .decimal e => d.value = e.value
| .text s, .text t => s = t
| .routine f, .routine g => f.Alike g
| _, _ => False

/- Two functions are alike. -/
def Routine.Alike : Routine → Routine → Prop
| ⟨_, name, parameters, code⟩, ⟨_, name', parameters', code'⟩ =>
    name = name' ∧ parameters = parameters' ∧
      Word.AlikeAll code code'

/- Words in a row are alike, one by one. -/
def Word.AlikeAll : List Word → List Word → Prop
| [], [] => True
| w :: ws, v :: vs => w.Alike v ∧ Word.AlikeAll ws vs
| _, _ => False

end

mutual

/- What comes back of a word is like it. -/
theorem Word.alike_recalled
    (w : Word)
    (n : Nat) :
    (w.recalled n).1.Alike w := by
  match w with
  | .op code => simp [Word.recalled, Word.Alike]
  | .const c =>
      rw [Word.recalled, Word.Alike]
      exact c.alike_recalled n
  | .name text => simp [Word.recalled, Word.Alike]
  | .target t => simp [Word.recalled, Word.Alike]
  | .count k => simp [Word.recalled, Word.Alike]

/- What comes back of a constant is like it. -/
theorem Constant.alike_recalled
    (c : Constant)
    (n : Nat) :
    (c.recalled n).1.Alike c := by
  match c with
  | .null => simp [Constant.recalled, Constant.Alike]
  | .number x => simp [Constant.recalled, Constant.Alike]
  | .integer i => simp [Constant.recalled, Constant.Alike]
  | .decimal d =>
      rw [Constant.recalled, Constant.Alike]
      exact d.value_restored
  | .text s => simp [Constant.recalled, Constant.Alike]
  | .routine r =>
      rw [Constant.recalled, Constant.Alike]
      exact r.alike_recalled n

/- What comes back of a function is like it. -/
theorem Routine.alike_recalled
    (r : Routine)
    (n : Nat) :
    (r.recalled n).1.Alike r := by
  match r with
  | ⟨mark, name, parameters, code⟩ =>
      rw [Routine.recalled, Routine.Alike]
      exact ⟨rfl, rfl, Word.alikeAll_recalledAll code n⟩

/- What comes back of words is like them. -/
theorem Word.alikeAll_recalledAll
    (ws : List Word)
    (n : Nat) :
    Word.AlikeAll (Word.recalledAll n ws).1 ws := by
  match ws with
  | [] => simp [Word.recalledAll, Word.AlikeAll]
  | w :: ws =>
      rw [Word.recalledAll, Word.AlikeAll]
      exact ⟨w.alike_recalled n, Word.alikeAll_recalledAll ws _⟩

end

------------------------------------------------------------
-- Storing and Loading
------------------------------------------------------------

namespace Cache

variable {cache : Cache}
variable {fs after : Files}
variable {script : Script}
variable {code : Code}

/- What is stored for a script is found at its path. -/
theorem read_of_store (h : cache.store fs script code = .ok after) :
    after.read (cache.pathFor script) =
      .ok (encode script code, 0) := by
  unfold store at h
  split at h
  · cases h
  · dsimp only at h
    split at h
    · cases h
    · rename_i hWrite
      cases h
      exact Files.read_of_write hWrite

/- So the script is given what its own entry holds. -/
theorem load_of_store (h : cache.store fs script code = .ok after) :
    cache.load after script =
      .ok (decode? script (encode script code)) := by
  unfold load
  dsimp only
  rw [read_of_store h]

/- An entry that is read back counts for its own script. -/
theorem decode?_of_read?
    {back : Code}
    {next : Nat}
    (h :
      Entry.read? 0 (encode script code) =
        some (⟨Entry.current, script.name, back, script.modified⟩,
          next)) :
    decode? script (encode script code) = some back := by
  unfold decode?
  rw [h]
  exact if_pos ⟨rfl, rfl⟩

/-
  The text that is stored for a script is read back below
  the limit of levels, and only there. It then gives the
  version, the name and the time of the script and code like
  that of the script, and wherever the text was stored, the
  script is given this code.
-/
theorem read?_encode_iff
    (script : Script)
    (hWhole : Word.EachAll Constant.IsWhole code)
    (hNarrow : Word.NarrowAll code)
    (hTime : script.modified < 2 ^ 64) :
    (∃ back next,
        Entry.read? 0 (encode script code) =
            some (⟨1, script.name, back, script.modified⟩, next) ∧
          Word.AlikeAll back code ∧
          ∀ (cache : Cache) (fs after : Files),
            cache.store fs script code = .ok after →
              cache.load after script = .ok (some back)) ↔
      (entryFor script code).toJson.levels < 128 := by
  have hVersion : Entry.current < Nat.pow 2 32 := by decide
  have hRead := Entry.read?_write (e := entryFor script code) hWhole
    hVersion
  have hFits := Entry.fits_iff (e := entryFor script code) hNarrow
    hTime
  rw [← hFits]
  constructor
  · rintro ⟨back, next, hBack, _⟩
    by_contra hNot
    rw [if_neg hNot] at hRead
    cases hRead.symm.trans hBack
  · intro hFit
    rw [if_pos hFit] at hRead
    refine ⟨_, _, hRead, Word.alikeAll_recalledAll code 0, ?_⟩
    intro cache fs after hStore
    rw [load_of_store hStore, decode?_of_read? hRead]

end Cache

/- Words and constants of every kind, and functions in a function. -/
def Code.assorted : Code :=
  [.op 255, .name "\"\n", .target 18446744073709551615, .count 0,
   .const .null, .const (.number (.ofInt (-9007199254740991))),
   .const (.number (.zero true)),
   .const (.integer (-18446744073709551616)),
   .const (.decimal ⟨0, 3⟩), .const (.decimal ⟨-12, -16⟩),
   .const (.text "\x01π\\"),
   .const
     (.routine
       ⟨7, "f", ["a", "b"], [.const (.routine ⟨7, "g", [], []⟩)]⟩)]

/- They are stored for a script, and it is given code like them. -/
theorem Cache.read?_encode_iff_assorted :
    ∃ after back,
      Cache.store ⟨"c"⟩ .empty ⟨"a.pds", "", 5⟩ Code.assorted =
          .ok after ∧
        Cache.load ⟨"c"⟩ after ⟨"a.pds", "", 5⟩ = .ok (some back) ∧
        Word.AlikeAll back Code.assorted := by
  have hWhole : Word.EachAll Constant.IsWhole Code.assorted := by
    have hLarge : (-9007199254740991 : Int).natAbs < 2 ^ 53 := by
      norm_num
    have hZero : Binary64.IsWhole (.zero true) :=
      ⟨true, 0, by norm_num, rfl⟩
    simp [Code.assorted, Word.EachAll, Word.Each, Constant.Each,
      Routine.Each, Constant.IsWhole, Binary64.isWhole_ofInt hLarge,
      hZero]
  have hNarrow : Word.NarrowAll Code.assorted := by
    simp [Code.assorted, Word.NarrowAll, Word.Narrow,
      Constant.Narrow, Routine.Narrow]
  have hLevels :
      (Cache.entryFor ⟨"a.pds", "", 5⟩ Code.assorted).toJson.levels <
        128 := by
    decide +kernel
  have hStore :
      ∃ after,
        Cache.store ⟨"c"⟩ .empty ⟨"a.pds", "", 5⟩ Code.assorted =
          .ok after :=
    ⟨_, rfl⟩
  rcases (Cache.read?_encode_iff ⟨"a.pds", "", 5⟩ hWhole hNarrow
    (by norm_num)).2 hLevels with ⟨back, next, _, hAlike, hLoad⟩
  rcases hStore with ⟨after, hStore⟩
  exact ⟨after, back, hStore, hLoad _ _ _ hStore, hAlike⟩

end StackScript
