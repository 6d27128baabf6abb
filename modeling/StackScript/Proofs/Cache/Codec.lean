import StackScript.Proofs.Cache.Leaves

/-
  Code that is stored and read back.

  What comes back is the code that was stored, its functions
  marked anew in the order in which they end and its decimals
  as their texts give them. Nothing comes back of code that
  is nested too deeply or holds a position or a count that
  is too large.

  Key definitions include:
    * `Word.recalledAll`
    * `Word.fitsAll`
    * `Word.EachAll`
    * `Entry.Fits`

  Key theorems include:
    * `Code.ofJson_toJson`
    * `Entry.read?_write`
-/

namespace StackScript

------------------------------------------------------------
-- What Comes Back
------------------------------------------------------------

mutual

/-
  The word that comes back, functions marked from a number
  on, and the next such number.
-/
def Word.recalled : Nat → Word → Word × Nat
| n, .const c => (.const (c.recalled n).1, (c.recalled n).2)
| n, w => (w, n)

/- The constant that comes back. -/
def Constant.recalled : Nat → Constant → Constant × Nat
| n, .decimal d => (.decimal d.restored, n)
| n, .routine r => (.routine (r.recalled n).1, (r.recalled n).2)
| n, c => (c, n)

/- The function that comes back, marked after those in it. -/
def Routine.recalled : Nat → Routine → Routine × Nat
| n, ⟨_, name, parameters, code⟩ =>
    (⟨(Word.recalledAll n code).2, name, parameters,
        (Word.recalledAll n code).1⟩,
     (Word.recalledAll n code).2 + 1)

/- The words that come back. -/
def Word.recalledAll : Nat → List Word → List Word × Nat
| n, [] => ([], n)
| n, w :: ws =>
    ((w.recalled n).1 :: (Word.recalledAll (w.recalled n).2 ws).1,
     (Word.recalledAll (w.recalled n).2 ws).2)

end

mutual

/- A word is within the levels that are looked into. -/
def Word.fits : Nat → Word → Bool
| 0, _ => false
| depth + 1, .const c => c.fits depth
| _ + 1, .target t => decide (t ≤ maxWord)
| _ + 1, .count n => decide (n ≤ maxWord)
| _ + 1, _ => true

/- A constant is within the levels that are looked into. -/
def Constant.fits : Nat → Constant → Bool
| _, .null => true
| 0, _ => false
| depth + 1, .integer _ => decide (2 ≤ depth)
| depth + 1, .routine r => r.fits depth
| _ + 1, _ => true

/- A function is within the levels that are looked into. -/
def Routine.fits : Nat → Routine → Bool
| depth, ⟨_, _, _, code⟩ =>
    decide (3 ≤ depth) && Word.fitsAll (depth - 3) code

/- So are all words of a list. -/
def Word.fitsAll : Nat → List Word → Bool
| _, [] => true
| depth, w :: ws => w.fits depth && Word.fitsAll depth ws

end

/- Code is within the levels that are looked into. -/
def Code.fits
    (depth : Nat)
    (code : Code) : Bool :=
  decide (2 ≤ depth) && Word.fitsAll (depth - 2) code

mutual

/- A property of each constant in a word that is no function. -/
def Word.Each (p : Constant → Prop) : Word → Prop
| .const c => c.Each p
| _ => True

/- A property of each constant in a constant. -/
def Constant.Each (p : Constant → Prop) : Constant → Prop
| .routine r => r.Each p
| c => p c

/- A property of each constant in a function. -/
def Routine.Each (p : Constant → Prop) : Routine → Prop
| ⟨_, _, _, code⟩ => Word.EachAll p code

/- A property of each constant in some words. -/
def Word.EachAll (p : Constant → Prop) : List Word → Prop
| [] => True
| w :: ws => w.Each p ∧ Word.EachAll p ws

end

/- A constant that is a floating-point number is a whole one. -/
def Constant.IsWhole (c : Constant) : Prop :=
  ∀ n, c = .number n → n.IsWhole

------------------------------------------------------------
-- Legible Code
------------------------------------------------------------

mutual

/- What a word is stored as is legible. -/
theorem Word.legible_toJson
    (w : Word)
    (h : w.Each Constant.IsWhole) :
    w.toJson.Legible := by
  match w with
  | .op code =>
      rw [Word.toJson]
      exact Json.legible_tagged rfl (Json.legible_ofNat _)
  | .const c =>
      rw [Word.Each] at h
      rw [Word.toJson]
      exact Json.legible_tagged rfl (c.legible_toJson h)
  | .name text =>
      rw [Word.toJson]
      exact Json.legible_tagged rfl (Json.legible_ofText _)
  | .target t =>
      rw [Word.toJson]
      exact Json.legible_tagged rfl (Json.legible_ofNat _)
  | .count n =>
      rw [Word.toJson]
      exact Json.legible_tagged rfl (Json.legible_ofNat _)

/- What a constant is stored as is legible. -/
theorem Constant.legible_toJson
    (c : Constant)
    (h : c.Each Constant.IsWhole) :
    c.toJson.Legible := by
  match c with
  | .null =>
      rw [Constant.toJson]
      exact Json.legible_ofText _
  | .number n =>
      have hWhole : Constant.IsWhole (.number n) := h
      rw [Constant.toJson]
      exact Json.legible_tagged rfl (Json.legible_ofBinary64 (hWhole n rfl))
  | .integer i =>
      rw [Constant.toJson]
      exact Json.legible_tagged rfl (Json.legible_ofBigInt i)
  | .decimal d =>
      rw [Constant.toJson]
      exact Json.legible_tagged rfl (Json.legible_ofText _)
  | .text s =>
      rw [Constant.toJson]
      exact Json.legible_tagged rfl (Json.legible_ofText _)
  | .routine r =>
      rw [Constant.Each] at h
      rw [Constant.toJson]
      exact Json.legible_tagged rfl (r.legible_toJson h)

/- What a function is stored as is legible. -/
theorem Routine.legible_toJson
    (r : Routine)
    (h : r.Each Constant.IsWhole) :
    r.toJson.Legible := by
  match r with
  | ⟨_, name, parameters, code⟩ =>
      rw [Routine.Each] at h
      have hWords := Word.legible_toJsons code h
      have hList : (Json.list (Word.toJsons code)).Legible := by
        rw [Json.Legible]
        exact hWords
      have hNames :=
        Json.legibleItems_map Json.legible_ofText parameters
      rw [Routine.toJson]
      simp only [Json.Legible, Json.LegibleMembers]
      exact ⟨Json.IsTag.isString rfl, Json.legible_ofText name,
        Json.IsTag.isString rfl, hNames, Json.IsTag.isString rfl,
        Json.legible_tagged rfl hList, trivial⟩

/- What words are stored as is legible. -/
theorem Word.legible_toJsons
    (ws : List Word)
    (h : Word.EachAll Constant.IsWhole ws) :
    Json.LegibleItems (Word.toJsons ws) := by
  match ws with
  | [] =>
      rw [Word.toJsons, Json.LegibleItems]
      trivial
  | w :: ws =>
      rw [Word.EachAll] at h
      rw [Word.toJsons, Json.LegibleItems]
      exact ⟨w.legible_toJson h.1, Word.legible_toJsons ws h.2⟩

end

------------------------------------------------------------
-- Reading Code
------------------------------------------------------------

namespace Decode

variable {α β : Type}
variable {n : Nat}

/- Reading goes on from where the first part ended. -/
theorem run_bind
    (first : Decode α)
    (next : α → Decode β) :
    (first >>= next).run n =
      (first.run n).bind fun r => (next r.1).run r.2 :=
  rfl

/- What reads no function uses up no number. -/
theorem run_liftM (o : Option α) :
    (liftM o : Decode α).run n = o.map fun a => (a, n) := by
  cases o with
  | none => rfl
  | some a => rfl

/- What is there is taken, and reading goes on. -/
theorem run_bind_some
    (a : α)
    (next : α → Decode β) :
    ((liftM (some a) : Decode α) >>= next).run n = (next a).run n :=
  rfl

end Decode

section

variable {depth n : Nat}
variable {tag : String}
variable {value : Json}

/- A word that holds no constant is read by its tag. -/
theorem Word.ofJson_tagged
    (tag : String)
    (hTag : Json.IsTag tag)
    (hNot : tag ≠ "Const") :
    (Word.ofJson (depth + 1) (.tagged tag value)).run n =
      (Word.ofTagged? tag value).map fun w => (w, n) := by
  rw [Word.ofJson, Json.tag?_tagged hTag, Decode.run_bind_some]
  dsimp only
  rw [if_neg hNot, Decode.run_liftM]

/- A position or a count comes back if it is not too large. -/
theorem Word.map_nat?
    (make : Nat → Word)
    (t : Nat) :
    (((Json.ofNat t).nat? maxWord).map make).map
        (fun w => (w, n)) =
      if decide (t ≤ maxWord) then some (make t, n) else none := by
  rw [Json.nat?_ofNat (by decide)]
  by_cases ht : t ≤ maxWord
  · rw [if_pos ht, if_pos (decide_eq_true ht)]
    rfl
  · rw [if_neg ht, if_neg (by simpa using ht)]
    rfl

/- A constant in a word is read one level further in. -/
theorem Word.ofJson_const :
    (Word.ofJson (depth + 1) (.tagged "Const" value)).run n =
      ((Constant.ofJson depth value).run n).map fun r =>
        (.const r.1, r.2) := by
  have hTag : Json.IsTag "Const" := rfl
  rw [Word.ofJson, Json.tag?_tagged hTag, Decode.run_bind_some]
  dsimp only
  rw [if_pos rfl, Decode.run_bind]
  cases (Constant.ofJson depth value).run n with
  | none => rfl
  | some r => rfl

/- A constant that holds no function is read by its tag. -/
theorem Constant.ofJson_tagged
    (tag : String)
    (hTag : Json.IsTag tag)
    (hNot : tag ≠ "Function") :
    (Constant.ofJson (depth + 1) (.tagged tag value)).run n =
      (Constant.ofTagged? depth tag value).map fun c => (c, n) := by
  rw [Json.tagged, Constant.ofJson, ← Json.tagged,
    Json.tag?_tagged hTag, Decode.run_bind_some]
  · dsimp only
    rw [if_neg hNot, Decode.run_liftM]
  · intro raw hText
    cases hText

/- A large integer comes back if two levels are left. -/
theorem Constant.map_bigInt? (i : Int) :
    (((Json.ofBigInt i).bigInt? depth).map Constant.integer).map
        (fun c => (c, n)) =
      if decide (2 ≤ depth) then some (.integer i, n) else none := by
  rw [Json.bigInt?_ofBigInt]
  by_cases hDepth : 2 ≤ depth
  · rw [if_pos hDepth, if_pos (decide_eq_true hDepth)]
    rfl
  · rw [if_neg hDepth, if_neg (by simpa using hDepth)]
    rfl

/- A function in a constant is read one level further in. -/
theorem Constant.ofJson_function :
    (Constant.ofJson (depth + 1) (.tagged "Function" value)).run n =
      ((Routine.ofJson depth value).run n).map fun r =>
        (.routine r.1, r.2) := by
  have hTag : Json.IsTag "Function" := rfl
  rw [Json.tagged, Constant.ofJson, ← Json.tagged,
    Json.tag?_tagged hTag, Decode.run_bind_some]
  · dsimp only
    rw [if_pos rfl, Decode.run_bind]
    cases (Routine.ofJson depth value).run n with
    | none => rfl
    | some r => rfl
  · intro raw hText
    cases hText

/- No constant with a tag is read where no level is left. -/
theorem Constant.ofJson_zero :
    (Constant.ofJson 0 (.tagged tag value)).run n = none := by
  rw [Json.tagged, Constant.ofJson]
  · rfl
  · intro raw hText
    cases hText

/- The words of code are read two levels further in. -/
theorem Code.ofJson_words (items : List Json) :
    (Code.ofJson depth (.tagged "words" (.list items))).run n =
      if 2 ≤ depth then (items.mapM (Word.ofJson (depth - 2))).run n
      else none := by
  match depth with
  | 0 =>
      rw [Code.ofJson]
      rfl
  | 1 =>
      rw [Code.ofJson]
      change (Word.ofJsons 0 items).run n = none
      rw [Word.ofJsons]
      rfl
  | depth + 2 =>
      rw [Code.ofJson]
      change (Word.ofJsons (depth + 1) items).run n = _
      rw [Word.ofJsons, if_pos (by omega)]
      rfl

/- A function is its name, its parameters and its code. -/
theorem Routine.ofJson_object
    (mark : Nat)
    (name : String)
    (parameters : List String)
    (code : Code) :
    (Routine.ofJson (depth + 1)
        (Routine.toJson ⟨mark, name, parameters, code⟩)).run n =
      ((Code.ofJson depth code.toJson).run n).map fun r =>
        (⟨r.2, name, parameters, r.1⟩, r.2 + 1) := by
  have hNames :
      (parameters.map Json.ofText).mapM Json.text? =
        some parameters := by
    induction parameters with
    | nil => rfl
    | cons p ps ih =>
        rw [List.map_cons, List.mapM_cons, Json.text?_ofText, ih]
        rfl
  have hFields :
      (Routine.toJson ⟨mark, name, parameters, code⟩).fields?
          ["name", "parameters", "code"] =
        some [.ofText name, .list (parameters.map .ofText),
          code.toJson] :=
    rfl
  rw [Routine.ofJson, hFields]
  dsimp only
  rw [Json.text?_ofText, Decode.run_bind_some, Json.list?,
    Decode.run_bind_some, hNames]
  by_cases hDepth : depth = 0
  · rw [if_pos hDepth, hDepth, Code.ofJson]
    rfl
  · rw [if_neg hDepth, Decode.run_bind_some, Decode.run_bind]
    cases (Code.ofJson depth code.toJson).run n with
    | none => rfl
    | some r => rfl

end

mutual

/- A word comes back if it fits. -/
theorem Word.ofJson_toJson
    (w : Word)
    (h : w.Each Constant.IsWhole)
    (depth n : Nat) :
    (Word.ofJson depth w.toJson).run n =
      if w.fits depth then some (w.recalled n) else none := by
  match depth, w with
  | 0, w =>
      rw [Word.ofJson, Word.fits]
      rfl
  | depth + 1, .op code =>
      have hByte : code.toNat ≤ 255 := by
        have hLess := code.toNat_lt
        omega
      rw [Word.toJson, Word.ofJson_tagged "Op" rfl (by decide)]
      dsimp only [Word.ofTagged?]
      rw [Json.nat?_ofNat (by decide), if_pos hByte,
        Option.map_some, UInt8.ofNat_toNat]
      rfl
  | depth + 1, .const c =>
      rw [Word.Each] at h
      rw [Word.toJson, Word.ofJson_const, c.ofJson_toJson h depth n,
        Word.fits, Word.recalled]
      cases c.fits depth with
      | true => rfl
      | false => rfl
  | depth + 1, .name text =>
      rw [Word.toJson, Word.ofJson_tagged "Name" rfl (by decide)]
      dsimp only [Word.ofTagged?]
      rw [Json.text?_ofText]
      rfl
  | depth + 1, .target t =>
      rw [Word.toJson, Word.ofJson_tagged "Target" rfl (by decide),
        Word.fits]
      exact Word.map_nat? .target t
  | depth + 1, .count k =>
      rw [Word.toJson, Word.ofJson_tagged "Count" rfl (by decide),
        Word.fits]
      exact Word.map_nat? .count k

/- A constant comes back if it fits. -/
theorem Constant.ofJson_toJson
    (c : Constant)
    (h : c.Each Constant.IsWhole)
    (depth n : Nat) :
    (Constant.ofJson depth c.toJson).run n =
      if c.fits depth then some (c.recalled n) else none := by
  match depth, c with
  | depth, .null =>
      have hNull :
          Json.unescape? (Json.escape "Null".toList) =
            some "Null".toList :=
        Json.unescape?_escape _
      rw [Constant.toJson, Json.ofText, Constant.ofJson,
        if_pos hNull, Constant.fits]
      rfl
  | 0, .number x =>
      rw [Constant.toJson, Constant.ofJson_zero]
      rfl
  | 0, .integer i =>
      rw [Constant.toJson, Constant.ofJson_zero]
      rfl
  | 0, .decimal d =>
      rw [Constant.toJson, Constant.ofJson_zero]
      rfl
  | 0, .text s =>
      rw [Constant.toJson, Constant.ofJson_zero]
      rfl
  | 0, .routine r =>
      rw [Constant.toJson, Constant.ofJson_zero]
      rfl
  | depth + 1, .number x =>
      have hWhole : Constant.IsWhole (.number x) := h
      rw [Constant.toJson,
        Constant.ofJson_tagged "Number" rfl (by decide)]
      dsimp only [Constant.ofTagged?]
      rw [Json.number?_ofBinary64 (hWhole x rfl)]
      rfl
  | depth + 1, .integer i =>
      rw [Constant.toJson,
        Constant.ofJson_tagged "Integer" rfl (by decide),
        Constant.fits]
      exact Constant.map_bigInt? i
  | depth + 1, .decimal d =>
      rw [Constant.toJson,
        Constant.ofJson_tagged "Decimal" rfl (by decide)]
      dsimp only [Constant.ofTagged?]
      rw [Json.decimal?_ofText]
      rfl
  | depth + 1, .text s =>
      rw [Constant.toJson,
        Constant.ofJson_tagged "String" rfl (by decide)]
      dsimp only [Constant.ofTagged?]
      rw [Json.text?_ofText]
      rfl
  | depth + 1, .routine r =>
      rw [Constant.Each] at h
      rw [Constant.toJson, Constant.ofJson_function,
        r.ofJson_toJson h depth n, Constant.fits, Constant.recalled]
      cases r.fits depth with
      | true => rfl
      | false => rfl

/- A function comes back if it fits. -/
theorem Routine.ofJson_toJson
    (r : Routine)
    (h : r.Each Constant.IsWhole)
    (depth n : Nat) :
    (Routine.ofJson depth r.toJson).run n =
      if r.fits depth then some (r.recalled n) else none := by
  match depth, r with
  | 0, ⟨mark, name, parameters, code⟩ =>
      rw [Routine.ofJson, Routine.fits]
      rfl
  | depth + 1, ⟨mark, name, parameters, code⟩ =>
      rw [Routine.Each] at h
      rw [Routine.ofJson_object, Code.toJson, Code.ofJson_words,
        Word.mapM_ofJson_toJsons code h, Routine.fits,
        Routine.recalled]
      by_cases hDepth : 2 ≤ depth
      · rw [if_pos hDepth, show depth + 1 - 3 = depth - 2 by omega,
          decide_eq_true (show 3 ≤ depth + 1 by omega),
          Bool.true_and]
        cases Word.fitsAll (depth - 2) code with
        | true => rfl
        | false => rfl
      · rw [if_neg hDepth,
          decide_eq_false (show ¬ 3 ≤ depth + 1 by omega),
          Bool.false_and]
        rfl

/- Words come back if they all fit. -/
theorem Word.mapM_ofJson_toJsons
    (ws : List Word)
    (h : Word.EachAll Constant.IsWhole ws)
    (depth n : Nat) :
    ((Word.toJsons ws).mapM (Word.ofJson depth)).run n =
      if Word.fitsAll depth ws then some (Word.recalledAll n ws)
      else none := by
  match ws with
  | [] =>
      rw [Word.toJsons, List.mapM_nil, Word.fitsAll]
      rfl
  | w :: ws =>
      rw [Word.EachAll] at h
      rw [Word.toJsons, List.mapM_cons, Decode.run_bind,
        w.ofJson_toJson h.1 depth n, Word.fitsAll,
        Word.recalledAll]
      cases w.fits depth with
      | false => rfl
      | true =>
          rw [if_pos rfl, Option.bind_some, Decode.run_bind,
            Word.mapM_ofJson_toJsons ws h.2 depth, Bool.true_and]
          cases Word.fitsAll depth ws with
          | true => rfl
          | false => rfl

end

/- Code comes back if it fits. -/
theorem Code.ofJson_toJson
    {code : Code}
    (h : Word.EachAll Constant.IsWhole code)
    (depth n : Nat) :
    (Code.ofJson depth code.toJson).run n =
      if code.fits depth then some (Word.recalledAll n code)
      else none := by
  rw [Code.toJson, Code.ofJson_words,
    Word.mapM_ofJson_toJsons code h, Code.fits]
  by_cases hDepth : 2 ≤ depth
  · rw [if_pos hDepth, decide_eq_true hDepth, Bool.true_and]
  · rw [if_neg hDepth, decide_eq_false hDepth, Bool.false_and]
    rfl

------------------------------------------------------------
-- Entries
------------------------------------------------------------

namespace Entry

variable {e : Entry}

/- An entry of which all can be read back. -/
def Fits (e : Entry) : Prop :=
  e.bytecode.fits (maxNesting - 1) = true ∧ e.mtime ≤ maxWord

instance (e : Entry) : Decidable e.Fits :=
  inferInstanceAs (Decidable (_ ∧ _))

/- The entry that comes back. -/
def recalled (e : Entry) : Entry :=
  { e with bytecode := (Word.recalledAll 0 e.bytecode).1 }

/- What an entry is stored as is legible. -/
theorem legible_toJson (h : Word.EachAll Constant.IsWhole e.bytecode) :
    e.toJson.Legible := by
  have hWords := Word.legible_toJsons e.bytecode h
  have hList :
      (Json.list (Word.toJsons e.bytecode)).Legible := by
    rw [Json.Legible]
    exact hWords
  have hCode : e.bytecode.toJson.Legible :=
    Json.legible_tagged rfl hList
  unfold toJson
  simp only [Json.Legible, Json.LegibleMembers]
  exact ⟨Json.IsTag.isString rfl, Json.legible_ofNat _,
    Json.IsTag.isString rfl, Json.legible_ofText _,
    Json.IsTag.isString rfl, hCode,
    Json.IsTag.isString rfl, Json.legible_ofNat _, trivial⟩

/- An entry that is written is read back if it fits. -/
theorem read?_write
    (hWhole : Word.EachAll Constant.IsWhole e.bytecode)
    (hVersion : e.version < Nat.pow 2 32) :
    read? 0 e.write =
      if e.Fits then
        some (e.recalled, (Word.recalledAll 0 e.bytecode).2)
      else none := by
  have hFields :
      e.toJson.fields? ["version", "source", "bytecode", "mtime"] =
        some [.ofNat e.version, .ofText e.source,
          e.bytecode.toJson, .ofNat e.mtime] :=
    rfl
  unfold read? write
  rw [Json.read?_write (legible_toJson hWhole)]
  change (ofJson e.toJson).run 0 = _
  unfold ofJson
  rw [hFields]
  dsimp only
  rw [Json.nat?_ofNat (by decide), if_pos (by omega),
    Decode.run_bind_some, Json.text?_ofText, Decode.run_bind_some,
    Decode.run_bind, Code.ofJson_toJson hWhole,
    Json.nat?_ofNat (by decide)]
  by_cases hCode : e.bytecode.fits (maxNesting - 1) = true
  · rw [if_pos hCode]
    by_cases hTime : e.mtime ≤ maxWord
    · have hFits : e.Fits := ⟨hCode, hTime⟩
      rw [if_pos hTime, if_pos hFits]
      rfl
    · have hFits : ¬ e.Fits := fun h => hTime h.2
      rw [if_neg hTime, if_neg hFits]
      rfl
  · have hFits : ¬ e.Fits := fun h => hCode h.1
    rw [if_neg hCode, if_neg hFits]
    rfl

end Entry

end StackScript
