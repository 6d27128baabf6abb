import StackScript.Json.Escape
import StackScript.Json.Reader

/-
  Text that is escaped, taken from a stream and resolved.

  Key definitions include:
    * `Json.Escaped`

  Key theorems include:
    * `Json.scanString?_escape`
    * `Json.unescape?_escape`
-/

namespace StackScript
namespace Json

------------------------------------------------------------
-- One Character
------------------------------------------------------------

/- The forms in which a character may be escaped. -/
inductive Escaped (c : Char) : List Char → Prop
| letter
    {l : Char}
    (hLetter : l ∈ escapeLetters)
    (hMeans : letter? l = some c) :
    Escaped c ['\\', l]
| code
    {x y z w : Char}
    (hDigits : [x, y, z, w].all (Digits.isDigit 16) = true)
    (hMeans : Digits.read? 16 [x, y, z, w] = some c.toNat)
    (hSmall : c.toNat < 32) :
    Escaped c ['\\', 'u', x, y, z, w]
| plain
    (hQuote : c ≠ '"')
    (hSlash : c ≠ '\\')
    (hLarge : 32 ≤ c.toNat) :
    Escaped c [c]

/- The code of a control character has four digits. -/
theorem hex_control :
    ∀ n < 32,
      let ds :=
        Digits.zeros (4 - (Text.hex n).length) ++ Text.hex n
      ds.length = 4 ∧ ds.all (Digits.isDigit 16) = true ∧
        Digits.read? 16 ds = some n := by
  decide

/- The escaped form of a character is one of these. -/
theorem escaped_escapeChar (c : Char) :
    Escaped c (escapeChar c) := by
  unfold escapeChar
  split
  · rename_i h
    rw [h]
    exact .letter (by decide) (by decide)
  split
  · rename_i h
    rw [h]
    exact .letter (by decide) (by decide)
  split
  · rename_i h
    rw [h]
    exact .letter (by decide) (by decide)
  split
  · rename_i h
    rw [h]
    exact .letter (by decide) (by decide)
  split
  · rename_i h
    rw [h]
    exact .letter (by decide) (by decide)
  split
  · rename_i h
    rw [h]
    exact .letter (by decide) (by decide)
  split
  · rename_i h
    rw [h]
    exact .letter (by decide) (by decide)
  split
  · rename_i hSmall
    rcases hex_control c.toNat hSmall with ⟨hLength, hDigits, hMeans⟩
    generalize hForm :
      Digits.zeros (4 - (Text.hex c.toNat).length)
        ++ Text.hex c.toNat = ds at hLength hDigits hMeans
    match ds, hLength with
    | [x, y, z, w], _ =>
        dsimp only
        rw [List.append_assoc, hForm]
        exact .code hDigits hMeans hSmall
  · rename_i hQuote hSlash _ _ _ _ _ hLarge
    exact .plain hQuote hSlash (Nat.le_of_not_lt hLarge)

variable {c : Char}
variable {raw cs : List Char}

/- An escaped character is taken as it stands. -/
theorem scanString?_escaped (h : Escaped c raw) :
    scanString? (raw ++ cs) =
      (scanString? cs).map fun (more, rest) => (raw ++ more, rest) := by
  cases h with
  | @letter l hLetter hMeans =>
      have hNot : l ≠ 'u' := by
        rintro rfl
        exact absurd hLetter (by decide)
      simp [scanString?, hLetter, hNot]
  | code hDigits hMeans hSmall =>
      simp only [List.cons_append, List.nil_append, scanString?]
      rw [if_pos hDigits]
  | plain hQuote hSlash hLarge =>
      simp [scanString?, hSlash, Nat.not_lt.2 hLarge]

/- An escaped character is resolved. -/
theorem unescapeAfter?_escaped (h : Escaped c raw) :
    unescapeAfter? none (raw ++ cs) =
      (unescapeAfter? none cs).map (c :: ·) := by
  cases h with
  | @letter l hLetter hMeans =>
      have hNot : l ≠ 'u' := by
        rintro rfl
        exact absurd hLetter (by decide)
      simp [unescapeAfter?, hMeans, hNot]
  | code hDigits hMeans hSmall =>
      rw [List.cons_append, unescapeAfter?.eq_def]
      simp only [List.cons_append, List.nil_append]
      rw [hMeans]
      have hHigh : isHigh c.toNat = false := by
        unfold isHigh
        simp
        omega
      have hLow : isLow c.toNat = false := by
        unfold isLow
        simp
        omega
      simp [hHigh, hLow, Char.ofNat_toNat]
  | plain hQuote hSlash hLarge =>
      simp [unescapeAfter?, hSlash]

------------------------------------------------------------
-- Texts
------------------------------------------------------------

/- An escaped text is taken up to its closing quote. -/
theorem scanString?_escape (text rest : List Char) :
    scanString? (escape text ++ '"' :: rest) =
      some (escape text, rest) := by
  unfold escape
  induction text with
  | nil => simp [scanString?]
  | cons c text ih =>
      rw [List.flatMap_cons, List.append_assoc,
        scanString?_escaped (escaped_escapeChar c), ih]
      rfl

/- An escaped text is resolved. -/
theorem unescape?_escape (text : List Char) :
    unescape? (escape text) = some text := by
  unfold unescape? escape
  induction text with
  | nil => simp [unescapeAfter?]
  | cons c text ih =>
      rw [List.flatMap_cons,
        unescapeAfter?_escaped (escaped_escapeChar c), ih]
      rfl

end Json
end StackScript
