import StackScript.Proofs.Token.Spacing

/-
  A text put between quotes is read as that text.

  A backslash stands in front of every backslash and of
  every quote of the kind that is put around the text. The
  scanner then finds one string literal, and resolving it
  gives the text back. In the other direction, the inside of
  a string literal is made of plain characters and of
  backslashes with the character they take along: no
  backslash is left over, whatever the scanner has read.

  Key definitions include:
    * `Token.inQuotes`
    * `Token.Resolves`
    * `Token.lastSlashes`

  Key theorems include:
    * `Token.scan_inQuotes`
    * `Token.unquote_inQuotes`
    * `Token.IsQuotedTail.exists_resolves`
    * `Token.quoting_faithful`
-/

namespace StackScript
namespace Token

------------------------------------------------------------
-- Putting Quotes Around a Text
------------------------------------------------------------

/- How one character stands between quotes. -/
def guarded
    (quote : Char)
    (c : Char) : List Char :=
  if c = '\\' ∨ c = quote then ['\\', c] else [c]

/- A text between quotes. -/
def inQuotes
    (quote : Char)
    (text : String) : String :=
  String.ofList
    (quote :: (text.toList.flatMap (guarded quote) ++ [quote]))

variable {quote : Char}
variable {cs body : List Char}

/- A guarded character is one step of a literal. -/
theorem IsQuotedTail.guarded
    (c : Char)
    (h : IsQuotedTail quote cs) :
    IsQuotedTail quote (Token.guarded quote c ++ cs) := by
  unfold Token.guarded
  by_cases hMarked : c = '\\' ∨ c = quote
  · rw [if_pos hMarked]
    exact .escape h
  · rw [if_neg hMarked]
    exact .plain (fun hSlash => hMarked (.inl hSlash))
      (fun hQuote => hMarked (.inr hQuote)) h

/- Guarded characters end at the quote behind them. -/
theorem isQuotedTail_guarded (quote : Char) :
    ∀ cs : List Char,
      IsQuotedTail quote (cs.flatMap (guarded quote) ++ [quote])
  | [] => .close
  | c :: cs => by
      rw [List.flatMap_cons, List.append_assoc]
      exact (isQuotedTail_guarded quote cs).guarded c

theorem ne_slash_of_mem_quotes
    (h : quote ∈ quotes) :
    quote ≠ '\\' := by
  rintro rfl
  revert h
  decide

/- A whole string literal is one word. -/
theorem lexeme_of_isQuotedTail
    (hQuote : quote ∈ quotes)
    (h : IsQuotedTail quote cs) :
    lexeme quote cs = ⟨some .stringLiteral, cs.length + 1⟩ := by
  have hOther :
      quote ∉ spaces ∧ quote ≠ '#' ∧ ¬ (quote = ',' ∨ quote = ';') := by
    revert hQuote
    simp only [quotes, List.mem_cons, List.not_mem_nil, or_false]
    rintro (rfl | rfl | rfl) <;> decide
  have hSize :
      quotedSize? quote (cs ++ []) = some cs.length :=
    quotedSize?_append (ne_slash_of_mem_quotes hQuote) h
  rw [List.append_nil] at hSize
  unfold lexeme
  rw [if_neg hOther.1, if_neg hOther.2.1, if_neg hOther.2.2,
    if_pos hQuote, hSize]

/- A text between quotes is one token. -/
theorem scan_inQuotes
    (text : String)
    (h : quote ∈ quotes) :
    scan (inQuotes quote text) =
      [⟨.stringLiteral, inQuotes quote text, .start⟩] := by
  have hTail := isQuotedTail_guarded quote text.toList
  unfold scan inQuotes
  rw [String.toList_ofList]
  generalize text.toList.flatMap (guarded quote) ++ [quote] = tail at *
  dsimp only
  rw [List.length_cons, scanFrom, lexeme_of_isQuotedTail h hTail]
  dsimp only
  rw [← List.length_cons, List.take_length, List.drop_length]
  cases tail.length <;> rfl

------------------------------------------------------------
-- Resolving Backslashes
------------------------------------------------------------

/-
  What the inside of a string literal stands for. There is
  no rule for a backslash with nothing behind it.
-/
inductive Resolves : List Char → List Char → Prop
| nil :
    Resolves [] []
| escape
    {c : Char}
    {cs ds : List Char}
    (h : Resolves cs ds) :
    Resolves ('\\' :: c :: cs) (escaped c :: ds)
| plain
    {c : Char}
    {cs ds : List Char}
    (hSlash : c ≠ '\\')
    (h : Resolves cs ds) :
    Resolves (c :: cs) (c :: ds)

/- How many backslashes a text ends with. -/
def lastSlashes (cs : List Char) : Nat :=
  (cs.reverse.takeWhile (· = '\\')).length

/- The quotes around a text are all that is dropped. -/
theorem unquote_ofList
    (quote : Char)
    (body : List Char) :
    unquote (String.ofList (quote :: (body ++ [quote]))) =
      String.ofList (unescape body) := by
  unfold unquote
  rw [String.toList_ofList, List.drop_succ_cons, List.drop_zero,
    List.dropLast_concat]

theorem unescape_plain
    {c : Char}
    (h : c ≠ '\\') :
    unescape (c :: cs) = c :: unescape cs := by
  rw [unescape]
  · intro hEq _
    exact h hEq
  · intro _ _ hEq _
    exact h hEq

theorem Resolves.unescape_eq
    {ds : List Char}
    (h : Resolves body ds) :
    unescape body = ds := by
  induction h with
  | nil => rfl
  | escape h ih => rw [unescape, ih]
  | plain hSlash h ih => rw [unescape_plain hSlash, ih]

/- The marks that get a backslash stand for themselves. -/
theorem escaped_of_marked
    {c : Char}
    (hQuote : quote ∈ quotes)
    (h : c = '\\' ∨ c = quote) :
    escaped c = c := by
  rcases h with rfl | rfl
  · decide
  · revert hQuote
    simp only [quotes, List.mem_cons, List.not_mem_nil, or_false]
    rintro (rfl | rfl | rfl) <;> decide

theorem resolves_guarded
    (h : quote ∈ quotes) :
    ∀ cs, Resolves (cs.flatMap (guarded quote)) cs
  | [] => .nil
  | c :: cs => by
      have hMore := resolves_guarded h cs
      rw [List.flatMap_cons, guarded]
      by_cases hMarked : c = '\\' ∨ c = quote
      · have hStep := hMore.escape (c := c)
        rw [escaped_of_marked h hMarked] at hStep
        rwa [if_pos hMarked]
      · rw [if_neg hMarked]
        exact .plain (fun hSlash => hMarked (.inl hSlash)) hMore

/- Taking the quotes off gives the text back. -/
theorem unquote_inQuotes
    (text : String)
    (h : quote ∈ quotes) :
    unquote (inQuotes quote text) = text := by
  have hBody := resolves_guarded h text.toList
  unfold inQuotes
  rw [unquote_ofList, hBody.unescape_eq, String.ofList_toList]

------------------------------------------------------------
-- The Inside of a Scanned Literal
------------------------------------------------------------

/- A literal has an inside without a backslash left over. -/
theorem IsQuotedTail.exists_resolves (h : IsQuotedTail quote cs) :
    ∃ body ds, cs = body ++ [quote] ∧ Resolves body ds := by
  induction h with
  | close => exact ⟨[], [], rfl, .nil⟩
  | @escape c cs h ih =>
      rcases ih with ⟨body, ds, rfl, hBody⟩
      exact ⟨'\\' :: c :: body, _, rfl, hBody.escape⟩
  | @plain c cs hSlash hOther h ih =>
      rcases ih with ⟨body, ds, rfl, hBody⟩
      exact ⟨c :: body, _, rfl, hBody.plain hSlash⟩

theorem lastSlashes_le (cs : List Char) :
    lastSlashes cs ≤ cs.length := by
  have hLess :
      (cs.reverse.takeWhile (· = '\\')).length ≤ cs.reverse.length :=
    (List.takeWhile_prefix _).length_le
  rwa [List.length_reverse] at hLess

/- A character in front counts if backslashes only are behind it. -/
theorem lastSlashes_cons
    (c : Char)
    (cs : List Char) :
    lastSlashes (c :: cs) =
      if lastSlashes cs = cs.length ∧ c = '\\' then cs.length + 1
      else lastSlashes cs := by
  unfold lastSlashes
  rw [List.reverse_cons, List.takeWhile_append, List.length_reverse]
  by_cases hAll :
      (cs.reverse.takeWhile (· = '\\')).length = cs.length
  · by_cases hSlash : c = '\\' <;> simp [hAll, hSlash]
  · simp [hAll]

/- Backslashes at the end of an inside come in pairs. -/
theorem Resolves.even_lastSlashes
    {ds : List Char}
    (h : Resolves body ds) :
    lastSlashes body % 2 = 0 := by
  induction h with
  | nil => rfl
  | @escape c cs ds h ih =>
      have hLess := lastSlashes_le cs
      rw [lastSlashes_cons, lastSlashes_cons, List.length_cons]
      by_cases hAll : lastSlashes cs = cs.length ∧ c = '\\'
      · rw [if_pos hAll, if_pos ⟨rfl, rfl⟩]
        omega
      · rw [if_neg hAll, if_neg]
        · exact ih
        · omega
  | plain hSlash h ih =>
      rw [lastSlashes_cons, if_neg fun hBoth => hSlash hBoth.2]
      exact ih

/-
  Text and literals correspond. A text between double,
  single or back quotes is scanned as one literal and is
  read as the text. A literal of any source has two quotes
  of one of these kinds; whatever stands behind it, the
  scanner ends it at the second one; and its inside, in
  which the backslashes at the end come in pairs, is read
  character by character, none left over.
-/
theorem quoting_faithful :
    (∀ text : String, ∀ quote ∈ ['"', '\'', '\x60'],
      scan (inQuotes quote text) =
          [⟨.stringLiteral, inQuotes quote text, .start⟩] ∧
        unquote (inQuotes quote text) = text) ∧
      ∀ source : String, ∀ t ∈ scan source, t.kind = .stringLiteral →
        ∃ quote ∈ ['"', '\'', '\x60'], ∃ body : List Char,
          t.text.toList = quote :: (body ++ [quote]) ∧
          (∀ rest, quotedSize? quote (body ++ quote :: rest) =
            some (body.length + 1)) ∧
          lastSlashes body % 2 = 0 ∧
          Resolves body (unescape body) ∧
          unquote t.text = String.ofList (unescape body) := by
  constructor
  · intro text quote hQuote
    rw [← mem_quotes] at hQuote
    exact ⟨scan_inQuotes text hQuote, unquote_inQuotes text hQuote⟩
  · intro source t hMem hKind
    have hSpells : Spells t.kind t.text.toList :=
      spells_of_mem_scan hMem (by simp [hKind])
    rw [hKind] at hSpells
    have hText : t.text = String.ofList t.text.toList :=
      String.ofList_toList.symm
    generalize t.text.toList = cs at hSpells hText
    rcases cs with _ | ⟨quote, cs⟩
    · exact absurd hSpells id
    rcases hSpells with ⟨hQuote, hTail⟩
    rcases hTail.exists_resolves with ⟨body, ds, rfl, hBody⟩
    have hEnd :
        ∀ rest, quotedSize? quote (body ++ [quote] ++ rest) =
          some (body ++ [quote]).length :=
      fun rest =>
        quotedSize?_append
          (ne_slash_of_mem_quotes (mem_quotes.2 hQuote)) hTail
    simp only [List.append_assoc, List.singleton_append,
      List.length_append, List.length_singleton] at hEnd
    refine ⟨quote, hQuote, body, rfl, hEnd, hBody.even_lastSlashes,
      ?_, ?_⟩
    · rwa [hBody.unescape_eq]
    · rw [hText, unquote_ofList]

/-
  Both directions for quotes of all three kinds, around a
  text that has each of them and a backslash at its end.
-/
theorem quoting_faithful_mixed :
    (inQuotes '"' "'\x60\"\\" = "\"'\x60\\\"\\\\\"" ∧
        inQuotes '\'' "'\x60\"\\" = "'\\'\x60\"\\\\'" ∧
        inQuotes '\x60' "'\x60\"\\" = "\x60'\\\x60\"\\\\\x60") ∧
      ∀ quote ∈ ['"', '\'', '\x60'],
        scan (inQuotes quote "'\x60\"\\") =
            [⟨.stringLiteral, inQuotes quote "'\x60\"\\", .start⟩] ∧
          unquote (inQuotes quote "'\x60\"\\") = "'\x60\"\\" ∧
          ∃ outer ∈ ['"', '\'', '\x60'], ∃ body : List Char,
            (inQuotes quote "'\x60\"\\").toList =
                outer :: (body ++ [outer]) ∧
              lastSlashes body % 2 = 0 := by
  refine ⟨⟨by decide, by decide, by decide⟩, ?_⟩
  intro quote hQuote
  rcases quoting_faithful.1 "'\x60\"\\" quote hQuote with
    ⟨hScan, hUnquote⟩
  have hMem :
      (⟨.stringLiteral, inQuotes quote "'\x60\"\\", .start⟩ : Token) ∈
        scan (inQuotes quote "'\x60\"\\") := by
    rw [hScan]
    exact List.mem_singleton_self _
  rcases quoting_faithful.2 _ _ hMem rfl with
    ⟨outer, hOuter, body, hBody, _, hEven, _⟩
  exact ⟨hScan, hUnquote, outer, hOuter, body, hBody, hEven⟩

end Token
end StackScript
