import StackScript.Proofs.Token.Spacing

/-
  A blank or a comment ends every word.

  No number, name or operator goes on behind one, and a
  string literal is closed before, so the front of a text is
  measured alike with and without what comes behind.

  Key definitions include:
    * `Token.breaks`

  Key theorems include:
    * `Token.size_lexeme`
    * `Token.lexeme_append`
-/

namespace StackScript
namespace Token

------------------------------------------------------------
-- Sizes
------------------------------------------------------------

variable {c : Char}
variable {cs rest : List Char}

theorem quotedSize?_le
    {quote : Char}
    {n : Nat}
    (h : quotedSize? quote cs = some n) :
    n ≤ cs.length := by
  fun_induction quotedSize? quote cs generalizing n with
  | case1 | case2 => cases h
  | case3 c cs ih =>
      rcases Option.map_eq_some_iff.1 h with ⟨m, hMore, rfl⟩
      have hLess := ih hMore
      simp only [List.length_cons]
      omega
  | case4 =>
      cases h
      simp
  | case5 c cs _ _ _ ih =>
      rcases Option.map_eq_some_iff.1 h with ⟨m, hMore, rfl⟩
      have hLess := ih hMore
      simp only [List.length_cons]
      omega

theorem identifierSize_le (cs : List Char) :
    identifierSize cs ≤ cs.length := by
  fun_induction identifierSize cs with
  | case2 c cs _ ih =>
      simp only [List.length_cons] at ih ⊢
      omega
  | case4 c cs _ _ ih =>
      simp only [List.length_cons]
      omega
  | _ => simp

theorem digitRun_le
    (base : Nat)
    (cs : List Char) :
    digitRun base cs ≤ cs.length :=
  (List.takeWhile_prefix _).length_le

theorem decimalSize_le (cs : List Char) :
    decimalSize cs ≤ cs.length := by
  have hWhole := digitRun_le 10 cs
  unfold decimalSize
  dsimp only
  split
  · rename_i rest hPoint
    have hPlaces := digitRun_le 10 rest
    have hLength := congrArg List.length hPoint
    simp only [List.length_drop, List.length_cons] at hLength
    split <;> omega
  · exact hWhole

theorem numberSize_le (cs : List Char) :
    numberSize cs ≤ cs.length := by
  have hDecimal := decimalSize_le cs
  unfold numberSize
  split
  · rename_i rest
    have hRun := digitRun_le 2 rest
    dsimp only
    split
    · exact hDecimal
    · simp only [List.length_cons]
      omega
  · rename_i rest
    have hRun := digitRun_le 16 rest
    dsimp only
    split
    · exact hDecimal
    · simp only [List.length_cons]
      omega
  · exact hDecimal

theorem decimalSize_pos
    (h : c.isDigit = true) :
    0 < decimalSize (c :: cs) := by
  have hRun : 0 < digitRun 10 (c :: cs) :=
    Nat.pos_of_ne_zero (digitRun_ne_zero h)
  unfold decimalSize
  dsimp only
  split
  · split <;> omega
  · exact hRun

theorem numberSize_pos
    (h : c.isDigit = true) :
    0 < numberSize (c :: cs) := by
  have hDecimal : 0 < decimalSize (c :: cs) :=
    decimalSize_pos h
  unfold numberSize
  split
  · dsimp only
    split <;> omega
  · dsimp only
    split <;> omega
  · exact hDecimal

/- The front of a text is some of it, and not more. -/
theorem size_lexeme
    (c : Char)
    (cs : List Char) :
    0 < (lexeme c cs).size ∧ (lexeme c cs).size ≤ cs.length + 1 := by
  have hOne : 0 < 1 ∧ 1 ≤ cs.length + 1 := by omega
  unfold lexeme
  split
  · exact hOne
  split
  · have hLine :
        (cs.takeWhile (· ≠ '\n')).length ≤ cs.length :=
      (List.takeWhile_prefix _).length_le
    dsimp only
    omega
  split
  · exact hOne
  split
  · split
    · rename_i n hSize
      have hLess := quotedSize?_le hSize
      dsimp only
      omega
    · exact hOne
  split
  · rename_i hDigit
    exact ⟨numberSize_pos hDigit, numberSize_le (c :: cs)⟩
  split
  · have hName := identifierSize_le cs
    dsimp only
    omega
  · rcases symbol_cases c cs with
      ⟨d, ds, rfl, _, hEq⟩ | ⟨_, hEq⟩ | hEq
    · rw [hEq]
      simp
    · rw [hEq]
      exact hOne
    · rw [hEq]
      exact hOne

------------------------------------------------------------
-- In Front of a Break
------------------------------------------------------------

/- The characters that end a word outside quotes. -/
def breaks : List Char :=
  '#' :: spaces

variable {g : Char}

theorem takeWhile_append_break
    {p : Char → Bool}
    (h : p g = false) :
    (cs ++ g :: rest).takeWhile p = cs.takeWhile p := by
  induction cs with
  | nil => simp [h]
  | cons c cs ih =>
      rw [List.cons_append, List.takeWhile_cons, List.takeWhile_cons,
        ih]

theorem identifierSize_break
    (hBreak : g ∈ breaks) :
    identifierSize (cs ++ g :: rest) = identifierSize cs := by
  have hAll :
      ∀ d ∈ breaks, isWord d = false ∧ isLetter d = false ∧
        d ≠ '.' := by
    simp [breaks, spaces, isWord, isLetter]
  rcases hAll g hBreak with ⟨hWord, hLetter, hPoint⟩
  fun_induction identifierSize cs with
  | case1 =>
      rw [List.nil_append, identifierSize, hWord]
      · rfl
      · intro _ _ hEq _
        exact hPoint hEq
  | case2 c cs hFirst ih =>
      rw [List.cons_append, List.cons_append, identifierSize,
        if_pos hFirst]
      rw [List.cons_append] at ih
      rw [ih]
  | case3 c cs hFirst =>
      rw [List.cons_append, List.cons_append, identifierSize,
        if_neg hFirst]
  | case4 c cs hPair hFirst ih =>
      rw [List.cons_append, identifierSize_cons hFirst, ih]
  | case5 c cs hPair hFirst =>
      rw [List.cons_append]
      cases cs with
      | nil =>
          by_cases hDot : c = '.'
          · subst hDot
            rw [List.nil_append, identifierSize, hLetter]
            rfl
          · rw [identifierSize, if_neg hFirst]
            intro _ _ hEq _
            exact hDot hEq
      | cons d ds =>
          rw [identifierSize, if_neg hFirst]
          intro _ _ hEq _
          exact hPair d ds hEq rfl

theorem digitRun_break
    {base : Nat}
    (hBreak : g ∈ breaks) :
    digitRun base (cs ++ g :: rest) = digitRun base cs := by
  have hDigit : Digits.isDigit base g = false := by
    have hAll : ∀ d ∈ breaks, Digits.isDigit base d = false := by
      simp [breaks, spaces, Digits.isDigit, Digits.value?]
    exact hAll g hBreak
  unfold digitRun
  rw [takeWhile_append_break hDigit]

theorem decimalSize_break
    (hBreak : g ∈ breaks) :
    decimalSize (cs ++ g :: rest) = decimalSize cs := by
  have hPoint : g ≠ '.' := by
    rintro rfl
    revert hBreak
    decide
  unfold decimalSize
  dsimp only
  rw [digitRun_break hBreak,
    List.drop_append_of_le_length (digitRun_le 10 cs)]
  cases cs.drop (digitRun 10 cs) with
  | nil =>
      rw [List.nil_append]
      split
      · rename_i hEq
        cases hEq
        exact absurd rfl hPoint
      · rfl
  | cons d ds =>
      rw [List.cons_append]
      by_cases hDot : d = '.'
      · subst hDot
        change
          (if digitRun 10 (ds ++ g :: rest) = 0 then _ else _) = _
        rw [digitRun_break hBreak]
        rfl
      · split
        · rename_i hEq
          cases hEq
          exact absurd rfl hDot
        · split
          · rename_i hEq
            cases hEq
            exact absurd rfl hDot
          · rfl

/- A number that has no base in front is decimal. -/
theorem numberSize_of_ne
    (hBinary : ∀ ds, cs ≠ '0' :: 'b' :: ds)
    (hHexadecimal : ∀ ds, cs ≠ '0' :: 'x' :: ds) :
    numberSize cs = decimalSize cs := by
  unfold numberSize
  split
  · exact absurd rfl (hBinary _)
  · exact absurd rfl (hHexadecimal _)
  · rfl

/- A base in front of a break stands there without it. -/
theorem prefix_of_append_break
    {d e : Char}
    {ds : List Char}
    (hFirst : g ≠ d)
    (hSecond : g ≠ e)
    (h : cs ++ g :: rest = d :: e :: ds) :
    ∃ es, cs = d :: e :: es := by
  rcases cs with _ | ⟨a, _ | ⟨b, es⟩⟩
  · cases h
    exact absurd rfl hFirst
  · cases h
    exact absurd rfl hSecond
  · cases h
    exact ⟨es, rfl⟩

theorem numberSize_break
    (hBreak : g ∈ breaks) :
    numberSize (cs ++ g :: rest) = numberSize cs := by
  have hAll :
      ∀ d ∈ breaks, d ≠ '0' ∧ d ≠ 'b' ∧ d ≠ 'x' := by
    simp [breaks, spaces]
  rcases hAll g hBreak with ⟨hZero, hBinary, hHexadecimal⟩
  have hDecimal : decimalSize (cs ++ g :: rest) = decimalSize cs :=
    decimalSize_break hBreak
  by_cases hTwo : ∃ ds, cs = '0' :: 'b' :: ds
  · rcases hTwo with ⟨ds, rfl⟩
    change
      (if digitRun 2 (ds ++ g :: rest) = 0 then decimalSize _
        else digitRun 2 (ds ++ g :: rest) + 2) = _
    rw [digitRun_break hBreak, hDecimal]
    rfl
  by_cases hSixteen : ∃ ds, cs = '0' :: 'x' :: ds
  · rcases hSixteen with ⟨ds, rfl⟩
    change
      (if digitRun 16 (ds ++ g :: rest) = 0 then decimalSize _
        else digitRun 16 (ds ++ g :: rest) + 2) = _
    rw [digitRun_break hBreak, hDecimal]
    rfl
  rw [numberSize_of_ne, numberSize_of_ne, hDecimal]
  · exact fun ds hEq => hTwo ⟨ds, hEq⟩
  · exact fun ds hEq => hSixteen ⟨ds, hEq⟩
  · intro ds hEq
    exact hTwo (prefix_of_append_break hZero hBinary hEq)
  · intro ds hEq
    exact hSixteen (prefix_of_append_break hZero hHexadecimal hEq)

theorem symbol_break
    (hBreak : g ∈ breaks) :
    symbol c (cs ++ g :: rest) = symbol c cs := by
  have hAll :
      ∀ d ∈ breaks, ∀ p ∈ longOperators, p.2 ≠ d := by
    simp [breaks, spaces, longOperators]
  have hPair : (c, g) ∉ longOperators := by
    intro hMem
    exact hAll g hBreak (c, g) hMem rfl
  cases cs with
  | nil =>
      change (if (c, g) ∈ longOperators then _ else _) = _
      rw [if_neg hPair]
      rfl
  | cons d ds => rfl

/- A string literal that is closed stays as long. -/
theorem quotedSize?_append_some
    {n : Nat}
    (hQuote : c ∈ quotes)
    (h : quotedSize? c cs = some n) :
    quotedSize? c (cs ++ rest) = some n := by
  have hSlash : c ≠ '\\' := by
    rintro rfl
    revert hQuote
    decide
  have hLength : (cs.take n).length = n :=
    List.length_take_of_le (quotedSize?_le h)
  have hBoth : cs ++ rest = cs.take n ++ (cs.drop n ++ rest) := by
    rw [← List.append_assoc, List.take_append_drop]
  rw [hBoth, quotedSize?_append hSlash (isQuotedTail_take h), hLength]

/-
  The front of a text is measured alike in front of a break.
  An open string literal would go on behind it, and a
  comment behind anything but the end of its line.
-/
theorem lexeme_append
    (hBreak : g ∈ breaks)
    (hQuote : c ∈ quotes → (quotedSize? c cs).isSome = true)
    (hComment : c = '#' → g = '\n') :
    lexeme c (cs ++ g :: rest) = lexeme c cs := by
  have hTake :
      (c :: (cs ++ g :: rest)).take (identifierSize cs + 1) =
        (c :: cs).take (identifierSize cs + 1) := by
    rw [List.take_succ_cons, List.take_succ_cons,
      List.take_append_of_le_length (identifierSize_le cs)]
  have hNumber :
      numberSize (c :: (cs ++ g :: rest)) = numberSize (c :: cs) :=
    @numberSize_break (c :: cs) rest g hBreak
  unfold lexeme
  split
  · rfl
  split
  · rename_i hHash
    rw [hComment hHash, takeWhile_append_break (by decide)]
  split
  · rfl
  split
  · rename_i hMem
    rcases Option.isSome_iff_exists.1 (hQuote hMem) with ⟨n, hSize⟩
    rw [hSize, quotedSize?_append_some hMem hSize]
  · rw [hNumber, identifierSize_break hBreak, symbol_break hBreak]
    dsimp only
    rw [hTake]

end Token
end StackScript
