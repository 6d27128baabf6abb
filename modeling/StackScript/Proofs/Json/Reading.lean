import StackScript.Json.Reader

/-
  Structured text that is written and read back.

  A tree is legible when its numbers and strings have the
  form that is read. What is written of it is read back to
  the same tree, whatever stands behind it on the line.

  Key definitions include:
    * `Json.IsNumber`, `Json.IsString`
    * `Json.Legible`

  Key theorems include:
    * `Json.reads`
    * `Json.read?_write`
-/

namespace StackScript
namespace Json

------------------------------------------------------------
-- Legible Trees
------------------------------------------------------------

/- What may follow a value: nothing, a comma or a new line. -/
def Ends (rest : List Char) : Prop :=
  rest = [] ∨ ∃ c cs, rest = c :: cs ∧ (c = ',' ∨ c = '\n')

/- A text that is taken for a number, up to where a value ends. -/
def IsNumber (text : List Char) : Prop :=
  (∃ c cs, text = c :: cs ∧ (c.isDigit = true ∨ c = '-')) ∧
    ∀ rest, Ends rest →
      scanNumber? (text ++ rest) = some (text, rest)

/- A text that is taken for a string, up to its closing quote. -/
def IsString (raw : List Char) : Prop :=
  ∀ rest, scanString? (raw ++ '"' :: rest) = some (raw, rest)

mutual

/- The numbers and strings of a tree have the form that is read. -/
def Legible : Json → Prop
| .null => True
| .bool _ => True
| .number text => IsNumber text
| .string raw => IsString raw
| .list items => LegibleItems items
| .object members => LegibleMembers members

def LegibleItems : List Json → Prop
| [] => True
| item :: items => item.Legible ∧ LegibleItems items

def LegibleMembers : List (List Char × Json) → Prop
| [] => True
| (key, value) :: members =>
    IsString key ∧ value.Legible ∧ LegibleMembers members

end

------------------------------------------------------------
-- Blanks
------------------------------------------------------------

/- A new line is one of blanks. -/
theorem skip_newLine
    (depth : Nat)
    (rest : List Char) :
    skip (newLine depth rest) = skip rest := by
  have hBlank : ∀ c ∈ '\n' :: margin depth, isSpace c = true := by
    intro c hc
    rcases List.mem_cons.1 hc with rfl | hc
    · rfl
    · rw [List.eq_of_mem_replicate hc]
      rfl
  unfold skip newLine
  rw [← List.cons_append, List.dropWhile_append_of_pos hBlank]

/- A text that begins with no blank stays. -/
theorem skip_cons
    {c : Char}
    {cs : List Char}
    (h : isSpace c = false) :
    skip (c :: cs) = c :: cs := by
  unfold skip
  rw [List.dropWhile_cons_of_neg (by rw [h]; simp)]

theorem length_skip_le (cs : List Char) :
    (skip cs).length ≤ cs.length :=
  (List.dropWhile_sublist _).length_le

/- A character that can begin a number is no other. -/
theorem ne_of_begins
    {c d : Char}
    (hc : c.isDigit = true ∨ c = '-')
    (hDigit : d.isDigit = false)
    (hMinus : d ≠ '-') :
    c ≠ d := by
  rintro rfl
  rcases hc with hc | hc
  · rw [hDigit] at hc
    cases hc
  · exact hMinus hc

theorem skip_quote (raw rest : List Char) :
    skip (quote raw rest) = quote raw rest :=
  skip_cons (by rfl)

/- A value begins with no blank and with no closing bracket. -/
theorem render_head
    {j : Json}
    (h : j.Legible)
    (depth : Nat)
    (rest : List Char) :
    ∃ c cs,
      render depth j rest = c :: cs ∧ isSpace c = false ∧ c ≠ ']' := by
  match j with
  | .null => exact ⟨'n', _, rfl, rfl, by decide⟩
  | .bool true => exact ⟨'t', _, rfl, rfl, by decide⟩
  | .bool false => exact ⟨'f', _, rfl, rfl, by decide⟩
  | .number text =>
      rw [Legible] at h
      rcases h.1 with ⟨c, cs, rfl, hc⟩
      refine ⟨c, cs ++ rest, rfl, ?_, ne_of_begins hc rfl (by decide)⟩
      have hSpace := ne_of_begins (d := ' ') hc rfl (by decide)
      have hLine := ne_of_begins (d := '\n') hc rfl (by decide)
      have hTab := ne_of_begins (d := '\t') hc rfl (by decide)
      have hReturn := ne_of_begins (d := '\r') hc rfl (by decide)
      simp [isSpace, hSpace, hLine, hTab, hReturn]
  | .string raw => exact ⟨'"', _, rfl, rfl, by decide⟩
  | .list [] => exact ⟨'[', _, rfl, rfl, by decide⟩
  | .list (item :: items) => exact ⟨'[', _, rfl, rfl, by decide⟩
  | .object [] => exact ⟨'\x7b', _, rfl, rfl, by decide⟩
  | .object ((key, value) :: members) =>
      exact ⟨'\x7b', _, rfl, rfl, by decide⟩

theorem skip_render
    {j : Json}
    (h : j.Legible)
    (depth : Nat)
    (rest : List Char) :
    skip (render depth j rest) = render depth j rest := by
  rcases render_head h depth rest with ⟨c, cs, hText, hSpace, _⟩
  rw [hText]
  exact skip_cons hSpace

------------------------------------------------------------
-- Values
------------------------------------------------------------

/- What follows an item of a list ends it. -/
theorem ends_renderItems
    (depth outer : Nat)
    (items : List Json)
    (rest : List Char) :
    Ends (renderItems depth items (newLine outer rest)) := by
  cases items with
  | nil => exact .inr ⟨'\n', _, rfl, .inr rfl⟩
  | cons item items => exact .inr ⟨',', _, rfl, .inl rfl⟩

/- What follows a member of an object ends it. -/
theorem ends_renderMembers
    (depth outer : Nat)
    (members : List (List Char × Json))
    (rest : List Char) :
    Ends (renderMembers depth members (newLine outer rest)) := by
  cases members with
  | nil => exact .inr ⟨'\n', _, rfl, .inr rfl⟩
  | cons member members => exact .inr ⟨',', _, rfl, .inl rfl⟩

variable {bound : Nat}
variable {cs rest : List Char}

/- A quote begins a string. -/
theorem value?_of_quote (h : skip cs = '"' :: rest) :
    value? (bound + 1) cs =
      (scanString? rest).map fun (raw, rest) => (.string raw, rest) := by
  unfold value?
  rw [h]
  rfl

/- An opening bracket begins a list. -/
theorem value?_of_bracket
    (h : skip cs = '[' :: rest)
    (hSome : ∀ more, skip rest ≠ ']' :: more) :
    value? (bound + 1) cs =
      (items? bound (skip rest)).map fun (items, rest) =>
        (.list items, rest) := by
  simp only [value?, h]

/- An opening brace begins an object. -/
theorem value?_of_brace
    (h : skip cs = '\x7b' :: rest)
    (hSome : ∀ more, skip rest ≠ '\x7d' :: more) :
    value? (bound + 1) cs =
      (members? bound (skip rest)).map fun (members, rest) =>
        (.object members, rest) := by
  simp only [value?, h]

/- A digit or a sign begins a number. -/
theorem value?_of_begins
    {c : Char}
    (h : skip cs = c :: rest)
    (hc : c.isDigit = true ∨ c = '-') :
    value? (bound + 1) cs =
      (scanNumber? (c :: rest)).map fun (text, rest) =>
        (.number text, rest) := by
  unfold value?
  rw [h]
  split
  · rename_i hNil
    cases hNil
  · rename_i hText
    injection hText with hFirst
    exact absurd hFirst (ne_of_begins hc rfl (by decide))
  · rename_i hText
    injection hText with hFirst
    exact absurd hFirst (ne_of_begins hc rfl (by decide))
  · rename_i hText
    injection hText with hFirst
    exact absurd hFirst (ne_of_begins hc rfl (by decide))
  · rename_i hText
    injection hText with hFirst
    exact absurd hFirst (ne_of_begins hc rfl (by decide))
  · rename_i hText
    injection hText with hFirst
    exact absurd hFirst (ne_of_begins hc rfl (by decide))
  · rename_i hText
    injection hText with hFirst
    exact absurd hFirst (ne_of_begins hc rfl (by decide))
  · rfl

------------------------------------------------------------
-- Lists and Objects
------------------------------------------------------------

/-
  Values are read from their texts, with blanks in front, if
  the bound is larger than the length of all that is there.
-/
def Reads (bound : Nat) : Prop :=
  ∀ (j : Json) (depth : Nat) (cs rest : List Char),
    j.Legible →
      skip cs = render depth j rest →
        Ends rest →
          cs.length < bound →
            value? bound cs = some (j, rest)

theorem length_newLine
    (depth : Nat)
    (rest : List Char) :
    rest.length < (newLine depth rest).length := by
  unfold newLine
  rw [List.length_cons, List.length_append]
  omega

theorem length_quote (raw rest : List Char) :
    rest.length < (quote raw rest).length := by
  unfold quote
  rw [List.length_cons, List.length_append, List.length_cons]
  omega

mutual

/- The text of a value is longer than what stands behind it. -/
theorem length_render
    (j : Json)
    (h : j.Legible)
    (depth : Nat)
    (rest : List Char) :
    rest.length < (render depth j rest).length := by
  match j with
  | .null =>
      simp only [render, List.length_append, List.length_cons]
      omega
  | .bool true =>
      simp only [render, List.length_append, List.length_cons]
      omega
  | .bool false =>
      simp only [render, List.length_append, List.length_cons]
      omega
  | .number text =>
      rw [Legible] at h
      rcases h.1 with ⟨c, ds, rfl, _⟩
      rw [render, List.length_append, List.length_cons]
      omega
  | .string raw => exact length_quote raw rest
  | .list [] =>
      rw [render, List.length_cons, List.length_cons]
      omega
  | .list (item :: items) =>
      rw [Legible, LegibleItems] at h
      rw [render, List.length_cons]
      have hClose := length_newLine depth (']' :: rest)
      have hItems :=
        length_renderItems items h.2 (depth + 1)
          (newLine depth (']' :: rest))
      have hItem :=
        length_render item h.1 (depth + 1)
          (renderItems (depth + 1) items (newLine depth (']' :: rest)))
      have hOpen :=
        length_newLine (depth + 1)
          (render (depth + 1) item
            (renderItems (depth + 1) items
              (newLine depth (']' :: rest))))
      rw [List.length_cons] at hClose
      omega
  | .object [] =>
      rw [render, List.length_cons, List.length_cons]
      omega
  | .object ((key, value) :: members) =>
      rw [Legible, LegibleMembers] at h
      rw [render, List.length_cons]
      have hClose := length_newLine depth ('\x7d' :: rest)
      have hMembers :=
        length_renderMembers members h.2.2 (depth + 1)
          (newLine depth ('\x7d' :: rest))
      have hValue :=
        length_render value h.2.1 (depth + 1)
          (renderMembers (depth + 1) members
            (newLine depth ('\x7d' :: rest)))
      have hKey :=
        length_quote key
          (':' :: ' ' :: render (depth + 1) value
            (renderMembers (depth + 1) members
              (newLine depth ('\x7d' :: rest))))
      have hOpen :=
        length_newLine (depth + 1)
          (quote key
            (':' :: ' ' :: render (depth + 1) value
              (renderMembers (depth + 1) members
                (newLine depth ('\x7d' :: rest)))))
      simp only [List.length_cons] at hClose hKey
      omega

theorem length_renderItems
    (items : List Json)
    (h : LegibleItems items)
    (depth : Nat)
    (rest : List Char) :
    rest.length ≤ (renderItems depth items rest).length := by
  match items with
  | [] => exact Nat.le_refl _
  | item :: items =>
      rw [LegibleItems] at h
      rw [renderItems, List.length_cons]
      have hItems := length_renderItems items h.2 depth rest
      have hItem :=
        length_render item h.1 depth (renderItems depth items rest)
      have hOpen :=
        length_newLine depth
          (render depth item (renderItems depth items rest))
      omega

theorem length_renderMembers
    (members : List (List Char × Json))
    (h : LegibleMembers members)
    (depth : Nat)
    (rest : List Char) :
    rest.length ≤ (renderMembers depth members rest).length := by
  match members with
  | [] => exact Nat.le_refl _
  | (key, value) :: members =>
      rw [LegibleMembers] at h
      rw [renderMembers, List.length_cons]
      have hMembers := length_renderMembers members h.2.2 depth rest
      have hValue :=
        length_render value h.2.1 depth
          (renderMembers depth members rest)
      have hKey :=
        length_quote key
          (':' :: ' ' :: render depth value
            (renderMembers depth members rest))
      have hOpen :=
        length_newLine depth
          (quote key
            (':' :: ' ' :: render depth value
              (renderMembers depth members rest)))
      simp only [List.length_cons] at hKey
      omega

end

/- The items of a list are read up to its closing bracket. -/
theorem items?_render
    {depth outer : Nat}
    {item : Json}
    {items : List Json}
    (hReads : ∀ n < bound, Reads n)
    (hLegible : LegibleItems (item :: items))
    (hText :
      skip cs =
        render depth item
          (renderItems depth items (newLine outer (']' :: rest))))
    (hBound : cs.length + 1 < bound) :
    items? bound cs = some (item :: items, rest) := by
  induction items generalizing item cs bound with
  | nil =>
      rcases bound with _ | bound
      · omega
      rw [LegibleItems] at hLegible
      have hItem :=
        hReads bound (by omega) item depth cs _ hLegible.1 hText
          (ends_renderItems depth outer [] (']' :: rest)) (by omega)
      unfold items?
      rw [hItem]
      dsimp only [Option.bind_eq_bind, Option.bind_some]
      rw [renderItems, skip_newLine]
      rfl
  | cons next items ih =>
      rcases bound with _ | bound
      · omega
      rw [LegibleItems] at hLegible
      have hItem :=
        hReads bound (by omega) item depth cs _ hLegible.1 hText
          (ends_renderItems depth outer (next :: items)
            (']' :: rest)) (by omega)
      have hNext := hLegible.2
      rw [LegibleItems] at hNext
      have hLength :=
        length_render item hLegible.1 depth
          (renderItems depth (next :: items)
            (newLine outer (']' :: rest)))
      rw [← hText, renderItems, List.length_cons] at hLength
      have hShort := length_skip_le cs
      have hOthers :=
        ih (fun n hn => hReads n (by omega)) hLegible.2
          ((skip_newLine depth _).trans
            (skip_render hNext.1 depth _))
          (show _ < bound by omega)
      unfold items?
      rw [hItem]
      dsimp only [Option.bind_eq_bind, Option.bind_some]
      rw [renderItems, skip_cons (by rfl)]
      change (items? bound _).bind _ = _
      rw [hOthers]
      rfl

/-
  The first member of an object is read, and what stands
  behind it tells whether there is another one.
-/
theorem members?_member
    {depth : Nat}
    {key behind : List Char}
    {value : Json}
    (hReads : Reads bound)
    (hKey : IsString key)
    (hLegible : value.Legible)
    (hText :
      skip cs = quote key (':' :: ' ' :: render depth value behind))
    (hEnds : Ends behind)
    (hBound : cs.length < bound) :
    members? (bound + 1) cs =
      match skip behind with
      | '\x7d' :: rest => some ([(key, value)], rest)
      | ',' :: rest => do
          let (members, rest) ← members? bound rest
          some ((key, value) :: members, rest)
      | _ => none := by
  have hLength := congrArg List.length hText
  have hQuote :=
    length_quote key (':' :: ' ' :: render depth value behind)
  have hShort := length_skip_le cs
  simp only [List.length_cons] at hQuote
  have hValue :=
    hReads value depth (' ' :: render depth value behind) behind
      hLegible (skip_render hLegible depth behind) hEnds
      (by simp only [List.length_cons]; omega)
  rw [members?, hText]
  change (scanString? (key ++ '"' :: _)).bind _ = _
  rw [hKey]
  dsimp only [Option.bind_some]
  rw [skip_cons (by rfl)]
  change (value? bound _).bind _ = _
  rw [hValue]
  rfl

/- The members of an object are read up to its closing brace. -/
theorem members?_render
    {depth outer : Nat}
    {key : List Char}
    {value : Json}
    {members : List (List Char × Json)}
    (hReads : ∀ n < bound, Reads n)
    (hLegible : LegibleMembers ((key, value) :: members))
    (hText :
      skip cs =
        quote key
          (':' :: ' ' :: render depth value
            (renderMembers depth members
              (newLine outer ('\x7d' :: rest)))))
    (hBound : cs.length + 1 < bound) :
    members? bound cs = some ((key, value) :: members, rest) := by
  induction members generalizing key value cs bound with
  | nil =>
      rcases bound with _ | bound
      · omega
      rw [LegibleMembers] at hLegible
      rw [members?_member (hReads bound (by omega)) hLegible.1
        hLegible.2.1 hText (ends_renderMembers depth outer [] _)
        (by omega)]
      rw [renderMembers, skip_newLine]
      rfl
  | cons next members ih =>
      rcases next with ⟨nextKey, nextValue⟩
      rcases bound with _ | bound
      · omega
      rw [LegibleMembers] at hLegible
      have hLength := congrArg List.length hText
      have hShort := length_skip_le cs
      have hQuote := length_quote key
        (':' :: ' ' :: render depth value
          (renderMembers depth ((nextKey, nextValue) :: members)
            (newLine outer ('\x7d' :: rest))))
      simp only [List.length_cons] at hQuote
      have hRest :=
        length_render value hLegible.2.1 depth
          (renderMembers depth ((nextKey, nextValue) :: members)
            (newLine outer ('\x7d' :: rest)))
      have hComma :
          (newLine depth
            (quote nextKey
              (':' :: ' ' :: render depth nextValue
                (renderMembers depth members
                  (newLine outer ('\x7d' :: rest)))))).length <
            (renderMembers depth ((nextKey, nextValue) :: members)
              (newLine outer ('\x7d' :: rest))).length := by
        rw [renderMembers, List.length_cons]
        omega
      have hOthers :=
        ih (fun n hn => hReads n (by omega)) hLegible.2.2
          ((skip_newLine depth _).trans (skip_quote nextKey _))
          (show _ < bound by omega)
      rw [members?_member (hReads bound (by omega)) hLegible.1
        hLegible.2.1 hText (ends_renderMembers depth outer _ _)
        (by omega)]
      rw [renderMembers, skip_cons (by rfl)]
      change (members? bound _).bind _ = _
      rw [hOthers]
      rfl

------------------------------------------------------------
-- Trees
------------------------------------------------------------

/- Under every bound a value is read from its text. -/
theorem reads : ∀ bound, Reads bound := by
  intro bound
  induction bound using Nat.strongRecOn with
  | ind bound ih =>
      intro j depth cs rest hLegible hText hEnds hBound
      rcases bound with _ | bound
      · omega
      have hShort := length_skip_le cs
      match j with
      | .null =>
          unfold value?
          rw [hText]
          rfl
      | .bool true =>
          unfold value?
          rw [hText]
          rfl
      | .bool false =>
          unfold value?
          rw [hText]
          rfl
      | .number text =>
          rw [Legible] at hLegible
          rcases hLegible with ⟨⟨c, ds, rfl, hc⟩, hScan⟩
          have hRead :
              scanNumber? (c :: (ds ++ rest)) =
                some (c :: ds, rest) :=
            hScan rest hEnds
          rw [value?_of_begins hText hc]
          exact (congrArg _ hRead).trans rfl
      | .string raw =>
          rw [Legible] at hLegible
          rw [value?_of_quote hText, hLegible]
          rfl
      | .list [] =>
          unfold value?
          rw [hText]
          rfl
      | .list (item :: items) =>
          rw [Legible] at hLegible
          have hItem := hLegible
          rw [LegibleItems] at hItem
          rw [render] at hText
          rw [hText, List.length_cons] at hShort
          have hLine := length_newLine (depth + 1)
            (render (depth + 1) item
              (renderItems (depth + 1) items
                (newLine depth (']' :: rest))))
          have hSkip :=
            (skip_newLine (depth + 1) _).trans
              (skip_render hItem.1 (depth + 1)
                (renderItems (depth + 1) items
                  (newLine depth (']' :: rest))))
          rcases render_head hItem.1 (depth + 1)
              (renderItems (depth + 1) items
                (newLine depth (']' :: rest))) with
            ⟨c, ds, hHead, _, hClose⟩
          have hSome :
              ∀ more,
                skip (newLine (depth + 1)
                  (render (depth + 1) item
                    (renderItems (depth + 1) items
                      (newLine depth (']' :: rest))))) ≠
                  ']' :: more := by
            intro more hMore
            rw [hSkip, hHead] at hMore
            injection hMore with hFirst
            exact hClose hFirst
          have hItems :=
            items?_render
              (fun n (hn : n < bound) => ih n (by omega))
              hLegible
              ((congrArg skip hSkip).trans
                (skip_render hItem.1 (depth + 1) _))
              (by rw [hSkip]; omega)
          rw [value?_of_bracket hText hSome, hItems]
          rfl
      | .object [] =>
          unfold value?
          rw [hText]
          rfl
      | .object ((key, value) :: members) =>
          rw [Legible] at hLegible
          rw [render] at hText
          rw [hText, List.length_cons] at hShort
          have hLine := length_newLine (depth + 1)
            (quote key
              (':' :: ' ' :: render (depth + 1) value
                (renderMembers (depth + 1) members
                  (newLine depth ('\x7d' :: rest)))))
          have hSkip :
              skip (newLine (depth + 1)
                (quote key
                  (':' :: ' ' :: render (depth + 1) value
                    (renderMembers (depth + 1) members
                      (newLine depth ('\x7d' :: rest)))))) =
                quote key
                  (':' :: ' ' :: render (depth + 1) value
                    (renderMembers (depth + 1) members
                      (newLine depth ('\x7d' :: rest)))) :=
            (skip_newLine (depth + 1) _).trans (skip_quote key _)
          have hSome :
              ∀ more,
                skip (newLine (depth + 1)
                  (quote key
                    (':' :: ' ' :: render (depth + 1) value
                      (renderMembers (depth + 1) members
                        (newLine depth ('\x7d' :: rest)))))) ≠
                  '\x7d' :: more := by
            intro more hMore
            rw [hSkip] at hMore
            injection hMore with hFirst
            exact absurd hFirst (by decide)
          have hMembers :=
            members?_render
              (fun n (hn : n < bound) => ih n (by omega))
              hLegible
              ((congrArg skip hSkip).trans (skip_quote key _))
              (by rw [hSkip]; omega)
          rw [value?_of_brace hText hSome, hMembers]
          rfl

/- What is written of a legible tree is read back. -/
theorem read?_write
    {j : Json}
    (h : j.Legible) :
    read? j.write = some j := by
  have hRead :=
    reads _ j 0 (j.render 0 []) [] h (skip_render h 0 [])
      (.inl rfl) (Nat.lt_succ_self _)
  unfold read? write
  rw [String.toList_ofList]
  dsimp only [Option.bind_eq_bind]
  rw [hRead]
  rfl

end Json
end StackScript
