import StackScript.Number.Shortest
import StackScript.Proofs.Number.Numerals

/-
  Whole floating-point numbers that are stored and read back.

  A magnitude below `2 ^ 53` is a floating-point number
  exactly. Its shortest text is found on a grid of whole
  numbers, has no exponent and ends in a point and a zero.

  Key definitions include:
    * `Binary64.whole`

  Key theorems include:
    * `Binary64.ofFraction_mul`
    * `Binary64.shortest_whole`
    * `Binary64.render_stored`
    * `Binary64.read?_render_stored`
-/

namespace StackScript
namespace Binary64

variable {s : Bool}
variable {q d : Nat}

------------------------------------------------------------
-- Exact Quotients
------------------------------------------------------------

/- The quotient of a multiple has the magnitude of the factor. -/
theorem floorLog2_mul
    (hq : 0 < q)
    (hd : 0 < d) :
    floorLog2 (q * d) d = q.log2 := by
  have hqLow := Nat.log2_self_le (Nat.ne_of_gt hq)
  have hdLow := Nat.log2_self_le (Nat.ne_of_gt hd)
  have hqHigh : q < 2 ^ (q.log2 + 1) := Nat.lt_log2_self
  have hdHigh : d < 2 ^ (d.log2 + 1) := Nat.lt_log2_self
  have hProduct : q * d ≠ 0 := Nat.ne_of_gt (Nat.mul_pos hq hd)
  have hLow : q.log2 + d.log2 ≤ (q * d).log2 := by
    rw [Nat.le_log2 hProduct, Nat.pow_add]
    exact Nat.mul_le_mul hqLow hdLow
  have hHigh : (q * d).log2 < q.log2 + d.log2 + 2 := by
    rw [Nat.log2_lt hProduct]
    calc q * d < 2 ^ (q.log2 + 1) * 2 ^ (d.log2 + 1) :=
          Nat.mul_lt_mul'' hqHigh hdHigh
      _ = 2 ^ (q.log2 + d.log2 + 2) := by
          rw [← Nat.pow_add]
          congr 1
          omega
  unfold floorLog2 scaleUp
  dsimp only
  by_cases hExact : (q * d).log2 = q.log2 + d.log2
  · rw [hExact, if_pos]
    · omega
    · rw [show ((q.log2 + d.log2 : Nat) : Int) - d.log2 = q.log2 by
        omega, Int.toNat_natCast,
        show (-(q.log2 : Int)).toNat = 0 by omega, Nat.pow_eq,
        Nat.pow_eq, Nat.pow_zero, Nat.mul_one, Nat.mul_comm q d]
      exact Nat.mul_le_mul_left d hqLow
  · have hMore : (q * d).log2 = q.log2 + d.log2 + 1 := by omega
    rw [hMore, if_neg]
    · omega
    · rw [show ((q.log2 + d.log2 + 1 : Nat) : Int) - d.log2 =
        (q.log2 + 1 : Nat) by omega, Int.toNat_natCast,
        show (-((q.log2 + 1 : Nat) : Int)).toNat = 0 by omega,
        Nat.pow_eq, Nat.pow_eq, Nat.pow_zero, Nat.mul_one,
        Nat.mul_comm q d]
      exact Nat.not_le.2 (Nat.mul_lt_mul_of_pos_left hqHigh hd)

/- A multiple divided by its factor needs no rounding. -/
theorem nearest_mul (hd : 0 < d) :
    nearest (q * d) d = q := by
  unfold nearest
  dsimp only
  rw [Nat.mul_div_cancel q hd, Nat.mul_mod_left, if_neg]
  omega

/- The number with a magnitude below `2 ^ 53`. -/
def whole
    (s : Bool)
    (q : Nat) : Binary64 :=
  make s (q * 2 ^ (52 - q.log2)) ((q.log2 : Int) - 52)

theorem log2_lt_of_lt (h : q < 2 ^ 53) : q.log2 < 53 := by
  by_cases hZero : q = 0
  · rw [hZero, Nat.log2_zero]
    omega
  · exact (Nat.log2_lt hZero).2 h

/- Its mantissa and exponent have the form that is kept. -/
theorem canonical_whole
    (hq : 0 < q)
    (h : q < 2 ^ 53) :
    Canonical (q * 2 ^ (52 - q.log2)) ((q.log2 : Int) - 52) := by
  have hLog := log2_lt_of_lt h
  have hPos : 0 < 2 ^ (52 - q.log2) := Nat.two_pow_pos _
  have hLow : 2 ^ 52 ≤ q * 2 ^ (52 - q.log2) := by
    calc 2 ^ 52 = 2 ^ q.log2 * 2 ^ (52 - q.log2) := by
          rw [← Nat.pow_add]
          congr 1
          omega
      _ ≤ q * 2 ^ (52 - q.log2) :=
          Nat.mul_le_mul_right _
            (Nat.log2_self_le (Nat.ne_of_gt hq))
  have hHigh : q * 2 ^ (52 - q.log2) < 2 ^ 53 := by
    calc q * 2 ^ (52 - q.log2)
        < 2 ^ (q.log2 + 1) * 2 ^ (52 - q.log2) :=
          Nat.mul_lt_mul_of_pos_right Nat.lt_log2_self hPos
      _ = 2 ^ 53 := by
          rw [← Nat.pow_add]
          congr 1
          omega
  exact ⟨hHigh, by omega, by omega, .inl hLow⟩

theorem whole_eq
    (hq : 0 < q)
    (h : q < 2 ^ 53) :
    whole s q =
      .finite s (q * 2 ^ (52 - q.log2)) ((q.log2 : Int) - 52)
        (canonical_whole hq h) := by
  unfold whole make
  rw [dif_pos (canonical_whole hq h)]

/- A quotient without a remainder is exact. -/
theorem ofFraction_mul
    (hq : 0 < q)
    (h : q < 2 ^ 53)
    (hd : 0 < d) :
    ofFraction s (q * d) d = whole s q := by
  have hLog := log2_lt_of_lt h
  have hCanonical := canonical_whole hq h
  have hProduct : 0 < q * d := Nat.mul_pos hq hd
  unfold ofFraction whole
  rw [if_neg (by omega), floorLog2_mul hq hd]
  dsimp only
  rw [show max ((q.log2 : Int) - 52) (-1074) = (q.log2 : Int) - 52 by
    omega]
  have hUp :
      scaleUp (q * d) (-((q.log2 : Int) - 52)) =
        q * 2 ^ (52 - q.log2) * d := by
    unfold scaleUp
    rw [show (-((q.log2 : Int) - 52)).toNat = 52 - q.log2 by omega,
      Nat.pow_eq, Nat.mul_right_comm]
  have hDown : scaleUp d ((q.log2 : Int) - 52) = d := by
    unfold scaleUp
    rw [show ((q.log2 : Int) - 52).toNat = 0 by omega, Nat.pow_eq,
      Nat.pow_zero, Nat.mul_one]
  rw [hUp, hDown, nearest_mul hd, if_neg]
  exact Nat.ne_of_lt hCanonical.1

/- The number determines its magnitude. -/
theorem whole_inj
    {n : Nat}
    (hq : 0 < q)
    (h : q < 2 ^ 53)
    (hn : 0 < n)
    (hLess : n < 2 ^ 53)
    (hSame : whole s n = whole s q) :
    n = q := by
  rw [whole_eq hn hLess, whole_eq hq h] at hSame
  injection hSame with _ hMantissa hExponent
  have hLog : n.log2 = q.log2 := by omega
  rw [hLog] at hMantissa
  exact Nat.mul_right_cancel (Nat.two_pow_pos _) hMantissa

/- Its exponent is not positive. -/
theorem exponent_le_of_make
    {m : Nat}
    {e : Int}
    (hq : 0 < q)
    (h : q < 2 ^ 53)
    (hSame : make s m e = whole s q) :
    e ≤ 0 := by
  have hLog := log2_lt_of_lt h
  rw [whole_eq hq h] at hSame
  unfold make at hSame
  split at hSame
  · injection hSame with _ _ hExponent
    omega
  · cases hSame

/- Of all natural numbers only the magnitude is rounded to it. -/
theorem ofFraction_eq_whole_iff
    {n : Nat}
    (hq : 0 < q)
    (h : q < 2 ^ 53)
    (hn : 0 < n) :
    ofFraction s n 1 = whole s q ↔ n = q := by
  have hOne {k : Nat} (hk : 0 < k) (hLess : k < 2 ^ 53) :
      ofFraction s k 1 = whole s k := by
    have hMul := ofFraction_mul (s := s) hk hLess Nat.one_pos
    rw [Nat.mul_one] at hMul
    exact hMul
  constructor
  · intro hSame
    by_cases hLess : n < 2 ^ 53
    · rw [hOne hn hLess] at hSame
      exact whole_inj hq h hn hLess hSame
    · have hLog : 53 ≤ n.log2 := by
        rw [Nat.le_log2 (Nat.ne_of_gt hn)]
        omega
      have hFloor := floorLog2_mul hn Nat.one_pos
      rw [Nat.mul_one] at hFloor
      unfold ofFraction at hSame
      rw [if_neg (by omega), hFloor] at hSame
      dsimp only at hSame
      split at hSame
      · have hExponent := exponent_le_of_make hq h hSame
        omega
      · have hExponent := exponent_le_of_make hq h hSame
        omega
  · rintro rfl
    exact hOne hq h

------------------------------------------------------------
-- Shortest Texts
------------------------------------------------------------

/- Digits below the range that count are as many as they say. -/
theorem ofScientific_of_small
    {n : Nat}
    {e : Int}
    (hn : 0 < n)
    (hHigh : Digits.count n + e ≤ 400)
    (hLow : -400 ≤ Digits.count n + e) :
    ofScientific s n e =
      ofFraction s (n * Digits.tens e.toNat)
        (Digits.tens (-e).toNat) := by
  unfold ofScientific
  rw [if_neg (by omega), if_neg (by omega), if_neg (by omega)]

theorem count_le_sixteen (h : q < 2 ^ 53) : Digits.count q ≤ 16 := by
  have hLog := log2_lt_of_lt h
  apply Digits.count_le (by omega)
  · omega
  · exact Nat.lt_trans h (by decide)

/- A whole number on a grid reads back only as itself. -/
theorem eq_of_ofScientific
    {n j : Nat}
    (hq : 0 < q)
    (h : q < 2 ^ 53)
    (hSame : ofScientific s n (j : Int) = whole s q) :
    n * 10 ^ j = q := by
  have hFinite := whole_eq (s := s) hq h
  unfold ofScientific at hSame
  by_cases hZero : n = 0
  · rw [if_pos hZero, hFinite] at hSame
    injection hSame with _ hMantissa
    have hPos := Nat.mul_pos hq (Nat.two_pow_pos (52 - q.log2))
    omega
  rw [if_neg hZero] at hSame
  by_cases hLarge : 400 < (Digits.count n : Int) + j
  · rw [if_pos hLarge, hFinite] at hSame
    cases hSame
  rw [if_neg hLarge, if_neg (by omega), Int.toNat_natCast,
    show (-(j : Int)).toNat = 0 by omega] at hSame
  have hPos : 0 < n * Digits.tens j :=
    Nat.mul_pos (Nat.pos_of_ne_zero hZero) (Nat.pow_pos (by omega))
  exact (ofFraction_eq_whole_iff hq h hPos).1 hSame

/- The unit grid holds it. -/
theorem ofScientific_self
    (hq : 0 < q)
    (h : q < 2 ^ 53) :
    ofScientific s q 0 = whole s q := by
  have hCount := count_le_sixteen h
  rw [ofScientific_of_small hq (by omega) (by omega)]
  have hOne := (ofFraction_eq_whole_iff (s := s) hq h hq).2 rfl
  rw [show q * Digits.tens (0 : Int).toNat = q from Nat.mul_one q]
  exact hOne

/- What is found on a grid of whole numbers is the magnitude. -/
theorem onGrid?_eq_some
    {tie : Tie}
    {n d j a : Nat}
    {p : Int}
    (hq : 0 < q)
    (h : q < 2 ^ 53)
    (hFound :
      onGrid? tie (whole false q) n d (j : Int) = some (a, p)) :
    p = j ∧ a * 10 ^ j = q := by
  unfold onGrid? at hFound
  dsimp only at hFound
  split at hFound
  · rename_i hLow
    cases hFound
    rw [Bool.and_eq_true, decide_eq_true_eq] at hLow
    exact ⟨rfl, eq_of_ofScientific hq h hLow.1⟩
  · split at hFound
    · rename_i hHigh
      cases hFound
      rw [decide_eq_true_eq] at hHigh
      exact ⟨rfl, eq_of_ofScientific hq h hHigh⟩
    · cases hFound

/- On the unit grid it is found. -/
theorem onGrid?_zero
    (tie : Tie)
    (hq : 0 < q)
    (h : q < 2 ^ 53)
    (hd : 0 < d) :
    onGrid? tie (whole false q) (q * d) d 0 = some (q, 0) := by
  have hTens : Digits.tens (0 : Int).toNat = 1 := rfl
  have hNone : Digits.tens (-0 : Int).toNat = 1 := rfl
  unfold onGrid?
  rw [hTens, hNone, Nat.mul_one, Nat.mul_one]
  dsimp only
  rw [Nat.mul_div_cancel q hd, ofScientific_self hq h]
  simp [Nat.ne_of_gt hd]

/- Finer grids are tried until the magnitude is found. -/
theorem refine_whole
    (tie : Tie)
    (all : Nat × Int)
    {steps j : Nat}
    (hq : 0 < q)
    (h : q < 2 ^ 53)
    (hd : 0 < d)
    (hSteps : j < steps) :
    ∃ a i : Nat,
      refine tie (whole false q) (q * d) d all steps (j : Int) =
          (a, (i : Int)) ∧
        a * 10 ^ i = q := by
  induction steps generalizing j with
  | zero => omega
  | succ steps ih =>
      unfold refine
      cases hGrid :
          onGrid? tie (whole false q) (q * d) d (j : Int) with
      | some found =>
          rcases found with ⟨a, p⟩
          rcases onGrid?_eq_some hq h hGrid with ⟨rfl, hValue⟩
          exact ⟨a, j, rfl, hValue⟩
      | none =>
          cases j with
          | zero =>
              have hZero := onGrid?_zero tie hq h hd
              rw [show ((0 : Nat) : Int) = 0 from rfl, hZero] at hGrid
              cases hGrid
          | succ j =>
              dsimp only
              rw [show ((j + 1 : Nat) : Int) - 1 = j by omega]
              exact ih (by omega)

/- The shortest digits have only zeros behind them. -/
theorem shortest_whole
    (tie : Tie)
    (hq : 0 < q)
    (h : q < 2 ^ 53) :
    ∃ a i : Nat,
      shortest tie (q * 2 ^ (52 - q.log2)) ((q.log2 : Int) - 52) =
          (a, (i : Int)) ∧
        a * 10 ^ i = q := by
  have hLog := log2_lt_of_lt h
  have hd := Nat.two_pow_pos (52 - q.log2)
  have hCount := count_le_sixteen h
  have hPos := Digits.count_pos q
  have hMantissa := Nat.mul_pos hq hd
  have hUp :
      scaleUp (q * 2 ^ (52 - q.log2)) ((q.log2 : Int) - 52) =
        q * 2 ^ (52 - q.log2) := by
    unfold scaleUp
    rw [show ((q.log2 : Int) - 52).toNat = 0 by omega]
    exact Nat.mul_one _
  have hDown :
      Nat.pow 2 (-((q.log2 : Int) - 52)).toNat =
        2 ^ (52 - q.log2) := by
    rw [show (-((q.log2 : Int) - 52)).toNat = 52 - q.log2 by omega]
    rfl
  have hFloor :
      floorLog10 (q * 2 ^ (52 - q.log2)) (2 ^ (52 - q.log2)) =
        (Digits.count q - 1 : Nat) := by
    unfold floorLog10
    rw [if_pos (Nat.le_mul_of_pos_left _ hq), Nat.mul_div_cancel _ hd]
    omega
  unfold shortest
  rw [if_neg (by omega)]
  dsimp only
  rw [hUp, hDown, hFloor]
  have hWhole :
      make false (q * 2 ^ (52 - q.log2)) ((q.log2 : Int) - 52) =
        whole false q := rfl
  rw [hWhole]
  generalize (if 0 ≤ (q.log2 : Int) - 52 then _ else _) = all
  have hSteps : Digits.count q - 1 < 17 := by omega
  rcases refine_whole tie all hq h hd hSteps with
    ⟨a, i, hRefine, hValue⟩
  rw [hRefine]
  dsimp only
  have hStrip := Digits.strip_spec (Digits.count a) a
  generalize Digits.strip (Digits.count a) a = stripped at hStrip ⊢
  rcases stripped with ⟨b, k⟩
  refine ⟨b, i + k, ?_, ?_⟩
  · congr 1
  · dsimp only at hStrip
    rw [Nat.add_comm, Nat.pow_add, ← Nat.mul_assoc, hStrip, hValue]

------------------------------------------------------------
-- Stored Texts
------------------------------------------------------------

/- A zero with a sign or a magnitude below `2 ^ 53` with one. -/
def IsWhole (x : Binary64) : Prop :=
  ∃ s q, q < 2 ^ 53 ∧ x = ofFraction s q 1

/- Integers in the range of exact ones are whole. -/
theorem isWhole_ofInt
    {i : Int}
    (h : i.natAbs < 2 ^ 53) :
    IsWhole (ofInt i) :=
  ⟨_, _, h, rfl⟩

theorem IsWhole.isFinite
    {x : Binary64}
    (h : x.IsWhole) :
    x.isFinite = true := by
  rcases h with ⟨s, q, hLess, rfl⟩
  by_cases hZero : q = 0
  · rw [hZero]
    rfl
  · have hq := Nat.pos_of_ne_zero hZero
    rw [(ofFraction_eq_whole_iff hq hLess hq).2 rfl,
      whole_eq hq hLess]
    rfl

/-
  Digits of a number: a zero alone, or digits of which the
  first is none.
-/
def IsNumeral (cs : List Char) : Prop :=
  (∀ c ∈ cs, c.isDigit = true) ∧
    (cs = ['0'] ∨ ∃ c ds, cs = c :: ds ∧ c ≠ '0')

theorem isNumeral_write (n : Nat) :
    IsNumeral (Digits.write n) := by
  refine ⟨fun c hc => Digits.isDigit_of_mem_write hc, ?_⟩
  by_cases hZero : n = 0
  · left
    rw [hZero]
    rfl
  · right
    exact Digits.head_write (Nat.pos_of_ne_zero hZero)

/- The layout of a whole number has no exponent. -/
theorem write_stored
    {a i : Nat}
    (ha : 0 < a)
    (h : a * 10 ^ i < 10 ^ 16) :
    Layout.stored.write a (i : Int) =
      Digits.write a ++ Digits.zeros i ++ ['.', '0'] := by
  have hi : i < 16 := by
    apply Nat.lt_of_not_le
    intro hLarge
    have hMore : 10 ^ 16 ≤ 10 ^ i :=
      Nat.pow_le_pow_right (by omega) hLarge
    have hValue : 10 ^ i ≤ a * 10 ^ i := Nat.le_mul_of_pos_left _ ha
    omega
  have hLess : a < 10 ^ (16 - i) := by
    apply Nat.lt_of_mul_lt_mul_right (a := 10 ^ i)
    rw [← Nat.pow_add, show 16 - i + i = 16 by omega]
    exact h
  have hLength := Digits.length_write_le (by omega) hLess
  have hSome : 0 < (Digits.write a).length :=
    List.length_pos_iff.2 (Digits.write_ne_nil a)
  unfold Layout.write
  rw [if_neg (by omega)]
  dsimp only [Layout.stored]
  rw [if_pos (by omega)]
  unfold Layout.positional
  rw [if_neg (by omega), if_pos (by omega),
    show (((Digits.write a).length : Int) + i).toNat -
      (Digits.write a).length = i by omega]
  rfl

/- A whole number is stored as a numeral with a zero behind its point. -/
theorem render_stored
    {q : Nat}
    (s : Bool)
    (h : q < 2 ^ 53) :
    ∃ ds,
      IsNumeral ds ∧
        Digits.read 10 ds = q ∧
        (ofFraction s q 1).render .stored =
          (if s then ['-'] else []) ++ (ds ++ ['.', '0']) := by
  by_cases hZero : q = 0
  · refine ⟨['0'], isNumeral_write 0, ?_, ?_⟩
    · rw [hZero]
      rfl
    · rw [hZero]
      rfl
  have hq := Nat.pos_of_ne_zero hZero
  have hOne := (ofFraction_eq_whole_iff (s := s) hq h hq).2 rfl
  rcases shortest_whole Layout.stored.tie hq h with
    ⟨a, i, hShortest, hValue⟩
  have ha : 0 < a := by
    apply Nat.pos_of_ne_zero
    rintro rfl
    omega
  have hSmall : a * 10 ^ i < 10 ^ 16 := by
    rw [hValue]
    exact Nat.lt_trans h (by decide)
  refine ⟨Digits.write a ++ Digits.zeros i, ⟨?_, ?_⟩, ?_, ?_⟩
  · intro c hc
    rcases List.mem_append.1 hc with hc | hc
    · exact Digits.isDigit_of_mem_write hc
    · exact Digits.isDigit_of_mem_zeros hc
  · right
    rcases Digits.head_write ha with ⟨c, cs, hWrite, hNot⟩
    exact ⟨c, cs ++ Digits.zeros i, by rw [hWrite]; rfl, hNot⟩
  · rw [Digits.read_append_zeros i fun c hc =>
      Digits.isDigit_of_mem_write hc, Digits.read_write, hValue]
  · rw [hOne, whole_eq hq h]
    unfold render
    dsimp only
    rw [hShortest]
    dsimp only
    rw [write_stored ha hSmall]

/- Digits around a point are read without it. -/
theorem readScientific?_point
    {ds : List Char}
    (hDigits : ∀ c ∈ ds, c.isDigit = true) :
    readScientific? (ds ++ ['.', '0']) =
      some (Digits.read 10 ds * 10, -1) := by
  have hTake : (ds ++ ['.', '0']).takeWhile Char.isDigit = ds := by
    rw [List.takeWhile_append_of_pos hDigits]
    simp
  have hDrop :
      (ds ++ ['.', '0']).dropWhile Char.isDigit = ['.', '0'] := by
    rw [List.dropWhile_append_of_pos hDigits]
    rfl
  have hRead : Digits.read 10 (ds ++ ['0']) = Digits.read 10 ds * 10 :=
    Digits.read_append_zeros 1 hDigits
  have hFraction :
      ['0'].takeWhile Char.isDigit = ['0'] ∧
        ['0'].dropWhile Char.isDigit = [] := by decide
  simp [readScientific?, hTake, hDrop, hFraction, hRead]

/- Ten times the digits, divided by ten. -/
theorem ofScientific_tenth
    {s : Bool}
    {q : Nat}
    (h : q < 2 ^ 53) :
    ofScientific s (q * 10) (-1) = ofFraction s q 1 := by
  by_cases hZero : q = 0
  · rw [hZero]
    rfl
  have hq := Nat.pos_of_ne_zero hZero
  have hCount : Digits.count (q * 10) ≤ 17 := by
    have hLess : q * 10 < 2 ^ 57 := by omega
    have hLog : (q * 10).log2 < 57 :=
      (Nat.log2_lt (by omega)).2 hLess
    apply Digits.count_le (by omega)
    · omega
    · exact Nat.lt_of_lt_of_le (show q * 10 < 2 ^ 53 * 10 by omega)
        (by decide)
  have hPos := Digits.count_pos (q * 10)
  rw [ofScientific_of_small (by omega) (by omega) (by omega),
    (ofFraction_eq_whole_iff hq h hq).2 rfl]
  have hTen := ofFraction_mul (s := s) hq h (d := 10) (by omega)
  rw [← hTen]
  congr 1
  exact Nat.mul_one _

/- A text with a point is no word for infinity or a NaN. -/
theorem ne_word
    {cs : List Char}
    (word : String)
    (h : '.' ∈ cs)
    (hWord : '.' ∉ word.toList) :
    String.ofList (cs.map Char.toLower) ≠ word := by
  rintro rfl
  rw [String.toList_ofList] at hWord
  exact hWord (List.mem_map.2 ⟨'.', h, rfl⟩)

/- A whole number that is stored is read back. -/
theorem read?_render_stored
    {x : Binary64}
    (h : x.IsWhole) :
    read? (String.ofList (x.render .stored)) = some x := by
  rcases h with ⟨s, q, hLess, rfl⟩
  rcases render_stored s hLess with
    ⟨ds, ⟨hDigits, hFirst⟩, hValue, hRender⟩
  have hSome : ds ≠ [] := by
    rcases hFirst with rfl | ⟨c, cs, rfl, _⟩
    · simp
    · simp
  have hPoint : '.' ∈ ds ++ ['.', '0'] := by simp
  have hInf := ne_word "inf" hPoint (by decide)
  have hInfinity := ne_word "infinity" hPoint (by decide)
  have hNan := ne_word "nan" hPoint (by decide)
  have hRead := readScientific?_point hDigits
  have hTenth := ofScientific_tenth (s := s) hLess
  have hHead :
      ∀ c cs, ds ++ ['.', '0'] = c :: cs → c.isDigit = true := by
    intro c cs hText
    cases ds with
    | nil => exact absurd rfl hSome
    | cons d ds =>
        injection hText with hFirst
        rw [← hFirst]
        exact hDigits d List.mem_cons_self
  rw [hRender]
  unfold read?
  rw [String.toList_ofList]
  generalize ds ++ ['.', '0'] = text at *
  cases s with
  | true => simp [hInf, hInfinity, hNan, hRead, hValue, hTenth]
  | false =>
      simp only [Bool.false_eq_true, if_false, List.nil_append]
      split
      · exact absurd (hHead _ _ rfl) (by decide)
      · exact absurd (hHead _ _ rfl) (by decide)
      · simp [hInf, hInfinity, hNan, hRead, hValue, hTenth]

end Binary64
end StackScript
