import StackScript.Number.Binary64

/-
  Floating-point numbers as decimal text.

  The digits are the fewest that read back as the same
  number, and among those the nearest to it. A layout says
  where an exponent is written, whether an integral number
  keeps a point, and which way an exact tie goes.

  Key definitions include:
    * `Binary64.shortest`
    * `Layout`
    * `Binary64.render`
    * `Binary64.read?`
-/

namespace StackScript

/- Which of two equally near decimals is taken. -/
inductive Tie where
| up
| even
deriving DecidableEq, Repr

namespace Binary64

------------------------------------------------------------
-- The Fewest Digits That Read Back
------------------------------------------------------------

/- The greatest `k` with `10 ^ k ≤ n / d`, for positive `n`, `d`. -/
def floorLog10 (n d : Nat) : Int :=
  if d ≤ n then (Digits.count (n / d) : Int) - 1
  else
    let k := Digits.count (d / n)
    if n * Digits.tens (k - 1) = d then -((k : Int) - 1) else -(k : Int)

/-
  A decimal on the grid of multiples of `10 ^ p` that reads
  back as `x`, where `x` is `n / d`: the nearer of its two
  neighbours on the grid if both do.
-/
def onGrid?
    (tie : Tie)
    (x : Binary64)
    (n d : Nat)
    (p : Int) : Option (Nat × Int) :=
  let num := n * Digits.tens (-p).toNat
  let den := d * Digits.tens p.toNat
  let low := num / den
  let r := num % den
  let isLow := decide (ofScientific false low p = x)
  let isHigh := decide (ofScientific false (low + 1) p = x)
  let lowNearer :=
    decide (2 * r < den) ||
      (decide (2 * r = den) &&
        decide (tie = .even) && decide (low % 2 = 0))
  if isLow && (lowNearer || !isHigh) then some (low, p)
  else if isHigh then some (low + 1, p)
  else none

/-
  Try ever finer grids, `steps` of them, from the one with
  unit `10 ^ p` on; after the last, all digits are taken.
-/
def refine
    (tie : Tie)
    (x : Binary64)
    (n d : Nat)
    (all : Nat × Int) :
    Nat → Int → Nat × Int
| 0, _ => all
| steps + 1, p =>
    match onGrid? tie x n d p with
    | some found => found
    | none => refine tie x n d all steps (p - 1)

/-
  Digits and power of ten of the shortest decimal that
  reads back as a positive number with these parts.
-/
def shortest
    (tie : Tie)
    (m : Nat)
    (e : Int) : Nat × Int :=
  if m = 0 then (0, 0)
  else
    let n := scaleUp m e
    let d := Nat.pow 2 (-e).toNat
    let all :=
      if 0 ≤ e then (n, 0) else (m * Nat.pow 5 (-e).toNat, e)
    let (digits, p) :=
      refine tie (make false m e) n d all 17 (floorLog10 n d)
    let (stripped, k) := Digits.strip (Digits.count digits) digits
    (stripped, p + k)

------------------------------------------------------------
-- Layouts
------------------------------------------------------------

end Binary64

/- How digits and a power of ten become text. -/
structure Layout where
  /- Which way an exact tie goes. -/
  tie : Tie
  /-
    The least and the greatest place of the point, counted
    from the first digit, that is written without an
    exponent; `none` when all are.
  -/
  window : Option (Int × Int)
  /- Whether an integral number ends in a point and a zero. -/
  point : Bool

namespace Layout

/- Digits with a point after the first `place` of them. -/
def positional
    (l : Layout)
    (ds : List Char)
    (place : Int) : List Char :=
  if place ≤ 0 then
    ['0', '.'] ++ Digits.zeros (-place).toNat ++ ds
  else if (ds.length : Int) ≤ place then
    ds ++ Digits.zeros (place.toNat - ds.length)
      ++ (if l.point then ['.', '0'] else [])
  else ds.take place.toNat ++ ['.'] ++ ds.drop place.toNat

/- Digits with a point after the first, and an exponent. -/
def scientific
    (ds : List Char)
    (place : Int) : List Char :=
  ds.take 1
    ++ (if ds.length ≤ 1 then [] else '.' :: ds.drop 1)
    ++ ['e'] ++ Digits.writeInt (place - 1)

/- Text for `digits * 10 ^ e`. -/
def write
    (l : Layout)
    (digits : Nat)
    (e : Int) : List Char :=
  if digits = 0 then
    if l.point then ['0', '.', '0'] else ['0']
  else
    let ds := Digits.write digits
    let place := ds.length + e
    match l.window with
    | none => l.positional ds place
    | some (least, greatest) =>
        if least ≤ place ∧ place ≤ greatest then
          l.positional ds place
        else scientific ds place

/- Never an exponent, and no point on an integral number. -/
def plain : Layout :=
  ⟨.up, none, false⟩

/- For dumps: an exponent from `1e16` on and below `1e-4`. -/
def dump : Layout :=
  ⟨.up, some (-3, 16), true⟩

/- For stored data: an exponent from `1e16` on and below `1e-5`. -/
def stored : Layout :=
  ⟨.even, some (-4, 16), true⟩

end Layout

namespace Binary64

/- A number as text in some layout. -/
def render
    (l : Layout) :
    Binary64 → List Char
| .nan => ['N', 'a', 'N']
| .infinite s => (if s then ['-'] else []) ++ ['i', 'n', 'f']
| .finite s m e _ =>
    let (digits, p) := shortest l.tie m e
    (if s then ['-'] else []) ++ l.write digits p

------------------------------------------------------------
-- Reading
------------------------------------------------------------

/- An integer in decimal, with an optional sign. -/
def readExponent? (cs : List Char) : Option Int :=
  match cs with
  | '-' :: ds => (Digits.read? 10 ds).map fun n => -(n : Int)
  | '+' :: ds => (Digits.read? 10 ds).map fun n => (n : Int)
  | ds => (Digits.read? 10 ds).map fun n => (n : Int)

/-
  Digits with an optional point and exponent, as the number
  that all digits denote and a power of ten.
-/
def readScientific? (cs : List Char) : Option (Nat × Int) := do
  let whole := cs.takeWhile Char.isDigit
  let rest := cs.dropWhile Char.isDigit
  let (fraction, rest) :=
    match rest with
    | '.' :: ds => (ds.takeWhile Char.isDigit, ds.dropWhile Char.isDigit)
    | ds => ([], ds)
  if whole.isEmpty && fraction.isEmpty then none
  let e ←
    match rest with
    | [] => some 0
    | c :: ds => if c = 'e' ∨ c = 'E' then readExponent? ds else none
  some (Digits.read 10 (whole ++ fraction), e - fraction.length)

/- The number that a text denotes, infinities and NaN included. -/
def read? (text : String) : Option Binary64 :=
  let unsigned (negative : Bool) (cs : List Char) :=
    let word := String.ofList (cs.map Char.toLower)
    if word = "inf" ∨ word = "infinity" then
      some (.infinite negative)
    else if word = "nan" then some .nan
    else (readScientific? cs).map fun (n, e) => ofScientific negative n e
  match text.toList with
  | '-' :: cs => unsigned true cs
  | '+' :: cs => unsigned false cs
  | cs => unsigned false cs

end Binary64
end StackScript
