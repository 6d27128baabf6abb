/-
  Natural numbers as digits: counting them, writing them
  and reading them.

  Key definitions include:
    * `Digits.tens`
    * `Digits.count`
    * `Digits.write`
    * `Digits.read?`
-/

namespace StackScript
namespace Digits

------------------------------------------------------------
-- Counting
------------------------------------------------------------

/- The number that is written as a one and `k` zeros. -/
def tens (k : Nat) : Nat :=
  Nat.pow 10 k

/-
  The least `k ≥ start` with `n < 10 ^ k`, looking at no
  more than `steps` candidates.
-/
def climb
    (n : Nat) :
    Nat → Nat → Nat
| 0, k => k
| steps + 1, k =>
    if tens k ≤ n then climb n steps (k + 1) else k

/-
  The number of decimal digits; zero has one. A binary
  digit is worth more than 0.30102 decimal ones, so the
  search starts below the answer and ends close by.
-/
def count (n : Nat) : Nat :=
  max 1 (climb n (n.log2 + 1) (n.log2 * 30102 / 100000))

------------------------------------------------------------
-- Writing
------------------------------------------------------------

/- The decimal digits of a number, without leading zeros. -/
def write (n : Nat) : List Char :=
  Nat.toDigits 10 n

/- The decimal text of an integer. -/
def writeInt (i : Int) : List Char :=
  (if i < 0 then ['-'] else []) ++ write i.natAbs

/- A run of zeros. -/
def zeros (n : Nat) : List Char :=
  List.replicate n '0'

------------------------------------------------------------
-- Reading
------------------------------------------------------------

/- The value of a digit below the base, if it is one. -/
def value?
    (base : Nat)
    (c : Char) : Option Nat :=
  let v? :=
    if c.isDigit then some (c.toNat - 48)
    else if 97 ≤ c.toNat ∧ c.toNat ≤ 122 then
      some (c.toNat - 87)
    else if 65 ≤ c.toNat ∧ c.toNat ≤ 90 then
      some (c.toNat - 55)
    else none
  v?.filter (· < base)

/- A character is a digit below the base. -/
def isDigit
    (base : Nat)
    (c : Char) : Bool :=
  (value? base c).isSome

/- The number that some digits denote, from the left. -/
def read
    (base : Nat)
    (cs : List Char) : Nat :=
  cs.foldl (fun n c => n * base + (value? base c).getD 0) 0

/- The number that a non-empty run of digits denotes. -/
def read?
    (base : Nat)
    (cs : List Char) : Option Nat :=
  if !cs.isEmpty && cs.all (isDigit base) then
    some (read base cs)
  else none

/- A number without its trailing zeros, and how many. -/
def strip :
    Nat → Nat → Nat × Nat
| 0, n => (n, 0)
| steps + 1, n =>
    if n % 10 = 0 then
      let (m, k) := strip steps (n / 10)
      (m, k + 1)
    else (n, 0)

end Digits
end StackScript
