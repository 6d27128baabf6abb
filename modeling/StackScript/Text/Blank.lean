/-
  Blank characters, and trimming them from both ends of a text.

  The class is the White_Space property of the Unicode
  standard, which has twenty-five members.

  Key definitions include:
    * `Text.isBlank`
    * `Text.trim`
-/

namespace StackScript
namespace Text

------------------------------------------------------------
-- The Class of Blank Characters
------------------------------------------------------------

/- The code points of the blank characters, as closed ranges. -/
def blankRanges : List (Nat × Nat) :=
  [(0x9, 0xd), (0x20, 0x20), (0x85, 0x85), (0xa0, 0xa0),
   (0x1680, 0x1680), (0x2000, 0x200a), (0x2028, 0x2029),
   (0x202f, 0x202f), (0x205f, 0x205f), (0x3000, 0x3000)]

/- A code point lies in one of some closed ranges. -/
def inRanges
    (ranges : List (Nat × Nat))
    (n : Nat) : Bool :=
  ranges.any fun r => decide (r.1 ≤ n) && decide (n ≤ r.2)

/- A character is blank when it is Unicode white space. -/
def isBlank (c : Char) : Bool :=
  inRanges blankRanges c.toNat

------------------------------------------------------------
-- Trimming
------------------------------------------------------------

/- Drop the blank characters at the end of a text. -/
def trimRight (cs : List Char) : List Char :=
  (cs.reverse.dropWhile isBlank).reverse

/- Drop the blank characters at both ends of a text. -/
def trim (cs : List Char) : List Char :=
  trimRight (cs.dropWhile isBlank)

end Text
end StackScript
