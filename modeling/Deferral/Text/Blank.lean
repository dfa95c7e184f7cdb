/-
# White space

A character is blank when it has the Unicode property White_Space. Text is
trimmed of blanks at both ends before it is read as a flag.

Key definitions: `Text.isBlank`, `Text.trim`, `Text.splitOn`.
-/

namespace Deferral
namespace Text

/-- The ranges of the Unicode property White_Space, both ends included. -/
def blankRanges : List (Nat × Nat) :=
  [(0x09, 0x0D), (0x20, 0x20), (0x85, 0x85), (0xA0, 0xA0), (0x1680, 0x1680), (0x2000, 0x200A),
    (0x2028, 0x2029), (0x202F, 0x202F), (0x205F, 0x205F), (0x3000, 0x3000)]

/-- A character with the property White_Space. -/
def isBlank (c : Char) : Bool :=
  blankRanges.any fun r => decide (r.1 ≤ c.toNat) && decide (c.toNat ≤ r.2)

/-- The text without the blanks it starts with. -/
def trimStart (cs : List Char) : List Char := cs.dropWhile isBlank

/-- The text without the blanks it starts and ends with. -/
def trim (cs : List Char) : List Char := (trimStart (trimStart cs).reverse).reverse

/-- The parts between the separators, in order: one more than there are separators. -/
def splitOn (separator : Char) : List Char → List (List Char)
  | [] => [[]]
  | c :: cs =>
    if c = separator then [] :: splitOn separator cs
    else
      match splitOn separator cs with
      | [] => [[c]]
      | part :: parts => (c :: part) :: parts

end Text
end Deferral
