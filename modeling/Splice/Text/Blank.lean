/-!
# `Splice.Text.Blank` — blank characters

What counts as blank between tokens and around a template, and the removal of blanks at both ends.

## Contents
- `isBlank`: the characters with the Unicode property White_Space.
- `trim`: drops the blanks at both ends; the result neither starts nor ends with a blank.
-/

namespace Splice.Text

/-- The twenty-five characters with the Unicode property White_Space. -/
def isBlank (c : Char) : Bool :=
  let n := c.toNat
  (9 ≤ n && n ≤ 13) || n == 0x20 || n == 0x85 || n == 0xA0 || n == 0x1680 ||
    (0x2000 ≤ n && n ≤ 0x200A) || n == 0x2028 || n == 0x2029 || n == 0x202F || n == 0x205F ||
    n == 0x3000

/-- `cs` without the blanks at its start. -/
def trimStart (cs : List Char) : List Char := cs.dropWhile isBlank

/-- `cs` without the blanks at its end. -/
def trimEnd (cs : List Char) : List Char := (trimStart cs.reverse).reverse

/-- `cs` without the blanks at either end. -/
def trim (cs : List Char) : List Char := trimEnd (trimStart cs)

variable {c : Char} {cs : List Char}

theorem trimStart_cons_of_not_blank (h : isBlank c = false) : trimStart (c :: cs) = c :: cs := by
  simp [trimStart, h]

theorem trimEnd_concat_of_not_blank (h : isBlank c = false) :
    trimEnd (cs ++ [c]) = cs ++ [c] := by
  simp [trimEnd, trimStart, h]

end Splice.Text
