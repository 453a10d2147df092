import Splice.Text.Printable

/-!
# `Splice.Text.Quoted` — quoted texts

A text between double quotes in which every character that could be misread is written as an escape.

## Contents
- `escape`: how one character stands between the quotes.
- `quote`: the whole text; `quote_toList` lays out its characters.
-/

namespace Splice.Text

/-- The lower-case hexadecimal digits of `n`. -/
def hexDigits (n : Nat) : List Char := Nat.toDigits 16 n

/-- How `c` is written between double quotes: the usual escapes for line feed, carriage return, tab,
NUL, quote and backslash, a code point in braces where the character cannot be seen on its own. -/
def escape (c : Char) : List Char :=
  if c = '\n' then ['\\', 'n']
  else if c = '\r' then ['\\', 'r']
  else if c = '\t' then ['\\', 't']
  else if c.toNat = 0 then ['\\', '0']
  else if c = '"' then ['\\', '"']
  else if c = '\\' then ['\\', '\\']
  else if isExtending c || !isPrintable c then
    ['\\', 'u', Char.ofNat 0x7B] ++ hexDigits c.toNat ++ [Char.ofNat 0x7D]
  else [c]

/-- `text` between double quotes, its characters escaped. -/
def quote (text : String) : String :=
  String.ofList ('"' :: text.toList.flatMap escape ++ ['"'])

@[simp] theorem quote_toList (text : String) :
    (quote text).toList = '"' :: text.toList.flatMap escape ++ ['"'] := by
  simp [quote]

end Splice.Text
