import Splice.Decimal.Places
import Splice.Text.Split

/-!
# `Splice.NumberPattern` — numbers written after a pattern

A pattern is a body of number signs, zeros, commas and a point, with any text before and after it.
Before the point the zeros count the digits that are always written, and the commas set the size of
the groups: the digits behind the last comma make the group nearest to the point, those before it
all other groups. After the point the zeros count the digits that are always written, and zeros and
number signs together those that may be.

## Contents
- `NumberPattern`, `NumberPattern.ofChars`: a pattern and its reading.
- `NumberPattern.group`: digits in groups.
- `NumberPattern.formatChars`, `NumberPattern.format`: a number after a pattern.
-/

namespace Splice

/-- What a pattern asks for. -/
structure NumberPattern where
  before : List Char
  after : List Char
  /-- The size of the group nearest to the point; zero asks for no groups. -/
  primaryGroup : Nat
  /-- The size of the other groups; zero stands for the size of the nearest. -/
  secondaryGroup : Nat
  minIntegerDigits : Nat
  minFractionDigits : Nat
  maxFractionDigits : Nat
  deriving DecidableEq, Repr

namespace NumberPattern

/-- The pattern of a number without a pattern of its own. -/
def default : List Char := ['#', ',', '#', '#', ',', '#', '#', '#']

/-- The characters that the body of a pattern is made of. -/
def isBody (c : Char) : Bool := c == '#' || c == '0' || c == ',' || c == '.'

/-- The sizes of the nearest and the other groups, given the pieces between the commas in reverse.
An empty piece before the last comma asks for groups of one size, as a single comma does. -/
def groupSizes : List (List Char) → Nat × Nat
  | primary :: secondary :: _ :: _ =>
    (primary.length, if secondary.isEmpty then primary.length else secondary.length)
  | primary :: _ :: _ => (primary.length, primary.length)
  | _ => (0, 0)

/-- The pattern that a text describes: its body is the first run of body characters. -/
def ofChars (cs : List Char) : NumberPattern :=
  let rest := cs.dropWhile (!isBody ·)
  let body := rest.takeWhile isBody
  let integer := body.takeWhile (· != '.')
  let fraction := (body.dropWhile (· != '.')).drop 1
  let groups := groupSizes (Text.splitOn ',' integer).reverse
  { before := cs.takeWhile (!isBody ·)
    after := rest.dropWhile isBody
    primaryGroup := groups.1
    secondaryGroup := groups.2
    minIntegerDigits := integer.count '0'
    minFractionDigits := fraction.count '0'
    maxFractionDigits := fraction.countP fun c => c == '0' || c == '#' }

/-- The digits in groups, counted from the right and divided by commas. -/
def group (p : NumberPattern) (digits : List Char) : List Char :=
  if p.primaryGroup = 0 then digits
  else
    let size := if p.secondaryGroup = 0 then p.primaryGroup else p.secondaryGroup
    let fromRight := digits.reverse
    (List.intercalate [',']
      (fromRight.take p.primaryGroup :: Text.chunks size (fromRight.drop p.primaryGroup))).reverse

/-- The digits without zeros at the end, except that the first `min` digits stay. -/
def trimFraction (min : Nat) (digits : List Char) : List Char :=
  digits.take min ++ ((digits.drop min).reverse.dropWhile (· == '0')).reverse

/-- The digits without zeros at the start, but at least `min` of them. -/
def padInteger (min : Nat) (digits : List Char) : List Char :=
  let ds := digits.dropWhile (· == '0')
  List.replicate (min - ds.length) '0' ++ ds

/-- The digits that a number rounded to the places of the pattern is written with, in groups and
with its point. A number always has a digit. -/
def body (p : NumberPattern) (places : Decimal.Places) : List Char :=
  let fraction := trimFraction p.minFractionDigits places.fraction
  let integer := padInteger p.minIntegerDigits places.integer
  if fraction.isEmpty then p.group (if integer.isEmpty then ['0'] else integer)
  else p.group integer ++ '.' :: fraction

/-- A number after a pattern. The minus sign, which negative zero lacks, stands before everything
else. -/
def formatChars (p : NumberPattern) (x : Float) : List Char :=
  let sign (negative : Bool) : List Char := if negative then ['-'] else []
  match Decimal.shape x with
  | .nan => p.before ++ ['N', 'a', 'N'] ++ p.after
  | .infinite negative => sign negative ++ p.before ++ ['∞'] ++ p.after
  | .finite negative m e =>
    sign (negative && m != 0) ++ p.before ++ p.body (Decimal.places p.maxFractionDigits m e) ++
      p.after

/-- A number after a pattern. -/
def format (p : NumberPattern) (x : Float) : String := String.ofList (p.formatChars x)

/-- The pattern that a text describes. -/
def ofString (pattern : String) : NumberPattern := ofChars pattern.toList

end NumberPattern

end Splice
