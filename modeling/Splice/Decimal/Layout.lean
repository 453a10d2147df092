import Splice.Decimal.Shortest

/-!
# `Splice.Decimal.Layout` — how a float is written

The shortest digits of a float are laid out positionally or with an exponent. The layouts in use
differ in where the one ends and the other begins, and in a few signs.

## Contents
- `Layout`: the decisions of one way to write floats.
- `Layout.write`: a float as text.
- `shown`, `source`, `plain`: the layouts of a value, of a literal in a tree and of a message.
-/

namespace Splice.Decimal

/-- The decisions of one way to write floats. -/
structure Layout where
  /-- Numbers `0.d₁d₂… · 10 ^ k` are written positionally for these `k`. -/
  positional : Int → Bool
  /-- Whole numbers written positionally end in `.0`. -/
  wholePoint : Bool
  /-- A single digit before an exponent is followed by `.0`. -/
  mantissaPoint : Bool
  /-- The letter before the exponent. -/
  exponentMark : Char
  /-- The text of the positive infinity. -/
  infinity : String

namespace Layout

/-- `0.d₁d₂… · 10 ^ point` with its point in place. -/
def positionally (layout : Layout) (d : Digits) : List Char :=
  if d.point ≤ 0 then ['0', '.'] ++ List.replicate (-d.point).toNat '0' ++ d.digits
  else if d.digits.length ≤ d.point.toNat then
    d.digits ++ List.replicate (d.point.toNat - d.digits.length) '0' ++
      (if layout.wholePoint then ['.', '0'] else [])
  else d.digits.take d.point.toNat ++ '.' :: d.digits.drop d.point.toNat

/-- `0.d₁d₂… · 10 ^ point` as `d₁.d₂…` and an exponent. -/
def scientifically (layout : Layout) (d : Digits) : List Char :=
  let fraction := d.digits.drop 1
  d.digits.take 1 ++
    (if fraction.isEmpty then (if layout.mantissaPoint then ['.', '0'] else [])
      else '.' :: fraction) ++
    layout.exponentMark :: (toString (d.point - 1)).toList

/-- The characters of `x` in this layout. -/
def writeChars (layout : Layout) (x : Float) : List Char :=
  let sign (negative : Bool) : List Char := if negative then ['-'] else []
  match shape x with
  | .nan => ['N', 'a', 'N']
  | .infinite negative => sign negative ++ layout.infinity.toList
  | .finite negative m e =>
    let d := shortest m e
    sign negative ++
      if layout.positional d.point then layout.positionally d else layout.scientifically d

/-- `x` in this layout. -/
def write (layout : Layout) (x : Float) : String := String.ofList (layout.writeChars x)

/-- Values are shown positionally from `10 ^ -3` up to, but not including, `10 ^ 7`, and always with
a point. -/
def shown : Layout where
  positional k := -2 ≤ k && k ≤ 7
  wholePoint := true
  mantissaPoint := true
  exponentMark := 'E'
  infinity := "Infinity"

/-- Literals are written positionally from `10 ^ -4` up to, but not including, `10 ^ 16`; a whole
number then has a point and a power of ten has none. -/
def source : Layout where
  positional k := -3 ≤ k && k ≤ 16
  wholePoint := true
  mantissaPoint := false
  exponentMark := 'e'
  infinity := "inf"

/-- Messages write every number positionally, whole numbers without a point. -/
def plain : Layout where
  positional _ := true
  wholePoint := false
  mantissaPoint := false
  exponentMark := 'e'
  infinity := "inf"

end Layout

end Splice.Decimal
