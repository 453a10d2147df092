import Splice.Decimal.Exact

/-!
# `Splice.Decimal.Reading` — numbers from text

## Contents
- `digitValue?`, `readNat?`: digits of a radix up to sixteen.
- `readInt64?`: an optional sign and digits, if the number fits 64 bits.
- `readFloat?`: a decimal with an optional point and exponent, or the name of an infinity or of no
  number; the float nearest to it.
-/

namespace Splice.Decimal

/-- The value of `c` as a digit of `radix`, letters of either case standing for ten and more. -/
def digitValue? (radix : Nat) (c : Char) : Option Nat :=
  let n := c.toNat
  let value : Option Nat :=
    if '0' ≤ c && c ≤ '9' then some (n - 48)
    else if 'a' ≤ c && c ≤ 'f' then some (n - 87)
    else if 'A' ≤ c && c ≤ 'F' then some (n - 55)
    else none
  value.filter (· < radix)

/-- The number with the digits `cs` in `radix`, after the digits of `n`. -/
def readNatFrom? (radix : Nat) (n : Nat) : List Char → Option Nat
  | [] => some n
  | c :: cs => (digitValue? radix c).bind fun d => readNatFrom? radix (n * radix + d) cs

/-- The number with the digits `cs`, of which there must be one. -/
def readNat? (radix : Nat) (cs : List Char) : Option Nat :=
  if cs.isEmpty then none else readNatFrom? radix 0 cs

/-- Takes a sign off: whether it is a minus, and the rest. -/
def splitSign : List Char → Bool × List Char
  | '-' :: cs => (true, cs)
  | '+' :: cs => (false, cs)
  | cs => (false, cs)

/-- The 64-bit integer that `cs` writes in `radix`, with an optional sign. -/
def readInt64? (radix : Nat) (cs : List Char) : Option Int64 :=
  let (negative, ds) := splitSign cs
  (readNat? radix ds).bind fun n =>
    let value := signed negative n
    if Int64.minValue.toInt ≤ value ∧ value ≤ Int64.maxValue.toInt then some (Int64.ofInt value)
    else none

/-- The float nearest to `m · 10 ^ e`. -/
def ofDecimal (m : Nat) (e : Int) : Float := .ofModel (.ofScientific m e)

/-- An exponent part: nothing, or the letter and an integer. -/
def readExponent? : List Char → Option Int
  | [] => some 0
  | c :: cs =>
    if c = 'e' || c = 'E' then
      let (negative, ds) := splitSign cs
      (readNat? 10 ds).map (signed negative)
    else none

/-- A decimal without a sign: digits around an optional point, at least one of them, and an optional
exponent. -/
def readDecimal? (cs : List Char) : Option Float :=
  let integer := cs.takeWhile Char.isDigit
  let rest := cs.dropWhile Char.isDigit
  let (fraction, rest) := match rest with
    | '.' :: tail => (tail.takeWhile Char.isDigit, tail.dropWhile Char.isDigit)
    | _ => ([], rest)
  (readNat? 10 (integer ++ fraction)).bind fun m =>
    (readExponent? rest).map fun e => ofDecimal m (e - fraction.length)

/-- The float that `cs` names, sign apart. -/
def readMagnitude? (cs : List Char) : Option Float :=
  let word := cs.map Char.toLower
  if word = ['n', 'a', 'n'] then some nan
  else if word = ['i', 'n', 'f'] || word = ['i', 'n', 'f', 'i', 'n', 'i', 't', 'y'] then
    some (.ofModel (.pack (.infinity .positive)))
  else readDecimal? cs

/-- The float that `cs` writes, with an optional sign. -/
def readFloat? (cs : List Char) : Option Float :=
  let (negative, ds) := splitSign cs
  (readMagnitude? ds).map fun x => if negative then -x else x

end Splice.Decimal
