import Splice.Calendar.Date

/-!
# `Splice.Calendar.Timestamp` — instants from text

A timestamp has a date `yyyy-mm-dd`, the letter T or a space, a time `hh:mm:ss`, perhaps a fraction
of a second, and the distance from universal time: the letter Z or a sign and `hh:mm`.

## Contents
- `digits?`, `mark?`, `offset?`: the parts of a timestamp, taken off the front of a text.
- `Instant.ofTimestamp?`: the instant of a timestamp, in whole seconds.
-/

namespace Splice.Calendar

/-- A number of exactly `count` digits, after those of `n`, and the rest of the text. -/
def digitsFrom? (n : Nat) : (count : Nat) → List Char → Option (Nat × List Char)
  | 0, cs => some (n, cs)
  | count + 1, c :: cs =>
    if c.isDigit then digitsFrom? (10 * n + (c.toNat - 48)) count cs else none
  | _ + 1, [] => none

/-- A number of exactly `count` digits and the rest of the text. -/
def digits? (count : Nat) (cs : List Char) : Option (Nat × List Char) := digitsFrom? 0 count cs

/-- The rest of a text that starts with one of the given characters. -/
def mark? (marks : List Char) : List Char → Option (List Char)
  | c :: cs => if c ∈ marks then some cs else none
  | [] => none

/-- The rest of a text behind a fraction of a second, if there is one; it has at least a digit. -/
def skipFraction? : List Char → Option (List Char)
  | '.' :: cs =>
    if cs.head?.any Char.isDigit then some (cs.dropWhile Char.isDigit) else none
  | cs => some cs

/-- The distance from universal time in minutes, which is less than a day, and the rest of the text.
A minus sign may be a hyphen or the sign U+2212. -/
def offset? (cs : List Char) : Option (Int × List Char) :=
  match cs with
  | [] => none
  | c :: cs =>
    if c = 'Z' ∨ c = 'z' then some (0, cs)
    else if c = '+' ∨ c = '-' ∨ c = '\u2212' then do
      let (hours, cs) ← digits? 2 cs
      let cs ← mark? [':'] cs
      let (minutes, cs) ← digits? 2 cs
      if hours ≤ 23 ∧ minutes ≤ 59 then
        let total : Int := 60 * hours + minutes
        return (if c = '+' then total else -total, cs)
      else none
    else none

/-- The instant of a timestamp. A leap second counts as the second before it. -/
def Instant.ofTimestamp? (cs : List Char) : Option Instant := do
  let (year, cs) ← digits? 4 cs
  let cs ← mark? ['-'] cs
  let (month, cs) ← digits? 2 cs
  let cs ← mark? ['-'] cs
  let (day, cs) ← digits? 2 cs
  let cs ← mark? ['T', 't', ' '] cs
  let (hour, cs) ← digits? 2 cs
  let cs ← mark? [':'] cs
  let (minute, cs) ← digits? 2 cs
  let cs ← mark? [':'] cs
  let (second, cs) ← digits? 2 cs
  let cs ← skipFraction? cs
  let (offset, cs) ← offset? cs
  let date : Date := { year, month, day }
  if date.IsValid ∧ hour ≤ 23 ∧ minute ≤ 59 ∧ second ≤ 60 ∧ cs = [] then
    let atPlace : Instant := .ofParts date hour minute (min second 59)
    return { seconds := atPlace.seconds - 60 * offset }
  else none

end Splice.Calendar
