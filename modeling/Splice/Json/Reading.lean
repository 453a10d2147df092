import Splice.Decimal.Reading
import Splice.Json

/-!
# `Splice.Json.Reading` — reading structured data

A reader takes a value off the front of a text and returns the rest, or a fault with the number of
bytes that are left behind its place.

## Contents
- `number`: integers that fit 64 bits stay integers; every other number is a float, made of its
  first nineteen or twenty digits by one multiplication or division with a power of ten.
- `text`: quoted texts, with escapes; surrogates must come in pairs.
- `value`: any value, nested less than a given depth.
- `Json.read`: a whole text.
-/

namespace Splice.Json.Reading

/-- A fault, and the number of bytes behind its place. -/
structure Failure where
  fault : Fault
  left : Nat

/-- What a reader returns: a result and the rest of the text. -/
abbrev Result (α : Type) := Except Failure (α × List Char)

/-- The length of a text in bytes. -/
def byteLength (cs : List Char) : Nat := cs.foldl (fun n c => n + c.utf8Size) 0

/-- A fault before the rest of the text. -/
def failAt {α : Type} (fault : Fault) (rest : List Char) : Except Failure α :=
  .error { fault, left := byteLength rest }

/-- A fault behind the next byte of the rest, or at its end. -/
def failAfter {α : Type} (fault : Fault) (rest : List Char) : Except Failure α :=
  .error { fault, left := byteLength rest - 1 }

/-- The text without spaces, tabs, line feeds and carriage returns at its start. -/
def skipBlanks (cs : List Char) : List Char :=
  cs.dropWhile fun c => c == ' ' || c == '\n' || c == '\t' || c == '\r'

/-! ## Numbers -/

/-- The value of a decimal digit. -/
def digit (c : Char) : Nat := c.toNat - 48

/-- The largest number of 64 bits without a sign, which bounds the digits that count. -/
def significandLimit : Nat := Nat.pow 2 64 - 1

/-- The largest exponent that is read in full. -/
def exponentLimit : Nat := Nat.pow 2 31 - 1

/-- `x · 10 ^ exponent`, rounded at each step; absent if it is too large. -/
def scale? (x : Float) (exponent : Int) : Option Float :=
  if exponent.natAbs ≤ 308 then
    if 0 ≤ exponent then
      let y := x * Decimal.ofDecimal 1 exponent
      if y.isInf then none else some y
    else some (x / Decimal.ofDecimal 1 exponent.natAbs)
  else if x == 0.0 then some x
  else if 0 ≤ exponent then none
  else scale? (x / Decimal.ofDecimal 1 308) (exponent + 308)
termination_by (-exponent).toNat
decreasing_by omega

/-- The float `± significand · 10 ^ exponent` at the end of a number. -/
def floatOf (negative : Bool) (significand : Nat) (exponent : Int) (rest : List Char) :
    Result Number :=
  match scale? (Decimal.ofInt significand) exponent with
  | some x => .ok (.float (if negative then -x else x), rest)
  | none => failAt .numberOutOfRange rest

/-- The digits of an exponent after those of `n`; absent once they exceed `exponentLimit`, with the
text behind the digit that did it. -/
def exponentDigits (n : Nat) : List Char → Option Nat × List Char
  | [] => (some n, [])
  | c :: cs =>
    if c.isDigit then
      let n := 10 * n + digit c
      if exponentLimit < n then (none, cs) else exponentDigits n cs
    else (some n, c :: cs)

/-- The number whose exponent part, its letter gone, is the front of the text. -/
def exponentPart (negative : Bool) (significand : Nat) (scaled : Int) (cs : List Char) :
    Result Number :=
  let (down, cs) := Decimal.splitSign cs
  match cs with
  | [] => failAt .endInValue []
  | c :: rest =>
    if c.isDigit then
      match exponentDigits 0 (c :: rest) with
      | (some n, rest) => floatOf negative significand (scaled + Decimal.signed down n) rest
      | (none, rest) =>
        if significand ≠ 0 ∧ ¬ down then failAt .numberOutOfRange rest
        else .ok (.float (if negative then -0.0 else 0.0), rest.dropWhile Char.isDigit)
    else failAfter .invalidNumber (c :: rest)

/-- The number whose exponent part, if it has one, is the front of the text. -/
def afterDigits (negative : Bool) (significand : Nat) (scaled : Int) (cs : List Char) :
    Result Number :=
  match cs with
  | c :: rest =>
    if c = 'e' ∨ c = 'E' then exponentPart negative significand scaled rest
    else floatOf negative significand scaled cs
  | [] => floatOf negative significand scaled []

/-- The digits behind a point: the significand, the places they add and the rest of the text. Digits
behind the first that would exceed `significandLimit` do not count. -/
def fractionDigits (significand places : Nat) : List Char → Nat × Nat × List Char
  | [] => (significand, places, [])
  | c :: cs =>
    if c.isDigit then
      let n := 10 * significand + digit c
      if significandLimit < n then (significand, places, cs.dropWhile Char.isDigit)
      else fractionDigits n (places + 1) cs
    else (significand, places, c :: cs)

/-- The number whose fraction, its point gone, is the front of the text. -/
def fractionPart (negative : Bool) (significand : Nat) (scaled : Int) (cs : List Char) :
    Result Number :=
  match cs with
  | [] => failAfter .endInValue []
  | c :: _ =>
    if c.isDigit then
      let (significand, places, rest) := fractionDigits significand 0 cs
      afterDigits negative significand (scaled - places) rest
    else failAfter .invalidNumber cs

/-- The digits of an integer after those of `significand`, the number of those that did not count
any more, and the rest of the text. -/
def integerDigits (significand : Nat) : List Char → Nat × Nat × List Char
  | [] => (significand, 0, [])
  | c :: cs =>
    if c.isDigit then
      let n := 10 * significand + digit c
      if significandLimit < n then
        (significand, 1 + (cs.takeWhile Char.isDigit).length, cs.dropWhile Char.isDigit)
      else integerDigits n cs
    else (significand, 0, c :: cs)

/-- A whole number as an integer if it fits 64 bits, else as a float; a zero with a minus sign is
one. -/
def wholeNumber (negative : Bool) (n : Nat) : Number :=
  if negative ∧ n = 0 then .float (-0.0)
  else
    let i := Decimal.signed negative n
    if Int64.minValue.toInt ≤ i ∧ i ≤ Int64.maxValue.toInt then .integer (Int64.ofInt i)
    else .float (Decimal.ofInt i)

/-- The number whose digits, its sign gone, are the front of the text. A leading zero stands
alone. -/
def number (negative : Bool) (cs : List Char) : Result Number :=
  match cs with
  | [] => failAt .endInValue []
  | c :: rest =>
    if c.isDigit then
      if c = '0' && (rest.head?.any Char.isDigit) then failAfter .invalidNumber rest
      else
        let (significand, dropped, rest) := integerDigits (digit c) rest
        match rest with
        | '.' :: fraction => fractionPart negative significand dropped fraction
        | rest =>
          if dropped = 0 && !(rest.head?.any fun c => c == 'e' || c == 'E') then
            .ok (wholeNumber negative significand, rest)
          else afterDigits negative significand dropped rest
    else failAfter .invalidNumber (c :: rest)

/-! ## Texts -/

/-- The value of four hexadecimal digits. -/
def hexUnit? (a b c d : Char) : Option Nat := Decimal.readNat? 16 [a, b, c, d]

/-- Four hexadecimal digits. -/
def hexUnit (cs : List Char) : Result Nat :=
  let unit? := match cs with
    | a :: b :: c :: d :: rest => (hexUnit? a b c d).map fun n => (n, rest)
    | _ => none
  match unit? with
  | some result => .ok result
  | none =>
    if byteLength cs < 4 then failAt .endInText []
    else .error { fault := .invalidEscape, left := byteLength cs - 4 }

/-- The character of an escape of hexadecimal digits, two of which make one character where the
first is a leading surrogate. -/
def hexEscape (cs : List Char) : Except Failure (Char × List Char) := do
  let (unit, rest) ← hexUnit cs
  if 0xDC00 ≤ unit ∧ unit ≤ 0xDFFF then failAt .loneSurrogate rest
  else if unit < 0xD800 ∨ 0xDBFF < unit then .ok (Char.ofNat unit, rest)
  else
    match rest with
    | '\\' :: 'u' :: tail =>
      let (second, rest) ← hexUnit tail
      if second < 0xDC00 ∨ 0xDFFF < second then failAt .loneSurrogate rest
      else .ok (Char.ofNat (0x10000 + (unit - 0xD800) * 0x400 + (second - 0xDC00)), rest)
    | '\\' :: [] | [] => failAt .endInText []
    | '\\' :: tail => failAfter .unfinishedSurrogatePair tail
    | rest => failAfter .unfinishedSurrogatePair rest

/-- The character of an escape, its backslash gone. -/
def escape (cs : List Char) : Result Char :=
  match cs with
  | [] => failAt .endInText []
  | c :: rest =>
    match c with
    | '"' | '\\' | '/' => .ok (c, rest)
    | 'b' => .ok (Char.ofNat 8, rest)
    | 'f' => .ok (Char.ofNat 12, rest)
    | 'n' => .ok ('\n', rest)
    | 'r' => .ok ('\r', rest)
    | 't' => .ok ('\t', rest)
    | 'u' => hexEscape rest
    | _ => failAfter .invalidEscape (c :: rest)

/-- The characters up to the closing quote, after those of `read`, which come in reverse. Every
escape takes characters off the text, so the check of the lengths only shows that reading ends. -/
def textFrom (read : List Char) (cs : List Char) : Result String :=
  match cs with
  | [] => failAt .endInText []
  | c :: rest =>
    if c = '"' then .ok (String.ofList read.reverse, rest)
    else if c = '\\' then
      match escape rest with
      | .error e => .error e
      | .ok (d, tail) =>
        if _h : tail.length ≤ rest.length then textFrom (d :: read) tail
        else failAt .invalidEscape tail
    else if c.toNat < 0x20 then failAt .controlCharacter rest
    else textFrom (c :: read) rest
termination_by cs.length
decreasing_by all_goals simp_all only [List.length_cons]; omega

/-! ## Values -/

/-- The letters of a word after its first. -/
def word (letters : List Char) (value : Json) (cs : List Char) : Result Json :=
  match letters, cs with
  | [], _ => .ok (value, cs)
  | _ :: _, [] => failAt .endInValue []
  | letter :: letters, c :: cs =>
    if c = letter then word letters value cs else failAfter .expectedWord (c :: cs)

/-- Where a reader of several items stands: at the closing mark, behind which the rest follows, or
at an item. -/
inductive Turn where
  | close (rest : List Char)
  | item (cs : List Char)

/-- What comes next in an array; a comma stands between two elements and nowhere else. -/
def elementTurn (first : Bool) (cs : List Char) : Except Failure Turn :=
  match skipBlanks cs with
  | [] => failAfter .endInArray []
  | c :: rest =>
    if c = ']' then .ok (.close rest)
    else if first then .ok (.item (c :: rest))
    else if c = ',' then
      match skipBlanks rest with
      | [] => failAfter .endInValue []
      | ']' :: rest => failAfter .trailingComma (']' :: rest)
      | cs => .ok (.item cs)
    else failAfter .expectedCommaOrBracket (c :: rest)

/-- The elements of an array up to its bracket, after those of `read`, which come in reverse. Every
element takes characters off the text, so the check of the lengths only shows that reading ends. -/
def elements (element : List Char → Result Json) (read : List Json) (cs : List Char) :
    Result Json :=
  match elementTurn read.isEmpty cs with
  | .error e => .error e
  | .ok (.close rest) => .ok (.array read.reverse, rest)
  | .ok (.item start) =>
    match element start with
    | .error e => .error e
    | .ok (value, rest) =>
      if _h : rest.length < cs.length then elements element (value :: read) rest
      else failAt .expectedValue rest
termination_by cs.length

/-- What comes next in an object: its keys are quoted, and a comma stands between two members and
nowhere else. An item starts behind the quote of its key. -/
def memberTurn (first : Bool) (cs : List Char) : Except Failure Turn :=
  let key : List Char → Except Failure Turn
    | '"' :: rest => .ok (.item rest)
    | cs => failAfter .keyNotText cs
  match skipBlanks cs with
  | [] => failAfter .endInObject []
  | c :: rest =>
    if c = '}' then .ok (.close rest)
    else if first then key (c :: rest)
    else if c = ',' then
      match skipBlanks rest with
      | [] => failAfter .endInValue []
      | '}' :: rest => failAfter .trailingComma ('}' :: rest)
      | cs => key cs
    else failAfter .expectedCommaOrBrace (c :: rest)

/-- A key, whose opening quote is gone, a colon and a value. -/
def member (element : List Char → Result Json) (cs : List Char) :
    Except Failure ((String × Json) × List Char) := do
  let (key, rest) ← textFrom [] cs
  match skipBlanks rest with
  | [] => failAfter .endInObject []
  | ':' :: rest =>
    let (value, rest) ← element rest
    .ok ((key, value), rest)
  | rest => failAfter .expectedColon rest

/-- The members of an object up to its brace, added to those of `read`. A key that stands twice
keeps its first place and its last value. Every member takes characters off the text, so the check
of the lengths only shows that reading ends. -/
def members (element : List Char → Result Json) (read : Table Json) (cs : List Char) :
    Result Json :=
  match memberTurn read.isEmpty cs with
  | .error e => .error e
  | .ok (.close rest) => .ok (.object read, rest)
  | .ok (.item start) =>
    match member element start with
    | .error e => .error e
    | .ok ((key, value), rest) =>
      if _h : rest.length < cs.length then members element (read.insert key value) rest
      else failAt .expectedValue rest
termination_by cs.length

/-- A value, in which arrays and objects nest less than `depth` deep. -/
def value : (depth : Nat) → (cs : List Char) → Result Json
  | depth, cs =>
    match skipBlanks cs with
    | [] => failAfter .endInValue []
    | c :: rest =>
      if c = 'n' then word ['u', 'l', 'l'] .null rest
      else if c = 't' then word ['r', 'u', 'e'] (.boolean true) rest
      else if c = 'f' then word ['a', 'l', 's', 'e'] (.boolean false) rest
      else if c = '-' then (number true rest).map fun (n, rest) => (.number n, rest)
      else if c.isDigit then (number false (c :: rest)).map fun (n, rest) => (.number n, rest)
      else if c = '"' then (textFrom [] rest).map fun (content, rest) => (.text content, rest)
      else if c = '[' ∨ c = '{' then
        match depth with
        | depth + 2 =>
          if c = '[' then elements (value (depth + 1)) [] rest
          else members (value (depth + 1)) [] rest
        | _ => failAfter .tooDeep (c :: rest)
      else failAfter .expectedValue (c :: rest)

/-! ## Whole texts -/

/-- The line and the column of a place given by the number of bytes before it. -/
def placeOf (offset line column : Nat) : List Char → Nat × Nat
  | [] => (line, column + offset)
  | c :: cs =>
    if offset < c.utf8Size then (line, column + offset)
    else if c = '\n' then placeOf (offset - 1) (line + 1) 0 cs
    else placeOf (offset - c.utf8Size) line (column + c.utf8Size) cs

/-- The depth at which values are refused. -/
def depthLimit : Nat := 128

end Reading

open Reading

/-- The value that a text writes, with blanks around it, nested less than `depth` deep. -/
def readWithin (depth : Nat) (text : String) : Except Error Json :=
  let cs := text.toList
  let result : Except Failure Json :=
    match value depth cs with
    | .error e => .error e
    | .ok (json, rest) =>
      match skipBlanks rest with
      | [] => .ok json
      | rest => failAfter .trailingCharacters rest
  result.mapError fun e =>
    let (line, column) := placeOf (byteLength cs - e.left) 1 0 cs
    { fault := e.fault, line, column }

/-- The value that a text writes, nested less than `depthLimit` deep. -/
def read (text : String) : Except Error Json := readWithin depthLimit text

end Splice.Json
