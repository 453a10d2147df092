import Splice.Text.Blank
import Splice.Token

/-!
# `Splice.Token.Scan` — from text to tokens

Text is cut into tokens from left to right. Blanks separate tokens and are dropped, except line
feeds, which are tokens of their own and are what counts lines.

## Contents
- `ScanError`: what no token can be made of, and its message.
- `quoted`, `numeral`, `word`: the tokens of more than one character, cut off the front of a text.
- `scanToken`: one token, or a blank, cut off the front of a text.
- `scan`: the whole text, with a token for its end.
-/

namespace Splice

/-- What no token can be made of. -/
inductive ScanError where
  /-- No token starts with this character. -/
  | unrecognizedCharacter (character : Char) (line : Int)
  /-- The text ends inside quotes. -/
  | unterminatedString (line : Int)
  /-- A number with a stray point, or one too large. -/
  | malformedNumber (lexeme : String) (line : Int)
  deriving DecidableEq, Repr

/-- The wording of a scan error. -/
def ScanError.message : ScanError → String
  | unrecognizedCharacter c line => s!"[line {line}] Error: Unexpected character '{c}'."
  | unterminatedString line => s!"[line {line}] Error: Unterminated string."
  | malformedNumber lexeme line => s!"[line {line}] Error: Malformed number '{lexeme}'."

namespace Scan

/-! ## Quoted texts -/

/-- The characters up to the end of a quoted text and what follows the end, absent if there is no
end. The quote ends it, and so does any character after a backslash, which itself stays. -/
def untilQuote (quote previous : Char) : List Char → Option (List Char × List Char)
  | [] => none
  | c :: cs =>
    if c = quote ∨ previous = '\\' then some ([], cs)
    else (untilQuote quote c cs).map fun (lexeme, rest) => (c :: lexeme, rest)

/-- What an opening quote encloses. A quote that ends the text encloses nothing. -/
def quoted (quote : Char) (cs : List Char) : Option (List Char × List Char) :=
  if cs.isEmpty then some ([], []) else untilQuote quote quote cs

theorem untilQuote_length {quote previous : Char} {cs lexeme rest : List Char}
    (h : untilQuote quote previous cs = some (lexeme, rest)) : rest.length < cs.length := by
  induction cs generalizing previous lexeme with
  | nil => simp [untilQuote] at h
  | cons c cs ih =>
    unfold untilQuote at h
    split at h
    · simp only [Option.some.injEq, Prod.mk.injEq] at h
      simp [h.2]
    · obtain ⟨⟨l, r⟩, hr, heq⟩ := Option.map_eq_some_iff.1 h
      simp only [Prod.mk.injEq] at heq
      have := ih (heq.2 ▸ hr)
      simp only [List.length_cons]
      omega

/-- A quoted text leaves less than the text it was cut off. -/
theorem quoted_length {quote : Char} {cs lexeme rest : List Char}
    (h : quoted quote cs = some (lexeme, rest)) : rest.length ≤ cs.length := by
  unfold quoted at h
  split at h
  · simp only [Option.some.injEq, Prod.mk.injEq] at h
    simp [← h.2]
  · exact Nat.le_of_lt (untilQuote_length h)

/-! ## Numbers -/

/-- The characters of a number and what follows it, or the characters up to a stray point. A point
is looked for after every digit and needs a digit behind it, with which it is taken at once. -/
def numeral : List Char → Except (List Char) (List Char × List Char)
  | [] => .ok ([], [])
  | c :: cs =>
    if c.isDigit then
      match cs with
      | '.' :: d :: rest =>
        if d.isDigit then
          match numeral rest with
          | .ok (lexeme, rest) => .ok (c :: '.' :: d :: lexeme, rest)
          | .error lexeme => .error (c :: '.' :: d :: lexeme)
        else .error [c, '.']
      | ['.'] => .error [c, '.']
      | rest =>
        match numeral rest with
        | .ok (lexeme, rest) => .ok (c :: lexeme, rest)
        | .error lexeme => .error (c :: lexeme)
    else .ok ([], c :: cs)

/-- The value of a string of decimal digits. -/
def digitsValue (ds : List Char) : Nat := ds.foldl (fun n d => 10 * n + (d.toNat - 48)) 0

/-- The kind of the number with these characters: an integer below `2 ^ 63`, or a float with exactly
one point. -/
def numeralKind? (lexeme : List Char) : Option Token.Kind :=
  match lexeme.count '.' with
  | 0 => if digitsValue lexeme < Nat.pow 2 63 then some .integer else none
  | 1 => some .float
  | _ => none

theorem numeral_length {cs lexeme rest : List Char} (h : numeral cs = .ok (lexeme, rest)) :
    lexeme.length + rest.length = cs.length := by
  induction cs using numeral.induct generalizing lexeme rest with
  | case1 => simp_all [numeral]
  | case2 c hc d tail hd l r hr ih =>
    rw [numeral.eq_def] at h
    simp only [hc, hd, hr, ↓reduceIte, Except.ok.injEq, Prod.mk.injEq] at h
    have := ih hr
    simp only [← h.1, ← h.2, List.length_cons]
    omega
  | case3 c hc d tail hd l hr ih =>
    rw [numeral.eq_def] at h
    simp [hc, hd, hr] at h
  | case4 c hc d tail hd =>
    rw [numeral.eq_def] at h
    simp [hc, hd] at h
  | case5 c hc =>
    rw [numeral.eq_def] at h
    simp [hc] at h
  | case6 c hc tail h1 h2 l r hr ih =>
    rw [numeral.eq_def] at h
    simp only [hc, hr, ↓reduceIte] at h
    have := ih hr
    simp only [Except.ok.injEq, Prod.mk.injEq] at h
    simp only [← h.1, ← h.2, List.length_cons]
    omega
  | case7 c hc tail h1 h2 l hr ih =>
    rw [numeral.eq_def] at h
    simp [hc, hr] at h
  | case8 c cs hc =>
    rw [numeral.eq_def] at h
    simp_all

/-! ## Words -/

/-- A word starts with a letter of the English alphabet. -/
def startsWord (c : Char) : Bool := c.isAlpha

/-- A word goes on with letters, digits and underscores. -/
def continuesWord (c : Char) : Bool := c.isAlphanum || c == '_'

/-- The token of a word: a truth value, in either of two spellings, or an identifier. -/
def wordToken (line : Int) (cs : List Char) : Token :=
  let lexeme := String.ofList cs
  if lexeme = "true" ∨ lexeme = "True" then { kind := .trueWord, lexeme := "true", line }
  else if lexeme = "false" ∨ lexeme = "False" then { kind := .falseWord, lexeme := "false", line }
  else { kind := .identifier, lexeme, line }

/-! ## Tokens -/

/-- The kind of a token of one character other than a line feed. -/
def punctuation? : Char → Option Token.Kind
  | '(' => some .leftParen
  | ')' => some .rightParen
  | ',' => some .comma
  | '.' => some .dot
  | ';' => some .semicolon
  | _ => none

/-- What stands at the front of a text: a token or a blank, the line after it and the rest. -/
structure Step where
  token : Option Token
  line : Int
  rest : List Char

/-- Cuts one token, or one blank, off the front of `c :: cs`. A line feed stands on the line that it
begins. -/
def scanToken (line : Int) (c : Char) (cs : List Char) : Except ScanError Step :=
  match punctuation? c with
  | some kind => .ok { token := some { kind, lexeme := c.toString, line }, line, rest := cs }
  | none =>
    if c = '\n' then
      .ok
        { token := some { kind := .newLine, lexeme := c.toString, line := line + 1 }
          line := line + 1, rest := cs }
    else if Text.isBlank c then .ok { token := none, line, rest := cs }
    else if c = '"' ∨ c = '\'' then
      match quoted c cs with
      | some (lexeme, rest) =>
        .ok { token := some { kind := .text, lexeme := String.ofList lexeme, line }, line, rest }
      | none => .error (.unterminatedString line)
    else if c.isDigit then
      match numeral (c :: cs) with
      | .ok (lexeme, rest) =>
        match numeralKind? lexeme with
        | some kind =>
          .ok { token := some { kind, lexeme := String.ofList lexeme, line }, line, rest }
        | none => .error (.malformedNumber (String.ofList lexeme) line)
      | .error lexeme => .error (.malformedNumber (String.ofList lexeme) line)
    else if startsWord c then
      .ok
        { token := some (wordToken line (c :: cs.takeWhile continuesWord))
          line, rest := cs.dropWhile continuesWord }
    else .error (.unrecognizedCharacter c line)

/-- A number that starts with a digit takes at least that digit. -/
theorem numeral_length_lt {c : Char} {cs lexeme rest : List Char} (hc : c.isDigit = true)
    (h : numeral (c :: cs) = .ok (lexeme, rest)) : rest.length ≤ cs.length := by
  have hlen := numeral_length h
  have hne : lexeme ≠ [] := by
    intro hnil
    rw [numeral.eq_def] at h
    simp only [hc, ↓reduceIte] at h
    repeat' split at h
    all_goals simp_all
  have hpos : 0 < lexeme.length := List.length_pos_iff.2 hne
  simp only [List.length_cons] at hlen
  omega

/-- Each step takes at least one character. -/
theorem scanToken_length {line : Int} {c : Char} {cs : List Char} {step : Step}
    (h : scanToken line c cs = .ok step) : step.rest.length ≤ cs.length := by
  unfold scanToken at h
  repeat' split at h
  all_goals try (simp at h; done)
  all_goals simp only [Except.ok.injEq] at h
  all_goals subst h
  · exact Nat.le_refl _
  · exact Nat.le_refl _
  · exact Nat.le_refl _
  · exact quoted_length (by assumption)
  · exact numeral_length_lt (by assumption) (by assumption)
  · exact (List.dropWhile_suffix _).length_le

/-- The tokens of `cs`, which starts on the given line; the last one marks the end. -/
def scanFrom (line : Int) (cs : List Char) : Except ScanError (List Token) :=
  match cs with
  | [] => .ok [{ kind := .endOfInput, lexeme := "", line }]
  | c :: cs =>
    match _h : scanToken line c cs with
    | .ok step => (scanFrom step.line step.rest).map (step.token.toList ++ ·)
    | .error e => .error e
termination_by cs.length
decreasing_by
  have := scanToken_length _h
  simp only [List.length_cons]
  omega

end Scan

/-- The tokens of `text`. -/
def scan (text : List Char) : Except ScanError (List Token) := Scan.scanFrom 1 text

end Splice
