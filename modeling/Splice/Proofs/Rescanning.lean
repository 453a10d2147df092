import Splice.Proofs.Tiling

/-!
# `Splice.Proofs.Rescanning` — tokens written out and scanned again

Tokens that were found in a text can be written out again, each with a space behind it. This need
not give the text that they come from: blanks get lost, texts may get other quotes, and truth values
have one spelling only. But it is a text with the very same tokens.

## Contents
- `Token.render`, `Token.renderAll`: tokens written out.
- `quoteFor_notMem`: a text can be quoted again, as only one kind of quotes occurs in it.
- `Token.StandsFor.exists_cut_render`: a token that was written out is cut off again.
- `scan_renderAll`: the tokens of a text are those of the text that they are written out as.
-/

namespace Splice

/-- The quote for a text: the single one, unless it occurs in the text. -/
def quoteFor (lexeme : List Char) : Char := if '\'' ∈ lexeme then '"' else '\''

/-- How a token is written out: by its lexeme, and a text between quotes. -/
def Token.render (token : Token) : List Char :=
  let lexeme := token.lexeme.toList
  if token.kind = .text then quoteFor lexeme :: lexeme ++ [quoteFor lexeme] else lexeme

/-- Tokens written out with a space behind each of them. The end of the input is left out. -/
def Token.renderAll (tokens : List Token) : List Char :=
  (tokens.filter (·.kind ≠ .endOfInput)).flatMap fun token => token.render ++ [' ']

variable {line line' : Int} {cs text piece lexeme rest : List Char} {token : Token}
  {tokens : List Token}

open Scan (Cut)

theorem quoteFor_isQuote (lexeme : List Char) :
    quoteFor lexeme = '"' ∨ quoteFor lexeme = '\'' := by
  unfold quoteFor
  split
  · exact .inl rfl
  · exact .inr rfl

/-- If one of the quotes does not occur in a text, the one that is chosen for it does not. -/
theorem quoteFor_notMem {quote : Char} (hquote : quote = '"' ∨ quote = '\'')
    (hmem : quote ∉ lexeme) : quoteFor lexeme ∉ lexeme := by
  unfold quoteFor
  split
  · next hsingle =>
    rcases hquote with rfl | rfl
    · exact hmem
    · exact absurd hsingle hmem
  · next hsingle => exact hsingle

namespace Token

theorem render_of_ne_text (h : token.kind ≠ .text) : token.render = token.lexeme.toList :=
  if_neg h

theorem renderAll_cons (h : token.kind ≠ .endOfInput) (tokens : List Token) :
    renderAll (token :: tokens) = token.render ++ ' ' :: renderAll tokens := by
  have hfilter : (token :: tokens).filter (·.kind ≠ .endOfInput) =
      token :: tokens.filter (·.kind ≠ .endOfInput) :=
    List.filter_cons_of_pos (decide_eq_true h)
  rw [renderAll, hfilter, List.flatMap_cons, List.append_assoc]
  rfl

end Token

/-- What is cut off by its lexeme is cut off where it is written out. -/
theorem exists_cut_of_lexeme {c : Char} (hkind : token.kind ≠ .text)
    (hlexeme : token.lexeme.toList = c :: cs) (hcut : Cut line c (cs ++ rest) token line' rest) :
    ∃ c cs, token.render ++ rest = c :: cs ∧ Cut line c cs token line' rest := by
  refine ⟨c, cs ++ rest, ?_, hcut⟩
  rw [Token.render_of_ne_text hkind, hlexeme]
  rfl

/-- A text that was written out is cut off again. -/
theorem exists_cut_of_text (hmem : quoteFor lexeme ∉ lexeme) (hbackslash : '\\' ∉ lexeme.dropLast)
    (line : Int) (rest : List Char) :
    let token : Token := { kind := .text, lexeme := String.ofList lexeme, line }
    ∃ c cs, token.render ++ rest = c :: cs ∧ Cut line c cs token line rest := by
  intro token
  have hrender : token.render ++ rest =
      quoteFor lexeme :: (lexeme ++ quoteFor lexeme :: rest) := by
    show quoteFor (String.ofList lexeme).toList :: (String.ofList lexeme).toList ++
      [quoteFor (String.ofList lexeme).toList] ++ rest = _
    rw [String.toList_ofList, List.append_assoc]
    rfl
  have hquoted : Scan.quoted (quoteFor lexeme) (lexeme ++ quoteFor lexeme :: rest) =
      some (lexeme, rest) :=
    quoted_content (quoteFor_isQuote lexeme) hmem hbackslash
  exact ⟨_, _, hrender, .text (quoteFor_isQuote lexeme) hquoted⟩

/-- A number that was written out is cut off again in front of what does not go on with it. -/
theorem exists_cut_of_number {kind : Token.Kind} (hdigit : ∃ c ∈ lexeme.head?, c.isDigit = true)
    (hnumeral : Scan.numeral (lexeme ++ rest) = .ok (lexeme, rest))
    (hk : Scan.numeralKind? lexeme = some kind) (line : Int) :
    let token : Token := { kind, lexeme := String.ofList lexeme, line }
    ∃ c cs, token.render ++ rest = c :: cs ∧ Cut line c cs token line rest := by
  intro token
  have hkind : token.kind ≠ .text := by
    rcases Scan.numeralKind?_eq_some hk with ⟨rfl, -⟩ | ⟨rfl, -⟩ <;> nofun
  cases lexeme with
  | nil =>
    obtain ⟨c, hc, -⟩ := hdigit
    cases hc
  | cons c cs =>
    obtain ⟨d, hd, hdigit⟩ := hdigit
    cases hd
    exact exists_cut_of_lexeme hkind String.toList_ofList (.number hdigit hnumeral hk)

/-- A word is cut off up to where it ends. -/
theorem cut_of_word {c : Char} (hc : Scan.startsWord c = true)
    (hcs : ∀ d ∈ cs, Scan.continuesWord d = true) (hrest : EndsWord rest) (line : Int) :
    Cut line c (cs ++ rest) (Scan.wordToken line (c :: cs)) line rest := by
  obtain ⟨htake, hdrop⟩ := takeWhile_of_endsWord hcs hrest
  have hcut : Cut line c (cs ++ rest) _ line _ := .word hc
  rwa [htake, hdrop] at hcut

/-- **A token that stands for a part of some text is cut off again where it is written out** in
front of a space. -/
theorem Token.StandsFor.exists_cut_render (h : token.StandsFor piece rest)
    (hline : token.line = if token.kind = .newLine then line + 1 else line) (tail : List Char) :
    ∃ c cs, token.render ++ ' ' :: tail = c :: cs ∧
      Cut line c cs token token.line (' ' :: tail) := by
  have hnumber : Scan.EndsNumber (' ' :: tail) := by
    intro c hc
    cases hc
    decide
  have hword : EndsWord (' ' :: tail) := endsWord_cons rfl
  cases h with
  | mark h =>
    obtain ⟨hnewLine, htext, -⟩ := Scan.kind_of_punctuation? h
    rw [if_neg hnewLine] at hline
    cases hline
    exact exists_cut_of_lexeme htext (String.toList_singleton _) (.mark h)
  | @lineFeed line' rest =>
    obtain rfl : line' = line + 1 := hline
    exact exists_cut_of_lexeme nofun (String.toList_singleton '\n') (.lineFeed rfl)
  | text hquote hmem hbackslash hclose =>
    cases hline
    exact exists_cut_of_text (quoteFor_notMem hquote hmem) hbackslash line (' ' :: tail)
  | loneQuote hquote =>
    cases hline
    exact exists_cut_of_text List.not_mem_nil List.not_mem_nil line (' ' :: tail)
  | integer digits small =>
    cases hline
    exact exists_cut_of_number (exists_head?_digit digits.ne_nil digits.isDigit)
      (Scan.numeral_digits digits.isDigit hnumber)
      (numeralKind?_of_digits digits.isDigit small) line
  | float whole fraction =>
    cases hline
    exact exists_cut_of_number (exists_head?_digit_of_point whole fraction)
      (Scan.numeral_point whole.ne_nil whole.isDigit fraction.ne_nil fraction.isDigit hnumber)
      (numeralKind?_of_point whole fraction) line
  | identifier x hrest =>
    cases hline
    have hcut := cut_of_word x.first_starts x.others_continue hword line
    have htoken : Scan.wordToken line (x.first :: x.others) = { x.token with line } :=
      x.wordToken_chars line
    rw [htoken] at hcut
    exact exists_cut_of_lexeme nofun String.toList_ofList hcut
  | @truth value line' rest spelling h hrest =>
    cases value with
    | true =>
      cases hline
      have hcut : Cut line 't' (['r', 'u', 'e'] ++ ' ' :: tail) _ line (' ' :: tail) :=
        cut_of_word rfl (List.all_eq_true.1 rfl) hword line
      have hlexeme : (Phrase.truthToken true).lexeme.toList = ['t', 'r', 'u', 'e'] := by decide
      exact exists_cut_of_lexeme nofun hlexeme hcut
    | false =>
      cases hline
      have hcut : Cut line 'f' (['a', 'l', 's', 'e'] ++ ' ' :: tail) _ line (' ' :: tail) :=
        cut_of_word rfl (List.all_eq_true.1 rfl) hword line
      have hlexeme : (Phrase.truthToken false).lexeme.toList = ['f', 'a', 'l', 's', 'e'] := by
        decide
      exact exists_cut_of_lexeme nofun hlexeme hcut

/-- A space leads to what is behind it. -/
theorem scanFrom_space (line : Int) (cs : List Char) :
    Scan.scanFrom line (' ' :: cs) = Scan.scanFrom line cs := by
  have hspace : Scan.scanToken line ' ' cs = .ok { token := none, line, rest := cs } := rfl
  rw [Scan.scanFrom_cons hspace]
  dsimp only
  cases Scan.scanFrom line cs <;> rfl

/-- Behind a token that is written out with a space, the scanner goes on. -/
theorem Token.StandsFor.scanFrom_render (h : token.StandsFor piece rest)
    (hline : token.line = if token.kind = .newLine then line + 1 else line) (tail : List Char) :
    Scan.scanFrom line (token.render ++ ' ' :: tail) =
      (Scan.scanFrom token.line tail).map (token :: ·) := by
  obtain ⟨c, cs, hrender, hcut⟩ := h.exists_cut_render hline tail
  rw [hrender, Scan.scanFrom_of_cut hcut, scanFrom_space]

/-- The tokens that a text is made of are found again in the text that they are written out as. -/
theorem Covers.scanFrom_renderAll (h : Covers line text tokens) :
    Scan.scanFrom line (Token.renderAll tokens) = .ok tokens := by
  induction h with
  | endOfInput =>
    show Scan.scanFrom _ [] = _
    rw [Scan.scanFrom]
  | blank hblank hc h ih => exact ih
  | @token line piece rest token tokens hpiece hline h ih =>
    rw [Token.renderAll_cons hpiece.ne_endOfInput, hpiece.scanFrom_render hline, ih]
    rfl

/-- **Scanning undoes writing out.** Written out with spaces between them, the tokens of a text are
scanned as the same tokens again, on the same lines. -/
theorem scan_renderAll (h : scan text = .ok tokens) : scan (Token.renderAll tokens) = .ok tokens :=
  (Scan.covers_of_scanFrom h).scanFrom_renderAll

theorem scan_renderAll_ends :
    let text := "\"it's\\\"007.5True\n'".toList
    let tokens : List Token :=
      [⟨.text, "it's\\", 1⟩, ⟨.float, "007.5", 1⟩, ⟨.trueWord, "true", 1⟩, ⟨.newLine, "\n", 2⟩,
        ⟨.text, "", 2⟩, ⟨.endOfInput, "", 2⟩]
    scan text = .ok tokens ∧
      Token.renderAll tokens = "\"it's\\\" 007.5 true \n '' ".toList ∧
      scan (Token.renderAll tokens) = .ok tokens := by
  intro text tokens
  have h : scan text = .ok tokens := by decide +kernel
  exact ⟨h, by decide +kernel, scan_renderAll h⟩

end Splice
