import Splice.Proofs.Writing

/-!
# `Splice.Proofs.Tiling` — tokens and the parts of a text that they stand for

Every token stands for a part of the text that it was cut off. These parts follow one another in
the order of the tokens, and only blanks are left between them. So no character is lost, and none
is read twice.

## Contents
- `Token.StandsFor`: which characters a token stands for, and what may follow them.
- `Covers`: a text made of blanks and of what its tokens stand for; `covers_of_scanFrom` says that
  the scanner finds the tokens of the text that it reads.
- `Covers.line_eq`: the lines of tokens, counted by the line feeds among them.
- `Tiling`: the parts of a text that tokens stand for, by their positions.
- `tiling_of_scan`: the tokens of a text tile it.
- `HasLine`, `hasLine_of_scanFrom`: a scan comes to no line that the text does not have.
- `line_fits_of_scan`: which texts have lines that are words of 32 bits.
-/

namespace Splice

variable {line line' : Int} {c quote previous : Char} {cs text piece front lexeme rest : List Char}
  {token : Token} {tokens : List Token}

/-! ## What a token stands for -/

/-- How a truth value may be spelled. -/
def spellings : Bool → List String
  | true => ["true", "True"]
  | false => ["false", "False"]

/-- The token stands for `piece`, with `rest` behind it. -/
inductive Token.StandsFor : Token → (piece rest : List Char) → Prop
  | mark {kind : Kind} {c : Char} {line : Int} {rest : List Char}
      (h : Scan.punctuation? c = some kind) :
      StandsFor { kind, lexeme := c.toString, line } [c] rest
  | lineFeed {line : Int} {rest : List Char} :
      StandsFor { kind := .newLine, lexeme := "\n", line } ['\n'] rest
  /-- A text stands between an opening quote and one more character. The quote does not occur in it,
  and a backslash only at its end. Behind a backslash any character closes it, and otherwise the
  quote does. -/
  | text {quote close : Char} {lexeme rest : List Char} {line : Int}
      (hquote : quote = '"' ∨ quote = '\'') (hmem : quote ∉ lexeme)
      (hbackslash : '\\' ∉ lexeme.dropLast)
      (hclose : close = quote ∨ lexeme.getLast? = some '\\') :
      StandsFor { kind := .text, lexeme := String.ofList lexeme, line }
        (quote :: lexeme ++ [close]) rest
  /-- A quote that ends the text stands alone. -/
  | loneQuote {quote : Char} {line : Int} (hquote : quote = '"' ∨ quote = '\'') :
      StandsFor { kind := .text, lexeme := "", line } [quote] []
  | integer {line : Int} {rest : List Char} (digits : Digits)
      (small : Scan.digitsValue digits.chars < Nat.pow 2 63) :
      StandsFor { kind := .integer, lexeme := String.ofList digits.chars, line } digits.chars rest
  | float {line : Int} {rest : List Char} (whole fraction : Digits) :
      StandsFor
        { kind := .float, lexeme := String.ofList (whole.chars ++ '.' :: fraction.chars), line }
        (whole.chars ++ '.' :: fraction.chars) rest
  /-- No longer word stands at the place of an identifier. -/
  | identifier {line : Int} {rest : List Char} (x : Identifier) (hrest : EndsWord rest) :
      StandsFor { kind := .identifier, lexeme := String.ofList x.chars, line } x.chars rest
  | truth {value : Bool} {line : Int} {rest : List Char} (spelling : String)
      (h : spelling ∈ spellings value) (hrest : EndsWord rest) :
      StandsFor { Phrase.truthToken value with line } spelling.toList rest

theorem Scan.kind_of_punctuation? {kind : Token.Kind} (h : punctuation? c = some kind) :
    kind ≠ .newLine ∧ kind ≠ .text ∧ kind ≠ .endOfInput := by
  unfold punctuation? at h
  split at h <;> cases h <;> exact ⟨nofun, nofun, nofun⟩

namespace Token.StandsFor

theorem ne_nil (h : token.StandsFor piece rest) : piece ≠ [] := by
  cases h with
  | integer digits small => exact digits.ne_nil
  | float whole fraction => exact List.append_ne_nil_of_left_ne_nil whole.ne_nil _
  | identifier x hrest => exact List.cons_ne_nil _ _
  | @truth value _ _ spelling h hrest =>
    cases value <;> simp only [spellings, List.mem_cons, List.not_mem_nil, or_false] at h <;>
      rcases h with rfl | rfl <;> decide
  | _ => exact List.cons_ne_nil _ _

theorem ne_endOfInput (h : token.StandsFor piece rest) : token.kind ≠ .endOfInput := by
  cases h with
  | mark h => exact (Scan.kind_of_punctuation? h).2.2
  | @truth value _ _ spelling h hrest => cases value <;> nofun
  | _ => nofun

/-- A line feed stands for itself. -/
theorem eq_lineFeed (h : token.StandsFor piece rest) (hk : token.kind = .newLine) :
    piece = ['\n'] := by
  cases h with
  | mark h => exact absurd hk (Scan.kind_of_punctuation? h).1
  | lineFeed => rfl
  | @truth value _ _ spelling h hrest => cases value <;> cases hk
  | _ => cases hk

end Token.StandsFor

namespace Scan

/-- Between quotes, the quote does not occur, and a backslash only right before the end. -/
theorem shape_of_untilQuote (h : untilQuote quote previous cs = some (lexeme, rest)) :
    ∃ close, cs = lexeme ++ close :: rest ∧ quote ∉ lexeme ∧ (previous = '\\' → lexeme = []) ∧
      '\\' ∉ lexeme.dropLast ∧
      (close = quote ∨ (previous :: lexeme).getLast? = some '\\') := by
  induction cs generalizing previous lexeme with
  | nil => cases h
  | cons c cs ih =>
    rw [untilQuote] at h
    split at h
    · next hstop =>
      cases h
      refine ⟨c, rfl, List.not_mem_nil, fun _ => rfl, List.not_mem_nil, ?_⟩
      exact hstop.imp_right (congrArg some)
    · next hstop =>
      obtain ⟨⟨tail, after⟩, htail, heq⟩ := Option.map_eq_some_iff.1 h
      cases heq
      obtain ⟨hc, hprevious⟩ := not_or.1 hstop
      obtain ⟨close, rfl, hmem, hnil, hbackslash, hclose⟩ := ih htail
      refine ⟨close, rfl, ?_, fun h => absurd h hprevious, ?_, ?_⟩
      · rw [List.mem_cons, not_or]
        exact ⟨Ne.symm hc, hmem⟩
      · cases tail with
        | nil => exact List.not_mem_nil
        | cons d tail =>
          rw [List.dropLast_cons_cons, List.mem_cons, not_or]
          exact ⟨fun h => List.cons_ne_nil _ _ (hnil h.symm), hbackslash⟩
      · rw [List.getLast?_cons_cons]
        exact hclose

/-- What a quoted text is cut off from. -/
theorem standsFor_of_quoted (hquote : quote = '"' ∨ quote = '\'')
    (h : quoted quote cs = some (lexeme, rest)) (line : Int) :
    ∃ piece, quote :: cs = piece ++ rest ∧
      Token.StandsFor { kind := .text, lexeme := String.ofList lexeme, line } piece rest := by
  unfold quoted at h
  split at h
  · next hnil =>
    cases h
    rw [List.isEmpty_iff.1 hnil]
    exact ⟨[quote], rfl, .loneQuote hquote⟩
  · obtain ⟨close, rfl, hmem, -, hbackslash, hclose⟩ := shape_of_untilQuote h
    refine ⟨quote :: lexeme ++ [close], by simp, .text hquote hmem hbackslash ?_⟩
    refine hclose.imp_right fun hlast => ?_
    cases lexeme with
    | nil =>
      -- nothing but the opening quote stands in front, and that is no backslash
      rcases hquote with rfl | rfl <;> cases hlast
    | cons d lexeme => rwa [List.getLast?_cons_cons] at hlast

/-- What a number is cut off from. -/
theorem standsFor_of_numeral {kind : Token.Kind} (hc : c.isDigit = true)
    (h : numeral (c :: cs) = .ok (lexeme, rest)) (hk : numeralKind? lexeme = some kind)
    (line : Int) :
    Token.StandsFor { kind, lexeme := String.ofList lexeme, line } lexeme rest := by
  have hcut := numeral_of_numeral_eq_ok h
  obtain ⟨hdigits, hpoint⟩ := hcut.shape
  have hne : lexeme ≠ [] := hcut.ne_nil hc
  rcases numeralKind?_eq_some hk with ⟨rfl, h0, hsmall⟩ | ⟨rfl, h1⟩
  · exact .integer ⟨lexeme, hne, hdigits h0⟩ hsmall
  · obtain ⟨ds, fs, rfl, ⟨hds, hd⟩, hfs, hf⟩ := hpoint h1
    exact .float ⟨ds, hds, hd⟩ ⟨fs, hfs, hf⟩

/-- A word that is as long as it can be is an identifier, or it spells a truth value. -/
theorem standsFor_wordToken (hc : startsWord c = true) (hcs : ∀ d ∈ cs, continuesWord d = true)
    (hrest : EndsWord rest) (line : Int) :
    (wordToken line (c :: cs)).StandsFor (c :: cs) rest := by
  have htruth : ∀ value, String.ofList (c :: cs) ∈ spellings value →
      Token.StandsFor { Phrase.truthToken value with line } (c :: cs) rest := by
    intro value h
    have hpiece : (String.ofList (c :: cs)).toList = c :: cs := String.toList_ofList
    rw [← hpiece]
    exact .truth _ h hrest
  unfold wordToken
  dsimp only
  split
  · next htrue => exact htruth true (List.mem_pair.2 htrue)
  · next htrue =>
    split
    · next hfalse => exact htruth false (List.mem_pair.2 hfalse)
    · next hfalse =>
      refine .identifier ⟨c, cs, hc, hcs, fun h => ?_⟩ hrest
      rcases List.mem_cons.1 h with h | h
      · exact htrue (.inl h)
      rcases List.mem_cons.1 h with h | h
      · exact htrue (.inr h)
      · exact hfalse (List.mem_pair.1 h)

theorem endsWord_dropWhile (cs : List Char) : EndsWord (cs.dropWhile continuesWord) := by
  intro c hc
  have h := List.head?_dropWhile_not continuesWord cs
  rw [Option.mem_def.1 hc] at h
  simpa using h

/-- A token stands on the line that it leads to, which is another one behind a line feed only. -/
theorem Cut.line_eq (h : Cut line c cs token line' rest) :
    token.line = line' ∧ line' = if token.kind = .newLine then line + 1 else line := by
  cases h with
  | mark h => exact ⟨rfl, (if_neg (kind_of_punctuation? h).1).symm⟩
  | lineFeed h => exact ⟨rfl, rfl⟩
  | text hc h => exact ⟨rfl, rfl⟩
  | number hc h hk => rcases numeralKind?_eq_some hk with ⟨rfl, -⟩ | ⟨rfl, -⟩ <;> exact ⟨rfl, rfl⟩
  | word hc =>
    obtain ⟨kind, lexeme, htoken, hkind⟩ :=
      exists_kind_of_wordToken line (c :: cs.takeWhile continuesWord)
    rw [htoken]
    rcases hkind with rfl | rfl | rfl <;> exact ⟨rfl, rfl⟩

/-- A token stands for what it was cut off from. -/
theorem Cut.exists_standsFor (h : Cut line c cs token line' rest) :
    ∃ piece, c :: cs = piece ++ rest ∧ token.StandsFor piece rest := by
  cases h with
  | mark h => exact ⟨[c], rfl, .mark h⟩
  | lineFeed h =>
    subst h
    exact ⟨['\n'], rfl, .lineFeed⟩
  | text hc h => exact standsFor_of_quoted hc h line
  | number hc h hk =>
    have happend := (numeral_of_numeral_eq_ok h).append_eq
    exact ⟨_, happend, standsFor_of_numeral hc h hk line⟩
  | word hc =>
    refine ⟨c :: cs.takeWhile continuesWord, ?_, ?_⟩
    · rw [List.cons_append, List.takeWhile_append_dropWhile]
    · exact standsFor_wordToken hc (fun d hd => List.mem_takeWhile_imp hd)
        (endsWord_dropWhile cs) line

end Scan

/-! ## Texts and their tokens -/

/-- From a line on, the text is made of blanks and of what the tokens stand for. Only line feeds
lead to another line. -/
inductive Covers : (line : Int) → (text : List Char) → (tokens : List Token) → Prop
  | endOfInput {line : Int} : Covers line [] [{ kind := .endOfInput, lexeme := "", line }]
  | blank {line : Int} {c : Char} {cs : List Char} {tokens : List Token}
      (hblank : Text.isBlank c = true) (hc : c ≠ '\n') (h : Covers line cs tokens) :
      Covers line (c :: cs) tokens
  | token {line : Int} {piece rest : List Char} {token : Token} {tokens : List Token}
      (hpiece : token.StandsFor piece rest)
      (hline : token.line = if token.kind = .newLine then line + 1 else line)
      (h : Covers token.line rest tokens) : Covers line (piece ++ rest) (token :: tokens)

namespace Scan

/-- Where no token is cut off, a blank is. -/
theorem blank_of_scanToken {step : Step} (h : scanToken line c cs = .ok step)
    (ht : step.token = none) :
    Text.isBlank c = true ∧ c ≠ '\n' ∧ step.line = line ∧ step.rest = cs := by
  unfold scanToken at h
  repeat' split at h
  all_goals cases h
  all_goals cases ht
  next hnewLine hblank => exact ⟨hblank, hnewLine, rfl, rfl⟩

/-- The text is made of what the tokens stand for that the scanner finds. -/
theorem covers_of_scanFrom (h : scanFrom line cs = .ok tokens) : Covers line cs tokens := by
  induction line, cs using scanFrom.induct generalizing tokens with
  | case1 line =>
    rw [scanFrom] at h
    cases h
    exact .endOfInput
  | case2 line c cs step hs ih =>
    obtain ⟨step', tail, hs', hr, rfl⟩ := exists_of_scanFrom_cons h
    obtain rfl : step = step' := Except.ok.inj (hs.symm.trans hs')
    have htail := ih hr
    cases ht : step.token with
    | none =>
      obtain ⟨hblank, hc, hline, hrest⟩ := blank_of_scanToken hs ht
      rw [hline, hrest] at htail
      exact .blank hblank hc htail
    | some token =>
      have hcut := cut_of_scanToken hs ht
      obtain ⟨piece, hpiece, hstands⟩ := hcut.exists_standsFor
      obtain ⟨hline, hnext⟩ := hcut.line_eq
      rw [hpiece]
      rw [← hline] at htail hnext
      exact .token hstands hnext htail
  | case3 line c cs e hs =>
    obtain ⟨step, tail, hs', -⟩ := exists_of_scanFrom_cons h
    rw [hs] at hs'
    cases hs'

end Scan

/-- The line of a token is that of the text, and one more for every line feed up to it. -/
theorem Covers.line_eq (h : Covers line text tokens) (i : Nat) (hi : i < tokens.length) :
    tokens[i].line = line + (tokens.take (i + 1)).countP (·.kind = .newLine) := by
  induction h generalizing i with
  | endOfInput =>
    obtain rfl : i = 0 := Nat.lt_one_iff.1 hi
    exact (Int.add_zero _).symm
  | blank hblank hc h ih => exact ih i hi
  | @token line piece rest token tokens hpiece hline h ih =>
    have hcount : ((token :: tokens).take (i + 1)).countP (·.kind = .newLine) =
        (tokens.take i).countP (·.kind = .newLine) +
          if token.kind = .newLine then 1 else 0 := by
      simp only [List.take_succ_cons, List.countP_cons, decide_eq_true_eq]
    have hstep : token.line = line + if token.kind = .newLine then 1 else 0 := by
      rw [hline]
      split
      · rfl
      · exact (Int.add_zero line).symm
    have htail : (token :: tokens)[i].line =
        token.line + (tokens.take i).countP (·.kind = .newLine) := by
      cases i with
      | zero => exact (Int.add_zero _).symm
      | succ i => exact ih i (Nat.lt_of_succ_lt_succ hi)
    rw [htail, hstep, hcount]
    by_cases hk : token.kind = .newLine
    · rw [if_pos hk, if_pos hk]
      omega
    · rw [if_neg hk, if_neg hk]
      omega

/-! ## Positions -/

/-- Some positions of a text, one after the other. -/
structure Extent where
  start : Nat
  stop : Nat
  nonempty : start < stop

namespace Extent

/-- The positions that are `n` further on. -/
def shift (n : Nat) (extent : Extent) : Extent where
  start := extent.start + n
  stop := extent.stop + n
  nonempty := Nat.add_lt_add_right extent.nonempty n

/-- The position is one of these. -/
def Has (extent : Extent) (i : Nat) : Prop := extent.start ≤ i ∧ i < extent.stop

/-- The token stands for the characters of the text at these positions. -/
structure Shows (text : List Char) (token : Token) (extent : Extent) : Prop where
  stop_le : extent.stop ≤ text.length
  standsFor : token.StandsFor (text.extract extent.start extent.stop) (text.drop extent.stop)

variable {extent : Extent}

theorem Shows.shift (h : Shows rest token extent) (front : List Char) :
    Shows (front ++ rest) token (extent.shift front.length) where
  stop_le := by
    have hstop := h.stop_le
    rw [List.length_append]
    show extent.stop + front.length ≤ _
    omega
  standsFor := by
    have hextract : (front ++ rest).extract (extent.start + front.length)
        (extent.stop + front.length) = rest.extract extent.start extent.stop := by
      have hlength : extent.stop + front.length - (extent.start + front.length) =
          extent.stop - extent.start := by omega
      rw [List.extract_eq_take_drop, List.extract_eq_take_drop, hlength, Nat.add_comm,
        List.drop_length_add_append]
    have hdrop : (front ++ rest).drop (extent.stop + front.length) = rest.drop extent.stop := by
      rw [Nat.add_comm]
      exact List.drop_length_add_append extent.stop
    show token.StandsFor ((front ++ rest).extract (extent.start + front.length)
      (extent.stop + front.length)) ((front ++ rest).drop (extent.stop + front.length))
    rw [hextract, hdrop]
    exact h.standsFor

end Extent

/-- The tokens stand for the characters at the extents, one by one. The extents follow one another
and do not overlap, and no character is left between them but blanks other than line feeds. -/
structure Tiling (text : List Char) (tokens : List Token) (extents : List Extent) : Prop where
  ordered : extents.Pairwise fun extent later => extent.stop ≤ later.start
  shows : List.Forall₂ (Extent.Shows text) tokens extents
  blank : ∀ i (h : i < text.length), (∀ extent ∈ extents, ¬ extent.Has i) →
    Text.isBlank text[i] = true ∧ text[i] ≠ '\n'

namespace Tiling

variable {extents : List Extent}

theorem nil : Tiling [] [] [] where
  ordered := .nil
  shows := .nil
  blank _ h := absurd h (Nat.not_lt_zero _)

/-- A tiling does not change if there is something else in front of the text. -/
theorem ordered_shift (h : Tiling rest tokens extents) (n : Nat) :
    (extents.map (Extent.shift n)).Pairwise fun extent later => extent.stop ≤ later.start :=
  List.pairwise_map.2 (h.ordered.imp fun hle => Nat.add_le_add_right hle n)

theorem shows_shift (h : Tiling rest tokens extents) (front : List Char) :
    List.Forall₂ (Extent.Shows (front ++ rest)) tokens
      (extents.map (Extent.shift front.length)) :=
  List.forall₂_map_right_iff.2 (h.shows.imp fun _ _ hshows => hshows.shift front)

theorem blank_shift (h : Tiling rest tokens extents) (front : List Char) (i : Nat)
    (hi : i < (front ++ rest).length) (hfront : front.length ≤ i)
    (houtside : ∀ extent ∈ extents.map (Extent.shift front.length), ¬ extent.Has i) :
    Text.isBlank (front ++ rest)[i] = true ∧ (front ++ rest)[i] ≠ '\n' := by
  rw [List.getElem_append_right hfront]
  refine h.blank _ _ fun extent hextent hhas => ?_
  refine houtside _ (List.mem_map_of_mem hextent) ?_
  show extent.start + front.length ≤ i ∧ i < extent.stop + front.length
  have hhas' : extent.start ≤ i - front.length ∧ i - front.length < extent.stop := hhas
  omega

/-- One more blank in front. -/
theorem cons_blank (hblank : Text.isBlank c = true) (hc : c ≠ '\n')
    (h : Tiling rest tokens extents) :
    Tiling (c :: rest) tokens (extents.map (Extent.shift 1)) where
  ordered := h.ordered_shift 1
  shows := h.shows_shift [c]
  blank i hi houtside := by
    cases i with
    | zero => exact ⟨hblank, hc⟩
    | succ i => exact h.blank_shift [c] (i + 1) hi (Nat.succ_pos i) houtside

/-- One more token in front. -/
theorem cons_token (hpiece : token.StandsFor piece rest) (h : Tiling rest tokens extents) :
    Tiling (piece ++ rest) (token :: tokens)
      (⟨0, piece.length, List.length_pos_iff.2 hpiece.ne_nil⟩ ::
        extents.map (Extent.shift piece.length)) where
  ordered := by
    refine List.pairwise_cons.2 ⟨fun later hlater => ?_, h.ordered_shift piece.length⟩
    obtain ⟨extent, -, rfl⟩ := List.mem_map.1 hlater
    exact Nat.le_add_left _ _
  shows := by
    refine .cons ⟨?_, ?_⟩ (h.shows_shift piece)
    · show piece.length ≤ (piece ++ rest).length
      rw [List.length_append]
      exact Nat.le_add_right _ _
    · show token.StandsFor ((piece ++ rest).extract 0 piece.length)
        ((piece ++ rest).drop piece.length)
      rw [List.extract_eq_take_drop, Nat.sub_zero, List.drop_zero, List.take_left, List.drop_left]
      exact hpiece
  blank i hi houtside := by
    have hlength : piece.length ≤ i := by
      by_contra hlt
      exact houtside _ (List.mem_cons_self ..) ⟨Nat.zero_le i, Nat.not_le.1 hlt⟩
    exact h.blank_shift piece i hi hlength fun extent hextent =>
      houtside extent (List.mem_cons_of_mem _ hextent)

end Tiling

/-- A text is tiled by its tokens, but for the end of the input. -/
theorem Covers.exists_tiling (h : Covers line text tokens) :
    ∃ init last extents, tokens = init ++ [{ kind := .endOfInput, lexeme := "", line := last }] ∧
      (∀ token ∈ init, token.kind ≠ .endOfInput) ∧ Tiling text init extents := by
  induction h with
  | @endOfInput line => exact ⟨[], line, [], rfl, fun _ ht => absurd ht List.not_mem_nil, .nil⟩
  | blank hblank hc h ih =>
    obtain ⟨init, last, extents, htokens, hinit, htiling⟩ := ih
    exact ⟨init, last, _, htokens, hinit, htiling.cons_blank hblank hc⟩
  | token hpiece hline h ih =>
    obtain ⟨init, last, extents, rfl, hinit, htiling⟩ := ih
    refine ⟨_ :: init, last, _, rfl, ?_, htiling.cons_token hpiece⟩
    intro token ht
    rcases List.mem_cons.1 ht with rfl | ht
    · exact hpiece.ne_endOfInput
    · exact hinit token ht

/-- **The tokens of a text tile it.** They are tokens that stand for parts of the text, and then the
end of the input, once. The parts are not empty, they follow one another without an overlap, and
there are only blanks other than line feeds between them. The line of every token, that of the end
included, is counted by the line feeds among the tokens up to it. -/
theorem tiling_of_scan (h : scan text = .ok tokens) :
    (∃ init last extents,
      tokens = init ++ [{ kind := .endOfInput, lexeme := "", line := last }] ∧
      (∀ token ∈ init, token.kind ≠ .endOfInput) ∧ Tiling text init extents) ∧
    ∀ i (hi : i < tokens.length),
      tokens[i].line = 1 + ((tokens.take (i + 1)).countP (·.kind = .newLine) : Nat) := by
  have hcovers : Covers 1 text tokens := Scan.covers_of_scanFrom h
  exact ⟨hcovers.exists_tiling, hcovers.line_eq⟩

theorem tiling_of_scan_ends :
    let text := "'a\\bTrue\n \"".toList
    let tokens : List Token :=
      [⟨.text, "a\\", 1⟩, ⟨.trueWord, "true", 1⟩, ⟨.newLine, "\n", 2⟩, ⟨.text, "", 2⟩,
        ⟨.endOfInput, "", 2⟩]
    scan text = .ok tokens ∧
      (∃ init last extents,
        tokens = init ++ [{ kind := .endOfInput, lexeme := "", line := last }] ∧
        (∀ token ∈ init, token.kind ≠ .endOfInput) ∧ Tiling text init extents) ∧
      ∀ i (hi : i < tokens.length),
        tokens[i].line = 1 + ((tokens.take (i + 1)).countP (·.kind = .newLine) : Nat) := by
  intro text tokens
  have h : scan text = .ok tokens := by decide +kernel
  exact ⟨h, tiling_of_scan h⟩

/-! ## How large a line gets -/

/-- A text whose first character stands on `line` has this line. -/
def HasLine (line : Int) (text : List Char) (reached : Int) : Prop :=
  line ≤ reached ∧ reached ≤ line + text.count '\n'

theorem hasLine_first (line : Int) (text : List Char) : HasLine line text line :=
  ⟨Int.le_refl _, Int.le_add_of_nonneg_right (Int.natCast_nonneg _)⟩

/-- The line that an error names. -/
def ScanError.lineNumber : ScanError → Int
  | unrecognizedCharacter _ line => line
  | unterminatedString line => line
  | malformedNumber _ line => line

namespace Scan

/-- The lines that come out of a scan: those of the tokens, or that of the error. -/
def lines : Except ScanError (List Token) → List Int
  | .ok tokens => tokens.map Token.line
  | .error error => [error.lineNumber]

theorem mem_lines_map {result : Except ScanError (List Token)} {front : List Token}
    (h : line' ∈ lines (result.map (front ++ ·))) :
    (∃ token ∈ front, token.line = line') ∨ line' ∈ lines result := by
  cases result with
  | error error => exact .inr h
  | ok tokens =>
    have happend : line' ∈ (front ++ tokens).map Token.line := h
    rw [List.map_append, List.mem_append] at happend
    exact happend.imp_left List.mem_map.1

/-- An error names the line that the scan has come to. -/
theorem line_of_scanToken_error {error : ScanError} (h : scanToken line c cs = .error error) :
    error.lineNumber = line := by
  unfold scanToken at h
  repeat' split at h
  all_goals cases h
  all_goals rfl

/-- A step counts no line without a line feed that it takes. -/
theorem line_le_of_scanToken {step : Step} (h : scanToken line c cs = .ok step) :
    line ≤ step.line ∧ step.line + step.rest.count '\n' ≤ line + (c :: cs).count '\n' := by
  cases ht : step.token with
  | none =>
    obtain ⟨-, hc, hline, hrest⟩ := blank_of_scanToken h ht
    rw [hline, hrest, List.count_cons_of_ne hc]
    exact ⟨Int.le_refl _, Int.le_refl _⟩
  | some token =>
    have hcut := cut_of_scanToken h ht
    obtain ⟨piece, hpiece, hstands⟩ := hcut.exists_standsFor
    obtain ⟨-, hnext⟩ := hcut.line_eq
    rw [hpiece, List.count_append, hnext]
    split
    · next hk =>
      obtain rfl := hstands.eq_lineFeed hk
      rw [List.count_singleton_self]
      omega
    · omega

/-- The tokens and the error of a scan stand on lines of the text. -/
theorem hasLine_of_scanFrom (h : line' ∈ lines (scanFrom line cs)) : HasLine line cs line' := by
  induction line, cs using scanFrom.induct with
  | case1 line =>
    rw [scanFrom] at h
    cases List.mem_singleton.1 h
    exact hasLine_first line []
  | case2 line c cs step hs ih =>
    obtain ⟨hfirst, hlast⟩ := line_le_of_scanToken hs
    have hlater : HasLine step.line step.rest line' → HasLine line (c :: cs) line' :=
      fun h => ⟨Int.le_trans hfirst h.1, Int.le_trans h.2 hlast⟩
    rw [scanFrom_cons hs] at h
    rcases mem_lines_map h with ⟨token, ht, rfl⟩ | h
    · obtain ⟨hline, -⟩ := (cut_of_scanToken hs (Option.mem_toList.1 ht)).line_eq
      refine hlater ?_
      rw [hline]
      exact hasLine_first step.line step.rest
    · exact hlater (ih h)
  | case3 line c cs e hs =>
    rw [scanFrom_cons_error hs] at h
    cases List.mem_singleton.1 h
    rw [line_of_scanToken_error hs]
    exact hasLine_first line (c :: cs)

end Scan

/-- **Lines are words of 32 bits** with a sign, those of the tokens as well as that of an error, as
long as the text has fewer than `2 ^ 31 - 1` line feeds. -/
theorem line_fits_of_scan (hcount : text.count '\n' + 1 < Nat.pow 2 31)
    (h : line ∈ Scan.lines (scan text)) : 1 ≤ line ∧ (Int32.ofInt line).toInt = line := by
  obtain ⟨hfirst, hlast⟩ := Scan.hasLine_of_scanFrom h
  have hbound : (Nat.pow 2 31 : Int) = 2 ^ 31 := rfl
  exact ⟨hfirst, Int32.toInt_ofInt_of_le (by omega) (by omega)⟩

end Splice
