import Splice.Proofs.Numerals

/-!
# `Splice.Proofs.Scanning` — the tokens of a text

## Contents
- `Cut`: the tokens that can stand at the front of a text; `scanToken_of_cut` and `cut_of_scanToken`
  say that the scanner cuts off these and no others.
- `scanFrom_of_cut`: the scanner goes on behind a token.
- `Legible`, `scan_eq_ok`: the numbers among the tokens of a text can be read, and the end of the
  input stands behind the other tokens and nowhere else.
- `length_of_mem_scan`: a text token is shorter than the text it was cut off.
-/

namespace Splice.Scan

variable {line line' : Int} {c : Char} {cs lexeme rest : List Char} {token : Token}

/-! ## Which characters start what -/

theorem toNat_of_isAlpha (h : c.isAlpha = true) :
    (65 ≤ c.toNat ∧ c.toNat ≤ 90) ∨ (97 ≤ c.toNat ∧ c.toNat ≤ 122) := by
  have halpha : (decide ('A'.val ≤ c.val ∧ c.val ≤ 'Z'.val) ||
      ('a'.val ≤ c.val && c.val ≤ 'z'.val)) = true := h
  simp only [Bool.or_eq_true, Bool.and_eq_true, decide_eq_true_eq,
    UInt32.le_iff_toNat_le] at halpha
  exact halpha

theorem toNat_of_isDigit (h : c.isDigit = true) : 48 ≤ c.toNat ∧ c.toNat ≤ 57 :=
  Char.isDigit_iff_toNat.1 h

/-- A character beyond the punctuation and the blanks of ASCII, and within ASCII, is neither. -/
theorem not_punctuation_of_toNat
    (h : (48 ≤ c.toNat ∧ c.toNat ≤ 57) ∨ (65 ≤ c.toNat ∧ c.toNat ≤ 122)) :
    punctuation? c = none ∧ c ≠ '\n' ∧ Text.isBlank c = false ∧ ¬ (c = '"' ∨ c = '\'') := by
  refine ⟨?_, ?_, ?_, ?_⟩
  · unfold punctuation?
    split
    case h_6 => rfl
    all_goals
      exfalso
      revert h
      decide
  · rintro rfl
    revert h
    decide
  · unfold Text.isBlank
    simp only [Bool.or_eq_false_iff, Bool.and_eq_false_iff, decide_eq_false_iff_not,
      beq_eq_false_iff_ne]
    omega
  · rintro (rfl | rfl)
    · revert h
      decide
    · revert h
      decide

theorem isBlank_of_continuesWord (h : continuesWord c = true) : Text.isBlank c = false := by
  have h : (c.isAlpha || c.isDigit || c == '_') = true := h
  rw [Bool.or_eq_true, Bool.or_eq_true, beq_iff_eq] at h
  rcases h with (h | h) | rfl
  · have hc := toNat_of_isAlpha h
    exact (not_punctuation_of_toNat (.inr (by omega))).2.2.1
  · exact (not_punctuation_of_toNat (.inl (toNat_of_isDigit h))).2.2.1
  · rfl

/-- The token of a word stands on the line of the word and is a truth value or an identifier. -/
theorem exists_kind_of_wordToken (line : Int) (cs : List Char) :
    ∃ kind lexeme, wordToken line cs = { kind, lexeme, line } ∧
      (kind = .trueWord ∨ kind = .falseWord ∨ kind = .identifier) := by
  unfold wordToken
  dsimp only
  split
  · exact ⟨.trueWord, "true", rfl, .inl rfl⟩
  · split
    · exact ⟨.falseWord, "false", rfl, .inr (.inl rfl)⟩
    · exact ⟨.identifier, String.ofList cs, rfl, .inr (.inr rfl)⟩

/-! ## One token -/

/-- The token at the front of `c :: cs`, the line behind it and the rest of the text. -/
inductive Cut (line : Int) (c : Char) (cs : List Char) : Token → Int → List Char → Prop where
  | mark {kind : Token.Kind} (h : punctuation? c = some kind) :
      Cut line c cs { kind, lexeme := c.toString, line } line cs
  | lineFeed (h : c = '\n') :
      Cut line c cs { kind := .newLine, lexeme := c.toString, line := line + 1 } (line + 1) cs
  | text {lexeme rest : List Char} (hc : c = '"' ∨ c = '\'')
      (h : quoted c cs = some (lexeme, rest)) :
      Cut line c cs { kind := .text, lexeme := String.ofList lexeme, line } line rest
  | number {kind : Token.Kind} {lexeme rest : List Char} (hc : c.isDigit = true)
      (h : numeral (c :: cs) = .ok (lexeme, rest)) (hk : numeralKind? lexeme = some kind) :
      Cut line c cs { kind, lexeme := String.ofList lexeme, line } line rest
  | word (hc : startsWord c = true) :
      Cut line c cs (wordToken line (c :: cs.takeWhile continuesWord)) line
        (cs.dropWhile continuesWord)

/-- The scanner cuts off what stands at the front. -/
theorem scanToken_of_cut (h : Cut line c cs token line' rest) :
    scanToken line c cs = .ok { token := some token, line := line', rest } := by
  unfold scanToken
  cases h with
  | mark h => rw [h]
  | lineFeed h =>
    subst h
    rfl
  | text hc h =>
    have hfront : punctuation? c = none ∧ c ≠ '\n' ∧ Text.isBlank c = false := by
      rcases hc with rfl | rfl <;> decide
    rw [hfront.1]
    dsimp only
    rw [if_neg hfront.2.1, if_neg (Bool.eq_false_iff.1 hfront.2.2), if_pos hc, h]
  | number hc h hk =>
    obtain ⟨hp, hn, hb, hq⟩ := not_punctuation_of_toNat (.inl (toNat_of_isDigit hc))
    rw [hp]
    dsimp only
    rw [if_neg hn, if_neg (Bool.eq_false_iff.1 hb), if_neg hq, if_pos hc, h]
    dsimp only
    rw [hk]
  | word hc =>
    -- letters come behind the digits, so the earlier branches are not taken
    have hr := toNat_of_isAlpha hc
    obtain ⟨hp, hn, hb, hq⟩ := not_punctuation_of_toNat (c := c) (.inr (by omega))
    have hd : ¬ c.isDigit = true := by
      intro hd
      have := toNat_of_isDigit hd
      omega
    rw [hp]
    dsimp only
    rw [if_neg hn, if_neg (Bool.eq_false_iff.1 hb), if_neg hq, if_neg hd, if_pos hc]

/-- It cuts off nothing else, blanks apart. -/
theorem cut_of_scanToken {step : Step} (h : scanToken line c cs = .ok step)
    (ht : step.token = some token) : Cut line c cs token step.line step.rest := by
  unfold scanToken at h
  split at h
  · next kind hk =>
    cases h
    cases ht
    exact .mark hk
  · split at h
    · next hn =>
      cases h
      cases ht
      exact .lineFeed hn
    · split at h
      · cases h
        cases ht
      · split at h
        · next hq =>
          split at h
          · next lexeme rest hquoted =>
            cases h
            cases ht
            exact .text hq hquoted
          · cases h
        · split at h
          · next hd =>
            split at h
            · next lexeme rest hnumeral =>
              split at h
              · next kind hk =>
                cases h
                cases ht
                exact .number hd hnumeral hk
              · cases h
            · cases h
          · split at h
            · next hw =>
              cases h
              cases ht
              exact .word hw
            · cases h

/-! ## All tokens -/

theorem scanFrom_cons {step : Step} (h : scanToken line c cs = .ok step) :
    scanFrom line (c :: cs) = (scanFrom step.line step.rest).map (step.token.toList ++ ·) := by
  rw [scanFrom]
  split
  · next step' h' =>
    rw [h] at h'
    cases h'
    rfl
  · next e h' =>
    rw [h] at h'
    cases h'

theorem scanFrom_cons_error {error : ScanError} (h : scanToken line c cs = .error error) :
    scanFrom line (c :: cs) = .error error := by
  rw [scanFrom]
  split
  · next step' h' =>
    rw [h] at h'
    cases h'
  · next e h' =>
    rw [h] at h'
    cases h'
    rfl

/-- The scanner goes on behind a token. -/
theorem scanFrom_of_cut (h : Cut line c cs token line' rest) :
    scanFrom line (c :: cs) = (scanFrom line' rest).map (token :: ·) := by
  rw [scanFrom_cons (scanToken_of_cut h)]
  rfl

/-- Tokens start with what is cut off the front, and go on with those of the rest. -/
theorem exists_of_scanFrom_cons {tokens : List Token}
    (h : scanFrom line (c :: cs) = .ok tokens) :
    ∃ step tail, scanToken line c cs = .ok step ∧ scanFrom step.line step.rest = .ok tail ∧
      tokens = step.token.toList ++ tail := by
  cases hs : scanToken line c cs with
  | error e =>
    rw [scanFrom_cons_error hs] at h
    cases h
  | ok step =>
    rw [scanFrom_cons hs] at h
    cases hr : scanFrom step.line step.rest with
    | error e =>
      rw [hr] at h
      cases h
    | ok tail =>
      rw [hr] at h
      cases h
      exact ⟨step, tail, rfl, hr, rfl⟩

/-- `token` is cut off a text that is not longer than `cs`. -/
def CutWithin (cs : List Char) (token : Token) : Prop :=
  ∃ line c tail line' rest, tail.length < cs.length ∧ Cut line c tail token line' rest

/-- The tokens of a text are those cut off it, and then the end of the input. -/
theorem scanFrom_eq_ok {tokens : List Token} (h : scanFrom line cs = .ok tokens) :
    ∃ init line', tokens = init ++ [{ kind := .endOfInput, lexeme := "", line := line' }] ∧
      ∀ token ∈ init, CutWithin cs token := by
  induction line, cs using scanFrom.induct generalizing tokens with
  | case1 line =>
    rw [scanFrom] at h
    cases h
    exact ⟨[], line, rfl, fun _ ht => absurd ht List.not_mem_nil⟩
  | case2 line c cs step hs ih =>
    obtain ⟨step', tail, hs', hr, rfl⟩ := exists_of_scanFrom_cons h
    obtain rfl : step = step' := Except.ok.inj (hs.symm.trans hs')
    obtain ⟨init, line', rfl, hinit⟩ := ih hr
    refine ⟨step.token.toList ++ init, line', by rw [List.append_assoc], fun token ht => ?_⟩
    rcases List.mem_append.1 ht with ht | ht
    · have hcut := cut_of_scanToken hs (Option.mem_toList.1 ht)
      exact ⟨line, c, cs, step.line, step.rest, Nat.lt_succ_self _, hcut⟩
    · obtain ⟨l, d, tail, l', r, hlen, hcut⟩ := hinit token ht
      have hstep := scanToken_length hs
      refine ⟨l, d, tail, l', r, ?_, hcut⟩
      rw [List.length_cons]
      omega
  | case3 line c cs e hs =>
    obtain ⟨step, tail, hs', -⟩ := exists_of_scanFrom_cons h
    rw [hs] at hs'
    cases hs'

/-- A token that is not the end of the input and, if it is a number, can be read. -/
structure Legible (token : Token) : Prop where
  ne_endOfInput : token.kind ≠ .endOfInput
  integer : token.kind = .integer → ∃ i, Decimal.readInt64? 10 token.lexeme.toList = some i
  float : token.kind = .float → ∃ x, Decimal.readFloat? token.lexeme.toList = some x

theorem legible_of_kind (he : token.kind ≠ .endOfInput) (hi : token.kind ≠ .integer)
    (hf : token.kind ≠ .float) : Legible token :=
  ⟨he, fun h => absurd h hi, fun h => absurd h hf⟩

/-- A number that is cut off can be read. -/
theorem legible_of_numeral {kind : Token.Kind} (hc : c.isDigit = true)
    (h : numeral (c :: cs) = .ok (lexeme, rest)) (hk : numeralKind? lexeme = some kind) :
    Legible { kind, lexeme := String.ofList lexeme, line } := by
  have hcut := numeral_of_numeral_eq_ok h
  obtain ⟨hdigits, hpoint⟩ := hcut.shape
  rcases numeralKind?_eq_some hk with ⟨rfl, h0, hsmall⟩ | ⟨rfl, h1⟩
  · refine ⟨nofun, fun _ => ?_, nofun⟩
    rw [String.toList_ofList]
    exact ⟨_, Decimal.readInt64?_of_digits (hcut.ne_nil hc) (hdigits h0) hsmall⟩
  · refine ⟨nofun, nofun, fun _ => ?_⟩
    obtain ⟨ds, fs, rfl, ⟨hds, hd⟩, -, hf⟩ := hpoint h1
    rw [String.toList_ofList]
    exact ⟨_, Decimal.readFloat?_of_point hds hd hf⟩

/-- Every token that the scanner cuts off is legible. -/
theorem Cut.legible (h : Cut line c cs token line' rest) : Legible token := by
  cases h with
  | mark h =>
    unfold punctuation? at h
    split at h <;> cases h <;> exact legible_of_kind nofun nofun nofun
  | lineFeed h => exact legible_of_kind nofun nofun nofun
  | text hc h => exact legible_of_kind nofun nofun nofun
  | number hc h hk => exact legible_of_numeral hc h hk
  | word hc =>
    obtain ⟨kind, lexeme, htoken, hkind⟩ :=
      exists_kind_of_wordToken line (c :: cs.takeWhile continuesWord)
    rw [htoken]
    rcases hkind with rfl | rfl | rfl <;> exact legible_of_kind nofun nofun nofun

/-- The tokens of a text are legible ones, and then the end of the input. -/
theorem scan_eq_ok {text : List Char} {tokens : List Token} (h : scan text = .ok tokens) :
    ∃ init line, tokens = init ++ [{ kind := .endOfInput, lexeme := "", line }] ∧
      ∀ token ∈ init, Legible token := by
  obtain ⟨init, line, heq, hinit⟩ := scanFrom_eq_ok h
  refine ⟨init, line, heq, fun token ht => ?_⟩
  obtain ⟨_, _, _, _, _, -, hcut⟩ := hinit token ht
  exact hcut.legible

/-! ## The length of quoted texts -/

theorem untilQuote_lexeme_length {quote previous : Char}
    (h : untilQuote quote previous cs = some (lexeme, rest)) : lexeme.length < cs.length := by
  induction cs generalizing previous lexeme with
  | nil => cases h
  | cons c cs ih =>
    rw [untilQuote] at h
    split at h
    · cases h
      exact Nat.succ_pos _
    · obtain ⟨⟨tail, after⟩, htail, heq⟩ := Option.map_eq_some_iff.1 h
      cases heq
      exact Nat.succ_lt_succ (ih htail)

/-- A quoted text is shorter than the text that it was cut off. -/
theorem length_of_mem_scan {text : List Char} {tokens : List Token} (h : scan text = .ok tokens)
    (ht : token ∈ tokens) (hk : token.kind = .text) : token.lexeme.toList.length < text.length := by
  obtain ⟨init, line, rfl, hinit⟩ := scanFrom_eq_ok h
  rcases List.mem_append.1 ht with ht | ht
  · obtain ⟨_, c, tail, _, _, hlen, hcut⟩ := hinit token ht
    cases hcut with
    | mark h =>
      unfold punctuation? at h
      split at h <;> cases h <;> cases hk
    | lineFeed h => cases hk
    | text hc hquoted =>
      unfold quoted at hquoted
      rw [String.toList_ofList]
      split at hquoted
      · cases hquoted
        exact Nat.lt_of_le_of_lt (Nat.zero_le _) hlen
      · exact Nat.lt_trans (untilQuote_lexeme_length hquoted) hlen
    | number hc hnumeral hkind =>
      rcases numeralKind?_eq_some hkind with ⟨rfl, -⟩ | ⟨rfl, -⟩ <;> cases hk
    | word hc =>
      obtain ⟨kind, lexeme, htoken, hkind⟩ := exists_kind_of_wordToken _ (c :: tail.takeWhile _)
      rw [htoken] at hk
      rcases hkind with rfl | rfl | rfl <;> cases hk
  · rw [List.mem_singleton.1 ht] at hk
    cases hk

end Splice.Scan
