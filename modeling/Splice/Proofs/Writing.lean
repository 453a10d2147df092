import Splice.Proofs.Acceptance
import Splice.Proofs.Cutting

/-!
# `Splice.Proofs.Writing` — expressions and how they are written

A phrase is an expression as somebody writes it down. Its source is scanned as its tokens whatever
follows it, as long as that does not go on with its last token; its tokens are an expression of the
grammar whose tree is that of the phrase. So its source reads as its tree.

## Contents
- `Identifier`, `Digits`, `Quotation`, `Phrase`, `Phrase.Chain`: what is written.
- `Phrase.write`, `Phrase.tokens`, `Phrase.node`: the source of a phrase, its tokens, its tree.
- `Lexes`: a source is scanned as some tokens in front of a text; `Lexes.append` puts two together.
- `Closes`, `EndsWord`: what may stand behind a phrase, and behind a chain.
- `Phrase.lexes`, `Phrase.expression`: a phrase is scanned as its tokens, and they have its tree.
- `Phrase.ofChars_of_lexes`: what is scanned as the tokens of a phrase reads as its tree.
- `Phrase.ofExpression_write`: the source of a phrase reads as its tree.
-/

namespace Splice

/-! ## Phrases -/

/-- A letter and then letters, digits and underscores, which are not the name of a truth value. -/
structure Identifier where
  first : Char
  others : List Char
  first_starts : Scan.startsWord first = true
  others_continue : ∀ c ∈ others, Scan.continuesWord c = true
  not_truth : String.ofList (first :: others) ∉ ["true", "True", "false", "False"]

/-- Decimal digits, at least one. -/
structure Digits where
  chars : List Char
  ne_nil : chars ≠ []
  isDigit : ∀ c ∈ chars, c.isDigit = true

/-- A text between quotes: the quote does not occur in it, nor does a span, and a backslash only at
its end. -/
structure Quotation where
  quote : Char
  content : List Char
  isQuote : quote = '"' ∨ quote = '\''
  quote_notMem : quote ∉ content
  backslash_notMem : '\\' ∉ content.dropLast
  not_hasSpan : ¬ Span.HasSpan content

mutual

/-- An expression as it is written. -/
inductive Phrase where
  | integer (value : Nat) (small : value < Nat.pow 2 63)
  /-- Digits around a point. -/
  | float (whole fraction : Digits)
  | truth (value : Bool)
  | text (quotation : Quotation)
  | chain (c : Phrase.Chain)

/-- A name and the calls and accesses that follow it. -/
inductive Phrase.Chain where
  | name (name : Identifier)
  | access (target : Phrase.Chain) (field : Identifier)
  | call (callee : Phrase.Chain) (arguments : List Phrase)

end

/-- The characters of an identifier. -/
def Identifier.chars (x : Identifier) : List Char := x.first :: x.others

/-- The token of an identifier on the first line. -/
def Identifier.token (x : Identifier) : Token :=
  { kind := .identifier, lexeme := String.ofList x.chars, line := 1 }

namespace Phrase

/-- The token of a truth value on the first line. -/
def truthToken : Bool → Token
  | true => { kind := .trueWord, lexeme := "true", line := 1 }
  | false => { kind := .falseWord, lexeme := "false", line := 1 }

/-- A token of one character on the first line. -/
def mark (kind : Token.Kind) (c : Char) : Token := { kind, lexeme := c.toString, line := 1 }

mutual

/-- The source of a phrase; arguments are separated by commas. -/
def write : Phrase → List Char
  | .integer value _ => Nat.toDigits 10 value
  | .float whole fraction => whole.chars ++ '.' :: fraction.chars
  | .truth value => (truthToken value).lexeme.toList
  | .text t => t.quote :: t.content ++ [t.quote]
  | .chain c => c.write

def Chain.write : Phrase.Chain → List Char
  | .name x => x.chars
  | .access target field => target.write ++ '.' :: field.chars
  | .call callee arguments => callee.write ++ '(' :: [','].intercalate (writeAll arguments) ++ [')']

def writeAll : List Phrase → List (List Char)
  | [] => []
  | p :: ps => p.write :: writeAll ps

end

mutual

/-- The tokens of a phrase. -/
def tokens : Phrase → List Token
  | .integer value _ =>
    [{ kind := .integer, lexeme := String.ofList (Nat.toDigits 10 value), line := 1 }]
  | .float whole fraction =>
    [{ kind := .float, lexeme := String.ofList (whole.chars ++ '.' :: fraction.chars), line := 1 }]
  | .truth value => [truthToken value]
  | .text t => [{ kind := .text, lexeme := String.ofList t.content, line := 1 }]
  | .chain c => c.tokens

def Chain.tokens : Phrase.Chain → List Token
  | .name x => [x.token]
  | .access target field => target.tokens ++ [mark .dot '.', field.token]
  | .call callee arguments =>
    callee.tokens ++ mark .leftParen '(' :: [mark .comma ','].intercalate (tokensAll arguments) ++
      [mark .rightParen ')']

def tokensAll : List Phrase → List (List Token)
  | [] => []
  | p :: ps => p.tokens :: tokensAll ps

end

mutual

/-- The tree of a phrase. -/
def node : Phrase → Node
  | .integer value _ => .number (.known (.integer (Int64.ofInt value)))
  | .float whole fraction =>
    .number (.known (.float (Decimal.ofDecimal (Scan.digitsValue (whole.chars ++ fraction.chars))
      (0 - fraction.chars.length))))
  | .truth value => .boolean (truthToken value)
  | .text t => Node.ofText (String.ofList t.content)
  | .chain c => c.node

def Chain.node : Phrase.Chain → Node
  | .name x => .reference x.token
  | .access target field => .access target.node field.token
  | .call callee arguments => .call callee.node (nodeAll arguments)

def nodeAll : List Phrase → List Node
  | [] => []
  | p :: ps => p.node :: nodeAll ps

end

end Phrase

/-! ## Scanning what is written -/

variable {cs ds content rest : List Char} {ts us : List Token} {c quote previous : Char}

open Scan (scanFrom Cut)

/-- In front of `rest`, on the first line, `cs` is scanned as the tokens `ts`. -/
def Lexes (cs : List Char) (ts : List Token) (rest : List Char) : Prop :=
  scanFrom 1 (cs ++ rest) = (scanFrom 1 rest).map (ts ++ ·)

/-- One text and then another are scanned as the tokens of the one and then those of the other. -/
theorem Lexes.append (hc : Lexes cs ts (ds ++ rest)) (hd : Lexes ds us rest) :
    Lexes (cs ++ ds) (ts ++ us) rest := by
  unfold Lexes at *
  rw [List.append_assoc, hc, hd]
  cases scanFrom 1 rest with
  | error e => rfl
  | ok tokens => exact congrArg Except.ok (List.append_assoc ts us tokens).symm

theorem Lexes.nil : Lexes [] [] rest := by
  rw [Lexes, List.nil_append]
  cases scanFrom 1 rest <;> rfl

theorem Lexes.of_cut {token : Token} (h : Cut 1 c (cs ++ rest) token 1 rest) :
    Lexes (c :: cs) [token] rest :=
  Scan.scanFrom_of_cut h

theorem Lexes.of_mark {kind : Token.Kind} (h : Scan.punctuation? c = some kind) :
    Lexes [c] [Phrase.mark kind c] rest :=
  .of_cut (.mark h)

/-- What ends a phrase: the end of the input, or a comma or a parenthesis that closes a call. -/
def Closes (rest : List Char) : Prop := ∀ c ∈ rest.head?, c = ',' ∨ c = ')'

/-- No word goes on with `rest`. -/
def EndsWord (rest : List Char) : Prop := ∀ c ∈ rest.head?, Scan.continuesWord c = false

theorem closes_cons (h : c = ',' ∨ c = ')') : Closes (c :: rest) := by
  intro d hd
  rw [← Option.some.inj hd]
  exact h

theorem endsWord_cons (h : Scan.continuesWord c = false) : EndsWord (c :: rest) := by
  intro d hd
  rw [← Option.some.inj hd]
  exact h

theorem Closes.endsNumber (h : Closes rest) : Scan.EndsNumber rest := by
  intro c hc
  rcases h c hc with rfl | rfl <;> decide

theorem Closes.endsWord (h : Closes rest) : EndsWord rest := by
  intro c hc
  rcases h c hc with rfl | rfl <;> decide

theorem takeWhile_of_endsWord (hc : ∀ c ∈ cs, Scan.continuesWord c = true) (hr : EndsWord rest) :
    (cs ++ rest).takeWhile Scan.continuesWord = cs ∧
      (cs ++ rest).dropWhile Scan.continuesWord = rest :=
  span_append hc hr

/-- A word is scanned up to where it ends. -/
theorem Lexes.of_word (hc : Scan.startsWord c = true)
    (hcs : ∀ c ∈ cs, Scan.continuesWord c = true) (hr : EndsWord rest) :
    Lexes (c :: cs) [Scan.wordToken 1 (c :: cs)] rest := by
  obtain ⟨htake, hdrop⟩ := takeWhile_of_endsWord hcs hr
  have hcut : Cut 1 c (cs ++ rest) _ 1 _ := .word hc
  rw [htake, hdrop] at hcut
  exact .of_cut hcut

theorem Identifier.wordToken_chars (x : Identifier) (line : Int) :
    Scan.wordToken line x.chars = { x.token with line } := by
  have hnot := x.not_truth
  simp only [List.mem_cons, List.not_mem_nil, or_false, not_or] at hnot
  obtain ⟨h1, h2, h3, h4⟩ := hnot
  unfold Scan.wordToken Identifier.chars
  dsimp only
  rw [if_neg (not_or.2 ⟨h1, h2⟩), if_neg (not_or.2 ⟨h3, h4⟩)]
  rfl

/-- An identifier consists of letters, digits and underscores. -/
theorem Identifier.continuesWord_of_mem (x : Identifier) (h : c ∈ x.chars) :
    Scan.continuesWord c = true := by
  rcases List.mem_cons.1 h with rfl | h
  · have hfirst : x.first.isAlpha = true := x.first_starts
    show (x.first.isAlpha || x.first.isDigit || x.first == '_') = true
    rw [hfirst]
    rfl
  · exact x.others_continue c h

theorem Identifier.brace_notMem (x : Identifier) : '}' ∉ x.chars := by
  intro h
  exact absurd (x.continuesWord_of_mem h) (by decide)

theorem Identifier.lexes (x : Identifier) (hr : EndsWord rest) : Lexes x.chars [x.token] rest := by
  have hword : Lexes x.chars [Scan.wordToken 1 x.chars] rest :=
    .of_word x.first_starts x.others_continue hr
  rwa [x.wordToken_chars 1] at hword

theorem Phrase.lexes_truth (value : Bool) (hr : EndsWord rest) :
    Lexes (Phrase.truthToken value).lexeme.toList [Phrase.truthToken value] rest := by
  cases value with
  | true => exact .of_word rfl (List.all_eq_true.1 rfl) hr
  | false => exact .of_word rfl (List.all_eq_true.1 rfl) hr

/-- A number is scanned up to where it ends. -/
theorem Lexes.of_number {kind : Token.Kind} (hc : ∃ c ∈ cs.head?, c.isDigit = true)
    (h : Scan.numeral (cs ++ rest) = .ok (cs, rest)) (hk : Scan.numeralKind? cs = some kind) :
    Lexes cs [{ kind, lexeme := String.ofList cs, line := 1 }] rest := by
  cases cs with
  | nil =>
    obtain ⟨c, hnil, -⟩ := hc
    cases hnil
  | cons c cs =>
    obtain ⟨d, hd, hdigit⟩ := hc
    cases hd
    exact .of_cut (.number hdigit h hk)

theorem exists_head?_digit (hne : cs ≠ []) (hd : ∀ c ∈ cs, c.isDigit = true) :
    ∃ c ∈ cs.head?, c.isDigit = true := by
  cases cs with
  | nil => exact absurd rfl hne
  | cons c cs => exact ⟨c, rfl, hd c (List.mem_cons_self ..)⟩

theorem count_point_of_digits (hd : ∀ c ∈ cs, c.isDigit = true) : cs.count '.' = 0 :=
  List.count_eq_zero.2 fun h => Scan.ne_point_of_isDigit (hd _ h) rfl

/-- Digits of a value below `2 ^ 63` are an integer. -/
theorem numeralKind?_of_digits (hd : ∀ c ∈ cs, c.isDigit = true)
    (hsmall : Scan.digitsValue cs < Nat.pow 2 63) : Scan.numeralKind? cs = some .integer := by
  unfold Scan.numeralKind?
  rw [count_point_of_digits hd]
  exact if_pos hsmall

/-- Digits around a point are a float. -/
theorem numeralKind?_of_point (whole fraction : Digits) :
    Scan.numeralKind? (whole.chars ++ '.' :: fraction.chars) = some .float := by
  unfold Scan.numeralKind?
  rw [List.count_append, List.count_cons_self, count_point_of_digits whole.isDigit,
    count_point_of_digits fraction.isDigit]
  rfl

theorem exists_head?_digit_of_point (whole fraction : Digits) :
    ∃ c ∈ (whole.chars ++ '.' :: fraction.chars).head?, c.isDigit = true := by
  rw [List.head?_append_of_ne_nil _ whole.ne_nil]
  exact exists_head?_digit whole.ne_nil whole.isDigit

theorem Phrase.lexes_integer {value : Nat} (h : value < Nat.pow 2 63) (hr : Closes rest) :
    Lexes (Nat.toDigits 10 value) (Phrase.integer value h).tokens rest := by
  have hd : ∀ c ∈ Nat.toDigits 10 value, c.isDigit = true :=
    fun _ hc => Nat.isDigit_of_mem_toDigits (by decide) (by decide) hc
  have hkind : Scan.numeralKind? (Nat.toDigits 10 value) = some .integer := by
    refine numeralKind?_of_digits hd ?_
    rw [Scan.digitsValue_toDigits]
    exact h
  exact .of_number (exists_head?_digit Nat.toDigits_ne_nil hd)
    (Scan.numeral_digits hd hr.endsNumber) hkind

theorem Phrase.lexes_float (whole fraction : Digits) (hr : Closes rest) :
    Lexes (whole.chars ++ '.' :: fraction.chars) (Phrase.float whole fraction).tokens rest :=
  .of_number (exists_head?_digit_of_point whole fraction)
    (Scan.numeral_point whole.ne_nil whole.isDigit fraction.ne_nil fraction.isDigit hr.endsNumber)
    (numeralKind?_of_point whole fraction)

/-- A text is read up to the quote behind it, if neither that quote nor, but at its end, a backslash
occurs in it. -/
theorem untilQuote_content (hq : quote ∉ content) (hb : '\\' ∉ content.dropLast)
    (hp : content = [] ∨ previous ≠ '\\') :
    Scan.untilQuote quote previous (content ++ quote :: rest) = some (content, rest) := by
  induction content generalizing previous with
  | nil => exact if_pos (.inl rfl)
  | cons c content ih =>
    obtain ⟨hc, hq⟩ := not_or.1 (mt List.mem_cons.2 hq)
    have hp : previous ≠ '\\' := hp.resolve_left (List.cons_ne_nil _ _)
    have hstop : ¬ (c = quote ∨ previous = '\\') := not_or.2 ⟨Ne.symm hc, hp⟩
    rw [List.cons_append, Scan.untilQuote, if_neg hstop]
    -- what comes next looks back at this character, which is a backslash only if it is the last one
    cases content with
    | nil =>
      rw [ih hq List.not_mem_nil (.inl rfl)]
      rfl
    | cons d content =>
      rw [List.dropLast_cons_cons, List.mem_cons, not_or] at hb
      rw [ih hq hb.2 (.inr (Ne.symm hb.1))]
      rfl

/-- Such a text is what the quotes around it enclose. -/
theorem quoted_content (hquote : quote = '"' ∨ quote = '\'') (hmem : quote ∉ content)
    (hbackslash : '\\' ∉ content.dropLast) :
    Scan.quoted quote (content ++ quote :: rest) = some (content, rest) := by
  have hne : ¬ (content ++ quote :: rest).isEmpty = true := by simp
  have hprevious : quote ≠ '\\' := by
    rcases hquote with rfl | rfl <;> decide
  unfold Scan.quoted
  rw [if_neg hne]
  exact untilQuote_content hmem hbackslash (.inr hprevious)

theorem Quotation.lexes (t : Quotation) :
    Lexes (Phrase.text t).write (Phrase.text t).tokens rest := by
  have hcut : Scan.quoted t.quote (t.content ++ [t.quote] ++ rest) = some (t.content, rest) := by
    rw [List.append_assoc]
    exact quoted_content t.isQuote t.quote_notMem t.backslash_notMem
  exact .of_cut (.text t.isQuote hcut)

mutual

/-- A phrase is scanned as its tokens in front of what ends it. -/
theorem Phrase.lexes : ∀ (p : Phrase) {rest : List Char}, Closes rest → Lexes p.write p.tokens rest
  | .integer _ h, _, hr => lexes_integer h hr
  | .float whole fraction, _, hr => lexes_float whole fraction hr
  | .truth value, _, hr => lexes_truth value hr.endsWord
  | .text t, _, _ => t.lexes
  | .chain c, _, hr => c.lexes hr.endsWord

theorem Phrase.Chain.lexes :
    ∀ (c : Phrase.Chain) {rest : List Char}, EndsWord rest → Lexes c.write c.tokens rest
  | .name x, _, hr => x.lexes hr
  | .access target field, rest, hr => by
    have hdot : Lexes ('.' :: field.chars) [Phrase.mark .dot '.', field.token] rest :=
      (Lexes.of_mark rfl).append (field.lexes hr)
    exact (target.lexes (endsWord_cons rfl)).append hdot
  | .call callee arguments, rest, _ => by
    have hinner := (Phrase.lexesAll arguments rest).append (Lexes.of_mark rfl)
    have hopen := Lexes.append (.of_mark (c := '(') rfl) hinner
    rw [Phrase.Chain.write, Phrase.Chain.tokens, List.append_assoc, List.append_assoc]
    exact (callee.lexes (endsWord_cons rfl)).append hopen

/-- So are phrases with commas between them, in front of a closing parenthesis. -/
theorem Phrase.lexesAll : ∀ (ps : List Phrase) (rest : List Char),
    Lexes ([','].intercalate (Phrase.writeAll ps))
      ([Phrase.mark .comma ','].intercalate (Phrase.tokensAll ps)) (')' :: rest)
  | [], _ => Lexes.nil
  | [p], rest => by
    rw [Phrase.writeAll, Phrase.writeAll, Phrase.tokensAll, Phrase.tokensAll,
      List.intercalate_singleton, List.intercalate_singleton]
    exact p.lexes (closes_cons (.inr rfl))
  | p :: q :: ps, rest => by
    have hps := Phrase.lexesAll (q :: ps) rest
    have hcomma := Lexes.append (.of_mark (c := ',') rfl) hps
    rw [Phrase.writeAll, Phrase.writeAll, Phrase.tokensAll, Phrase.tokensAll,
      List.intercalate_cons_cons, List.intercalate_cons_cons, List.append_assoc, List.append_assoc]
    exact (p.lexes (closes_cons (.inl rfl))).append hcomma

end

/-! ## The tree of what is written -/

open Grammar (Leaf Expression Arguments parseTokens_of_ends)

variable {read : List Char → Except SourceError Node}

theorem Phrase.leaf_integer {value : Nat} (h : value < Nat.pow 2 63) :
    Expression (Leaf read) (Phrase.integer value h).tokens (Phrase.integer value h).node := by
  have hd : ∀ c ∈ Nat.toDigits 10 value, c.isDigit = true :=
    fun _ hc => Nat.isDigit_of_mem_toDigits (by decide) (by decide) hc
  refine .leaf (.integer rfl ?_)
  rw [String.toList_ofList, Decimal.readInt64?_of_digits Nat.toDigits_ne_nil hd]
  · rw [Scan.digitsValue_toDigits]
  · rw [Scan.digitsValue_toDigits]
    exact h

theorem Phrase.leaf_float (whole fraction : Digits) :
    Expression (Leaf read) (Phrase.float whole fraction).tokens
      (Phrase.float whole fraction).node := by
  refine .leaf (.float rfl ?_)
  rw [String.toList_ofList]
  exact Decimal.readFloat?_of_point whole.ne_nil whole.isDigit fraction.isDigit

theorem Phrase.leaf_truth (value : Bool) :
    Expression (Leaf read) (Phrase.truth value).tokens (Phrase.truth value).node := by
  refine .leaf (.truth ?_)
  cases value with
  | true => exact .inl rfl
  | false => exact .inr rfl

theorem Quotation.leaf (t : Quotation) :
    Expression (Leaf read) (Phrase.text t).tokens (Phrase.text t).node := by
  refine .leaf (.text rfl ?_)
  rw [String.toList_ofList]
  exact Span.hasSpans_eq_false_of_not_hasSpan t.not_hasSpan

mutual

/-- The tokens of a phrase are an expression with its tree. -/
theorem Phrase.expression : ∀ p : Phrase, Expression (Leaf read) p.tokens p.node
  | .integer _ h => leaf_integer h
  | .float whole fraction => leaf_float whole fraction
  | .truth value => leaf_truth value
  | .text t => t.leaf
  | .chain c => .chain c.expression

theorem Phrase.Chain.expression : ∀ c : Phrase.Chain, Grammar.Chain (Leaf read) c.tokens c.node
  | .name _ => .name rfl
  | .access target _ => .access target.expression rfl rfl
  | .call callee arguments => .call callee.expression rfl (Phrase.argumentsAll arguments) rfl

theorem Phrase.argumentsAll : ∀ ps : List Phrase, Arguments (Leaf read)
    ([Phrase.mark .comma ','].intercalate (Phrase.tokensAll ps)) (Phrase.nodeAll ps)
  | [] => .none
  | [p] => by
    rw [Phrase.tokensAll, Phrase.tokensAll, List.intercalate_singleton]
    exact .last p.expression
  | p :: q :: ps => by
    have hps := Phrase.argumentsAll (q :: ps)
    rw [Phrase.tokensAll, Phrase.tokensAll, List.intercalate_cons_cons, List.append_assoc]
    exact .more p.expression rfl hps

end

theorem scan_of_lexes (h : Lexes cs ts []) :
    scan cs = .ok (ts ++ [{ kind := .endOfInput, lexeme := "", line := 1 }]) := by
  rw [Lexes, List.append_nil] at h
  rw [scan, h, scanFrom]
  rfl

/-- What is scanned as the tokens of a phrase reads as its tree. -/
theorem Phrase.ofChars_of_lexes {p : Phrase} (h : Lexes cs p.tokens []) :
    Node.ofChars cs = .ok (.program p.node) := by
  rw [Grammar.ofChars_eq, scan_of_lexes h]
  exact parseTokens_of_ends ⟨p.expression, fun _ => Grammar.stops_endOfInput 1⟩

theorem Phrase.ofChars_write (p : Phrase) : Node.ofChars p.write = .ok (.program p.node) :=
  ofChars_of_lexes (p.lexes nofun)

/-- **The source of a phrase reads as its tree.** -/
theorem Phrase.ofExpression_write (p : Phrase) :
    Node.ofExpression (String.ofList p.write) = .ok (.program p.node) := by
  rw [Node.ofExpression, String.toList_ofList]
  exact p.ofChars_write

end Splice
