import Splice.Proofs.Writing

/-!
# `Splice.Proofs.Boundaries` — where a number ends

A number is cut off where a run of digits starts. What becomes of it is told by that run, by whether
a point stands behind it, and by the run of digits behind the point. The scanner looks for a point
behind every digit but one: it takes a point together with the digit behind it, and goes on behind
the two. So one more point is a token of its own behind a fraction of one digit, and an error behind
a longer one.

## Contents
- `digitRun`, `behindDigits`: the run of digits at the front of a text, and what stands behind it.
- `numeral_stray_point`, `numeral_fraction`, `numeral_second_point`: how digits are cut off in front
  of a point.
- `scanToken_of_isDigit`: a number is all that starts with a digit.
- `scanToken_integer`, `scanToken_stray_point`, `scanToken_float`, `scanToken_second_point`: one
  number.
- `scanFrom_eq_bind`, `exists_operand_of_legible`: the scan goes on behind a number, and the numbers
  of a text can be read.
- `scanToken_number`: how a number is scanned, and that it can be read.
-/

namespace Splice.Scan

variable {line : Int} {c d : Char} {cs ds fs lexeme rest : List Char} {kind : Token.Kind}

/-! ## Digits in front of a point -/

/-- No digit stands at the front. -/
def EndsDigits (rest : List Char) : Prop := ∀ c ∈ rest.head?, c.isDigit = false

/-- The run of digits at the front of a text. -/
def digitRun (text : List Char) : List Char := text.takeWhile Char.isDigit

/-- The text behind the run of digits at its front. -/
def behindDigits (text : List Char) : List Char := text.dropWhile Char.isDigit

theorem digitRun_append_behindDigits (text : List Char) :
    digitRun text ++ behindDigits text = text := List.takeWhile_append_dropWhile

theorem isDigit_of_mem_digitRun (h : d ∈ digitRun cs) : d.isDigit = true :=
  List.mem_takeWhile_imp h

theorem endsDigits_behindDigits (cs : List Char) : EndsDigits (behindDigits cs) := by
  intro c hc
  unfold behindDigits at hc
  have h := List.head?_dropWhile_not Char.isDigit cs
  rw [Option.mem_def.1 hc] at h
  simpa using h

theorem EndsDigits.endsNumber (h : EndsDigits rest) (hpoint : rest.head? ≠ some '.') :
    EndsNumber rest := by
  intro c hc
  refine ⟨h c hc, ?_⟩
  rintro rfl
  exact hpoint hc

theorem numeral_of_endsDigits (h : EndsDigits rest) : numeral rest = .ok ([], rest) := by
  cases rest with
  | nil => rfl
  | cons c cs =>
    have hc : c.isDigit = false := h c rfl
    rw [numeral.eq_def]
    simp [hc]

/-- In front of a digit or of what is no part of a number, a digit is taken alone. -/
theorem numeral_cons_digit (hc : c.isDigit = true) (hd : d.isDigit = true) :
    numeral (c :: d :: cs) =
      match numeral (d :: cs) with
      | .ok (lexeme, rest) => .ok (c :: lexeme, rest)
      | .error lexeme => .error (c :: lexeme) := by
  have hpoint : d ≠ '.' := ne_point_of_isDigit hd
  rw [numeral.eq_def]
  simp only [hc, ↓reduceIte]
  split
  · next heq => exact absurd (List.cons.inj heq).1 hpoint
  · next heq => exact absurd (List.cons.inj heq).1 hpoint
  · rfl

/-- A point that no digit follows is an error. -/
theorem numeral_stray_point (hne : ds ≠ []) (hd : ∀ c ∈ ds, c.isDigit = true)
    (hr : EndsDigits rest) : numeral (ds ++ '.' :: rest) = .error (ds ++ ['.']) := by
  induction ds with
  | nil => exact absurd rfl hne
  | cons c ds ih =>
    have hc : c.isDigit = true := hd c (List.mem_cons_self ..)
    have hds : ∀ c ∈ ds, c.isDigit = true := fun x hx => hd x (List.mem_cons_of_mem _ hx)
    cases ds with
    | nil =>
      show numeral (c :: '.' :: rest) = .error [c, '.']
      rw [numeral.eq_def]
      cases rest with
      | nil => simp [hc]
      | cons d rest =>
        have hdigit : d.isDigit = false := hr d rfl
        simp [hc, hdigit]
    | cons d ds =>
      show numeral (c :: d :: (ds ++ '.' :: rest)) = _
      rw [numeral_cons_digit hc (hds d (List.mem_cons_self ..)), ← List.cons_append,
        ih (List.cons_ne_nil _ _) hds]
      rfl

/-- A point is taken together with the digits around it, and the scan goes on behind these. -/
theorem numeral_fraction (hne : ds ≠ []) (hd : ∀ c ∈ ds, c.isDigit = true)
    (hdigit : d.isDigit = true) :
    numeral (ds ++ '.' :: d :: cs) =
      match numeral cs with
      | .ok (lexeme, rest) => .ok (ds ++ '.' :: d :: lexeme, rest)
      | .error lexeme => .error (ds ++ '.' :: d :: lexeme) := by
  induction ds with
  | nil => exact absurd rfl hne
  | cons c ds ih =>
    have hc : c.isDigit = true := hd c (List.mem_cons_self ..)
    have hds : ∀ c ∈ ds, c.isDigit = true := fun x hx => hd x (List.mem_cons_of_mem _ hx)
    cases ds with
    | nil =>
      show numeral (c :: '.' :: d :: cs) = _
      rw [numeral.eq_def]
      simp only [hc, hdigit, ↓reduceIte]
      rfl
    | cons b ds =>
      show numeral (c :: b :: (ds ++ '.' :: d :: cs)) = _
      rw [numeral_cons_digit hc (hds b (List.mem_cons_self ..)), ← List.cons_append,
        ih (List.cons_ne_nil _ _) hds]
      cases numeral cs <;> rfl

/-- Digits are taken with the point behind them, whether it ends in an error or not. -/
theorem numeral_second_point (hne : ds ≠ []) (hd : ∀ c ∈ ds, c.isDigit = true)
    (cs : List Char) :
    ∃ tail, numeral (ds ++ '.' :: cs) = .error (ds ++ '.' :: tail) ∨
      ∃ rest, numeral (ds ++ '.' :: cs) = .ok (ds ++ '.' :: tail, rest) := by
  by_cases hr : EndsDigits cs
  · exact ⟨[], .inl (numeral_stray_point hne hd hr)⟩
  · cases cs with
    | nil => exact absurd (fun c hc => by cases hc) hr
    | cons d cs =>
      have hdigit : d.isDigit = true := by
        by_contra hnot
        apply hr
        intro c hc
        rw [← Option.some.inj hc]
        exact Bool.eq_false_iff.2 hnot
      rw [numeral_fraction hne hd hdigit]
      cases numeral cs with
      | error lexeme => exact ⟨d :: lexeme, .inl rfl⟩
      | ok result => exact ⟨d :: result.1, .inr ⟨result.2, rfl⟩⟩

/-! ## One number -/

/-- The step on a number: its token, and the text behind it. -/
def numberStep (kind : Token.Kind) (lexeme : List Char) (line : Int) (rest : List Char) : Step where
  token := some { kind, lexeme := String.ofList lexeme, line }
  line := line
  rest := rest

/-- Where a digit stands, a number is cut off. -/
theorem scanToken_of_isDigit (line : Int) (hc : c.isDigit = true) (cs : List Char) :
    scanToken line c cs =
      match numeral (c :: cs) with
      | .ok (lexeme, rest) =>
        match numeralKind? lexeme with
        | some kind => .ok (numberStep kind lexeme line rest)
        | none => .error (.malformedNumber (String.ofList lexeme) line)
      | .error lexeme => .error (.malformedNumber (String.ofList lexeme) line) := by
  obtain ⟨hmark, hfeed, hblank, hquote⟩ := not_punctuation_of_toNat (.inl (toNat_of_isDigit hc))
  unfold scanToken
  rw [hmark]
  dsimp only
  rw [if_neg hfeed, if_neg (Bool.eq_false_iff.1 hblank), if_neg hquote, if_pos hc]
  rfl

theorem numeralKind?_eq_none (h : 2 ≤ lexeme.count '.') : numeralKind? lexeme = none := by
  unfold numeralKind?
  split
  · omega
  · omega
  · rfl

/-- Digits that no point follows are an integer, or too large for one. -/
theorem scanToken_integer (digits : Digits) (hr : EndsDigits rest)
    (hpoint : rest.head? ≠ some '.') (htext : c :: cs = digits.chars ++ rest)
    (hc : c.isDigit = true) (line : Int) :
    scanToken line c cs =
      if digitsValue digits.chars < Nat.pow 2 63 then
        .ok (numberStep .integer digits.chars line rest)
      else .error (.malformedNumber (String.ofList digits.chars) line) := by
  have hnumeral : numeral (c :: cs) = .ok (digits.chars, rest) := by
    rw [htext]
    exact numeral_digits digits.isDigit (hr.endsNumber hpoint)
  rw [scanToken_of_isDigit line hc, hnumeral]
  dsimp only
  unfold numeralKind?
  rw [count_point_of_digits digits.isDigit]
  by_cases hsmall : digitsValue digits.chars < Nat.pow 2 63
  · rw [if_pos hsmall, if_pos hsmall]
    rfl
  · rw [if_neg hsmall, if_neg hsmall]
    rfl

/-- Digits and a point that no digit follows are an error. -/
theorem scanToken_stray_point (digits : Digits) (hr : EndsDigits rest)
    (htext : c :: cs = digits.chars ++ '.' :: rest) (hc : c.isDigit = true) (line : Int) :
    scanToken line c cs =
      .error (.malformedNumber (String.ofList (digits.chars ++ ['.'])) line) := by
  have hnumeral : numeral (c :: cs) = .error (digits.chars ++ ['.']) := by
    rw [htext]
    exact numeral_stray_point digits.ne_nil digits.isDigit hr
  rw [scanToken_of_isDigit line hc, hnumeral]

/-- Digits around a point are a float, unless the fraction has more than one digit and one more
point stands behind it. -/
theorem scanToken_float (whole fraction : Digits) (hr : EndsDigits rest)
    (hend : fraction.chars.length = 1 ∨ rest.head? ≠ some '.')
    (htext : c :: cs = whole.chars ++ '.' :: (fraction.chars ++ rest)) (hc : c.isDigit = true)
    (line : Int) :
    scanToken line c cs =
      .ok (numberStep .float (whole.chars ++ '.' :: fraction.chars) line rest) := by
  have hnumeral : numeral (c :: cs) = .ok (whole.chars ++ '.' :: fraction.chars, rest) := by
    rw [htext]
    obtain ⟨ds, hne, hd⟩ := fraction
    cases ds with
    | nil => exact absurd rfl hne
    | cons d ds =>
      have hdigit : d.isDigit = true := hd d (List.mem_cons_self ..)
      have hds : ∀ c ∈ ds, c.isDigit = true := fun x hx => hd x (List.mem_cons_of_mem _ hx)
      -- behind the first digit of the fraction no point is looked for
      have hbehind : numeral (ds ++ rest) = .ok (ds, rest) := by
        rcases hend with hone | hpoint
        · obtain rfl : ds = [] := List.length_eq_zero_iff.1 (Nat.succ.inj hone)
          exact numeral_of_endsDigits hr
        · exact numeral_digits hds (hr.endsNumber hpoint)
      show numeral (whole.chars ++ '.' :: d :: (ds ++ rest)) = _
      rw [numeral_fraction whole.ne_nil whole.isDigit hdigit, hbehind]
  rw [scanToken_of_isDigit line hc, hnumeral]
  dsimp only
  rw [numeralKind?_of_point]

/-- A point behind a fraction of more than one digit is an error. -/
theorem scanToken_second_point (whole fraction : Digits) (hlength : 2 ≤ fraction.chars.length)
    (htext : c :: cs = whole.chars ++ '.' :: (fraction.chars ++ '.' :: rest))
    (hc : c.isDigit = true) (line : Int) :
    ∃ tail, scanToken line c cs = .error (.malformedNumber
      (String.ofList (whole.chars ++ '.' :: (fraction.chars ++ '.' :: tail))) line) := by
  obtain ⟨ds, hne, hd⟩ := fraction
  cases ds with
  | nil => exact absurd rfl hne
  | cons d ds =>
    have hdigit : d.isDigit = true := hd d (List.mem_cons_self ..)
    have hds : ∀ c ∈ ds, c.isDigit = true := fun x hx => hd x (List.mem_cons_of_mem _ hx)
    have hds_ne : ds ≠ [] := by
      rintro rfl
      have hone : 2 ≤ 1 := hlength
      omega
    have hnumeral : numeral (c :: cs) =
        match numeral (ds ++ '.' :: rest) with
        | .ok (lexeme, rest) => .ok (whole.chars ++ '.' :: d :: lexeme, rest)
        | .error lexeme => .error (whole.chars ++ '.' :: d :: lexeme) := by
      rw [htext]
      exact numeral_fraction whole.ne_nil whole.isDigit hdigit
    obtain ⟨tail, herror | ⟨behind, hok⟩⟩ := numeral_second_point hds_ne hds rest
    · refine ⟨tail, ?_⟩
      rw [scanToken_of_isDigit line hc, hnumeral, herror]
      rfl
    · refine ⟨tail, ?_⟩
      -- the scan has gone on, but no number has two points
      have hcount : 2 ≤ (whole.chars ++ '.' :: d :: (ds ++ '.' :: tail)).count '.' := by
        simp only [List.count_append, List.count_cons_self]
        have hcons : 1 ≤ (d :: (ds ++ '.' :: tail)).count '.' := by
          rw [List.one_le_count_iff]
          simp
        omega
      rw [scanToken_of_isDigit line hc, hnumeral, hok]
      dsimp only
      rw [numeralKind?_eq_none hcount]
      rfl

/-! ## All numbers -/

/-- What becomes of a token decides how the scan of a text goes on: behind the token, or not at
all. -/
theorem scanFrom_eq_bind (line : Int) (c : Char) (cs : List Char) :
    scanFrom line (c :: cs) = (scanToken line c cs).bind fun step =>
      (scanFrom step.line step.rest).map (step.token.toList ++ ·) := by
  cases hstep : scanToken line c cs with
  | ok step => exact scanFrom_cons hstep
  | error e => exact scanFrom_cons_error hstep

/-- The number of a token that can be read is an operand, however texts are expanded. -/
theorem exists_operand_of_legible {token : Token} (h : Legible token)
    (hk : token.kind = .integer ∨ token.kind = .float) :
    ∃ number, ∀ expand,
      Machine.operand expand token = .ok (.literal (.number (.known number))) := by
  rcases hk with hk | hk
  · obtain ⟨i, hi⟩ := h.integer hk
    refine ⟨.integer i, ?_⟩
    intro expand
    unfold Machine.operand
    simp only [hk, hi]
  · obtain ⟨x, hx⟩ := h.float hk
    refine ⟨.float x, ?_⟩
    intro expand
    unfold Machine.operand
    simp only [hk, hx]

/-- **How a number is scanned.** The run of digits at the front is an integer if no point stands
behind it and its value is below `2 ^ 63`. In front of a point it needs a run of digits behind the
point, too, and the two are a float if the second run has one digit or no other point stands behind
it. All other numbers are errors. The scan of the text ends with such an error, or goes on right
behind the number. And whatever is a number for the scanner can be read as one. -/
theorem scanToken_number (line : Int) (hc : c.isDigit = true) (cs : List Char) :
    ((behindDigits (c :: cs)).head? ≠ some '.' → scanToken line c cs =
      if digitsValue (digitRun (c :: cs)) < Nat.pow 2 63 then
        .ok (numberStep .integer (digitRun (c :: cs)) line (behindDigits (c :: cs)))
      else .error (.malformedNumber (String.ofList (digitRun (c :: cs))) line)) ∧
    (∀ more, behindDigits (c :: cs) = '.' :: more →
      (digitRun more = [] → scanToken line c cs =
        .error (.malformedNumber (String.ofList (digitRun (c :: cs) ++ ['.'])) line)) ∧
      ((digitRun more).length = 1 ∨
          digitRun more ≠ [] ∧ (behindDigits more).head? ≠ some '.' →
        scanToken line c cs =
          .ok (numberStep .float (digitRun (c :: cs) ++ '.' :: digitRun more) line
            (behindDigits more))) ∧
      (2 ≤ (digitRun more).length ∧ (behindDigits more).head? = some '.' →
        ∃ tail, scanToken line c cs = .error (.malformedNumber
          (String.ofList (digitRun (c :: cs) ++ '.' :: (digitRun more ++ '.' :: tail))) line))) ∧
    (scanFrom line (c :: cs) = (scanToken line c cs).bind fun step =>
      (scanFrom step.line step.rest).map (step.token.toList ++ ·)) ∧
    (∀ text tokens, scan text = .ok tokens → ∀ token ∈ tokens,
      token.kind = .integer ∨ token.kind = .float → ∃ number, ∀ expand,
        Machine.operand expand token = .ok (.literal (.number (.known number)))) := by
  have hne : digitRun (c :: cs) ≠ [] := by
    unfold digitRun
    rw [List.takeWhile_cons_of_pos hc]
    exact List.cons_ne_nil _ _
  have htext : c :: cs = digitRun (c :: cs) ++ behindDigits (c :: cs) :=
    (digitRun_append_behindDigits _).symm
  let whole : Digits := ⟨digitRun (c :: cs), hne, fun _ => isDigit_of_mem_digitRun⟩
  refine ⟨?_, ?_, scanFrom_eq_bind line c cs, ?_⟩
  · intro hpoint
    exact scanToken_integer whole (endsDigits_behindDigits _) hpoint htext hc line
  · intro more hbehind
    have hmore : more = digitRun more ++ behindDigits more :=
      (digitRun_append_behindDigits more).symm
    have hrest : EndsDigits (behindDigits more) := endsDigits_behindDigits more
    rw [hbehind] at htext
    refine ⟨?_, ?_, ?_⟩
    · intro hnil
      rw [hnil, List.nil_append] at hmore
      rw [← hmore] at hrest
      exact scanToken_stray_point whole hrest htext hc line
    · intro hend
      have hfraction : digitRun more ≠ [] := by
        rcases hend with hone | ⟨hfraction, -⟩
        · intro hnil
          rw [hnil] at hone
          cases hone
        · exact hfraction
      let fraction : Digits := ⟨digitRun more, hfraction, fun _ => isDigit_of_mem_digitRun⟩
      have hsplit : c :: cs = whole.chars ++ '.' :: (fraction.chars ++ behindDigits more) :=
        htext.trans (congrArg (fun text => whole.chars ++ '.' :: text) hmore)
      exact scanToken_float whole fraction hrest (hend.imp_right And.right) hsplit hc line
    · rintro ⟨hlength, hpoint⟩
      have hfraction : digitRun more ≠ [] := by
        intro hnil
        rw [hnil] at hlength
        cases hlength
      let fraction : Digits := ⟨digitRun more, hfraction, fun _ => isDigit_of_mem_digitRun⟩
      obtain ⟨after, hafter⟩ : ∃ after, behindDigits more = '.' :: after :=
        List.head?_eq_some_iff.1 hpoint
      rw [hafter] at hmore
      have hsplit : c :: cs = whole.chars ++ '.' :: (fraction.chars ++ '.' :: after) :=
        htext.trans (congrArg (fun text => whole.chars ++ '.' :: text) hmore)
      exact scanToken_second_point whole fraction hlength hsplit hc line
  · intro text tokens hscan token htoken hk
    obtain ⟨init, line', htokens, hinit⟩ := scan_eq_ok hscan
    rw [htokens] at htoken
    rcases List.mem_append.1 htoken with hmem | hmem
    · exact exists_operand_of_legible (hinit token hmem) hk
    · -- the end of the input is no number
      rw [List.mem_singleton.1 hmem] at hk
      rcases hk with hk | hk <;> cases hk

/-- One digit behind the point leaves the next point alone, two do not. -/
theorem scanToken_number_points :
    scanToken 1 '1' "2.3.4".toList = .ok (numberStep .float "12.3".toList 1 ".4".toList) ∧
      ∃ tail, scanToken 1 '1' "2.34.5".toList =
        .error (.malformedNumber (String.ofList ("12.34.".toList ++ tail)) 1) := by
  have hdigit : ('1' : Char).isDigit = true := by decide
  obtain ⟨-, hshort, -⟩ := scanToken_number 1 hdigit "2.3.4".toList
  obtain ⟨-, hlong, -⟩ := scanToken_number 1 hdigit "2.34.5".toList
  obtain ⟨-, hfloat, -⟩ := hshort "3.4".toList (by decide)
  obtain ⟨-, -, herror⟩ := hlong "34.5".toList (by decide)
  refine ⟨hfloat (.inl (by decide)), ?_⟩
  obtain ⟨tail, htail⟩ := herror ⟨by decide, by decide⟩
  exact ⟨tail, htail⟩

end Splice.Scan
