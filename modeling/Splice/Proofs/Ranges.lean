import Splice.Json.Reading
import Splice.Proofs.Calls
import Splice.Proofs.Formatting

/-!
# `Splice.Proofs.Ranges` — differences, places and ranges that exist

Some computations are partial where they are carried out on machines: a difference of sizes does not
exist below zero, a text cannot be cut beyond its end or inside a character, a part of a list needs
two places of the list in order, and limits must be numbers in order. Here these are partial as
well. What takes spans off, cuts texts, writes numbers and limits them is repeated with the partial
operations, behind the checks that stand before them: nothing is ever missing, and the results are
those of the definitions that do without partial operations.

## Contents
- `minus?`, `splitAt?`, `splitLast?`, `byteSlice?`, `slice?`, `limited?`: the partial operations;
  `splitAt?_eq_some_iff`, `splitLast?_eq_some_iff` say where a text may be cut.
- `Span.sourceInBytes?`: the source of a single span, cut out by its bytes;
  `Span.sourceInBytes?_eq`, `Span.exists_slice`.
- `NumberPattern.peel?`, `…padInteger?`, `…group?`, `…body?`, `…formatChars?`: digits padded and
  grouped by their bytes; `NumberPattern.formatChars?_eq`.
- `Cuts`, `Limits`: what `substring` and `clamp` come to, and which parts and limits they ask for;
  `exists_cuts`, `exists_limits`.
- `ranges_exist`: all of it together.
-/

namespace Splice

open Json.Reading (byteLength)

/-! ## Partial operations -/

/-- A difference of sizes. -/
def minus? (a b : Nat) : Option Nat := if b ≤ a then some (a - b) else none

/-- What stands before and behind a place of a text, which is given by the number of bytes before
it. No place is beyond the end of the text or inside a character. -/
def splitAt? : (place : Nat) → List Char → Option (List Char × List Char)
  | 0, cs => some ([], cs)
  | _ + 1, [] => none
  | n + 1, c :: cs =>
    if c.utf8Size ≤ n + 1 then
      (splitAt? (n + 1 - c.utf8Size) cs).map fun (front, back) => (c :: front, back)
    else none

/-- The last `size` bytes of a text, and what stands before them. -/
def splitLast? (size : Nat) (cs : List Char) : Option (List Char × List Char) := do
  let place ← minus? (byteLength cs) size
  splitAt? place cs

/-- What stands in a text between two places that are given by the number of bytes before them. -/
def byteSlice? (start stop : Nat) (cs : List Char) : Option (List Char) := do
  let (front, _) ← splitAt? stop cs
  let (_, part) ← splitAt? start front
  return part

/-- The elements of a list between two places. -/
def slice? {α : Type} (start stop : Nat) (xs : List α) : Option (List α) :=
  if start ≤ stop ∧ stop ≤ xs.length then some ((xs.take stop).drop start) else none

/-- The number nearest to `x` between two numbers in order. -/
def limited? (x low high : Float) : Option Float :=
  if low ≤ high ∧ low.isNaN = false ∧ high.isNaN = false then some (Catalogue.limited x low high)
  else none

variable {a b place size start stop : Nat} {c : Char} {cs front back part : List Char}

theorem minus?_of_le (h : b ≤ a) : minus? a b = some (a - b) := if_pos h

theorem minus?_eq_some_iff : minus? a b = some place ↔ a = place + b := by
  unfold minus?
  by_cases h : b ≤ a
  · rw [if_pos h, Option.some.injEq]
    omega
  · rw [if_neg h]
    exact ⟨nofun, fun heq => absurd (heq ▸ Nat.le_add_left ..) h⟩

@[simp] theorem byteLength_nil : byteLength [] = 0 := rfl

@[simp] theorem byteLength_cons (c : Char) (cs : List Char) :
    byteLength (c :: cs) = c.utf8Size + byteLength cs := by
  have hfold : ∀ (cs : List Char) (n : Nat),
      cs.foldl (fun n c => n + c.utf8Size) n = n + byteLength cs := by
    intro cs
    induction cs with
    | nil => exact fun n => rfl
    | cons d cs ih =>
      intro n
      unfold byteLength
      rw [List.foldl_cons, List.foldl_cons, ih, ih, Nat.zero_add, Nat.add_assoc]
  unfold byteLength
  rw [List.foldl_cons, hfold, Nat.zero_add]
  rfl

@[simp] theorem byteLength_append (front back : List Char) :
    byteLength (front ++ back) = byteLength front + byteLength back := by
  induction front with
  | nil => simp
  | cons c front ih => simp [ih, Nat.add_assoc]

/-- A digit is a single byte. -/
theorem utf8Size_of_isDigit (h : c.isDigit = true) : c.utf8Size = 1 := by
  obtain ⟨-, hle⟩ := Char.isDigit_iff_toNat.1 h
  have hnine : '9'.toNat = 57 := rfl
  rw [Char.utf8Size_eq_one_iff, UInt32.le_iff_toNat_le]
  show c.toNat ≤ 127
  omega

theorem byteLength_of_digits (h : ∀ c ∈ cs, c.isDigit = true) : byteLength cs = cs.length := by
  induction cs with
  | nil => rfl
  | cons c cs ih =>
    rw [byteLength_cons, utf8Size_of_isDigit (h c (List.mem_cons_self ..)),
      ih fun d hd => h d (List.mem_cons_of_mem _ hd), List.length_cons, Nat.add_comm]

/-- A text may be cut at a place if it is made of two pieces, and the first one has as many bytes as
the place says. -/
theorem splitAt?_eq_some_iff :
    splitAt? place cs = some (front, back) ↔ cs = front ++ back ∧ byteLength front = place := by
  induction place, cs using splitAt?.induct generalizing front with
  | case1 cs =>
    rw [splitAt?]
    constructor
    · intro h
      cases h
      exact ⟨rfl, rfl⟩
    · rintro ⟨rfl, hlength⟩
      cases front with
      | nil => rfl
      | cons d front =>
        have := d.utf8Size_pos
        rw [byteLength_cons] at hlength
        omega
  | case2 n =>
    -- the place is beyond the end
    refine ⟨nofun, ?_⟩
    rintro ⟨hcs, hlength⟩
    obtain ⟨rfl, -⟩ := List.append_eq_nil_iff.1 hcs.symm
    cases hlength
  | case3 n c cs hc ih =>
    rw [splitAt?, if_pos hc, Option.map_eq_some_iff]
    constructor
    · rintro ⟨⟨front', back'⟩, hsplit, heq⟩
      cases heq
      obtain ⟨rfl, hlength⟩ := ih.1 hsplit
      refine ⟨rfl, ?_⟩
      rw [byteLength_cons]
      omega
    · rintro ⟨hcs, hlength⟩
      cases front with
      | nil => cases hlength
      | cons d front =>
        rw [List.cons_append, List.cons.injEq] at hcs
        obtain ⟨rfl, rfl⟩ := hcs
        rw [byteLength_cons] at hlength
        exact ⟨(front, back), ih.2 ⟨rfl, by omega⟩, rfl⟩
  | case4 n c cs hc =>
    -- the place is inside the first character
    rw [splitAt?, if_neg hc]
    refine ⟨nofun, ?_⟩
    rintro ⟨hcs, hlength⟩
    cases front with
    | nil => cases hlength
    | cons d front =>
      rw [List.cons_append, List.cons.injEq] at hcs
      obtain ⟨rfl, rfl⟩ := hcs
      rw [byteLength_cons] at hlength
      omega

theorem splitAt?_append (h : byteLength front = place) :
    splitAt? place (front ++ back) = some (front, back) :=
  splitAt?_eq_some_iff.2 ⟨rfl, h⟩

/-- The last bytes of a text may be cut off where a piece of so many bytes begins. -/
theorem splitLast?_eq_some_iff :
    splitLast? size cs = some (front, back) ↔ cs = front ++ back ∧ byteLength back = size := by
  unfold splitLast?
  rw [Option.bind_eq_bind, Option.bind_eq_some_iff]
  constructor
  · rintro ⟨place, hplace, hsplit⟩
    obtain ⟨rfl, rfl⟩ := splitAt?_eq_some_iff.1 hsplit
    rw [minus?_eq_some_iff, byteLength_append] at hplace
    exact ⟨rfl, Nat.add_left_cancel hplace⟩
  · rintro ⟨rfl, rfl⟩
    exact ⟨byteLength front, minus?_eq_some_iff.2 (byteLength_append ..), splitAt?_append rfl⟩

theorem byteSlice?_append (hstart : byteLength front = start)
    (hstop : start + byteLength part = stop) :
    byteSlice? start stop (front ++ part ++ back) = some part := by
  have hboth : byteLength (front ++ part) = stop := by rw [byteLength_append, hstart, hstop]
  unfold byteSlice?
  rw [splitAt?_append hboth]
  show (splitAt? start (front ++ part)).bind _ = _
  rw [splitAt?_append hstart]
  rfl

/-! ## Single spans -/

namespace Span

/-- The source of a single span is what stands between the first two bytes and the last one. -/
def sourceInBytes? (cs : List Char) : Option (Option (List Char)) :=
  let text := Text.trim cs
  if isSingleSpan cs then do
    let stop ← minus? (byteLength text) 1
    let source ← byteSlice? 2 stop text
    return some source
  else return none

/-- What looks like one span has the marks of a span at its ends, and they do not overlap. -/
theorem exists_of_isSingleSpan (h : isSingleSpan cs = true) :
    ∃ source, Text.trim cs = ['$', '{'] ++ source ++ ['}'] ∧ singleSpan? cs = some source := by
  have hsingle : singleSpan? cs = some ((Text.trim cs).drop 2).dropLast := if_pos h
  unfold isSingleSpan at h
  dsimp only at h
  rw [Bool.and_eq_true, Bool.and_eq_true, List.isPrefixOf_iff_prefix,
    List.isSuffixOf_iff_suffix] at h
  obtain ⟨⟨⟨rest, hopen⟩, hclose⟩, -⟩ := h
  rw [← hopen] at hclose hsingle ⊢
  rcases List.eq_nil_or_concat' rest with rfl | ⟨source, last, rfl⟩
  · -- the last character of the opening mark is no closing mark
    exact absurd hclose (by decide)
  · rw [← List.append_assoc] at hclose hsingle ⊢
    obtain ⟨-, hlast⟩ := List.append_inj' (List.suffix_iff_eq_append.1 hclose) rfl
    cases hlast
    refine ⟨source, rfl, ?_⟩
    rw [hsingle]
    simp

/-- So what stands between its marks can be cut out of it. -/
theorem exists_slice (h : isSingleSpan cs = true) :
    3 ≤ byteLength (Text.trim cs) ∧
      ∃ source, byteSlice? 2 (byteLength (Text.trim cs) - 1) (Text.trim cs) = some source ∧
        singleSpan? cs = some source := by
  obtain ⟨source, htrim, hsource⟩ := exists_of_isSingleSpan h
  have hlength : byteLength (Text.trim cs) = 2 + byteLength source + 1 := by
    rw [htrim, byteLength_append, byteLength_append]
    rfl
  refine ⟨by omega, source, ?_, hsource⟩
  rw [hlength, Nat.add_sub_cancel, htrim]
  exact byteSlice?_append rfl rfl

/-- Cutting the source out of a single span by its bytes never fails. -/
theorem sourceInBytes?_eq (cs : List Char) : sourceInBytes? cs = some (singleSpan? cs) := by
  by_cases h : isSingleSpan cs = true
  · obtain ⟨hlength, source, hslice, hsource⟩ := exists_slice h
    unfold sourceInBytes?
    dsimp only
    rw [if_pos h, minus?_of_le (by omega), Option.bind_eq_bind, Option.bind_some, hslice, hsource]
    rfl
  · unfold sourceInBytes? singleSpan?
    rw [if_neg h, if_neg h]
    rfl

end Span

/-! ## Numbers after a pattern -/

namespace NumberPattern

variable {p : NumberPattern} {size min : Nat} {digits rest : List Char}
  {groups : List (List Char)}

/-- The digits without zeros at the start, with what is missing of `min` digits in front of them. -/
def padInteger? (min : Nat) (digits : List Char) : Option (List Char) := do
  let ds := digits.dropWhile (· == '0')
  if byteLength ds < min then
    let missing ← minus? min (byteLength ds)
    return List.replicate missing '0' ++ ds
  else return ds

/-- The groups that are taken off the right end of the digits as long as there are more than `size`
of them. No group is empty, so this comes to an end. -/
def peel? (size : Nat) (hsize : size ≠ 0) (rest : List Char) : Option (List (List Char)) :=
  if size < byteLength rest then
    match _h : splitLast? size rest with
    | some (left, right) => (peel? size hsize left).map (· ++ [right])
    | none => none
  else some (if rest.isEmpty then [] else [rest])
termination_by byteLength rest
decreasing_by
  obtain ⟨rfl, hlength⟩ := splitLast?_eq_some_iff.1 _h
  rw [byteLength_append]
  omega

/-- The digits in groups. -/
def group? (p : NumberPattern) (digits : List Char) : Option (List Char) :=
  if h : p.primaryGroup = 0 ∨ byteLength digits ≤ p.primaryGroup then some digits
  else do
    let (front, nearest) ← splitLast? p.primaryGroup digits
    let groups ← peel? p.peelSize (peelSize_ne_zero (not_or.1 h).1) front
    return [','].intercalate (groups ++ [nearest])

/-- The digits of a rounded number, in groups and with its point. -/
def body? (p : NumberPattern) (places : Decimal.Places) : Option (List Char) := do
  let fraction := trimFraction p.minFractionDigits places.fraction
  let integer ← padInteger? p.minIntegerDigits places.integer
  let grouped ← p.group? (if fraction.isEmpty && integer.isEmpty then ['0'] else integer)
  return grouped ++ pointed fraction

/-- A number after a pattern. -/
def formatChars? (p : NumberPattern) (x : Float) : Option (List Char) := do
  let sign (negative : Bool) : List Char := if negative then ['-'] else []
  match Decimal.shape x with
  | .nan => return p.before ++ ['N', 'a', 'N'] ++ p.after
  | .infinite negative => return sign negative ++ p.before ++ ['∞'] ++ p.after
  | .finite negative m e =>
    let number ← p.body? (Decimal.places p.maxFractionDigits m e)
    return sign (negative && m != 0) ++ p.before ++ number ++ p.after

theorem padInteger?_eq (hdigits : ∀ c ∈ digits, c.isDigit = true) (min : Nat) :
    padInteger? min digits = some (padInteger min digits) := by
  have hlength := byteLength_of_digits fun c hc =>
    hdigits c (List.dropWhile_subset (· == '0') hc)
  unfold padInteger? padInteger
  dsimp only
  rw [hlength]
  by_cases hshort : (digits.dropWhile (· == '0')).length < min
  · rw [if_pos hshort, minus?_of_le hshort.le]
    rfl
  · rw [if_neg hshort, Nat.sub_eq_zero_of_le (Nat.not_lt.1 hshort)]
    rfl

/-- Every round finds the place where it cuts. -/
theorem peel?_of_peels (h : Peels size rest groups) (hdigits : ∀ c ∈ rest, c.isDigit = true) :
    peel? size h.size_ne_zero rest = some groups := by
  induction h with
  | @leftmost rest hne hle =>
    rw [peel?, byteLength_of_digits hdigits, if_neg (Nat.not_lt.2 hle)]
    simp [hne]
  | @round rest last groups hne hlast h ih =>
    have hlt : size < byteLength (rest ++ last) := by
      rw [byteLength_of_digits hdigits, List.length_append, hlast]
      exact Nat.lt_add_of_pos_left (List.length_pos_iff.2 hne)
    have hbytes : byteLength last = size := by
      rw [byteLength_of_digits fun c hc => hdigits c (List.mem_append_right _ hc), hlast]
    have hsplit : splitLast? size (rest ++ last) = some (rest, last) :=
      splitLast?_eq_some_iff.2 ⟨rfl, hbytes⟩
    rw [peel?, if_pos hlt]
    split
    · next left right heq =>
      cases hsplit.symm.trans heq
      rw [ih fun c hc => hdigits c (List.mem_append_left _ hc)]
      rfl
    · next heq => cases hsplit.symm.trans heq

theorem group?_eq (hdigits : ∀ c ∈ digits, c.isDigit = true) :
    p.group? digits = some (p.group digits) := by
  have hlength := byteLength_of_digits hdigits
  by_cases hfits : p.primaryGroup = 0 ∨ digits.length ≤ p.primaryGroup
  · rw [group?, dif_pos (by rwa [hlength]), group_of_le hfits]
  · rw [group?, dif_neg (by rwa [hlength])]
    rw [not_or, Nat.not_le] at hfits
    obtain ⟨hprimary, hlt⟩ := hfits
    obtain ⟨front, leftmost, middle, nearest, rfl, hpeels, hgroup, hnearest, -⟩ :=
      exists_groups_of_lt hprimary hlt
    have hbytes : byteLength nearest = p.primaryGroup := by
      rw [byteLength_of_digits fun c hc => hdigits c (List.mem_append_right _ hc), hnearest]
    rw [splitLast?_eq_some_iff.2 ⟨rfl, hbytes⟩, hgroup]
    show (peel? p.peelSize hpeels.size_ne_zero front).bind _ = _
    rw [peel?_of_peels hpeels fun c hc => hdigits c (List.mem_append_left _ hc)]
    rfl

theorem body?_eq {places : Decimal.Places} (hinteger : ∀ c ∈ places.integer, c.isDigit = true) :
    p.body? places = some (p.body places) := by
  have hwhole : ∀ c ∈ p.writtenWhole places, c.isDigit = true :=
    fun c hc => isDigit_of_mem_writtenWhole hinteger hc
  unfold body?
  dsimp only
  rw [padInteger?_eq hinteger, Option.bind_eq_bind, Option.bind_some, body_eq]
  show (p.group? (p.writtenWhole places)).bind _ = _
  rw [group?_eq hwhole]
  rfl

/-- Padding and grouping the digits of a number by their bytes never fails, and comes to an end. -/
theorem formatChars?_eq (p : NumberPattern) (x : Float) :
    p.formatChars? x = some (p.formatChars x) := by
  unfold formatChars? formatChars
  dsimp only
  cases Decimal.shape x with
  | nan => rfl
  | infinite negative => rfl
  | finite negative m e =>
    have hdigits : ∀ c ∈ (Decimal.places p.maxFractionDigits m e).integer, c.isDigit = true :=
      fun c hc => Decimal.Places.isDigit_of_mem (List.mem_append_left _ hc)
    dsimp only
    rw [body?_eq hdigits]
    rfl

end NumberPattern

/-! ## Calls with three arguments -/

/-- An action that ends at once, with a value or an error. -/
def Action.ofExcept {α : Type} : Except EvalError α → Action α
  | .ok a => .done a
  | .error error => .fail error

/-- However its `count` arguments are written, and whatever evaluating the first three of them
leaves in the journal, a missing third one being null: called with arguments that come to `v`, `w`
and `z`, the function comes to `result` and leaves the journal as the third argument does. -/
def Builtin.Returns (b : Builtin) (count : Nat) (v w z : Value)
    (result : Except EvalError Value) : Prop :=
  ∀ (host : Host) (scopes : Context) (depth : Nat) (callee left middle : Node)
    (others : List Node) (journal called first second third : Journal),
    others.length + 2 = count →
    (eval host scopes depth callee).runFrom journal = (.ok (.function (.builtin b)), called) →
    (eval host scopes depth left).runFrom called = (.ok v, first) →
    (eval host scopes depth middle).runFrom first = (.ok w, second) →
    (others.head?.elim (pure .null) (eval host scopes depth)).runFrom second = (.ok z, third) →
    (eval host scopes (depth + 1) (.call callee (left :: middle :: others))).runFrom journal =
      (result.mapError .failed, third)

/-- A function that checks the number of its arguments and reads three of them returns what it makes
of their values. -/
theorem Builtin.returns_of_ternary {b : Builtin} {count : Nat} {v w z : Value}
    {result : Except EvalError Value} {function : String} {expected : Expectation}
    {rest : Value → Value → Value → Action Value}
    (haction : b.action count = (Action.expect function expected count).bind fun _ =>
      (Action.read 0).bind fun v => (Action.read 1).bind fun w => (Action.read 2).bind (rest v w))
    (hadmits : expected.admits count = true) (hrest : rest v w z = .ofExcept result) :
    b.Returns count v w z result := by
  intro host scopes depth callee left middle others journal called first second third hcount
    hcallee hfirst hsecond hthird
  have hlast : EvalM.argument (eval host scopes depth) (left :: middle :: others) 2 =
      others.head?.elim (pure .null) (eval host scopes depth) := by
    cases others <;> rfl
  rw [eval_call hcallee, List.length_cons, List.length_cons, hcount, haction,
    Action.expect_of_admits hadmits]
  show (eval host scopes depth left >>= fun v => eval host scopes depth middle >>= fun w =>
    EvalM.argument _ (left :: middle :: others) 2 >>= fun z =>
      (rest v w z).perform _ scopes (left :: middle :: others)).runFrom called = _
  rw [EvalM.runFrom_bind, hfirst]
  dsimp only
  rw [EvalM.runFrom_bind, hsecond]
  dsimp only
  rw [EvalM.runFrom_bind, hlast, hthird]
  dsimp only
  rw [hrest]
  cases result <;> rfl

/-! ## Parts of texts -/

/-- What is left of `source` between `start` and `stop`: all of it, or null, without a place to
start at; null without a text; the part between two places of the text in order; and otherwise an
error. -/
inductive Cuts (source start stop : Value) : Except EvalError Value → Prop
  | whole (hstart : start.int64? = none) :
    Cuts source start stop (.ok (.ofOption (source.text?.map .text)))
  | noText {i : Int64} (hsource : source.text? = none) (hstart : start.int64? = some i) :
    Cuts source start stop (.ok .null)
  | part {text : String} {i j : Int64} {chars : List Char} (hsource : source.text? = some text)
    (hstart : start.int64? = some i) (hstop : stop.int64?.getD (Int64.ofNat text.toList.length) = j)
    (hlow : 0 ≤ i.toInt) (horder : i.toInt ≤ j.toInt) (hhigh : j.toInt ≤ text.toList.length)
    (hpart : slice? i.toUInt64.toNat j.toUInt64.toNat text.toList = some chars) :
    Cuts source start stop (.ok (.text (String.ofList chars)))
  | outside {text : String} {i j : Int64} (hsource : source.text? = some text)
    (hstart : start.int64? = some i) (hstop : stop.int64?.getD (Int64.ofNat text.toList.length) = j)
    (houtside : i.toInt < 0 ∨ j.toInt < i.toInt ∨ (text.toList.length : Int) < j.toInt) :
    Cuts source start stop (.error (.invalidArgument Builtin.substring.name
      (.outOfBounds i j text.toList.length)))

theorem toNat_toUInt64 {i : Int64} (h : 0 ≤ i.toInt) : i.toUInt64.toNat = i.toInt.toNat := by
  have hbits : i.toInt = i.toBitVec.toInt := rfl
  have hword : i.toUInt64.toNat = i.toBitVec.toNat := rfl
  rw [hbits, BitVec.toInt_eq_toNat_cond] at h ⊢
  rw [hword]
  split at h <;> omega

/-- A part that the check lets pass is a slice of the text. -/
theorem exists_part_of_inside {cs : List Char} {i j : Int64} (hlow : 0 ≤ i.toInt)
    (horder : i.toInt ≤ j.toInt) (hhigh : j.toInt ≤ cs.length) :
    ∃ part, slice? i.toUInt64.toNat j.toUInt64.toNat cs = some part ∧
      Catalogue.cut? cs i j = some part := by
  rw [toNat_toUInt64 hlow, toNat_toUInt64 (hlow.trans horder)]
  exact ⟨_, if_pos ⟨by omega, by omega⟩, if_neg (by omega)⟩

/-- Whatever the arguments are, `substring` returns what is left of the text. -/
theorem exists_cuts {count : Nat} (hcount : 2 ≤ count) (source start stop : Value) :
    ∃ result, Cuts source start stop result ∧
      Builtin.substring.Returns count source start stop result := by
  have hadmits : (Expectation.atLeast 2).admits count = true := decide_eq_true hcount
  cases hstart : start.int64? with
  | none =>
    refine ⟨_, .whole hstart, Builtin.returns_of_ternary rfl hadmits ?_⟩
    simp only [hstart]
    rfl
  | some i =>
    cases hsource : source.text? with
    | none =>
      refine ⟨_, .noText hsource hstart, Builtin.returns_of_ternary rfl hadmits ?_⟩
      simp only [hstart, hsource]
      rfl
    | some text =>
      obtain ⟨j, hstop⟩ : ∃ j, stop.int64?.getD (Int64.ofNat text.toList.length) = j := ⟨_, rfl⟩
      -- the check leaves the text alone unless the places are in order and in the text
      by_cases hinside : 0 ≤ i.toInt ∧ i.toInt ≤ j.toInt ∧ j.toInt ≤ text.toList.length
      · obtain ⟨hlow, horder, hhigh⟩ := hinside
        obtain ⟨part, hpart, hcut⟩ := exists_part_of_inside hlow horder hhigh
        refine ⟨_, .part hsource hstart hstop hlow horder hhigh hpart,
          Builtin.returns_of_ternary rfl hadmits ?_⟩
        simp only [hstart, hsource, hstop, hcut]
        rfl
      · refine ⟨_, .outside hsource hstart hstop (by omega),
          Builtin.returns_of_ternary rfl hadmits ?_⟩
        have hcut : Catalogue.cut? text.toList i j = none := if_pos (by omega)
        simp only [hstart, hsource, hstop, hcut]
        rfl

/-! ## Limits of numbers -/

/-- What `v` comes to between `low` and `high`: null if one of them is no number; the number between
the two, if these are in order; and otherwise an error. -/
inductive Limits (v low high : Value) : Except EvalError Value → Prop
  | notNumber (h : v.float? = none ∨ low.float? = none ∨ high.float? = none) :
    Limits v low high (.ok .null)
  | between {x y z limited : Float} (hv : v.float? = some x) (hlow : low.float? = some y)
    (hhigh : high.float? = some z) (horder : y ≤ z) (hlow_number : y.isNaN = false)
    (hhigh_number : z.isNaN = false) (hlimited : limited? x y z = some limited) :
    Limits v low high (.ok (.float limited))
  | empty {x y z : Float} (hv : v.float? = some x) (hlow : low.float? = some y)
    (hhigh : high.float? = some z) (horder : ¬ y ≤ z) :
    Limits v low high (.error (.invalidArgument Builtin.clamp.name (.emptyRange y z)))

/-- Only numbers are in order. -/
theorem isNaN_of_le {x y : Float} (h : x ≤ y) : x.isNaN = false ∧ y.isNaN = false := by
  obtain ⟨o, horder, -⟩ := Decimal.le_iff_order?.1 h
  have hne : Decimal.order? x y ≠ none := by
    rw [horder]
    exact Option.some_ne_none o
  rw [ne_eq, Decimal.order?_eq_none_iff, not_or, Bool.not_eq_true, Bool.not_eq_true] at hne
  exact hne

/-- Whatever the arguments are, `clamp` returns what the limits ask for. -/
theorem exists_limits (v low high : Value) :
    ∃ result, Limits v low high result ∧ Builtin.clamp.Returns 3 v low high result := by
  have hadmits : (Expectation.exactly 3).admits 3 = true := rfl
  by_cases hnumbers : v.float? = none ∨ low.float? = none ∨ high.float? = none
  · refine ⟨_, .notNumber hnumbers, Builtin.returns_of_ternary rfl hadmits ?_⟩
    split
    · next hv hlow hhigh =>
      rw [hv, hlow, hhigh] at hnumbers
      simp at hnumbers
    · rfl
  · rw [not_or, not_or] at hnumbers
    obtain ⟨hv, hlow, hhigh⟩ := hnumbers
    obtain ⟨x, hv⟩ := Option.ne_none_iff_exists'.1 hv
    obtain ⟨y, hlow⟩ := Option.ne_none_iff_exists'.1 hlow
    obtain ⟨z, hhigh⟩ := Option.ne_none_iff_exists'.1 hhigh
    by_cases horder : y ≤ z
    · obtain ⟨hlow_number, hhigh_number⟩ := isNaN_of_le horder
      refine ⟨_, .between hv hlow hhigh horder hlow_number hhigh_number
        (if_pos ⟨horder, hlow_number, hhigh_number⟩), Builtin.returns_of_ternary rfl hadmits ?_⟩
      simp only [hv, hlow, hhigh, if_pos horder]
      rfl
    · refine ⟨_, .empty hv hlow hhigh horder, Builtin.returns_of_ternary rfl hadmits ?_⟩
      simp only [hv, hlow, hhigh, if_neg horder]
      rfl

/-! ## All of it -/

/-- **No part, difference or range that is computed is out of range.** What looks like a single span
has at least three bytes, and what stands between the first two bytes and the last one can be cut
out and is the source of the span. However `substring` is called, with places that are integers or
floats or missing, it cuts out of its text what stands between two places of the text in order, or
else it returns the text or null or says that its argument is invalid. Every number can be written
after every pattern: no difference that padding and grouping the digits ask for is below zero, every
place at which digits are cut exists, and the rounds that take groups off come to an end. And
`clamp` keeps numbers between nothing but two numbers in order. -/
theorem ranges_exist :
    (∀ text, Span.isSingleSpan text = true →
      3 ≤ byteLength (Text.trim text) ∧
        ∃ source, byteSlice? 2 (byteLength (Text.trim text) - 1) (Text.trim text) = some source ∧
          Span.singleSpan? text = some source) ∧
    (∀ text, Span.sourceInBytes? text = some (Span.singleSpan? text)) ∧
    (∀ count, 2 ≤ count → ∀ source start stop, ∃ result, Cuts source start stop result ∧
      Builtin.substring.Returns count source start stop result) ∧
    (∀ (p : NumberPattern) (x : Float), p.formatChars? x = some (p.formatChars x)) ∧
    ∀ v low high, ∃ result, Limits v low high result ∧
      Builtin.clamp.Returns 3 v low high result :=
  ⟨fun _ => Span.exists_slice, Span.sourceInBytes?_eq, fun _ => exists_cuts,
    NumberPattern.formatChars?_eq, exists_limits⟩

/-- Letters of more than one byte, in a span and in a text that is cut; and a number in groups. -/
theorem ranges_exist_accents :
    Span.isSingleSpan [' ', '$', '{', 'é', '}'] = true ∧
      byteLength (Text.trim [' ', '$', '{', 'é', '}']) = 5 ∧
      Span.singleSpan? [' ', '$', '{', 'é', '}'] = some ['é'] ∧
      byteSlice? 2 4 (Text.trim [' ', '$', '{', 'é', '}']) = some ['é'] ∧
      2 ≤ 2 ∧ Cuts (.text "né") (.integer 1) .null (.ok (.text "é")) ∧
      (NumberPattern.ofChars NumberPattern.default).formatChars? 1234567.0 =
        some ['1', '2', ',', '3', '4', ',', '5', '6', '7'] := by
  obtain ⟨hspan, -, hsubstring, hformat, -⟩ := ranges_exist
  have hsingle : Span.isSingleSpan [' ', '$', '{', 'é', '}'] = true := by decide +kernel
  obtain ⟨-, source, hslice, hsource⟩ := hspan _ hsingle
  have hvalue : Span.singleSpan? [' ', '$', '{', 'é', '}'] = some ['é'] := by decide +kernel
  obtain rfl : source = ['é'] := Option.some.inj (hsource.symm.trans hvalue)
  obtain ⟨result, hcuts, hreturns⟩ := hsubstring 2 le_rfl (.text "né") (.integer 1) .null
  -- the call of a function with two arguments, the third one missing
  let argument (name : String) : Node :=
    .access (.reference ⟨.identifier, "with", 1⟩) ⟨.identifier, name, 1⟩
  have hrun := hreturns Host.empty (Builtin.argumentScope .substring (.text "né") (.integer 1)) 2
    (.reference ⟨.identifier, "call", 1⟩) (argument "left") (argument "right") []
    .new .new .new .new .new rfl rfl rfl rfl rfl
  have hresult : result.mapError Halt.failed = .ok (.text "é") :=
    (congrArg Prod.fst hrun).symm.trans rfl
  obtain rfl : result = .ok (.text "é") := by
    cases result <;> cases hresult
    rfl
  exact ⟨hsingle, by decide +kernel, hvalue, hslice, le_rfl, hcuts,
    (hformat _ _).trans (by decide +kernel)⟩

end Splice
