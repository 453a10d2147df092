import Mathlib.Data.List.Basic
import Mathlib.Data.List.TakeWhile
import Splice.NumberPattern

/-!
# `Splice.Proofs.Grouping` — digits in groups

A pattern says with the commas of its body how digits are grouped. The group nearest to the point is
taken off the right end of the digits first. What is left is peeled: as long as it has more digits
than a group, one more group is taken off its right end. Every round makes it shorter, because no
group is empty; the digits that are left at last are the leftmost group.

## Contents
- `Parts`, `Halves`: what stands before, in and after the body of a pattern, and the body at its
  first point; `exists_parts` says that every pattern has them and what it asks for.
- `Peels`: how groups of one size are taken off; `exists_peels`, `Peels.size_ne_zero` say when this
  comes to an end, `Peels.flatten`, `Peels.shape` what comes out.
- `group_of_le`, `group_append`: few digits stay as they are, others are peeled.
- `digits_beside_comma`: where commas stand between groups.
- `group_exact`: the groups that a pattern asks for.
-/

namespace Splice

namespace Text

variable {mark : Char} {cs piece : List Char}

/-- The pieces, put together with marks between them, are the whole. -/
theorem intercalate_splitOn (mark : Char) (cs : List Char) :
    [mark].intercalate (splitOn mark cs) = cs := by
  induction cs with
  | nil => rfl
  | cons c cs ih =>
    unfold splitOn
    by_cases hc : c = mark
    · rw [if_pos hc, List.intercalate_cons_of_ne_nil splitOn_ne_nil, ih, hc]
      rfl
    · rw [if_neg hc]
      cases hsplit : splitOn mark cs with
      | nil => exact absurd hsplit splitOn_ne_nil
      | cons first pieces =>
        rw [hsplit] at ih
        cases pieces with
        | nil =>
          rw [List.intercalate_singleton] at ih ⊢
          rw [ih]
        | cons second pieces =>
          rw [List.intercalate_cons_cons] at ih ⊢
          rw [← ih]
          rfl

/-- No mark stands in a piece. -/
theorem mark_notMem_of_mem_splitOn (h : piece ∈ splitOn mark cs) : mark ∉ piece := by
  induction cs generalizing piece with
  | nil =>
    rw [splitOn, List.mem_singleton] at h
    rw [h]
    exact List.not_mem_nil
  | cons c cs ih =>
    unfold splitOn at h
    by_cases hc : c = mark
    · rw [if_pos hc, List.mem_cons] at h
      rcases h with rfl | h
      · exact List.not_mem_nil
      · exact ih h
    · rw [if_neg hc] at h
      cases hsplit : splitOn mark cs with
      | nil => exact absurd hsplit splitOn_ne_nil
      | cons first pieces =>
        rw [hsplit] at h ih
        rcases List.mem_cons.1 h with rfl | h
        · intro hmem
          rcases List.mem_cons.1 hmem with heq | hmem
          · exact hc heq.symm
          · exact ih (List.mem_cons_self ..) hmem
        · exact ih (List.mem_cons_of_mem _ h)

end Text

namespace NumberPattern

variable {p : NumberPattern} {size : Nat} {c : Char} {digits rest last : List Char}
  {groups : List (List Char)}

/-! ## The parts of a pattern -/

/-- The body of a pattern is its first run of body characters. -/
structure Parts (pattern before body after : List Char) : Prop where
  pattern_eq : pattern = before ++ body ++ after
  before_outside : ∀ c ∈ before, isBody c = false
  body_inside : ∀ c ∈ body, isBody c = true
  after_outside : ∀ c ∈ after.head?, isBody c = false
  after_of_no_body : body = [] → after = []

/-- A body is cut at its first point, if it has one. -/
def Halves (body integer fraction : List Char) : Prop :=
  '.' ∉ integer ∧ (body = integer ++ '.' :: fraction ∨ body = integer ∧ fraction = [])

theorem parts_of_first_run (pattern : List Char) :
    Parts pattern (pattern.takeWhile (!isBody ·))
      ((pattern.dropWhile (!isBody ·)).takeWhile isBody)
      ((pattern.dropWhile (!isBody ·)).dropWhile isBody) where
  pattern_eq := by
    rw [List.append_assoc, List.takeWhile_append_dropWhile, List.takeWhile_append_dropWhile]
  before_outside c hc := by simpa using List.mem_takeWhile_imp hc
  body_inside c hc := List.mem_takeWhile_imp hc
  after_outside c hc := by
    have h := List.head?_dropWhile_not isBody (pattern.dropWhile (!isBody ·))
    rw [Option.mem_def.1 hc] at h
    exact h
  after_of_no_body h := by
    -- the text starts with a body character where the text before the body ends
    cases hrest : pattern.dropWhile (!isBody ·) with
    | nil => rfl
    | cons c cs =>
      have hc := List.head?_dropWhile_not (!isBody ·) pattern
      rw [hrest] at hc h
      have hbody : isBody c = true := by simpa using hc
      rw [List.takeWhile_cons_of_pos hbody] at h
      cases h

theorem halves_of_first_point (body : List Char) :
    Halves body (body.takeWhile (· != '.')) ((body.dropWhile (· != '.')).drop 1) := by
  refine ⟨fun hmem => ?_, ?_⟩
  · have h := List.mem_takeWhile_imp hmem
    simp at h
  · have hwhole := List.takeWhile_append_dropWhile (p := (· != '.')) (l := body)
    cases hrest : body.dropWhile (· != '.') with
    | nil =>
      rw [hrest, List.append_nil] at hwhole
      exact .inr ⟨hwhole.symm, rfl⟩
    | cons c cs =>
      have hc := List.head?_dropWhile_not (· != '.') body
      rw [hrest] at hc hwhole
      have hpoint : c = '.' := by simpa using hc
      rw [hpoint] at hwhole
      exact .inl hwhole.symm

/-- Every pattern has these parts, and asks for what they say. -/
theorem exists_parts (pattern : List Char) :
    ∃ before body integer fraction after,
      Parts pattern before body after ∧ Halves body integer fraction ∧
      ofChars pattern =
        { before
          after
          primaryGroup := (groupSizes (Text.splitOn ',' integer).reverse).1
          secondaryGroup := (groupSizes (Text.splitOn ',' integer).reverse).2
          minIntegerDigits := integer.count '0'
          minFractionDigits := fraction.count '0'
          maxFractionDigits := fraction.countP fun c => c == '0' || c == '#' } :=
  ⟨_, _, _, _, _, parts_of_first_run pattern, halves_of_first_point _, rfl⟩

/-! ## Peeling -/

/-- Groups of `size` digits are taken off the right end of `rest`, one in each round, as long as it
has more digits than that. -/
inductive Peels (size : Nat) : (rest : List Char) → (groups : List (List Char)) → Prop
  | leftmost {rest : List Char} (hne : rest ≠ []) (hle : rest.length ≤ size) :
      Peels size rest [rest]
  | round {rest last : List Char} {groups : List (List Char)} (hne : rest ≠ [])
      (hlast : last.length = size) (h : Peels size rest groups) :
      Peels size (rest ++ last) (groups ++ [last])

/-- Peeling comes to an end, whatever digits there are. -/
theorem exists_peels (hsize : size ≠ 0) (hne : rest ≠ []) : ∃ groups, Peels size rest groups := by
  induction hlength : rest.length using Nat.strong_induction_on generalizing rest with
  | _ n ih =>
    by_cases hle : rest.length ≤ size
    · exact ⟨[rest], .leftmost hne hle⟩
    · -- a round takes digits away, so what it leaves is shorter, and not empty
      have hfront : (rest.take (rest.length - size)).length = rest.length - size := by
        rw [List.length_take]
        omega
      have hback : (rest.drop (rest.length - size)).length = size := by
        rw [List.length_drop]
        omega
      have hfront_ne : rest.take (rest.length - size) ≠ [] := by
        apply List.ne_nil_of_length_pos
        omega
      obtain ⟨groups, hgroups⟩ :=
        ih (rest.length - size) (by omega) hfront_ne hfront
      have hround := Peels.round hfront_ne hback hgroups
      rw [List.take_append_drop] at hround
      exact ⟨_, hround⟩

/-- With groups of no digits it would not come to an end. -/
theorem Peels.size_ne_zero (h : Peels size rest groups) : size ≠ 0 := by
  induction h with
  | leftmost hne hle =>
    intro hzero
    rw [hzero] at hle
    exact hne (List.length_eq_zero_iff.1 (Nat.le_zero.1 hle))
  | round hne hlast h ih => exact ih

/-- No digit is lost. -/
theorem Peels.flatten (h : Peels size rest groups) : groups.flatten = rest := by
  induction h with
  | leftmost hne hle => exact List.flatten_singleton
  | round hne hlast h ih => rw [List.flatten_append, ih, List.flatten_singleton]

/-- All groups have the same size, apart from the leftmost one, which may have fewer digits. -/
theorem Peels.shape (h : Peels size rest groups) :
    ∃ leftmost middle, groups = leftmost :: middle ∧ 1 ≤ leftmost.length ∧
      leftmost.length ≤ size ∧ ∀ g ∈ middle, g.length = size := by
  induction h with
  | leftmost hne hle =>
    exact ⟨_, [], rfl, List.length_pos_iff.2 hne, hle, fun g hg => absurd hg List.not_mem_nil⟩
  | @round rest last groups hne hlast h ih =>
    obtain ⟨leftmost, middle, rfl, hlow, hhigh, hmiddle⟩ := ih
    refine ⟨leftmost, middle ++ [last], rfl, hlow, hhigh, fun g hg => ?_⟩
    rcases List.mem_append.1 hg with hg | hg
    · exact hmiddle g hg
    · rw [List.mem_singleton.1 hg]
      exact hlast

/-- What is peeled off from the right are the chunks of the digits from right to left. -/
theorem chunks_of_peels (h : Peels size rest groups) :
    Text.chunks size rest.reverse = groups.reverse.map List.reverse := by
  induction h with
  | @leftmost rest hne hle =>
    have hsize := (Peels.leftmost hne hle).size_ne_zero
    have hlength : rest.reverse.length ≤ size := by
      rw [List.length_reverse]
      exact hle
    have hguard : ¬ (size = 0 ∨ rest.reverse = []) := by simp [hsize, hne]
    unfold Text.chunks
    rw [dif_neg hguard, List.take_of_length_le hlength, List.drop_of_length_le hlength]
    unfold Text.chunks
    simp
  | @round rest last groups hne hlast h ih =>
    have hguard : ¬ (size = 0 ∨ (rest ++ last).reverse = []) := by simp [h.size_ne_zero, hne]
    have hlength : last.reverse.length = size := by rw [List.length_reverse, hlast]
    unfold Text.chunks
    rw [dif_neg hguard, List.reverse_append, List.take_left' hlength, List.drop_left' hlength, ih]
    simp

/-! ## Groups and commas -/

/-- What is no digit does not stand among digits. -/
theorem notMem_of_digits {d : Char} (hd : d.isDigit = false)
    (h : ∀ c ∈ digits, c.isDigit = true) : d ∉ digits := by
  intro hmem
  rw [h d hmem] at hd
  cases hd

theorem intercalate_concat {sep g : List Char} (hne : groups ≠ []) :
    sep.intercalate (groups ++ [g]) = sep.intercalate groups ++ (sep ++ g) := by
  induction groups with
  | nil => exact absurd rfl hne
  | cons first groups ih =>
    by_cases hgroups : groups = []
    · simp [hgroups, List.intercalate_cons_cons]
    · have happend : groups ++ [g] ≠ [] := List.append_ne_nil_of_left_ne_nil hgroups [g]
      rw [List.cons_append, List.intercalate_cons_of_ne_nil happend,
        List.intercalate_cons_of_ne_nil hgroups, ih hgroups]
      simp only [List.append_assoc]

/-- Read from right to left, groups are the groups read from right to left. -/
theorem reverse_intercalate_comma (groups : List (List Char)) :
    ([','].intercalate (groups.reverse.map List.reverse)).reverse = [','].intercalate groups := by
  induction groups with
  | nil => rfl
  | cons g groups ih =>
    by_cases hgroups : groups = []
    · simp [hgroups]
    · have hreverse : groups.reverse.map List.reverse ≠ [] := by simpa using hgroups
      rw [List.reverse_cons, List.map_append, List.map_singleton, intercalate_concat hreverse,
        List.reverse_append, ih, List.intercalate_cons_of_ne_nil hgroups]
      simp

/-- Without the commas, groups are their digits. -/
theorem filter_intercalate (h : ∀ g ∈ groups, ',' ∉ g) :
    ([','].intercalate groups).filter (· != ',') = groups.flatten := by
  induction groups with
  | nil => rfl
  | cons g groups ih =>
    have hg : g.filter (· != ',') = g := by
      rw [List.filter_eq_self]
      intro c hc
      have hne : c ≠ ',' := by
        rintro rfl
        exact h g (List.mem_cons_self ..) hc
      simpa using hne
    have hgroups := ih fun g' hg' => h g' (List.mem_cons_of_mem _ hg')
    by_cases hnil : groups = []
    · simp [hnil, hg]
    · rw [List.intercalate_cons_of_ne_nil hnil, List.filter_append, List.filter_append, hg, hgroups]
      simp

theorem exists_head?_digit (hne : ∀ g ∈ groups, g ≠ [])
    (hdigits : ∀ g ∈ groups, ∀ c ∈ g, c.isDigit = true) (hgroups : groups ≠ []) :
    ∃ c ∈ ([','].intercalate groups).head?, c.isDigit = true := by
  cases groups with
  | nil => exact absurd rfl hgroups
  | cons g groups =>
    have hg := hdigits g (List.mem_cons_self ..)
    cases g with
    | nil => exact absurd rfl (hne [] (List.mem_cons_self ..))
    | cons c cs =>
      refine ⟨c, ?_, hg c (List.mem_cons_self ..)⟩
      by_cases hnil : groups = []
      · simp [hnil]
      · simp [List.intercalate_cons_of_ne_nil hnil]

/-- A comma has a digit on either side, so that none leads, trails or is doubled. -/
theorem digits_beside_comma (hne : ∀ g ∈ groups, g ≠ [])
    (hdigits : ∀ g ∈ groups, ∀ c ∈ g, c.isDigit = true) {front back : List Char}
    (h : [','].intercalate groups = front ++ ',' :: back) :
    (∃ c ∈ front.getLast?, c.isDigit = true) ∧ ∃ c ∈ back.head?, c.isDigit = true := by
  induction groups generalizing front with
  | nil =>
    have hlength := congrArg List.length h
    simp at hlength
  | cons g groups ih =>
    have hg := hdigits g (List.mem_cons_self ..)
    have hgne := hne g (List.mem_cons_self ..)
    have hgcomma : ',' ∉ g := notMem_of_digits rfl hg
    by_cases hnil : groups = []
    · rw [hnil, List.intercalate_singleton] at h
      have hmem : ',' ∈ g := by simp [h]
      exact absurd hmem hgcomma
    · have hne' : ∀ g' ∈ groups, g' ≠ [] := fun g' hg' => hne g' (List.mem_cons_of_mem _ hg')
      have hdigits' : ∀ g' ∈ groups, ∀ c ∈ g', c.isDigit = true :=
        fun g' hg' => hdigits g' (List.mem_cons_of_mem _ hg')
      rw [List.intercalate_cons_of_ne_nil hnil, List.append_assoc, List.singleton_append] at h
      have hleft : ∃ c ∈ g.getLast?, c.isDigit = true :=
        ⟨g.getLast hgne, List.getLast?_eq_some_getLast hgne, hg _ (List.getLast_mem hgne)⟩
      have hright := exists_head?_digit hne' hdigits' hnil
      -- the comma stands behind `g`, or further to the right; in `g` there is none
      rcases List.append_eq_append_iff.1 h with ⟨between, hfront, hback⟩ | ⟨between, hinside, hback⟩
      · cases between with
        | nil =>
          rw [List.append_nil] at hfront
          injection hback with _ hback
          rw [hfront, ← hback]
          exact ⟨hleft, hright⟩
        | cons c between =>
          injection hback with _ hback
          obtain ⟨hlast, hhead⟩ := ih hne' hdigits' hback
          refine ⟨?_, hhead⟩
          obtain ⟨d, hd, hdigit⟩ := hlast
          refine ⟨d, ?_, hdigit⟩
          rw [hfront, List.getLast?_append, List.getLast?_cons, Option.mem_def.1 hd]
          rfl
      · cases between with
        | nil =>
          rw [List.append_nil] at hinside
          injection hback with _ hback
          rw [← hinside, hback]
          exact ⟨hleft, hright⟩
        | cons c between =>
          injection hback with hc _
          have hmem : ',' ∈ g := by simp [hinside, ← hc]
          exact absurd hmem hgcomma

/-! ## Digits after a pattern -/

/-- The size of the groups other than the nearest to the point. -/
def peelSize (p : NumberPattern) : Nat :=
  if p.secondaryGroup = 0 then p.primaryGroup else p.secondaryGroup

theorem peelSize_ne_zero (h : p.primaryGroup ≠ 0) : p.peelSize ≠ 0 := by
  unfold peelSize
  by_cases hsecondary : p.secondaryGroup = 0
  · rw [if_pos hsecondary]
    exact h
  · rw [if_neg hsecondary]
    exact hsecondary

theorem group_of_primaryGroup_ne_zero (h : p.primaryGroup ≠ 0) (digits : List Char) :
    p.group digits =
      ([','].intercalate (digits.reverse.take p.primaryGroup ::
        Text.chunks p.peelSize (digits.reverse.drop p.primaryGroup))).reverse :=
  if_neg h

/-- Digits are grouped from the right, and none of them is lost. -/
theorem exists_groups (p : NumberPattern) (digits : List Char) :
    ∃ groups, p.group digits = [','].intercalate groups ∧ groups.flatten = digits := by
  by_cases hprimary : p.primaryGroup = 0
  · have hgroup : p.group digits = digits := if_pos hprimary
    rw [hgroup]
    exact ⟨[digits], List.intercalate_singleton.symm, List.flatten_singleton⟩
  · rw [group_of_primaryGroup_ne_zero hprimary]
    generalize hfromRight : digits.reverse.take p.primaryGroup ::
      Text.chunks p.peelSize (digits.reverse.drop p.primaryGroup) = fromRight
    have hflatten : fromRight.flatten = digits.reverse := by
      rw [← hfromRight, List.flatten_cons, Text.flatten_chunks (peelSize_ne_zero hprimary),
        List.take_append_drop]
    have hreverse : (fromRight.reverse.map List.reverse).reverse.map List.reverse = fromRight := by
      simp
    refine ⟨fromRight.reverse.map List.reverse, ?_, ?_⟩
    · rw [← reverse_intercalate_comma (fromRight.reverse.map List.reverse), hreverse]
    · have h := congrArg List.reverse hflatten
      rw [List.reverse_flatten, List.reverse_reverse] at h
      rw [List.map_reverse]
      exact h

/-- Without the commas, grouped digits are the digits. -/
theorem filter_group (h : ∀ c ∈ digits, c.isDigit = true) :
    (p.group digits).filter (· != ',') = digits := by
  obtain ⟨groups, hgroup, hflatten⟩ := exists_groups p digits
  rw [hgroup, filter_intercalate, hflatten]
  intro g hg hmem
  rw [← hflatten] at h
  exact notMem_of_digits rfl h (List.mem_flatten_of_mem hg hmem)

/-- Digits that fit into one group stay as they are. -/
theorem group_of_le (h : p.primaryGroup = 0 ∨ digits.length ≤ p.primaryGroup) :
    p.group digits = digits := by
  by_cases hprimary : p.primaryGroup = 0
  · exact if_pos hprimary
  · have hle : digits.reverse.length ≤ p.primaryGroup := by
      rw [List.length_reverse]
      exact h.resolve_left hprimary
    rw [group_of_primaryGroup_ne_zero hprimary, List.take_of_length_le hle,
      List.drop_of_length_le hle]
    unfold Text.chunks
    simp

/-- Of more digits, those before the nearest group are peeled. -/
theorem group_append (hlast : last.length = p.primaryGroup) (hprimary : p.primaryGroup ≠ 0)
    (h : Peels p.peelSize rest groups) :
    p.group (rest ++ last) = [','].intercalate (groups ++ [last]) := by
  have hlength : last.reverse.length = p.primaryGroup := by rw [List.length_reverse, hlast]
  rw [group_of_primaryGroup_ne_zero hprimary, List.reverse_append, List.take_left' hlength,
    List.drop_left' hlength, chunks_of_peels h, ← reverse_intercalate_comma (groups ++ [last])]
  simp

/-- Digits that do not fit into one group are the nearest group, and in front of it what is peeled
off the others. -/
theorem exists_groups_of_lt (hprimary : p.primaryGroup ≠ 0)
    (hlt : p.primaryGroup < digits.length) :
    ∃ rest leftmost middle nearest,
      digits = rest ++ nearest ∧
      Peels p.peelSize rest (leftmost :: middle) ∧
      p.group digits = [','].intercalate (leftmost :: middle ++ [nearest]) ∧
      nearest.length = p.primaryGroup ∧
      (∀ g ∈ middle, g.length = p.peelSize) ∧
      1 ≤ leftmost.length ∧ leftmost.length ≤ p.peelSize := by
  obtain ⟨rest, nearest, hdigits, hnearest⟩ :
      ∃ rest nearest, digits = rest ++ nearest ∧ nearest.length = p.primaryGroup := by
    refine ⟨_, _, (List.take_append_drop (digits.length - p.primaryGroup) digits).symm, ?_⟩
    rw [List.length_drop]
    omega
  have hne : rest ≠ [] := by
    rintro rfl
    rw [hdigits, List.nil_append, hnearest] at hlt
    exact Nat.lt_irrefl _ hlt
  obtain ⟨groups, hpeels⟩ := exists_peels (peelSize_ne_zero hprimary) hne
  obtain ⟨leftmost, middle, rfl, hlow, hhigh, hmiddle⟩ := hpeels.shape
  refine ⟨rest, leftmost, middle, nearest, hdigits, hpeels, ?_, hnearest, hmiddle, hlow, hhigh⟩
  rw [hdigits]
  exact group_append hnearest hprimary hpeels

/-- Every comma stands between two digits. -/
theorem digits_beside_comma_of_group (h : ∀ c ∈ digits, c.isDigit = true)
    {front back : List Char} (hgroup : p.group digits = front ++ ',' :: back) :
    (∃ c ∈ front.getLast?, c.isDigit = true) ∧ ∃ c ∈ back.head?, c.isDigit = true := by
  by_cases hfits : p.primaryGroup = 0 ∨ digits.length ≤ p.primaryGroup
  · rw [group_of_le hfits] at hgroup
    have hmem : ',' ∈ digits := by simp [hgroup]
    exact absurd hmem (notMem_of_digits rfl h)
  · rw [not_or, Nat.not_le] at hfits
    obtain ⟨hprimary, hlt⟩ := hfits
    obtain ⟨rest, leftmost, middle, nearest, hdigits, hpeels, hgroups, hnearest, hmiddle, hlow,
      -⟩ := exists_groups_of_lt hprimary hlt
    rw [hgroups] at hgroup
    refine digits_beside_comma ?_ ?_ hgroup
    · intro g hg
      apply List.ne_nil_of_length_pos
      rcases List.mem_append.1 hg with hg | hg
      · rcases List.mem_cons.1 hg with rfl | hg
        · exact hlow
        · rw [hmiddle g hg]
          exact Nat.pos_of_ne_zero hpeels.size_ne_zero
      · rw [List.mem_singleton.1 hg, hnearest]
        exact Nat.pos_of_ne_zero hprimary
    · intro g hg c hc
      apply h c
      rw [hdigits, ← hpeels.flatten, ← List.flatten_concat]
      exact List.mem_flatten_of_mem hg hc

/-! ## What the commas of a pattern say -/

/-- The size of the groups other than the nearest, for a body whose pieces between commas are
`initial` and then `primary`: that of the piece before `primary`, if there is a further one before
it and it is not empty, and otherwise that of the nearest group. -/
def otherSize (initial : List (List Char)) (primary : List Char) : Nat :=
  if 2 ≤ initial.length ∧ initial.getLast? ≠ some [] then (initial.getLast?.getD []).length
  else primary.length

theorem otherSize_ne_zero {initial : List (List Char)} {primary : List Char} (h : primary ≠ []) :
    otherSize initial primary ≠ 0 := by
  unfold otherSize
  by_cases hother : 2 ≤ initial.length ∧ initial.getLast? ≠ some []
  · rw [if_pos hother]
    cases hlast : initial.getLast? with
    | none =>
      rw [List.getLast?_eq_none_iff.1 hlast] at hother
      exact absurd hother.1 (by decide)
    | some secondary =>
      have hne : secondary ≠ [] := fun hnil => hother.2 (hnil ▸ hlast)
      exact (List.length_pos_iff.2 hne).ne'
  · rw [if_neg hother]
    exact (List.length_pos_iff.2 h).ne'

/-- The sizes of groups depend on the last three pieces. -/
theorem groupSizes_reverse_concat {initial : List (List Char)} (hne : initial ≠ [])
    (primary : List Char) :
    groupSizes (initial ++ [primary]).reverse = (primary.length, otherSize initial primary) := by
  rw [List.reverse_append, List.reverse_singleton, List.singleton_append]
  obtain ⟨front, secondary, rfl⟩ := (List.eq_nil_or_concat' initial).resolve_left hne
  rw [List.reverse_append, List.reverse_singleton, List.singleton_append]
  unfold otherSize
  rcases List.eq_nil_or_concat' front with rfl | ⟨front', before, rfl⟩
  · rfl
  · rw [List.reverse_append, List.reverse_singleton, List.singleton_append]
    have htwo : 2 ≤ (front' ++ [before] ++ [secondary]).length := by simp
    have hlast : (front' ++ [before] ++ [secondary]).getLast? = some secondary :=
      List.getLast?_concat
    rw [hlast]
    by_cases hempty : secondary = []
    · subst hempty
      simp [groupSizes]
    · have hisEmpty : secondary.isEmpty = false := by simpa using hempty
      rw [if_pos ⟨htwo, fun h => hempty (Option.some.inj h)⟩]
      show (primary.length, if secondary.isEmpty then primary.length else secondary.length) = _
      rw [hisEmpty]
      rfl

/-- **Digits are grouped exactly as the commas of the pattern say.** Without a comma before the
point, or with nothing behind the last comma, the digits stay as they are. Otherwise the digits that
do not fit into one group are cut into a group as long as the piece behind the last comma, in front
of it groups as long as the piece before the last comma, or as the nearest group if that piece is
the first or empty, and a leftmost group that has at least one digit and at most as many as these.
The digits before the nearest group come to these groups by being peeled, in finitely many rounds,
because no group is empty. Without the commas the result is the digits, and every comma stands
between two of them. -/
theorem group_exact (pattern digits : List Char) (hdigits : ∀ c ∈ digits, c.isDigit = true) :
    ∃ before body integer fraction after pieces,
      Parts pattern before body after ∧ Halves body integer fraction ∧
      pieces ≠ [] ∧ (∀ piece ∈ pieces, ',' ∉ piece) ∧ integer = [','].intercalate pieces ∧
      let grouped := (ofChars pattern).group digits
      (pieces.length = 1 ∨ pieces.getLast? = some [] → grouped = digits) ∧
      (∀ initial primary, pieces = initial ++ [primary] → initial ≠ [] → primary ≠ [] →
        (digits.length ≤ primary.length → grouped = digits) ∧
        (primary.length < digits.length → ∃ rest leftmost middle nearest,
          digits = rest ++ nearest ∧
          Peels (otherSize initial primary) rest (leftmost :: middle) ∧
          grouped = [','].intercalate (leftmost :: middle ++ [nearest]) ∧
          nearest.length = primary.length ∧
          (∀ g ∈ middle, g.length = otherSize initial primary) ∧
          1 ≤ leftmost.length ∧ leftmost.length ≤ otherSize initial primary)) ∧
      grouped.filter (· != ',') = digits ∧
      ∀ front back, grouped = front ++ ',' :: back →
        (∃ c ∈ front.getLast?, c.isDigit = true) ∧ ∃ c ∈ back.head?, c.isDigit = true := by
  obtain ⟨before, body, integer, fraction, after, hparts, hhalves, hpattern⟩ := exists_parts pattern
  refine ⟨before, body, integer, fraction, after, Text.splitOn ',' integer, hparts, hhalves,
    Text.splitOn_ne_nil, fun piece hpiece => Text.mark_notMem_of_mem_splitOn hpiece,
    (Text.intercalate_splitOn ',' integer).symm, ?_, ?_, filter_group hdigits,
    fun front back hgroup => digits_beside_comma_of_group hdigits hgroup⟩
  · intro hpieces
    apply group_of_le
    left
    rw [hpattern]
    rcases hpieces with hlength | hlast
    · obtain ⟨piece, hpiece⟩ := List.length_eq_one_iff.1 hlength
      rw [hpiece]
      rfl
    · obtain ⟨initial, hinitial⟩ := List.getLast?_eq_some_iff.1 hlast
      rw [hinitial]
      by_cases hne : initial = []
      · rw [hne]
        rfl
      · rw [groupSizes_reverse_concat hne]
        rfl
  · intro initial primary hpieces hinitial hprimary
    have hsizes := groupSizes_reverse_concat hinitial primary
    rw [← hpieces] at hsizes
    have hgroup : (ofChars pattern).primaryGroup = primary.length := by rw [hpattern, hsizes]
    have hsize : (ofChars pattern).peelSize = otherSize initial primary := by
      unfold peelSize
      rw [hpattern, hsizes]
      exact if_neg (otherSize_ne_zero hprimary)
    rw [← hgroup, ← hsize]
    refine ⟨fun hle => group_of_le (.inr hle), fun hlt => ?_⟩
    apply exists_groups_of_lt ?_ hlt
    rw [hgroup]
    exact (List.length_pos_iff.2 hprimary).ne'

/-- The first group of the default pattern has three digits, the others have two. -/
theorem group_exact_default :
    (∀ c ∈ ['1', '2', '3', '4', '5', '6'], c.isDigit = true) ∧
      ((ofChars NumberPattern.default).group ['1', '2', '3', '4', '5', '6']).filter (· != ',') =
        ['1', '2', '3', '4', '5', '6'] ∧
      (ofChars NumberPattern.default).group ['1', '2', '3', '4', '5', '6'] =
        ['1', ',', '2', '3', ',', '4', '5', '6'] := by
  have hdigits : ∀ c ∈ ['1', '2', '3', '4', '5', '6'], c.isDigit = true :=
    List.all_eq_true.1 rfl
  obtain ⟨-, -, -, -, -, -, -, -, -, -, -, -, -, hfilter, -⟩ :=
    group_exact NumberPattern.default ['1', '2', '3', '4', '5', '6'] hdigits
  exact ⟨hdigits, hfilter, by decide +kernel⟩

end NumberPattern

end Splice
