import Splice.Path
import Splice.Proofs.Scanning

/-!
# `Splice.Proofs.Paths` — paths and the steps they write

A key and the indices behind it make up one segment of a path, and every other key starts a new one.
So the steps of a path are collected segment by segment, while they are followed one by one.

## Contents
- `Text.trim_of_ends`, `Text.trim_of_no_blank`: where there are no blanks to drop.
- `Step.Writable`, `Step.write`, `write`: the keys that paths can name, and paths as texts.
- `Leads`: where steps lead to, one by one; `follow?_eq_some_iff`.
- `index?_toDigits`, `indices?_write`, `segment?_write`: the indices, and then the steps, of one
  segment.
- `steps?_write`: the steps of a path are those that were written.
- `lookup_write`: looking a path up is following its steps.
-/

namespace Splice

/-! ## Blanks at the ends -/

namespace Text

variable {cs : List Char}

theorem trimStart_of_head? (h : ∀ c ∈ cs.head?, isBlank c = false) : trimStart cs = cs := by
  cases cs with
  | nil => rfl
  | cons c cs => exact trimStart_cons_of_not_blank (h c rfl)

/-- Nothing is dropped from a text that neither starts nor ends with a blank. -/
theorem trim_of_ends (hfirst : ∀ c ∈ cs.head?, isBlank c = false)
    (hlast : ∀ c ∈ cs.getLast?, isBlank c = false) : trim cs = cs := by
  rw [trim, trimStart_of_head? hfirst, trimEnd, trimStart_of_head?, List.reverse_reverse]
  rw [List.head?_reverse]
  exact hlast

/-- Nor is anything from one without blanks. -/
theorem trim_of_no_blank (h : ∀ c ∈ cs, isBlank c = false) : trim cs = cs :=
  trim_of_ends (fun c hc => h c (List.mem_of_mem_head? hc))
    fun c hc => h c (List.mem_of_getLast? hc)

end Text

namespace Path

variable {steps : List Step} {root v : Value} {name : List Char} {is : List Nat}

/-! ## Paths as texts -/

/-- A path can name the key: it is not empty and has neither dots nor opening brackets. -/
def Step.Writable : Step → Prop
  | key name => name.toList ≠ [] ∧ '.' ∉ name.toList ∧ '[' ∉ name.toList
  | index _ => True

/-- A step behind other ones. -/
def Step.write : Step → List Char
  | key name => '.' :: name.toList
  | index i => '[' :: (Nat.toDigits 10 i ++ [']'])

/-- The path of steps; there is no dot before the first one. -/
def write : List Step → List Char
  | .key name :: steps => name.toList ++ steps.flatMap Step.write
  | steps => steps.flatMap Step.write

/-! ## Following steps -/

/-- A key leads to what a map has under it, and an index to what a list has there. -/
inductive Leads : List Step → Value → Value → Prop
  | here (v : Value) : Leads [] v v
  | key {name : String} {entries : List (String × Value)} {u v : Value} {steps : List Step}
      (h : entries.lookup name = some u) (hrest : Leads steps u v) :
      Leads (.key name :: steps) (.map entries) v
  | index {i : Nat} {items : List Value} {u v : Value} {steps : List Step}
      (h : items[i]? = some u) (hrest : Leads steps u v) :
      Leads (.index i :: steps) (.list items) v

theorem follow?_cons (step : Step) (steps : List Step) (root : Value) :
    follow? (step :: steps) root = step.apply? root >>= follow? steps := by
  rw [follow?, List.foldlM_cons]
  rfl

/-- Steps are followed to where they lead, and to nowhere if they do not. -/
theorem follow?_eq_some_iff : follow? steps root = some v ↔ Leads steps root v := by
  induction steps generalizing root with
  | nil =>
    constructor
    · rintro ⟨⟩
      exact .here v
    · rintro ⟨⟩
      rfl
  | cons step steps ih =>
    rw [follow?_cons, Option.bind_eq_bind, Option.bind_eq_some_iff]
    simp only [ih]
    constructor
    · rintro ⟨u, hu, hrest⟩
      unfold Step.apply? at hu
      split at hu
      · exact .key hu hrest
      · exact .index hu hrest
      · cases hu
    · rintro (⟨⟩ | ⟨hu, hrest⟩ | ⟨hu, hrest⟩)
      · exact ⟨_, hu, hrest⟩
      · exact ⟨_, hu, hrest⟩

/-! ## The steps of a segment -/

theorem index?_toDigits (i : Nat) : index? (Nat.toDigits 10 i) = some i := by
  have hdigits : ∀ c ∈ Nat.toDigits 10 i, c.isDigit = true :=
    fun _ hc => Nat.isDigit_of_mem_toDigits (by decide) (by decide) hc
  have htrim : Text.trim (Nat.toDigits 10 i) = Nat.toDigits 10 i := by
    refine Text.trim_of_no_blank fun c hc => ?_
    have hc := Scan.toNat_of_isDigit (hdigits c hc)
    exact (Scan.not_punctuation_of_toNat (.inl hc)).2.2.1
  rw [index?, htrim]
  split
  · next digits h =>
    rw [h] at hdigits
    exact absurd (hdigits '+' (List.mem_cons_self ..)) (by decide)
  · rw [Decimal.readNat?_of_digits Nat.toDigits_ne_nil hdigits, Scan.digitsValue_toDigits]

/-- The indices of a segment. -/
def writeIndices (is : List Nat) : List Char := is.flatMap fun i => (Step.index i).write

theorem indices?_write (is : List Nat) : indices? (writeIndices is) = some is := by
  induction is with
  | nil =>
    unfold indices?
    rfl
  | cons i is ih =>
    have hdigits : ∀ c ∈ Nat.toDigits 10 i, (c != ']') = true := by
      intro c hc
      have hc : c.isDigit = true := Nat.isDigit_of_mem_toDigits (by decide) (by decide) hc
      rw [bne_iff_ne]
      rintro rfl
      exact absurd hc (by decide)
    have hwrite : writeIndices (i :: is) =
        '[' :: (Nat.toDigits 10 i ++ ']' :: writeIndices is) := by
      simp [writeIndices, Step.write]
    have htake : (Nat.toDigits 10 i ++ ']' :: writeIndices is).takeWhile (· != ']') =
        Nat.toDigits 10 i := by
      rw [List.takeWhile_append_of_pos hdigits]
      simp
    have hdrop : (Nat.toDigits 10 i ++ ']' :: writeIndices is).dropWhile (· != ']') =
        ']' :: writeIndices is := by
      rw [List.dropWhile_append_of_pos hdigits]
      simp
    rw [hwrite, indices?, if_pos rfl]
    split
    · next h => simp [hdrop] at h
    · next c rest h =>
      rw [hdrop] at h
      cases h
      rw [htake, index?_toDigits, ih]
      rfl

/-- The key of a segment, if it has one. -/
def keyOf (name : List Char) : List Step := if name.isEmpty then [] else [.key (String.ofList name)]

theorem keyOf_toList {name : String} (h : name.toList ≠ []) : keyOf name.toList = [.key name] := by
  simp [keyOf, h]

/-- A segment has its key, if there is one, and the indices behind it. -/
theorem segment?_write (hname : '[' ∉ name) (hne : name ≠ [] ∨ is ≠ []) :
    segment? (name ++ writeIndices is) = some (keyOf name ++ is.map .index) := by
  have hkey : ∀ c ∈ name, (c != '[') = true := by
    intro c hc
    rw [bne_iff_ne]
    rintro rfl
    exact hname hc
  have hindices : (writeIndices is).takeWhile (· != '[') = [] ∧
      (writeIndices is).dropWhile (· != '[') = writeIndices is := by
    cases is with
    | nil => exact ⟨rfl, rfl⟩
    | cons i is => exact ⟨rfl, rfl⟩
  have hempty : (name.isEmpty && is.isEmpty) = false := by
    rw [Bool.and_eq_false_iff, List.isEmpty_eq_false_iff, List.isEmpty_eq_false_iff]
    exact hne
  rw [segment?, List.takeWhile_append_of_pos hkey, List.dropWhile_append_of_pos hkey, hindices.1,
    hindices.2, indices?_write, List.append_nil]
  simp only [Option.bind_some, hempty, Bool.false_eq_true, ↓reduceIte]
  rfl

/-! ## The steps of a path -/

theorem dot_notMem_writeIndices (is : List Nat) : '.' ∉ writeIndices is := by
  intro h
  obtain ⟨i, -, h⟩ := List.mem_flatMap.1 h
  rcases List.mem_cons.1 h with h | h
  · cases h
  · rcases List.mem_append.1 h with h | h
    · have hdigit := Nat.isDigit_of_mem_toDigits (by decide) (by decide) h
      exact absurd hdigit (by decide)
    · exact absurd h (by decide)

/-- The segments of a path whose first one has a key, or indices, or both, before other steps. -/
theorem mapM_segment?_write (name : List Char) (is : List Nat) (hdot : '.' ∉ name)
    (hbracket : '[' ∉ name) (hne : name ≠ [] ∨ is ≠ [])
    (hsteps : ∀ step ∈ steps, step.Writable) :
    ((Text.splitOn '.' (name ++ writeIndices is ++ steps.flatMap Step.write)).mapM segment?).map
      List.flatten = some (keyOf name ++ is.map .index ++ steps) := by
  induction steps generalizing name is with
  | nil =>
    have hmem : '.' ∉ name ++ writeIndices is := by
      rw [List.mem_append, not_or]
      exact ⟨hdot, dot_notMem_writeIndices is⟩
    rw [List.flatMap_nil, List.append_nil, List.append_nil, Text.splitOn_of_not_mem hmem,
      List.mapM_cons, segment?_write hbracket hne]
    simp
  | cons step steps ih =>
    have hrest : ∀ step ∈ steps, step.Writable :=
      fun step h => hsteps step (List.mem_cons_of_mem _ h)
    cases step with
    | key next =>
      -- the segment ends here, and the next one starts with the key
      obtain ⟨hnonempty, hdot', hbracket'⟩ := hsteps _ (List.mem_cons_self ..)
      have hmem : '.' ∉ name ++ writeIndices is := by
        rw [List.mem_append, not_or]
        exact ⟨hdot, dot_notMem_writeIndices is⟩
      have htext : name ++ writeIndices is ++ (Step.key next :: steps).flatMap Step.write =
          (name ++ writeIndices is) ++
            '.' :: (next.toList ++ writeIndices [] ++ steps.flatMap Step.write) := by
        simp [Step.write, writeIndices]
      obtain ⟨segments, hsegments, hflatten⟩ :=
        Option.map_eq_some_iff.1 (ih next.toList [] hdot' hbracket' (.inl hnonempty) hrest)
      rw [htext, Text.splitOn_append_mark hmem, List.mapM_cons, segment?_write hbracket hne,
        hsegments]
      simp [hflatten, keyOf_toList hnonempty]
    | index i =>
      have htext : name ++ writeIndices is ++ (Step.index i :: steps).flatMap Step.write =
          name ++ writeIndices (is ++ [i]) ++ steps.flatMap Step.write := by
        simp [writeIndices]
      rw [htext, ih name (is ++ [i]) hdot hbracket (.inr (by simp)) hrest]
      simp

theorem mapM_segment?_splitOn_write (hne : steps ≠ []) (hsteps : ∀ step ∈ steps, step.Writable) :
    ((Text.splitOn '.' (write steps)).mapM segment?).map List.flatten = some steps := by
  cases steps with
  | nil => exact absurd rfl hne
  | cons step steps =>
    have hrest : ∀ step ∈ steps, step.Writable :=
      fun step h => hsteps step (List.mem_cons_of_mem _ h)
    cases step with
    | key name =>
      obtain ⟨hnonempty, hdot, hbracket⟩ := hsteps _ (List.mem_cons_self ..)
      have h := mapM_segment?_write name.toList [] hdot hbracket (.inl hnonempty) hrest
      simpa [write, writeIndices, keyOf_toList hnonempty] using h
    | index i =>
      have h := mapM_segment?_write [] [i] List.not_mem_nil List.not_mem_nil (.inr (by simp)) hrest
      simpa [write, writeIndices, keyOf] using h

theorem dropMark_of_head? {mark : Char} {cs : List Char} (h : ∀ c ∈ cs.head?, c ≠ mark) :
    dropMark mark cs = cs := by
  cases cs with
  | nil => rfl
  | cons c cs => exact if_neg (h c rfl)

/-- A path starts with a bracket or with its first key. -/
theorem head?_write (hsteps : ∀ step ∈ steps, step.Writable) {c : Char}
    (h : c ∈ (write steps).head?) :
    c = '[' ∨ c ≠ '.' ∧ ∃ name, steps.head? = some (.key name) ∧ c ∈ name.toList.head? := by
  cases steps with
  | nil => cases h
  | cons step steps =>
    cases step with
    | key name =>
      obtain ⟨hnonempty, hdot, -⟩ := hsteps _ (List.mem_cons_self ..)
      have hc : c ∈ name.toList.head? := by
        obtain ⟨d, ds, hname⟩ := List.exists_cons_of_ne_nil hnonempty
        rw [write, hname] at h
        rw [hname]
        exact h
      refine .inr ⟨?_, name, rfl, hc⟩
      rintro rfl
      exact hdot (List.mem_of_mem_head? hc)
    | index i =>
      cases h
      exact .inl rfl

/-- The steps of a path are those that were written, with a dollar sign and a dot before them, and
without if the first of them is not a key that starts with a dollar sign. -/
theorem steps?_write (hne : steps ≠ []) (hsteps : ∀ step ∈ steps, step.Writable) :
    steps? ('$' :: '.' :: write steps) = some steps ∧
      ((∀ name, steps.head? = some (.key name) → name.toList.head? ≠ some '$') →
        steps? (write steps) = some steps) := by
  refine ⟨mapM_segment?_splitOn_write hne hsteps, fun hfirst => ?_⟩
  have hdollar : dropMark '$' (write steps) = write steps := by
    refine dropMark_of_head? fun c hc => ?_
    rintro rfl
    rcases head?_write hsteps hc with h | ⟨-, name, hname, hc⟩
    · cases h
    · exact hfirst name hname hc
  have hdot : dropMark '.' (write steps) = write steps := by
    refine dropMark_of_head? fun c hc => ?_
    rintro rfl
    rcases head?_write hsteps hc with h | ⟨h, -⟩
    · cases h
    · exact h rfl
  rw [steps?, hdollar, hdot]
  exact mapM_segment?_splitOn_write hne hsteps

/-- **Looking a path up is following its steps.** A path is written from one or more steps, a key
behind a dot unless it is the first step, and an index in brackets. With a dollar sign and a dot
before it, and also without if it does not start with a key that starts with a dollar sign, the path
leads to where the steps lead one by one, a key in a map and an index in a list, and to nowhere if
one of them leads nowhere. -/
theorem lookup_write (root : Value) (steps : List Step) (hne : steps ≠ [])
    (hsteps : ∀ step ∈ steps, step.Writable) :
    lookup root ("$." ++ String.ofList (write steps)) = follow? steps root ∧
      ((∀ name, steps.head? = some (.key name) → name.toList.head? ≠ some '$') →
        lookup root (String.ofList (write steps)) = follow? steps root) ∧
      ∀ v, follow? steps root = some v ↔ Leads steps root v := by
  obtain ⟨hmarked, hbare⟩ := steps?_write hne hsteps
  refine ⟨?_, fun hfirst => ?_, fun v => follow?_eq_some_iff⟩
  · have htext : ("$." ++ String.ofList (write steps)).toList = '$' :: '.' :: write steps := by simp
    rw [lookup, htext, hmarked]
    rfl
  · rw [lookup, String.toList_ofList, hbare hfirst]
    rfl

/-- Two users, the second of them with names and a number. -/
def users : Value :=
  .map [("users", .list [.null,
    .map [("first]name", .list [.text "a", .text "b"]), ("$id", .integer 7)]])]

/-- A key with a bracket and an index, and a key with a dollar sign. -/
theorem lookup_write_users :
    lookup users "$.users[1].first]name[0]" = some (.text "a") ∧
      lookup users "users[1].$id" = some (.integer 7) := by
  have hname := (lookup_write users [.key "users", .index 1, .key "first]name", .index 0] (by simp)
    (by simp [Step.Writable])).1
  have hid := (lookup_write users [.key "users", .index 1, .key "$id"] (by simp)
    (by simp [Step.Writable])).2.1 (by simp)
  exact ⟨hname, hid⟩

end Path

end Splice
