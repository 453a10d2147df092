import Splice.Proofs.Days
import Splice.Proofs.Numerals
import Splice.Proofs.Paths
import Splice.Proofs.Rendering

/-!
# `Splice.Proofs.Timestamps` — timestamps and the instants that they name

A timestamp in the format of RFC 3339 names an instant. The reader finds this instant, and an
instant that is written as a timestamp is found again.

## Contents
- `InDigits`, `Fraction`, `Zone`, `Timestamp`: the format, part by part, and what it stands for.
- `digits?_append`, `skipFraction?_append`, `offset?_eq_some`: the parts are read one by one.
- `ofTimestamp?_eq_some`: every timestamp is read as the instant that it names.
- `inDigits_padded`, `renderChars_timestampPattern`, `timestamp_render`: an instant of the years 0
  to 9999 is written as a timestamp that names it.
- `formatTimestamp_render`: what comes back from a timestamp is the instant that was written.
-/

namespace Splice

namespace Text

variable {cs : List Char}

/-- A text with a character that is no blank is not blank. -/
theorem trim_ne_nil (h : ∃ c ∈ cs, isBlank c = false) : trim cs ≠ [] := by
  obtain ⟨c, hc, hblank⟩ := h
  intro hnil
  unfold trim trimEnd at hnil
  rw [List.reverse_eq_nil_iff] at hnil
  unfold trimStart at hnil
  rw [List.dropWhile_eq_nil_iff] at hnil
  have hmem : c ∈ cs.takeWhile isBlank ++ cs.dropWhile isBlank := by
    rw [List.takeWhile_append_dropWhile]
    exact hc
  rcases List.mem_append.1 hmem with htake | hdrop
  · rw [List.mem_takeWhile_imp htake] at hblank
    cases hblank
  · rw [hnil c (List.mem_reverse.2 hdrop)] at hblank
    cases hblank

end Text

namespace Calendar

open Scan (digitsValue)

variable {count n : Nat} {c : Char} {cs ds rest text fraction zone : List Char} {ahead : Int}
  {t : Instant}

/-! ## The format -/

/-- The text consists of exactly `count` digits, which write the number `n`. -/
structure InDigits (count n : Nat) (text : List Char) : Prop where
  length : text.length = count
  isDigit : ∀ c ∈ text, c.isDigit = true
  value : digitsValue text = n

/-- A fraction of a second, which may be left out: a point and digits, at least one. -/
inductive Fraction : (text : List Char) → Prop
  | none : Fraction []
  | digits {ds : List Char} (hne : ds ≠ []) (h : ∀ c ∈ ds, c.isDigit = true) : Fraction ('.' :: ds)

/-- The distance from universal time, and by how many minutes a clock there is ahead of it. -/
inductive Zone : (text : List Char) → (ahead : Int) → Prop
  | universal : Zone ['Z'] 0
  | ahead {hours minutes : Nat} {hs ms : List Char} (hhours : InDigits 2 hours hs)
      (hminutes : InDigits 2 minutes ms) (hours_le : hours ≤ 23) (minutes_le : minutes ≤ 59) :
      Zone ('+' :: (hs ++ ':' :: ms)) (60 * hours + minutes)
  | behind {hours minutes : Nat} {hs ms : List Char} (hhours : InDigits 2 hours hs)
      (hminutes : InDigits 2 minutes ms) (hours_le : hours ≤ 23) (minutes_le : minutes ≤ 59) :
      Zone ('-' :: (hs ++ ':' :: ms)) (-(60 * hours + minutes))

/-- The text is a timestamp in the format of RFC 3339, and the instant is the one that it names, but
for the fraction of a second. The date is one of the calendar, and a leap second counts as the
second before it. -/
inductive Timestamp : (text : List Char) → (t : Instant) → Prop
  | parts {year month day hour minute second : Nat}
      {years months days hours minutes seconds fraction zone : List Char} {ahead : Int}
      (hyear : InDigits 4 year years) (hmonth : InDigits 2 month months)
      (hday : InDigits 2 day days) (hdate : Date.IsValid ⟨year, month, day⟩)
      (hhour : InDigits 2 hour hours) (hour_le : hour ≤ 23)
      (hminute : InDigits 2 minute minutes) (minute_le : minute ≤ 59)
      (hsecond : InDigits 2 second seconds) (second_le : second ≤ 60)
      (hfraction : Fraction fraction) (hzone : Zone zone ahead) :
      Timestamp
        (years ++ '-' :: (months ++ '-' :: (days ++ 'T' :: (hours ++ ':' :: (minutes ++ ':' ::
          (seconds ++ (fraction ++ zone)))))))
        ⟨(Instant.ofParts ⟨year, month, day⟩ hour minute (min second 59)).seconds - 60 * ahead⟩

/-! ## Reading -/

theorem digitsFrom?_append (h : ∀ c ∈ ds, c.isDigit = true) :
    digitsFrom? n ds.length (ds ++ rest) =
      some (ds.foldl (fun n d => 10 * n + (d.toNat - 48)) n, rest) := by
  induction ds generalizing n with
  | nil => rfl
  | cons c ds ih =>
    rw [List.length_cons, List.cons_append, digitsFrom?, if_pos (h c (List.mem_cons_self ..)),
      ih fun d hd => h d (List.mem_cons_of_mem _ hd)]
    rfl

/-- A number of so many digits is read off the front of a text. -/
theorem digits?_append (h : InDigits count n ds) (rest : List Char) :
    digits? count (ds ++ rest) = some (n, rest) := by
  obtain ⟨rfl, hdigits, rfl⟩ := h
  exact digitsFrom?_append hdigits

theorem mark?_of_mem {marks : List Char} (h : c ∈ marks) : mark? marks (c :: cs) = some cs :=
  if_pos h

theorem Zone.head (h : Zone zone ahead) :
    ∃ c cs, zone = c :: cs ∧ c.isDigit = false ∧ c ≠ '.' := by
  cases h with
  | universal => exact ⟨_, _, rfl, by decide, by decide⟩
  | ahead => exact ⟨_, _, rfl, by decide, by decide⟩
  | behind => exact ⟨_, _, rfl, by decide, by decide⟩

/-- A fraction is skipped in front of the distance from universal time. -/
theorem skipFraction?_append (h : Fraction fraction) (hzone : Zone zone ahead) :
    skipFraction? (fraction ++ zone) = some zone := by
  obtain ⟨c, cs, rfl, hdigit, hpoint⟩ := hzone.head
  cases h with
  | none => simp [skipFraction?, hpoint]
  | @digits ds hne hds =>
    have hstop : ∀ d ∈ (c :: cs).head?, d.isDigit = false := by
      rintro d ⟨⟩
      exact hdigit
    obtain ⟨d, ds, rfl⟩ := List.exists_cons_of_ne_nil hne
    have hd : d.isDigit = true := hds d (List.mem_cons_self ..)
    have hdrop := (span_append hds hstop).2
    rw [List.cons_append, skipFraction?]
    simp only [List.cons_append, List.head?_cons, Option.any_some, hd, if_true]
    rw [← List.cons_append, hdrop]

/-- The distance from universal time is read at the end of a text. -/
theorem offset?_eq_some (h : Zone zone ahead) : offset? zone = some (ahead, []) := by
  cases h with
  | universal => rfl
  | ahead hhours hminutes hours_le minutes_le =>
    have hread := digits?_append hminutes []
    rw [List.append_nil] at hread
    simp [offset?, digits?_append hhours, mark?, hread, hours_le, minutes_le]
  | behind hhours hminutes hours_le minutes_le =>
    have hread := digits?_append hminutes []
    rw [List.append_nil] at hread
    simp [offset?, digits?_append hhours, mark?, hread, hours_le, minutes_le]

/-- **Every timestamp is read as the instant that it names.** -/
theorem ofTimestamp?_eq_some (h : Timestamp text t) : Instant.ofTimestamp? text = some t := by
  cases h with
  | parts hyear hmonth hday hdate hhour hour_le hminute minute_le hsecond second_le hfraction
      hzone =>
    -- every part is read with what stands behind it as the rest of the text
    refine Option.bind_eq_some_iff.2 ⟨_, digits?_append hyear _, ?_⟩
    refine Option.bind_eq_some_iff.2 ⟨_, mark?_of_mem (List.mem_cons_self ..), ?_⟩
    refine Option.bind_eq_some_iff.2 ⟨_, digits?_append hmonth _, ?_⟩
    refine Option.bind_eq_some_iff.2 ⟨_, mark?_of_mem (List.mem_cons_self ..), ?_⟩
    refine Option.bind_eq_some_iff.2 ⟨_, digits?_append hday _, ?_⟩
    refine Option.bind_eq_some_iff.2 ⟨_, mark?_of_mem (List.mem_cons_self ..), ?_⟩
    refine Option.bind_eq_some_iff.2 ⟨_, digits?_append hhour _, ?_⟩
    refine Option.bind_eq_some_iff.2 ⟨_, mark?_of_mem (List.mem_cons_self ..), ?_⟩
    refine Option.bind_eq_some_iff.2 ⟨_, digits?_append hminute _, ?_⟩
    refine Option.bind_eq_some_iff.2 ⟨_, mark?_of_mem (List.mem_cons_self ..), ?_⟩
    refine Option.bind_eq_some_iff.2 ⟨_, digits?_append hsecond _, ?_⟩
    refine Option.bind_eq_some_iff.2 ⟨_, skipFraction?_append hfraction hzone, ?_⟩
    refine Option.bind_eq_some_iff.2 ⟨_, offset?_eq_some hzone, ?_⟩
    exact if_pos ⟨hdate, hour_le, minute_le, second_le, rfl⟩

/-! ## Writing -/

/-- A number that has at most so many digits is written with exactly so many. -/
theorem inDigits_padded (hcount : 0 < count) (h : n < 10 ^ count) :
    InDigits count n (padded count n) where
  length := by
    have hle : (Nat.toDigits 10 n).length ≤ count :=
      (Nat.length_toDigits_le_iff (by decide) hcount).2 h
    simp only [padded, List.length_append, List.length_replicate]
    omega
  isDigit := by
    intro c hc
    rcases List.mem_append.1 hc with hc | hc
    · rw [List.eq_of_mem_replicate hc]
      decide
    · exact Nat.isDigit_of_mem_toDigits (by decide) (by decide) hc
  value := by
    have hzeros : ∀ k, (List.replicate k '0').foldl (fun n d => 10 * n + (d.toNat - 48)) 0 = 0 := by
      intro k
      induction k with
      | zero => rfl
      | succ k ih => exact ih
    unfold padded digitsValue
    rw [List.foldl_append, hzeros]
    exact Scan.digitsValue_toDigits n

/-- The pattern of timestamps. -/
def timestampPattern : String := "YYYY-MM-DDTHH:mm:ssZ"

theorem renderChars_timestampPattern (t : Instant) :
    renderChars t timestampPattern.toList =
      yearText t.date.year ++ '-' :: (padded 2 t.date.month ++ '-' :: (padded 2 t.date.day ++ 'T' ::
        (padded 2 t.hour ++ ':' :: (padded 2 t.minute ++ ':' ::
          (padded 2 t.second ++ ([] ++ ['Z'])))))) := by
  refine (renderChars_of_field rfl rfl).trans (congrArg (yearText t.date.year ++ ·) ?_)
  refine (renderChars_of_none rfl rfl).trans (congrArg ('-' :: ·) ?_)
  refine (renderChars_of_field rfl rfl).trans (congrArg (padded 2 t.date.month ++ ·) ?_)
  refine (renderChars_of_none rfl rfl).trans (congrArg ('-' :: ·) ?_)
  refine (renderChars_of_field rfl rfl).trans (congrArg (padded 2 t.date.day ++ ·) ?_)
  refine (renderChars_of_none rfl rfl).trans (congrArg ('T' :: ·) ?_)
  refine (renderChars_of_field rfl rfl).trans (congrArg (padded 2 t.hour ++ ·) ?_)
  refine (renderChars_of_none rfl rfl).trans (congrArg (':' :: ·) ?_)
  refine (renderChars_of_field rfl rfl).trans (congrArg (padded 2 t.minute ++ ·) ?_)
  refine (renderChars_of_none rfl rfl).trans (congrArg (':' :: ·) ?_)
  refine (renderChars_of_field rfl rfl).trans (congrArg (padded 2 t.second ++ ·) ?_)
  refine (renderChars_of_none rfl rfl).trans (congrArg ('Z' :: ·) ?_)
  exact renderChars.eq_1 t

/-- An instant of the years 0 to 9999 is written as a timestamp that names it. -/
theorem timestamp_render (hfirst : 0 ≤ t.date.year) (hlast : t.date.year ≤ 9999) :
    Timestamp (render t timestampPattern).toList t := by
  have hvalid : t.date.IsValid := Date.isValid_ofDays t.days
  have hyear : (t.date.year.natAbs : Int) = t.date.year := Int.natAbs_of_nonneg hfirst
  have hdate : (⟨t.date.year.natAbs, t.date.month, t.date.day⟩ : Date) = t.date := by
    rw [hyear]
  have hmonth_lt : t.date.month < 10 ^ 2 := Nat.lt_of_le_of_lt hvalid.2.1 (by decide)
  have hday_lt : t.date.day < 10 ^ 2 := by
    refine Nat.lt_of_le_of_lt hvalid.2.2.2 ?_
    unfold Date.daysInMonth
    split
    · split <;> decide
    · split <;> decide
  have hhour := t.hour_le
  have hminute := t.minute_le
  have hsecond := t.second_le
  have hyearText : yearText t.date.year = padded 4 t.date.year.natAbs := if_neg (by omega)
  have hinstant : (⟨(Instant.ofParts ⟨t.date.year.natAbs, t.date.month, t.date.day⟩ t.hour t.minute
      (min t.second 59)).seconds - 60 * 0⟩ : Instant) = t := by
    rw [hdate, Nat.min_eq_left hsecond, Int.mul_zero, Int.sub_zero, Instant.ofParts_date]
  have hyear_lt : t.date.year.natAbs < 10 ^ 4 := by omega
  have hstamp := Timestamp.parts (inDigits_padded (by decide) hyear_lt)
    (inDigits_padded (by decide) hmonth_lt) (inDigits_padded (by decide) hday_lt) (hdate ▸ hvalid)
    (inDigits_padded (by decide) (by omega : t.hour < 10 ^ 2)) hhour
    (inDigits_padded (by decide) (by omega : t.minute < 10 ^ 2)) hminute
    (inDigits_padded (by decide) (by omega : t.second < 10 ^ 2)) (Nat.le_succ_of_le hsecond)
    Fraction.none Zone.universal
  rw [hinstant] at hstamp
  rw [render, String.toList_ofList, renderChars_timestampPattern, hyearText]
  exact hstamp

/-! ## There and back -/

theorem isBlank_of_isDigit (h : c.isDigit = true) : Text.isBlank c = false :=
  Scan.isBlank_of_continuesWord (by simp [Scan.continuesWord, Char.isAlphanum, h])

theorem InDigits.isBlank_eq_false (h : InDigits count n ds) :
    ∀ c ∈ ds, Text.isBlank c = false :=
  fun c hc => isBlank_of_isDigit (h.isDigit c hc)

theorem Fraction.isBlank_eq_false (h : Fraction fraction) :
    ∀ c ∈ fraction, Text.isBlank c = false := by
  cases h with
  | none => exact List.forall_mem_nil _
  | digits hne h =>
    exact List.forall_mem_cons.2 ⟨by decide, fun c hc => isBlank_of_isDigit (h c hc)⟩

theorem Zone.isBlank_eq_false (h : Zone zone ahead) : ∀ c ∈ zone, Text.isBlank c = false := by
  cases h with
  | universal => exact List.forall_mem_singleton.2 (by decide)
  | ahead hhours hminutes | behind hhours hminutes =>
    simp only [List.forall_mem_append, List.forall_mem_cons]
    exact ⟨by decide, hhours.isBlank_eq_false, by decide, hminutes.isBlank_eq_false⟩

/-- There are no blanks in a timestamp. -/
theorem Timestamp.isBlank_eq_false (h : Timestamp text t) :
    ∀ c ∈ text, Text.isBlank c = false := by
  cases h with
  | parts hyear hmonth hday hdate hhour hour_le hminute minute_le hsecond second_le hfraction
      hzone =>
    simp only [List.forall_mem_append, List.forall_mem_cons]
    exact ⟨hyear.isBlank_eq_false, by decide, hmonth.isBlank_eq_false, by decide,
      hday.isBlank_eq_false, by decide, hhour.isBlank_eq_false, by decide,
      hminute.isBlank_eq_false, by decide, hsecond.isBlank_eq_false,
      hfraction.isBlank_eq_false, hzone.isBlank_eq_false⟩

/-- **Instants come back from the timestamps that they are written as.** Every instant of the years
0 to 9999, written after the pattern of timestamps, is a timestamp that names it; and whatever is
asked of this timestamp by another pattern is what is asked of the instant. -/
theorem formatTimestamp_render (hfirst : 0 ≤ t.date.year) (hlast : t.date.year ≤ 9999)
    {pattern : String} (hpattern : ∃ c ∈ pattern.toList, Text.isBlank c = false) :
    let timestamp := render t "YYYY-MM-DDTHH:mm:ssZ"
    Timestamp timestamp.toList t ∧
      formatTimestamp timestamp pattern = some (render t pattern) := by
  intro timestamp
  have hstamp : Timestamp timestamp.toList t := timestamp_render hfirst hlast
  have hread : Instant.ofTimestamp? timestamp.toList = some t := ofTimestamp?_eq_some hstamp
  have htrim : Text.trim timestamp.toList = timestamp.toList :=
    Text.trim_of_no_blank hstamp.isBlank_eq_false
  have hne : timestamp.toList ≠ [] := by
    intro hnil
    rw [hnil] at hread
    cases hread
  refine ⟨hstamp, ?_⟩
  unfold formatTimestamp
  rw [htrim, hread]
  simp [hne, Text.trim_ne_nil hpattern]

/-- The last second of a leap day. -/
theorem formatTimestamp_render_leapDay :
    let t : Instant := ⟨951868799⟩
    0 ≤ t.date.year ∧ t.date.year ≤ 9999 ∧ (∃ c ∈ " Do".toList, Text.isBlank c = false) ∧
      Timestamp "2000-02-29T23:59:59Z".toList t ∧
      formatTimestamp "2000-02-29T23:59:59Z" " Do" = some " 29th" := by
  intro t
  have hfirst : 0 ≤ t.date.year := by decide
  have hlast : t.date.year ≤ 9999 := by decide
  have hpattern : ∃ c ∈ " Do".toList, Text.isBlank c = false := ⟨'D', by decide, by decide⟩
  have htimestamp : render t "YYYY-MM-DDTHH:mm:ssZ" = "2000-02-29T23:59:59Z" := by decide +kernel
  have hday : render t " Do" = " 29th" := by decide +kernel
  obtain ⟨hstamp, hformat⟩ := formatTimestamp_render hfirst hlast hpattern
  rw [htimestamp] at hstamp hformat
  rw [hday] at hformat
  exact ⟨hfirst, hlast, hpattern, hstamp, hformat⟩

end Calendar

end Splice
