import Splice.Calendar.Timestamp
import Splice.Text.Blank

/-!
# `Splice.Calendar.Pattern` — instants written after a pattern

A pattern is text in which certain letters stand for parts of an instant. Text in brackets stands
for itself.

## Contents
- `fields`: the letters and the parts that they stand for. No entry comes behind one that its
  letters start with, so that the first that fits is the longest.
- `renderChars`, `render`: an instant after a pattern.
- `formatTimestamp`: the instant of a timestamp after a pattern.
-/

namespace Splice.Calendar

/-- The names of the months. -/
def monthNames : List String :=
  ["January", "February", "March", "April", "May", "June", "July", "August", "September",
    "October", "November", "December"]

/-- The names of the days of the week, from Sunday. -/
def dayNames : List String :=
  ["Sunday", "Monday", "Tuesday", "Wednesday", "Thursday", "Friday", "Saturday"]

/-- The name of a month, counted from 1. -/
def monthName (month : Nat) : List Char := (monthNames.getD (month - 1) "").toList

/-- The name of a day of the week. -/
def dayName (weekday : Nat) : List Char := (dayNames.getD weekday "").toList

/-- `n` with zeros before it, up to `width` characters. -/
def padded (width n : Nat) : List Char :=
  let digits := Nat.toDigits 10 n
  List.replicate (width - digits.length) '0' ++ digits

/-- A year of four characters or more; a minus sign is one of them. -/
def yearText (year : Int) : List Char :=
  if year < 0 then '-' :: padded 3 year.natAbs else padded 4 year.natAbs

/-- A part of an instant and the letters that stand for it. -/
structure Field where
  letters : List Char
  write : Instant → List Char

/-- The letters and the parts that they stand for. -/
def fields : List Field :=
  [{ letters := ['D', 'o']
     write := fun t => padded 1 t.date.day ++ (ordinalSuffix t.date.day).toList },
    { letters := ['Y', 'Y', 'Y', 'Y'], write := fun t => yearText t.date.year },
    { letters := ['Y', 'Y'], write := fun t => padded 2 (t.date.year % 100).toNat },
    { letters := ['M', 'M', 'M', 'M'], write := fun t => monthName t.date.month },
    { letters := ['M', 'M', 'M'], write := fun t => (monthName t.date.month).take 3 },
    { letters := ['M', 'M'], write := fun t => padded 2 t.date.month },
    { letters := ['M'], write := fun t => padded 1 t.date.month },
    { letters := ['D', 'D'], write := fun t => padded 2 t.date.day },
    { letters := ['D'], write := fun t => padded 1 t.date.day },
    { letters := ['d', 'd', 'd', 'd'], write := fun t => dayName t.weekday },
    { letters := ['d', 'd', 'd'], write := fun t => (dayName t.weekday).take 3 },
    { letters := ['H', 'H'], write := fun t => padded 2 t.hour },
    { letters := ['H'], write := fun t => padded 1 t.hour },
    { letters := ['h', 'h'], write := fun t => padded 2 t.hour12 },
    { letters := ['h'], write := fun t => padded 1 t.hour12 },
    { letters := ['m', 'm'], write := fun t => padded 2 t.minute },
    { letters := ['m'], write := fun t => padded 1 t.minute },
    { letters := ['s', 's'], write := fun t => padded 2 t.second },
    { letters := ['s'], write := fun t => padded 1 t.second },
    { letters := ['A'], write := fun t => if t.isAfternoon then ['P', 'M'] else ['A', 'M'] },
    { letters := ['a'], write := fun t => if t.isAfternoon then ['p', 'm'] else ['a', 'm'] }]

/-- The field whose letters start a pattern. -/
def field? (pattern : List Char) : Option Field :=
  fields.find? fun field => field.letters.isPrefixOf pattern

/-- The text in brackets that starts a pattern, and the rest of the pattern. -/
def bracketed? : List Char → Option (List Char × List Char)
  | '[' :: cs =>
    match cs.dropWhile (· != ']') with
    | [] => none
    | _ :: rest => some (cs.takeWhile (· != ']'), rest)
  | _ => none

theorem bracketed?_length {cs text rest : List Char} (h : bracketed? cs = some (text, rest)) :
    rest.length < cs.length := by
  unfold bracketed? at h
  split at h
  · next tail =>
    split at h
    · exact absurd h (by simp)
    · next c after hdrop =>
      simp only [Option.some.injEq, Prod.mk.injEq] at h
      have hle := (List.dropWhile_suffix (l := tail) (· != ']')).length_le
      rw [hdrop, h.2] at hle
      simp only [List.length_cons] at hle ⊢
      omega
  · exact absurd h (by simp)

/-- No field is without letters. -/
theorem length_pos_of_mem_fields {field : Field} (h : field ∈ fields) :
    0 < field.letters.length := by
  revert field
  simp [fields]

/-- The instant after a pattern, read from left to right. -/
def renderChars (t : Instant) (pattern : List Char) : List Char :=
  match pattern with
  | [] => []
  | c :: cs =>
    match _h : bracketed? (c :: cs) with
    | some (text, rest) => text ++ renderChars t rest
    | none =>
      match _h : field? (c :: cs) with
      | some field => field.write t ++ renderChars t ((c :: cs).drop field.letters.length)
      | none => c :: renderChars t cs
termination_by pattern.length
decreasing_by
  · exact bracketed?_length _h
  · have := length_pos_of_mem_fields (List.mem_of_find?_eq_some _h)
    simp only [List.length_drop, List.length_cons]
    omega
  · simp

/-- The instant after a pattern. -/
def render (t : Instant) (pattern : String) : String :=
  String.ofList (renderChars t pattern.toList)

/-- The instant of a timestamp after a pattern; absent if either text is blank, or if there is no
such instant. -/
def formatTimestamp (timestamp pattern : String) : Option String :=
  if (Text.trim timestamp.toList).isEmpty || (Text.trim pattern.toList).isEmpty then none
  else (Instant.ofTimestamp? (Text.trim timestamp.toList)).map fun t => render t pattern

end Splice.Calendar
