import Mathlib.Tactic.IntervalCases
import Splice.Calendar.Date

/-!
# `Splice.Proofs.Days` — dates and day numbers

A date is read off the number of its day. The days of an era are counted by centuries, by cycles of
four years, by years and by days of the year; each of these but the last century, the last cycle of
a century and the last year of a cycle has the same length. From these parts the date is made, and
from the date they are found again.

## Contents
- `EraDay`: a day of an era by its parts; `EraDay.exists_number_eq` says that every day has them.
- `EraDay.yearOfEra_eq`, `EraDay.dayOfYear_eq`: its year and its day of the year are computed from
  its number.
- `ofDays_eq`: the date of a day by its parts.
- `toDays_ofDays`, `isValid_ofDays`: the date of a day is in the calendar and has the day's number.
- `Instant.ofParts_date`: an instant is that of its date and its time of day.
-/

namespace Splice.Calendar

namespace Date

/-! ## Days of an era -/

/-- The day of the year on which a month begins, both counted from March as 0. -/
def monthStart (month : Int) : Int := (153 * month + 2) / 5

/-- A day of an era of 400 years that begin in March: its century, its cycle of four years in the
century, its year in the cycle and its day in the year, all counted from 0. A leap day is the last
day of a cycle, and only the last century has one at its end. -/
structure EraDay where
  century : Int
  cycle : Int
  year : Int
  day : Int
  century_mem : 0 ≤ century ∧ century ≤ 3
  cycle_mem : 0 ≤ cycle ∧ cycle ≤ 24
  year_mem : 0 ≤ year ∧ year ≤ 3
  day_mem : 0 ≤ day ∧ day ≤ 365
  leap : day = 365 → year = 3 ∧ (cycle = 24 → century = 3)

namespace EraDay

/-- The number of a day, counted from the start of its era. -/
def number (p : EraDay) : Int := 36524 * p.century + 1461 * p.cycle + 365 * p.year + p.day

/-- The year of a day, counted from the start of its era. -/
def yearOfEra (p : EraDay) : Int := 100 * p.century + 4 * p.cycle + p.year

/-- The month of a day, counted from March as 0. -/
def month (p : EraDay) : Int := (5 * p.day + 2) / 153

theorem number_mem (p : EraDay) : 0 ≤ p.number ∧ p.number < daysPerEra := by
  obtain ⟨c, q, y, d, hc, hq, hy, hd, hleap⟩ := p
  unfold number daysPerEra
  dsimp only
  omega

theorem yearOfEra_mem (p : EraDay) : 0 ≤ p.yearOfEra ∧ p.yearOfEra < 400 := by
  obtain ⟨c, q, y, d, hc, hq, hy, hd, hleap⟩ := p
  unfold yearOfEra
  dsimp only
  omega

theorem month_mem (p : EraDay) : 0 ≤ p.month ∧ p.month ≤ 11 := by
  have hday := p.day_mem
  unfold month
  omega

/-- A day lies between the start of its month and that of the next. -/
theorem day_mem_month (p : EraDay) :
    monthStart p.month ≤ p.day ∧ p.day < monthStart (p.month + 1) := by
  unfold monthStart month
  omega

/-- Every day of an era has a number, and every number is that of a day. -/
theorem exists_number_eq {n : Int} (hlow : 0 ≤ n) (hhigh : n < daysPerEra) :
    ∃ p : EraDay, p.number = n := by
  let century := min (n / 36524) 3
  let inCentury := n - 36524 * century
  let inCycle := inCentury % 1461
  let year := min (inCycle / 365) 3
  unfold daysPerEra at hhigh
  have hcentury : 0 ≤ century ∧ century ≤ 3 := by omega
  have hinCentury : 0 ≤ inCentury ∧ inCentury ≤ 36524 ∧ (inCentury = 36524 → century = 3) := by
    omega
  have hinCycle : 0 ≤ inCycle ∧ inCycle ≤ 1460 := by omega
  refine ⟨⟨century, inCentury / 1461, year, inCycle - 365 * year, hcentury, ?_, ?_, ?_, ?_⟩, ?_⟩
  · omega
  · omega
  · omega
  · omega
  · unfold number
    dsimp only
    omega

/-- The leap days in front of a day are taken off its number, so that all years have one length. -/
theorem yearOfEra_eq (p : EraDay) :
    (p.number - p.number / 1460 + p.number / 36524 - p.number / 146096) / 365 = p.yearOfEra := by
  obtain ⟨c, q, y, d, hc, hq, hy, hd, hleap⟩ := p
  unfold number yearOfEra
  let n := 36524 * c + 1461 * q + 365 * y + d
  have hcentury : n / 36524 - n / 146096 = c := by
    -- only the last day of the era has the number of another century
    by_cases hlast : 1461 * q + 365 * y + d = 36524
    · obtain rfl : c = 3 := by omega
      omega
    · have hlow : 36524 * c ≤ n := by omega
      have hhigh : n < 36524 * c + 36524 := by omega
      omega
  have hcycle : n / 1460 = 25 * c + q + (24 * c + q + 365 * y + d) / 1460 := by omega
  have hrest : 0 ≤ d - (24 * c + q + 365 * y + d) / 1460 ∧
      d - (24 * c + q + 365 * y + d) / 1460 < 365 := by omega
  show (n - n / 1460 + n / 36524 - n / 146096) / 365 = 100 * c + 4 * q + y
  omega

theorem dayOfYear_eq (p : EraDay) :
    p.number - (365 * p.yearOfEra + p.yearOfEra / 4 - p.yearOfEra / 100) = p.day := by
  obtain ⟨c, q, y, d, hc, hq, hy, hd, hleap⟩ := p
  unfold number yearOfEra
  dsimp only
  omega

end EraDay

/-! ## The date of a day -/

/-- The date of a day of some era. -/
theorem ofDays_eq (era : Int) (p : EraDay) :
    ofDays (eraStart + daysPerEra * era + p.number) =
      { year := p.yearOfEra + 400 * era + if p.month < 10 then 0 else 1
        month := (if p.month < 10 then p.month + 3 else p.month - 9).toNat
        day := (p.day - monthStart p.month + 1).toNat } := by
  obtain ⟨hlow, hhigh⟩ := p.number_mem
  have hshift : eraStart + daysPerEra * era + p.number - eraStart =
      p.number + daysPerEra * era := by omega
  have hne : daysPerEra ≠ 0 := by decide
  have hera : (p.number + daysPerEra * era) / daysPerEra = era := by
    rw [Int.add_mul_ediv_left _ _ hne, Int.ediv_eq_zero_of_lt hlow hhigh, Int.zero_add]
  have hday : (p.number + daysPerEra * era) % daysPerEra = p.number := by
    rw [Int.add_mul_emod_self_left, Int.emod_eq_of_lt hlow hhigh]
  unfold ofDays
  simp only [hshift, hera, hday, p.yearOfEra_eq, p.dayOfYear_eq]
  rfl

/-- The year that a day of the last month of an era's year belongs to has a leap day if the day is
one. -/
theorem EraDay.isLeap_of_day (p : EraDay) (era : Int) (h : p.day = 365) :
    isLeap (p.yearOfEra + 400 * era + 1) = true := by
  obtain ⟨c, q, y, d, hc, hq, hy, hd, hleap⟩ := p
  obtain ⟨rfl, hlast⟩ := hleap h
  unfold isLeap yearOfEra
  simp only [Bool.and_eq_true, Bool.or_eq_true, beq_iff_eq, bne_iff_ne]
  omega

/-- A month other than the last one, which is February, ends where the next one begins. -/
theorem monthStart_succ (year : Int) {month : Int} (hlow : 0 ≤ month) (hhigh : month < 11) :
    monthStart (month + 1) - monthStart month =
      daysInMonth year (if month < 10 then month + 3 else month - 9).toNat := by
  interval_cases month <;> rfl

/-- A month has the day that is counted in it. -/
theorem EraDay.day_le (p : EraDay) (era : Int) :
    (p.day - monthStart p.month + 1).toNat ≤
      daysInMonth (p.yearOfEra + 400 * era + if p.month < 10 then 0 else 1)
        (if p.month < 10 then p.month + 3 else p.month - 9).toNat := by
  have hmonth := p.month_mem
  have hday := p.day_mem
  obtain ⟨hfirst, hlast⟩ := p.day_mem_month
  by_cases hfebruary : p.month = 11
  · have hstart : monthStart 11 = 337 := rfl
    rw [hfebruary, hstart]
    show (p.day - 337 + 1).toNat ≤ if isLeap (p.yearOfEra + 400 * era + 1) then 29 else 28
    by_cases hleap : p.day = 365
    · rw [p.isLeap_of_day era hleap, if_pos rfl]
      omega
    · split <;> omega
  · have hlength := monthStart_succ (p.yearOfEra + 400 * era + if p.month < 10 then 0 else 1)
      hmonth.1 (by omega)
    omega

/-- Every day number is that of a day of some era. -/
theorem exists_eraDay (days : Int) :
    ∃ era, ∃ p : EraDay, days = eraStart + daysPerEra * era + p.number := by
  have hpos : 0 < daysPerEra := by decide
  have hne : daysPerEra ≠ 0 := by decide
  obtain ⟨p, hp⟩ := EraDay.exists_number_eq (Int.emod_nonneg (days - eraStart) hne)
    (Int.emod_lt_of_pos (days - eraStart) hpos)
  refine ⟨(days - eraStart) / daysPerEra, p, ?_⟩
  have hsplit := Int.mul_ediv_add_emod (days - eraStart) daysPerEra
  omega

/-- **The date of a day has the day's number.** -/
theorem toDays_ofDays (days : Int) : (ofDays days).toDays = days := by
  obtain ⟨era, p, rfl⟩ := exists_eraDay days
  rw [ofDays_eq]
  have hyear := p.yearOfEra_mem
  have hmonth := p.month_mem
  have hnumber := p.dayOfYear_eq
  have hfirst := p.day_mem_month.1
  have hday : ((p.day - monthStart p.month + 1).toNat : Int) = p.day - monthStart p.month + 1 :=
    Int.toNat_of_nonneg (by omega)
  have hera : (p.yearOfEra + 400 * era) / 400 = era := by omega
  have hyearOfEra : (p.yearOfEra + 400 * era) % 400 = p.yearOfEra := by omega
  unfold toDays
  dsimp only
  rw [hday]
  -- the months in front of March belong to the year that began before them
  by_cases hspring : p.month < 10
  · have hlate : ¬ (p.month + 3).toNat ≤ 2 := by omega
    have hcounted : ((p.month + 3).toNat : Int) - 3 = p.month := by omega
    rw [if_pos hspring, if_pos hspring, if_neg hlate, if_neg hlate, hcounted, Int.add_zero, hera,
      hyearOfEra]
    unfold monthStart
    omega
  · have hearly : (p.month - 9).toNat ≤ 2 := by omega
    have hcounted : ((p.month - 9).toNat : Int) + 9 = p.month := by omega
    rw [if_neg hspring, if_neg hspring, if_pos hearly, if_pos hearly, hcounted,
      Int.add_sub_cancel, hera, hyearOfEra]
    unfold monthStart
    omega

/-- **The date of a day is one of the calendar.** -/
theorem isValid_ofDays (days : Int) : (ofDays days).IsValid := by
  obtain ⟨era, p, rfl⟩ := exists_eraDay days
  rw [ofDays_eq]
  have hmonth := p.month_mem
  have hfirst := p.day_mem_month.1
  refine ⟨?_, ?_, ?_, ?_⟩
  · dsimp only
    omega
  · dsimp only
    omega
  · dsimp only
    omega
  · exact p.day_le era

end Date

/-! ## Instants -/

namespace Instant

theorem hour_le (t : Instant) : t.hour ≤ 23 := by
  unfold hour secondOfDay secondsPerDay
  omega

theorem minute_le (t : Instant) : t.minute ≤ 59 := by
  unfold minute
  omega

theorem second_le (t : Instant) : t.second ≤ 59 := by
  unfold second
  omega

/-- An instant is that of its date and its time of day. -/
theorem ofParts_date (t : Instant) : ofParts t.date t.hour t.minute t.second = t := by
  have hdays : t.date.toDays = t.days := Date.toDays_ofDays t.days
  have htime : (3600 * t.hour + 60 * t.minute + t.second : Int) = t.seconds % secondsPerDay := by
    unfold hour minute second secondOfDay secondsPerDay
    omega
  have hsplit : secondsPerDay * t.days + t.seconds % secondsPerDay = t.seconds :=
    Int.mul_ediv_add_emod t.seconds secondsPerDay
  unfold ofParts
  rw [hdays, Instant.mk.injEq]
  omega

end Instant

end Splice.Calendar
