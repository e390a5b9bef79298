import Ficant.Primitives

namespace Ficant

open Lib

/-!
# Days and dates

chrono counts days; `NaiveDate.ofDayNumber` is the date with a given day number.

* `NaiveDate.dayNumber_injective` — a date is determined by its day number, years before months
  before days;
* `NaiveDate.ofDayNumber_dayNumber` — and is found again from it;
* `ZoneTable.fixedOffset` — the local dates of a zone that never changes its offset.
-/

/-- The day number of 1970-01-01. -/
def epochDay : ℤ := 719163

namespace NaiveDate

/-- Days before the first of January of a year. -/
def daysBeforeYear (year : ℤ) : ℤ :=
  365 * (year - 1) + (year - 1) / 4 - (year - 1) / 100 + (year - 1) / 400

theorem dayNumber_eq (d : NaiveDate) : dayNumber d =
    daysBeforeYear d.year + (daysBeforeMonth d.year d.month + d.day) := by
  simp only [dayNumber, daysBeforeYear]
  omega

/-- The months of a year lie one behind the other. -/
theorem daysBeforeMonth_add_le (year : ℤ) {m n : ℕ} (hm : 1 ≤ m) (hmn : m < n) (hn : n ≤ 12) :
    daysBeforeMonth year m + daysInMonth year m ≤ daysBeforeMonth year n := by
  have htable : ∀ leap : Bool, ∀ n < 13, ∀ m < n, 1 ≤ m →
      ([0, 31, 59, 90, 120, 151, 181, 212, 243, 273, 304, 334].getD (m - 1) 0 : ℤ) +
          (if 2 < m ∧ leap then 1 else 0) +
        ([31, if leap then 29 else 28, 31, 30, 31, 30, 31, 31, 30, 31, 30, 31].getD (m - 1) 0 : ℕ) ≤
      [0, 31, 59, 90, 120, 151, 181, 212, 243, 273, 304, 334].getD (n - 1) 0 +
          (if 2 < n ∧ leap then 1 else 0) := by
    decide
  exact htable (isLeapYear year) n (by omega) m hmn hm

/-- A year has 365 days, or 366 when it is a leap year. -/
theorem daysBeforeYear_succ (year : ℤ) :
    daysBeforeYear (year + 1) = daysBeforeYear year + 365 + (if isLeapYear year then 1 else 0) := by
  simp only [daysBeforeYear, isLeapYear, decide_eq_true_eq]
  split <;> omega

/-- The day within its year. -/
theorem ordinal_bounds (d : NaiveDate) :
    1 ≤ daysBeforeMonth d.year d.month + d.day ∧ daysBeforeMonth d.year d.month + d.day ≤
      365 + (if isLeapYear d.year then 1 else 0) := by
  have htable : ∀ leap : Bool, ∀ m < 13, 1 ≤ m →
      0 ≤ ([0, 31, 59, 90, 120, 151, 181, 212, 243, 273, 304, 334].getD (m - 1) 0 : ℤ) +
          (if 2 < m ∧ leap then 1 else 0) ∧
      ([0, 31, 59, 90, 120, 151, 181, 212, 243, 273, 304, 334].getD (m - 1) 0 : ℤ) +
          (if 2 < m ∧ leap then 1 else 0) +
        ([31, if leap then 29 else 28, 31, 30, 31, 30, 31, 31, 30, 31, 30, 31].getD (m - 1) 0 : ℕ) ≤
      365 + (if leap then 1 else 0) := by
    decide
  have h := htable (isLeapYear d.year) d.month (by have := d.month_le; omega) d.month_ge
  have := d.day_ge
  have hday := d.day_le
  have : (d.day : ℤ) ≤ daysInMonth d.year d.month := by exact_mod_cast hday
  obtain ⟨h1, h2⟩ := h
  constructor
  · rw [daysBeforeMonth]; omega
  · rw [daysInMonth] at this
    rw [daysBeforeMonth]; omega

/-- A date of an earlier year has a smaller day number. -/
theorem year_of_dayNumber {a b : NaiveDate} (h : dayNumber a = dayNumber b) : ¬a.year < b.year := by
  intro hlt
  have hstep := daysBeforeYear_succ a.year
  have hmono : daysBeforeYear (a.year + 1) ≤ daysBeforeYear b.year := by
    rcases eq_or_lt_of_le (Int.add_one_le_of_lt hlt) with heq | hgt
    · rw [heq]
    · simp only [daysBeforeYear]
      omega
  have ha := ordinal_bounds a
  have hb := ordinal_bounds b
  rw [dayNumber_eq, dayNumber_eq] at h
  omega

/-- **A date is determined by its day number.** -/
theorem dayNumber_injective : Function.Injective dayNumber := by
  intro a b h
  -- The year, then the month, then the day is determined by what the others leave.
  have hyear : a.year = b.year := by
    have h1 := year_of_dayNumber h
    have h2 := year_of_dayNumber h.symm
    omega
  rw [dayNumber_eq, dayNumber_eq, hyear] at h
  have hda : (a.day : ℤ) ≤ daysInMonth b.year a.month := by
    have := a.day_le; rw [hyear] at this; exact_mod_cast this
  have hdb : (b.day : ℤ) ≤ daysInMonth b.year b.month := by
    have := b.day_le; exact_mod_cast this
  have hmonth : a.month = b.month := by
    rcases lt_trichotomy a.month b.month with hlt | heq | hgt
    · have := daysBeforeMonth_add_le b.year a.month_ge hlt b.month_le
      have := b.day_ge
      omega
    · exact heq
    · have := daysBeforeMonth_add_le b.year b.month_ge hgt a.month_le
      have := a.day_ge
      omega
  rw [hmonth] at h
  have hday : a.day = b.day := by omega
  cases a
  cases b
  simp only at hyear hmonth hday
  subst hyear hmonth hday
  rfl

/-- The date with that year, month and day, when there is one. -/
def make (year : ℤ) (month day : ℕ) : Option NaiveDate :=
  if h : (-262143 ≤ year ∧ year ≤ 262142) ∧ (1 ≤ month ∧ month ≤ 12) ∧ 1 ≤ day ∧
      day ≤ daysInMonth year month then
    some ⟨year, month, day, h.1.1, h.1.2, h.2.1.1, h.2.1.2, h.2.2.1, h.2.2.2⟩
  else none

/-- The date with that day number. A year has about 146097 / 400 days, so it is one of three. -/
def ofDayNumber (n : ℤ) : Option NaiveDate :=
  let guess := n * 400 / 146097
  ([guess, guess + 1, guess + 2].flatMap fun year => (List.range' 1 12).filterMap fun month =>
    make year month (n - daysBeforeYear year - daysBeforeMonth year month).toNat).head?

/-- A date is found again from its day number. -/
theorem ofDayNumber_dayNumber (d : NaiveDate) : ofDayNumber (dayNumber d) = some d := by
  -- every candidate has this day number, so it is this date
  have hmade : ∀ year month e, make year month
      (dayNumber d - daysBeforeYear year - daysBeforeMonth year month).toNat = some e → e = d := by
    intro year month e he
    rw [make] at he
    split at he
    · rename_i hvalid
      obtain rfl := Option.some.inj he
      apply dayNumber_injective
      rw [dayNumber_eq]
      simp only
      omega
    · cases he
  have hself : make d.year d.month (dayNumber d - daysBeforeYear d.year -
      daysBeforeMonth d.year d.month).toNat = some d := by
    have hday : dayNumber d - daysBeforeYear d.year - daysBeforeMonth d.year d.month = d.day := by
      rw [dayNumber_eq]
      omega
    rw [hday, Int.toNat_natCast, make,
      dif_pos ⟨⟨d.year_ge, d.year_le⟩, ⟨d.month_ge, d.month_le⟩, d.day_ge, d.day_le⟩]
  have hguess : d.year ∈ [dayNumber d * 400 / 146097, dayNumber d * 400 / 146097 + 1,
      dayNumber d * 400 / 146097 + 2] := by
    have hb := ordinal_bounds d
    have h365 : (365 : ℤ) + (if isLeapYear d.year then 1 else 0) ≤ 366 := by split <;> omega
    rw [dayNumber_eq]
    simp only [List.mem_cons, List.not_mem_nil, or_false, daysBeforeYear]
    omega
  rw [ofDayNumber]
  generalize hl : List.flatMap _ _ = l
  have hmem : d ∈ l := by
    rw [← hl]
    refine List.mem_flatMap.mpr ⟨d.year, hguess, List.mem_filterMap.mpr ⟨d.month, ?_, hself⟩⟩
    have := d.month_ge
    have := d.month_le
    rw [List.mem_range'_1]
    omega
  have hall : ∀ e ∈ l, e = d := by
    intro e he
    rw [← hl] at he
    obtain ⟨year, -, he⟩ := List.mem_flatMap.mp he
    obtain ⟨month, -, he⟩ := List.mem_filterMap.mp he
    exact hmade year month e he
  cases l with
  | nil => cases hmem
  | cons e l => rw [List.head?_cons, hall e List.mem_cons_self]

end NaiveDate

/-- A time-zone database with one zone, so many seconds ahead of UTC. -/
def ZoneTable.fixedOffset (zone : String) (offset : ℤ) : ZoneTable where
  name text := if text = zone then some zone else none
  localDate _ t := NaiveDate.ofDayNumber ((t.timestamp + offset) / 86400 + epochDay)

/-- The time-zone database with UTC alone. -/
def ZoneTable.utc : ZoneTable := .fixedOffset "UTC" 0

end Ficant
