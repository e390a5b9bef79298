import Ficant.Kernel.Dates
import Ficant.Primitives.EpochDate

namespace Ficant

open Lib Lib.MonthCalendar

/-!
# The dates of chrono and of the kernel

A date of chrono is a day of `Lib.gregorian`, and the kernel gets it as days since 1970.

* `NaiveDate.toDay` — the day; `toDay_toInt` counts it from 1970 and `toDay_lt_iff` orders it;
* `NaiveDate.checkedAddMonths` — `checked_add_months`, which is the shift of the day
  (`toDay_checkedAddMonths`);
* `Kernel.epochDays` — the number that the kernel gets, never out of its 32 bits
  (`epochDays_toInt`).
-/

namespace NaiveDate

/-- The month of a date, counted from January of year 0. -/
def monthIndex (d : NaiveDate) : ℤ := d.year * 12 + d.month - 1

/-- The year and the month come back from the count of months. -/
theorem monthIndex_div (d : NaiveDate) : d.monthIndex / 12 = d.year := by
  have := d.month_ge
  have := d.month_le
  unfold monthIndex
  omega

theorem monthIndex_mod (d : NaiveDate) : d.monthIndex % 12 = d.month - 1 := by
  have := d.month_ge
  have := d.month_le
  unfold monthIndex
  omega

/-- chrono and the kernel have the same leap years. -/
theorem isLeapYear_eq (year : ℤ) : isLeapYear year = gregorianLeap year := by
  unfold isLeapYear gregorianLeap
  rw [decide_eq_decide]
  omega

/-- The length of a month, by its index. -/
theorem daysInMonth_eq (k : ℤ) : daysInMonth (k / 12) (k % 12 + 1).toNat = gregorianLength k := by
  unfold daysInMonth gregorianLength
  rw [isLeapYear_eq]
  rcases emod_twelve_cases k with h | h | h | h | h | h | h | h | h | h | h | h <;> rw [h] <;> simp

/-- And months of the same length. -/
theorem daysInMonth_monthIndex (d : NaiveDate) :
    daysInMonth d.year d.month = gregorianLength d.monthIndex := by
  have h := daysInMonth_eq d.monthIndex
  rw [monthIndex_div, monthIndex_mod] at h
  rw [← h]
  congr 1
  have := d.month_ge
  omega

/-- The day of the calendar that a date is. -/
def toDay (d : NaiveDate) : gregorian.Day :=
  ⟨d.monthIndex, d.day, d.day_ge, by
    show d.day ≤ gregorianLength d.monthIndex
    rw [← daysInMonth_monthIndex]
    exact d.day_le⟩

/-- The days of a year before a month, with the year that begins in March. -/
theorem toDay_toInt (d : NaiveDate) : d.toDay.toInt = d.dayNumber - 719163 := by
  have hmonth := d.month_ge
  have hle := d.month_le
  have hstart : gregorianStart d.monthIndex = d.dayNumber - d.day - 719163 := by
    unfold gregorianStart marchYearStart monthIndex dayNumber daysBeforeMonth
    rw [isLeapYear_eq]
    unfold gregorianLeap
    obtain ⟨m, hm⟩ : ∃ m, d.month = m := ⟨_, rfl⟩
    generalize d.year = y
    rw [hm] at hmonth hle ⊢
    -- January and February end the year before
    interval_cases m <;> simp <;> (try split) <;> omega
  show gregorianStart d.monthIndex + (d.day : ℤ) = _
  rw [hstart]
  ring

/-- The count of days is ordered as the dates are. -/
theorem toDay_lt_iff {a b : NaiveDate} : a.toDay.toInt < b.toDay.toInt ↔ a < b := by
  have horder : a < b ↔ toLex (a.year, toLex (a.month, a.day)) <
    toLex (b.year, toLex (b.month, b.day)) :=
    Iff.rfl
  rw [Day.toInt_lt_iff, horder, Prod.Lex.toLex_lt_toLex, Prod.Lex.toLex_lt_toLex]
  show a.monthIndex < b.monthIndex ∨ (a.monthIndex = b.monthIndex ∧ a.day < b.day) ↔ _
  have := a.month_ge
  have := a.month_le
  have := b.month_ge
  have := b.month_le
  unfold monthIndex
  simp only
  omega

theorem toDay_le_iff {a b : NaiveDate} : a.toDay.toInt ≤ b.toDay.toInt ↔ a ≤ b := by
  rw [← not_lt, toDay_lt_iff, not_lt]

/-! ### Some months later -/

/-- chrono's `checked_add_months`. -/
def checkedAddMonths (d : NaiveDate) (months : ℕ) : Option NaiveDate :=
  if months < 2 ^ 31 then
    let total := d.year * 12 + d.month - 1 + months
    let year := total / 12
    let month := (total % 12 + 1).toNat
    make year month (min d.day (daysInMonth year month))
  else none

/-- The shifted date is the shifted day. -/
theorem toDay_checkedAddMonths {d e : NaiveDate} {months : ℕ}
    (h : d.checkedAddMonths months = some e) :
    months < 2 ^ 31 ∧ e.toDay = d.toDay.shift months := by
  unfold checkedAddMonths at h
  split at h
  · rename_i hmonths
    simp only [make] at h
    split at h
    · obtain rfl := Option.some.inj h
      have hmonth : (d.monthIndex + months) / 12 * 12 +
          (((d.monthIndex + months) % 12 + 1).toNat : ℕ) - 1 = d.monthIndex + months := by
        omega
      exact ⟨hmonths, Day.ext_fields hmonth
        (congrArg (min d.day) (daysInMonth_eq (d.monthIndex + months)))⟩
    · cases h
  · cases h

end NaiveDate

namespace Kernel

/-- `epoch_days`: the days since 1970-01-01. -/
def epochDays (d : NaiveDate) : Int32 := Int32.ofInt (d.dayNumber - 719163)

/-- chrono's dates are far from the ends of 32 bits. -/
theorem epochDays_bounds (d : NaiveDate) :
    -97000000 ≤ d.dayNumber - 719163 ∧ d.dayNumber - 719163 ≤ 96000000 := by
  have hordinal := NaiveDate.ordinal_bounds d
  have hlow := d.year_ge
  have hhigh := d.year_le
  have hleap : (if NaiveDate.isLeapYear d.year then (1 : ℤ) else 0) ≤ 1 := by
    split <;> decide
  rw [NaiveDate.dayNumber_eq]
  unfold NaiveDate.daysBeforeYear
  omega

/-- So nothing wraps. -/
theorem epochDays_toInt (d : NaiveDate) : (epochDays d).toInt = d.toDay.toInt := by
  have hbounds := epochDays_bounds d
  rw [epochDays, Int32.toInt_ofInt_of_le (by omega) (by omega), NaiveDate.toDay_toInt]

/-- The days that the kernel gets are ordered as the dates are. -/
theorem epochDays_lt_iff {a b : NaiveDate} : epochDays a < epochDays b ↔ a < b := by
  rw [Int32.lt_iff_toInt_lt, epochDays_toInt, epochDays_toInt, NaiveDate.toDay_lt_iff]

theorem epochDays_le_iff {a b : NaiveDate} : epochDays a ≤ epochDays b ↔ a ≤ b := by
  rw [Int32.le_iff_toInt_le, epochDays_toInt, epochDays_toInt, NaiveDate.toDay_le_iff]

/-- Adding months in chrono and in the kernel gives the same date. -/
theorem addMonths_epochDays {d e : NaiveDate} {months : ℕ}
    (h : d.checkedAddMonths months = some e) : addMonths (epochDays d) months = epochDays e := by
  obtain ⟨-, hday⟩ := NaiveDate.toDay_checkedAddMonths h
  rw [addMonths_eq (epochDays_toInt d), ← hday, NaiveDate.toDay_toInt]
  rfl

end Kernel

end Ficant
