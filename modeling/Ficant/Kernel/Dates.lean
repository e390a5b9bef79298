import Ficant.Lib.Months
import Mathlib.Tactic.Linarith

namespace Ficant.Kernel

open Lib Lib.MonthCalendar

/-!
# Dates of the kernel

Dates as days since 1970 in 32 bits (`fixed-income-kernel/src/date_utils.hpp`).

* `ymdToDays`, `daysToYmd`, `addMonths` — as the kernel computes them, with the division of C++,
  which rounds toward zero;
* `ymdToDays_eq`, `daysToYmd_eq`, `addMonths_eq` — they are the Gregorian calendar of
  `Lib.gregorian`, cut to 32 bits.

The unsigned numbers are all small and not negative, so they are natural numbers here.
-/

/-- A year, a month and a day, as `days_to_ymd` writes them. -/
structure YearMonthDay where
  y : ℤ
  m : ℕ
  d : ℕ
  deriving DecidableEq, Repr

/-- `is_leap_year`. -/
def isLeapYear (y : ℤ) : Bool := (y.tmod 4 = 0 ∧ y.tmod 100 ≠ 0) ∨ y.tmod 400 = 0

/-- `days_in_month`. -/
def daysInMonth (y : ℤ) (m : ℕ) : ℕ :=
  if m = 2 ∧ isLeapYear y then 29
  else [31, 28, 31, 30, 31, 30, 31, 31, 30, 31, 30, 31].getD (m - 1) 0

/-- `ymd_to_days`. -/
def ymdToDays (y : ℤ) (m d : ℕ) : Int32 :=
  let y := y - (if m ≤ 2 then 1 else 0)
  let era := (if 0 ≤ y then y else y - 399).tdiv 400
  let yoe := (y - era * 400).toNat
  let doy := (153 * (if 2 < m then m - 3 else m + 9) + 2) / 5 + d - 1
  let doe := yoe * 365 + yoe / 4 - yoe / 100 + doy
  Int32.ofInt (era * 146097 + doe - 719468)

/-- `days_to_ymd`. -/
def daysToYmd (days : Int32) : YearMonthDay :=
  let z := days.toInt + 719468
  let era := (if 0 ≤ z then z else z - 146096).tdiv 146097
  let doe := (z - era * 146097).toNat
  let yoe := (doe - doe / 1460 + doe / 36524 - doe / 146096) / 365
  let y := yoe + era * 400
  let doy := doe - (365 * yoe + yoe / 4 - yoe / 100)
  let mp := (5 * doy + 2) / 153
  let d := doy - (153 * mp + 2) / 5 + 1
  let m := if mp < 10 then mp + 3 else mp - 9
  ⟨y + (if m ≤ 2 then 1 else 0), m, d⟩

/-- `add_months`. -/
def addMonths (epochDays : Int32) (months : ℤ) : Int32 :=
  let ⟨y, m, d⟩ := daysToYmd epochDays
  let total := y * 12 + m - 1 + months
  let borrow : Prop := total < 0 ∧ total.tmod 12 ≠ 0
  let ny := total.tdiv 12 - (if borrow then 1 else 0)
  let nm := (if borrow then 12 + total.tmod 12 + 1 else total.tmod 12 + 1).toNat
  let dim := daysInMonth ny nm
  ymdToDays ny nm (if dim < d then dim else d)

/-! ### The division of C++ -/

/-- Lowering a negative dividend first makes the division round down. -/
theorem tdiv_lowered {x n : ℤ} (hn : 0 < n) :
    (if 0 ≤ x then x else x - (n - 1)).tdiv n = x / n := by
  split
  · rename_i h
    exact Int.tdiv_eq_ediv_of_nonneg h
  · rename_i h
    have hdecompose := Int.mul_ediv_add_emod x n
    have hr0 := Int.emod_nonneg x hn.ne'
    have hrn := Int.emod_lt_of_pos x hn
    generalize x / n = q at hdecompose ⊢
    generalize x % n = r at hdecompose hr0 hrn
    rw [Int.tdiv_eq_ediv, Int.sign_eq_one_of_pos hn]
    by_cases hlast : r = n - 1
    · -- nothing is left over
      have hexact : x - (n - 1) = n * q := by omega
      rw [hexact, if_pos (.inr (Int.dvd_mul_right n q)), add_zero]
      exact Int.mul_ediv_cancel_left q hn.ne'
    · have hsplit : x - (n - 1) = (r + 1) + n * (q - 1) := by linarith
      have hquotient : (x - (n - 1)) / n = q - 1 := by
        rw [hsplit, Int.add_mul_ediv_left _ _ hn.ne', Int.ediv_eq_zero_of_lt (by omega) (by omega)]
        ring
      have hnot : ¬ n ∣ x - (n - 1) := by
        rw [hsplit, Int.dvd_add_left (Int.dvd_mul_right n _)]
        intro hdvd
        have := Int.le_of_dvd (by omega) hdvd
        omega
      rw [hquotient, if_neg (by omega)]
      ring

/-- Borrowing from the quotient of a negative dividend makes it round down. -/
theorem tdiv_borrowed (x : ℤ) :
    x.tdiv 12 - (if x < 0 ∧ x.tmod 12 ≠ 0 then 1 else 0) = x / 12 ∧
    (if x < 0 ∧ x.tmod 12 ≠ 0 then 12 + x.tmod 12 + 1 else x.tmod 12 + 1) = x % 12 + 1 := by
  by_cases hnonneg : 0 ≤ x
  · rw [Int.tdiv_eq_ediv_of_nonneg hnonneg, Int.tmod_eq_emod_of_nonneg hnonneg, if_neg (by omega),
      if_neg (by omega)]
    omega
  by_cases hdvd : (12 : ℤ) ∣ x
  · rw [Int.tdiv_eq_ediv_of_dvd hdvd, Int.tmod_eq_zero_of_dvd hdvd, if_neg (by omega),
      if_neg (by omega)]
    omega
  · have hquotient : x.tdiv 12 = x / 12 + 1 := by
      rw [Int.tdiv_eq_ediv, if_neg (by omega)]
      rfl
    have hremainder : x.tmod 12 = x % 12 - 12 := by
      rw [Int.tmod_eq_emod, if_neg (by omega)]
      rfl
    rw [hquotient, hremainder, if_pos (by omega), if_pos (by omega)]
    omega

/-! ### The calendar -/

theorem isLeapYear_eq (y : ℤ) : isLeapYear y = gregorianLeap y := by
  unfold isLeapYear gregorianLeap
  simp only [ne_eq, ← Int.dvd_iff_tmod_eq_zero, ← Int.dvd_iff_emod_eq_zero]

/-- The length of a month, by its index from January of year 0. -/
theorem daysInMonth_eq (k : ℤ) : daysInMonth (k / 12) (k % 12 + 1).toNat = gregorian.length k := by
  show _ = gregorianLength k
  unfold daysInMonth gregorianLength
  rw [isLeapYear_eq]
  rcases emod_twelve_cases k with h | h | h | h | h | h | h | h | h | h | h | h <;> rw [h] <;> simp

/-- The year, the month and the day of a day of the calendar. -/
def ofDay (x : gregorian.Day) : YearMonthDay := ⟨x.month / 12, (x.month % 12 + 1).toNat, x.number⟩

/-- The days of the eras and of the years of an era. -/
theorem era_days (y : ℤ) :
    y / 400 * 146097 + (y % 400 * 365 + y % 400 / 4 - y % 400 / 100) = marchYearStart y := by
  unfold marchYearStart
  omega

/-- The first day of a month, and from it every other. -/
theorem ymdToDays_month (k : ℤ) {d : ℕ} (hd : 1 ≤ d) :
    ymdToDays (k / 12) (k % 12 + 1).toNat d = Int32.ofInt (gregorianStart k + d) := by
  have hy : k / 12 - (if (k % 12 + 1).toNat ≤ 2 then 1 else 0) = (k - 2) / 12 := by
    split <;> omega
  have hm : (if 2 < (k % 12 + 1).toNat then (k % 12 + 1).toNat - 3 else (k % 12 + 1).toNat + 9) =
      ((k - 2) % 12).toNat := by
    split <;> omega
  have hera := tdiv_lowered (x := (k - 2) / 12) (n := 400) (by decide)
  have hdays := era_days ((k - 2) / 12)
  unfold ymdToDays gregorianStart
  simp only [hy, hm]
  rw [show ((400 : ℤ) - 1) = 399 from rfl] at hera
  rw [hera, ← hdays]
  congr 1
  have hm0 := Int.emod_nonneg (k - 2) (show (12 : ℤ) ≠ 0 by decide)
  generalize (k - 2) % 12 = m at hm0
  generalize (k - 2) / 12 = y
  omega

/-- **`ymd_to_days` counts the days** of the calendar, in 32 bits. -/
theorem ymdToDays_eq (x : gregorian.Day) :
    ymdToDays (ofDay x).y (ofDay x).m (ofDay x).d = Int32.ofInt x.toInt :=
  ymdToDays_month x.month x.pos

/-- The year of an era is found again from the day of the era. -/
theorem year_of_era {yoe doy : ℕ} (hyoe : yoe < 400)
    (hdoy : doy ≤ 364 ∨ (doy = 365 ∧ yoe % 4 = 3 ∧ (yoe % 100 ≠ 99 ∨ yoe = 399))) {doe : ℕ}
    (hdoe : doe = yoe * 365 + yoe / 4 - yoe / 100 + doy) :
    (doe - doe / 1460 + doe / 36524 - doe / 146096) / 365 = yoe := by
  by_cases hlast : yoe = 399 ∧ doy = 365
  · obtain ⟨rfl, rfl⟩ := hlast
    subst hdoe
    decide
  -- centuries, then fours of years, then years
  obtain ⟨c, q, r, hc, hq, hr, rfl⟩ : ∃ c q r, c ≤ 3 ∧ q ≤ 24 ∧ r ≤ 3 ∧ yoe = 100 * c + 4 * q + r :=
    ⟨yoe / 100, yoe % 100 / 4, yoe % 4, by omega, by omega, by omega, by omega⟩
  replace hdoe : doe = 36524 * c + 1461 * q + 365 * r + doy := by
    rw [hdoe]
    omega
  have hcentury : 1461 * q + 365 * r + doy < 36524 := by omega
  have hcenturies : doe / 36524 = c := by omega
  have hera : doe / 146096 = 0 := by omega
  -- one day in four years is a day too many, and it comes at their end
  obtain ⟨e, he, hleap, hfour⟩ : ∃ e, e ≤ doy ∧ doy ≤ e + 364 ∧ doe / 1460 = 25 * c + q + e := by
    refine ⟨(24 * c + q + 365 * r + doy) / 1460, ?_, ?_, ?_⟩
    · omega
    · omega
    · omega
  rw [hcenturies, hera, hfour]
  have hnumerator : doe - (25 * c + q + e) + c - 0 = (doy - e) + 365 * (100 * c + 4 * q + r) := by
    omega
  rw [hnumerator, Nat.add_mul_div_left _ _ (by decide), Nat.div_eq_of_lt (by omega), Nat.zero_add]

/-- The day of the year that begins in March, from 0. -/
theorem dayOfYear_bounds (x : gregorian.Day) :
    let m := (x.month - 2) % 12
    let doy := (153 * m + 2) / 5 + x.number - 1
    (153 * m ≤ 5 * doy + 2 ∧ 5 * doy + 2 < 153 * (m + 1)) ∧
      (doy ≤ 364 ∨ (doy = 365 ∧ gregorianLeap ((x.month - 2) / 12 + 1))) := by
  intro m doy
  have hpos := x.pos
  have hlength : x.number ≤ gregorianLength x.month := x.le_length
  have hm0 : 0 ≤ m := Int.emod_nonneg _ (by decide)
  have hm11 : m < 12 := Int.emod_lt_of_pos _ (by decide)
  unfold gregorianLength at hlength
  by_cases hfebruary : x.month % 12 = 1
  · -- the last month of the year
    have hyear : (x.month - 2) / 12 + 1 = x.month / 12 := by omega
    have hm : m = 11 := by
      show (x.month - 2) % 12 = 11
      omega
    rw [if_pos hfebruary] at hlength
    rw [hyear]
    have hdoy : doy = 336 + x.number := by
      show (153 * m + 2) / 5 + (x.number : ℤ) - 1 = _
      rw [hm]
      omega
    split at hlength
    · rename_i hleap
      simp only [hleap, and_true]
      omega
    · omega
  · have hm10 : m ≤ 10 := by
      show (x.month - 2) % 12 ≤ 10
      omega
    have hnext := marchMonth_succ hm0 hm10
    have hdoy : doy = (153 * m + 2) / 5 + x.number - 1 := rfl
    have hlast : (153 * m + 2) / 5 + x.number ≤ (153 * (m + 1) + 2) / 5 := by
      rw [if_neg hfebruary] at hlength
      rw [hnext]
      have hm : m = (x.month - 2) % 12 := rfl
      split at hlength
      · rw [if_pos (by omega)]
        omega
      · rw [if_neg (by omega)]
        omega
    omega

/-- **`days_to_ymd` finds the day** of the calendar. -/
theorem daysToYmd_eq {days : Int32} {x : gregorian.Day} (h : days.toInt = x.toInt) :
    daysToYmd days = ofDay x := by
  obtain ⟨hmonth, hyear⟩ := dayOfYear_bounds x
  have hdays := era_days ((x.month - 2) / 12)
  have hpos := x.pos
  have htoInt : x.toInt = marchYearStart ((x.month - 2) / 12) +
      (153 * ((x.month - 2) % 12) + 2) / 5 - 719469 + x.number := rfl
  have hm0 : 0 ≤ (x.month - 2) % 12 := Int.emod_nonneg _ (by decide)
  have hm12 : (x.month - 2) % 12 < 12 := Int.emod_lt_of_pos _ (by decide)
  have hk : x.month = 12 * ((x.month - 2) / 12) + (x.month - 2) % 12 + 2 := by omega
  rw [htoInt] at h
  unfold gregorianLeap at hyear
  generalize (x.month - 2) / 12 = y at hdays h hyear hk
  generalize (x.month - 2) % 12 = m at hmonth h hm0 hm12 hyear hk
  -- the numbers that the kernel computes
  obtain ⟨yoe, hyoe⟩ : ∃ yoe : ℕ, (yoe : ℤ) = y % 400 := ⟨(y % 400).toNat, by omega⟩
  obtain ⟨doy, hdoy⟩ : ∃ doy : ℕ, (doy : ℤ) = (153 * m + 2) / 5 + x.number - 1 :=
    ⟨((153 * m + 2) / 5 + x.number - 1).toNat, by omega⟩
  rw [← hdoy] at hmonth hyear
  have hbound : doy ≤ 364 ∨ (doy = 365 ∧ yoe % 4 = 3 ∧ (yoe % 100 ≠ 99 ∨ yoe = 399)) := by
    rcases hyear with hsmall | ⟨hlast, hleap⟩
    · omega
    · have hleap := of_decide_eq_true hleap
      omega
  have hz : days.toInt + 719468 = y / 400 * 146097 +
      ((yoe * 365 + yoe / 4 - yoe / 100 + doy : ℕ) : ℤ) := by
    rw [h, ← hdays]
    omega
  have hdoeBound : yoe * 365 + yoe / 4 - yoe / 100 + doy < 146097 := by omega
  have hyearOfEra := year_of_era (by omega) hbound rfl
  generalize hdoe : yoe * 365 + yoe / 4 - yoe / 100 + doy = doe at hz hdoeBound hyearOfEra
  have hera := tdiv_lowered (x := days.toInt + 719468) (n := 146097) (by decide)
  rw [show (146097 : ℤ) - 1 = 146096 from rfl] at hera
  have heraEq : (days.toInt + 719468) / 146097 = y / 400 := by omega
  have hdoeEq : (days.toInt + 719468 - y / 400 * 146097).toNat = doe := by omega
  have hdoyEq : doe - (365 * yoe + yoe / 4 - yoe / 100) = doy := by omega
  have hmpEq : (5 * doy + 2) / 153 = m.toNat := by omega
  unfold daysToYmd
  simp only [hera, heraEq, hdoeEq, hyearOfEra, hdoyEq, hmpEq, ofDay, YearMonthDay.mk.injEq]
  refine ⟨?_, ?_, ?_⟩
  · split
    · split <;> omega
    · split <;> omega
  · split <;> omega
  · omega

/-- **`add_months` shifts the day** of the calendar, in 32 bits. -/
theorem addMonths_eq {days : Int32} {x : gregorian.Day} (h : days.toInt = x.toInt) (n : ℤ) :
    addMonths days n = Int32.ofInt (x.shift n).toInt := by
  unfold addMonths
  rw [daysToYmd_eq h, ← ymdToDays_eq]
  have htotal : x.month / 12 * 12 + ((x.month % 12 + 1).toNat : ℕ) - 1 + n = x.month + n := by
    omega
  obtain ⟨hny, hnm⟩ := tdiv_borrowed (x.month + n)
  simp only [ofDay, htotal, hny, hnm, daysInMonth_eq, Day.shift_month, Day.shift_number]
  congr 1
  split <;> omega

end Ficant.Kernel
