import Ficant.Futures.DeliveryRule

namespace Ficant.Kernel

open Lib Lib.MonthCalendar Futures

/-!
# The kernel's calendar and its eligibility test

* `YearMonthDay.IsDate`, `YearMonthDay.next`, `YearMonthDay.later` — the proleptic Gregorian
  calendar in years, months and days, with no day numbers;
* `daysToYmd_isDate`, `daysToYmd_succ`, `daysToYmd_addMonths` — what the kernel's numbers are there;
* `isDeliverable` — `futures_math.cpp`, the test that the domain makes on dates;
* `kernel_calendar_correct` — both together.
-/

namespace YearMonthDay

/-- The month, counted from January of year 0. -/
def monthIndex (t : YearMonthDay) : ℤ := t.y * 12 + t.m - 1

/-- A date of the calendar. -/
def IsDate (t : YearMonthDay) : Prop :=
  1 ≤ t.m ∧ t.m ≤ 12 ∧ 1 ≤ t.d ∧ t.d ≤ gregorianLength t.monthIndex

/-- The date after a date. -/
def next (t : YearMonthDay) : YearMonthDay :=
  if t.d < gregorianLength t.monthIndex then ⟨t.y, t.m, t.d + 1⟩
  else if t.m < 12 then ⟨t.y, t.m + 1, 1⟩
  else ⟨t.y + 1, 1, 1⟩

/-- Some calendar months away, with the day clamped to the length of the month. -/
def later (t : YearMonthDay) (n : ℤ) : YearMonthDay :=
  ⟨(t.monthIndex + n) / 12, ((t.monthIndex + n) % 12 + 1).toNat,
    min t.d (gregorianLength (t.monthIndex + n))⟩

end YearMonthDay

/-! ### Dates and days -/

/-- A day's month is counted as the kernel counts months. -/
theorem ofDay_monthIndex (x : gregorian.Day) : (ofDay x).monthIndex = x.month := by
  show x.month / 12 * 12 + ((x.month % 12 + 1).toNat : ℤ) - 1 = x.month
  omega

/-- A day of the calendar is a date. -/
theorem ofDay_isDate (x : gregorian.Day) : (ofDay x).IsDate := by
  refine ⟨?_, ?_, x.pos, ?_⟩
  · show 1 ≤ (x.month % 12 + 1).toNat
    omega
  · show (x.month % 12 + 1).toNat ≤ 12
    omega
  · rw [ofDay_monthIndex]
    exact x.le_length

/-- Every date is a day of the calendar. -/
theorem exists_ofDay {t : YearMonthDay} (h : t.IsDate) :
    ∃ x : gregorian.Day, ofDay x = t ∧ x.month = t.monthIndex := by
  rcases t with ⟨y, m, d⟩
  obtain ⟨hlow, hhigh, hpos, hle⟩ := h
  refine ⟨⟨YearMonthDay.monthIndex ⟨y, m, d⟩, d, hpos, hle⟩, ?_, rfl⟩
  simp only at hlow hhigh
  show YearMonthDay.mk ((y * 12 + m - 1) / 12) ((y * 12 + m - 1) % 12 + 1).toNat d = ⟨y, m, d⟩
  have hyear : (y * 12 + (m : ℤ) - 1) / 12 = y := by omega
  have hmonth : ((y * 12 + (m : ℤ) - 1) % 12 + 1).toNat = m := by omega
  rw [hyear, hmonth]

/-- The day after a day is the next date. -/
theorem ofDay_next {x z : gregorian.Day} (h : z.toInt = x.toInt + 1) :
    (ofDay x).next = ofDay z := by
  unfold YearMonthDay.next
  rw [ofDay_monthIndex]
  by_cases hinside : x.number < gregorianLength x.month
  · -- the month goes on
    rw [if_pos (show (ofDay x).d < _ from hinside)]
    have hz : z = ⟨x.month, x.number + 1, Nat.le_add_left 1 _, hinside⟩ := by
      apply Day.toInt_injective
      rw [h]
      show gregorianStart x.month + x.number + 1 = gregorianStart x.month + (x.number + 1 : ℕ)
      omega
    rw [hz]
    rfl
  · rw [if_neg (show ¬(ofDay x).d < _ from hinside)]
    have hlast : x.number = gregorianLength x.month :=
      le_antisymm x.le_length (Nat.not_lt.mp hinside)
    have hz : z = ⟨x.month + 1, 1, le_rfl, gregorian.length_pos _⟩ := by
      apply Day.toInt_injective
      rw [h]
      show gregorianStart x.month + x.number + 1 = gregorianStart (x.month + 1) + (1 : ℕ)
      rw [gregorianStart_succ, hlast]
      omega
    rw [hz]
    show (if (x.month % 12 + 1).toNat < 12 then _ else _) =
      YearMonthDay.mk ((x.month + 1) / 12) ((x.month + 1) % 12 + 1).toNat 1
    split
    · simp only [ofDay, YearMonthDay.mk.injEq, and_true]
      omega
    · simp only [ofDay, YearMonthDay.mk.injEq, and_true]
      omega

/-- Going some days ahead is the same in dates and in days. -/
theorem ofDay_later (x : gregorian.Day) (n : ℤ) : (ofDay x).later n = ofDay (x.shift n) := by
  unfold YearMonthDay.later
  rw [ofDay_monthIndex]
  rfl

/-- Different days are different dates. -/
theorem ofDay_injective {x z : gregorian.Day} (h : ofDay x = ofDay z) : x = z := by
  have hmonths := congrArg YearMonthDay.monthIndex h
  rw [ofDay_monthIndex, ofDay_monthIndex] at hmonths
  exact Day.ext_fields hmonths (congrArg YearMonthDay.d h)

/-- The day that a number of the kernel stands for. -/
theorem exists_day (days : Int32) :
    ∃ x : gregorian.Day, days.toInt = x.toInt ∧ daysToYmd days = ofDay x := by
  obtain ⟨x, hx⟩ := Day.exists_toInt gregorian days.toInt
  exact ⟨x, hx.symm, daysToYmd_eq hx.symm⟩

/-! ### The range of the day numbers -/

/-- The months of the days that 32 bits count. -/
theorem month_bounds {x : gregorian.Day} (hlow : -2 ^ 31 ≤ x.toInt) (hhigh : x.toInt < 2 ^ 31) :
    -70531692 ≤ x.month ∧ x.month ≤ 70578972 := by
  have hpos := x.pos
  have hlength : x.number ≤ 31 := x.le_length.trans (gregorianLength_le x.month)
  have hcount : x.toInt = gregorianStart x.month + x.number := rfl
  unfold gregorianStart marchYearStart at hcount
  omega

/-- Every day of these years is counted by 32 bits. -/
theorem toInt_bounds {x : gregorian.Day} (hlow : -5877640 * 12 ≤ x.month)
    (hhigh : x.month < 5881580 * 12) : -2 ^ 31 ≤ x.toInt ∧ x.toInt < 2 ^ 31 := by
  have hpos := x.pos
  have hlength : x.number ≤ 31 := x.le_length.trans (gregorianLength_le x.month)
  have hcount : x.toInt = gregorianStart x.month + x.number := rfl
  unfold gregorianStart marchYearStart at hcount
  omega

/-! ### The kernel's dates -/

/-- Every number of days gives a date. -/
theorem daysToYmd_isDate (days : Int32) : (daysToYmd days).IsDate := by
  obtain ⟨x, -, hx⟩ := exists_day days
  rw [hx]
  exact ofDay_isDate x

/-- Back and forth from a day number. -/
theorem ymdToDays_daysToYmd (days : Int32) :
    ymdToDays (daysToYmd days).y (daysToYmd days).m (daysToYmd days).d = days := by
  obtain ⟨x, hcount, hx⟩ := exists_day days
  rw [hx, ymdToDays_eq, ← hcount, Int32.ofInt_toInt]

/-- Back and forth from a date. -/
theorem daysToYmd_ymdToDays {t : YearMonthDay} (h : t.IsDate) (hlow : -5877640 ≤ t.y)
    (hhigh : t.y < 5881580) : daysToYmd (ymdToDays t.y t.m t.d) = t := by
  obtain ⟨x, hx, hmonth⟩ := exists_ofDay h
  have hbounds : -2 ^ 31 ≤ x.toInt ∧ x.toInt < 2 ^ 31 := by
    have hfirst := h.1
    have hlast := h.2.1
    unfold YearMonthDay.monthIndex at hmonth
    exact toInt_bounds (by omega) (by omega)
  have hcount : (ymdToDays t.y t.m t.d).toInt = x.toInt := by
    rw [← hx, ymdToDays_eq, Int32.toInt_ofInt_of_le hbounds.1 hbounds.2]
  rw [daysToYmd_eq hcount, hx]

/-- One day later is the next date. -/
theorem daysToYmd_succ {days : Int32} (h : days < Int32.maxValue) :
    daysToYmd (days + 1) = (daysToYmd days).next := by
  obtain ⟨x, hcount, hx⟩ := exists_day days
  obtain ⟨z, hz⟩ := Day.exists_toInt gregorian (days.toInt + 1)
  have hsucc : (days + 1).toInt = z.toInt := by
    have hlow := days.le_toInt
    have hhigh : days.toInt < 2 ^ 31 - 1 := Int32.lt_iff_toInt_lt.mp h
    rw [hz, Int32.toInt_add, Int.bmod_eq_of_le_mul_two]
    · rfl
    · show -((2 ^ 32 : ℕ) : ℤ) ≤ (days.toInt + 1) * 2
      omega
    · show (days.toInt + 1) * 2 < ((2 ^ 32 : ℕ) : ℤ)
      omega
  rw [daysToYmd_eq hsucc, hx, ofDay_next (by rw [hz, hcount])]

/-- Months later, while the result is a day of 32 bits; the kernel's own sum of months does not
    overflow then. -/
theorem daysToYmd_addMonths {days : Int32} {n : ℤ}
    (h : ∃ result, daysToYmd result = (daysToYmd days).later n) :
    daysToYmd (addMonths days n) = (daysToYmd days).later n ∧
      -2 ^ 31 ≤ (daysToYmd days).monthIndex + n ∧ (daysToYmd days).monthIndex + n < 2 ^ 31 := by
  obtain ⟨x, hcount, hx⟩ := exists_day days
  obtain ⟨result, hresult⟩ := h
  obtain ⟨z, hz, hzDate⟩ := exists_day result
  rw [hzDate, hx, ofDay_later] at hresult
  have hshift : z = x.shift n := ofDay_injective hresult
  have hsame : addMonths days n = result := by
    rw [addMonths_eq hcount, ← hshift, ← hz, Int32.ofInt_toInt]
  have hmonths := month_bounds (hz ▸ result.le_toInt) (hz ▸ result.toInt_lt)
  rw [hshift, Day.shift_month] at hmonths
  rw [hsame, hzDate, hx, ofDay_later, hshift, ofDay_monthIndex]
  refine ⟨rfl, ?_, ?_⟩ <;> omega

/-! ### Eligibility -/

/-- `is_deliverable`. -/
def isDeliverable (originalTermMaxMonths residualMinMonths residualMaxMonths : UInt32)
    (residualMaxMonthsUnbounded : Bool) (issueDate maturityDate deliveryMonthFirst : Int32) :
    Bool :=
  if originalTermMaxMonths = 0 ∨ residualMinMonths = 0 ∨
      (!residualMaxMonthsUnbounded ∧
        (residualMaxMonths = 0 ∨ residualMaxMonths < residualMinMonths)) ∨
      maturityDate ≤ issueDate then false
  else
    -- the casts of the months to a signed number
    let originalLimit := addMonths issueDate originalTermMaxMonths.toInt32.toInt
    let residualMinimum := addMonths deliveryMonthFirst residualMinMonths.toInt32.toInt
    if originalLimit < maturityDate ∨ maturityDate < residualMinimum then false
    else if !residualMaxMonthsUnbounded then
      let residualMaximum := addMonths deliveryMonthFirst residualMaxMonths.toInt32.toInt
      if residualMaximum < maturityDate then false else true
    else true

/-- The cast keeps the months that chrono accepts. -/
theorem toInt_toInt32 {months : UInt32} (h : months.toNat < 2 ^ 31) :
    months.toInt32.toInt = months.toNat := by
  show months.toBitVec.toInt = _
  rw [BitVec.toInt_eq_toNat_of_lt (by show 2 * months.toNat < 2 ^ 32; omega)]
  rfl

/-- The date that chrono finds is the one that the kernel finds. -/
theorem addMonths_of_addMonthsOrInvalid {date shifted : NaiveDate} {months : UInt32}
    (h : addMonthsOrInvalid date months = .ok shifted) :
    addMonths (epochDays date) months.toInt32.toInt = epochDays shifted := by
  rw [addMonthsOrInvalid_eq_ok] at h
  rw [toInt_toInt32 (NaiveDate.toDay_checkedAddMonths h).1]
  exact addMonths_epochDays h

/-- **The two eligibility tests agree.** -/
theorem isDeliverable_of_byDates {rule : FuturesDeliveryRule} {issue maturity first : NaiveDate}
    {b : Bool} (hdates : issue < maturity)
    (h : isDeliverableByDates rule issue maturity first = .ok b) :
    isDeliverable rule.originalTermMaxMonths rule.residualMinMonths
      (rule.residualMaxMonths.getD 0) rule.residualMaxMonths.isNone (epochDays issue)
      (epochDays maturity) (epochDays first) = b := by
  unfold isDeliverableByDates at h
  obtain ⟨limit, hlimit, h⟩ := bind_eq_ok.mp h
  obtain ⟨minimum, hminimum, h⟩ := bind_eq_ok.mp h
  have horder : ¬epochDays maturity ≤ epochDays issue := by
    rw [epochDays_le_iff]
    exact not_le.mpr hdates
  have hresidual := rule.residual_le
  have hpos := rule.residual_pos
  unfold isDeliverable
  rw [addMonths_of_addMonthsOrInvalid hlimit, addMonths_of_addMonthsOrInvalid hminimum]
  cases hmax : rule.residualMaxMonths with
  | none =>
    simp only [hmax] at h
    obtain rfl := Except.ok.inj h
    rw [if_neg (by simp [rule.original_pos, hpos, horder])]
    simp only [epochDays_lt_iff, Option.isNone_none, Bool.not_true, Bool.false_eq_true, if_false,
      Option.all_none, Bool.and_true]
    rw [Bool.eq_iff_iff]
    simp
  | some months =>
    simp only [hmax] at h
    rw [hmax] at hresidual
    obtain ⟨maximum, hmaximum, h⟩ := bind_eq_ok.mp h
    obtain ⟨largest, hlargest, rfl⟩ := map_eq_ok.mp hmaximum
    obtain rfl := Except.ok.inj h
    have hle : rule.residualMinMonths ≤ months := hresidual months rfl
    -- a maximum is never below the minimum, and so not zero
    have hmonths : ¬(months = 0 ∨ months < rule.residualMinMonths) := by
      rintro (rfl | hlt)
      · exact hpos (UInt32.le_antisymm hle (UInt32.zero_le))
      · exact UInt32.not_lt.mpr hle hlt
    rw [if_neg (by simp [rule.original_pos, hpos, horder, hmonths])]
    simp only [Option.getD_some, addMonths_of_addMonthsOrInvalid hlargest, epochDays_lt_iff,
      Option.isNone_some, Bool.not_false, if_true, Option.all_some]
    rw [Bool.eq_iff_iff]
    simp

/-- **The kernel's calendar is the Gregorian one, and both eligibility tests agree.** Every day
    number of 32 bits is a date, day by day from 1970-01-01 on; the conversions are inverse to each
    other; adding months moves by calendar months and clamps the day, with no overflow, whenever
    the result is a date that 32 bits count; and a delivery that chrono's dates can decide gets the
    same answer from the kernel. -/
theorem kernel_calendar_correct :
    (∀ days : Int32, (daysToYmd days).IsDate ∧
      ymdToDays (daysToYmd days).y (daysToYmd days).m (daysToYmd days).d = days) ∧
    (∀ t : YearMonthDay, t.IsDate → -5877640 ≤ t.y → t.y < 5881580 →
      daysToYmd (ymdToDays t.y t.m t.d) = t) ∧
    (daysToYmd 0 = ⟨1970, 1, 1⟩ ∧
      ∀ days < Int32.maxValue, daysToYmd (days + 1) = (daysToYmd days).next) ∧
    (∀ (days : Int32) (n : ℤ), (∃ result, daysToYmd result = (daysToYmd days).later n) →
      daysToYmd (addMonths days n) = (daysToYmd days).later n ∧
        -2 ^ 31 ≤ (daysToYmd days).monthIndex + n ∧ (daysToYmd days).monthIndex + n < 2 ^ 31) ∧
    ∀ (rule : FuturesDeliveryRule) (issue maturity first : NaiveDate) (b : Bool),
      issue < maturity → isDeliverableByDates rule issue maturity first = .ok b →
      isDeliverable rule.originalTermMaxMonths rule.residualMinMonths
        (rule.residualMaxMonths.getD 0) rule.residualMaxMonths.isNone (epochDays issue)
        (epochDays maturity) (epochDays first) = b :=
  ⟨fun days => ⟨daysToYmd_isDate days, ymdToDays_daysToYmd days⟩,
    fun _ h hlow hhigh => daysToYmd_ymdToDays h hlow hhigh,
    ⟨by decide, fun _ h => daysToYmd_succ h⟩,
    fun _ _ h => daysToYmd_addMonths h,
    fun _ _ _ _ _ hdates h => isDeliverable_of_byDates hdates h⟩

example : daysToYmd Int32.minValue = ⟨-5877641, 6, 23⟩ ∧
    daysToYmd Int32.maxValue = ⟨5881580, 7, 11⟩ ∧
    addMonths (ymdToDays 2024 1 31) 1 = ymdToDays 2024 2 29 := by
  decide

end Ficant.Kernel
