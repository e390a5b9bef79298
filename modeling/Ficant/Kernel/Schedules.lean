import Ficant.Kernel.Dates

namespace Ficant.Kernel

open Lib Lib.MonthCalendar

/-!
# The coupon schedules of the kernel

The coupon dates of a bond, in `bond_math.cpp` forward from the issue date and in
`futures_math.cpp` backward from the maturity.

* `generateNominalSchedule` — every date some months after the issue date itself;
* `couponScheduleDates` — every date one period before the one found last, until the issue date is
  reached;
* `coupon_schedules_agree_iff` — when the two lists are equal.

`couponScheduleDates` is the part of `coupon_schedule_metrics` that finds the dates; what that
function computes from them is not modelled here.
-/

/-! ### Forward from the issue date -/

/-- The loop of `generate_nominal_schedule` that counts the periods, with the room that is left. -/
def countPeriods (issueDate maturityDate : Int32) (monthsPerPeriod : ℤ) : ℕ → ℕ → Int32 → ℕ
  | 0, count, _ => count
  | room + 1, count, d =>
    if issueDate < d then
      countPeriods issueDate maturityDate monthsPerPeriod room (count + 1)
        (addMonths maturityDate (-(count + 1 : ℕ) * monthsPerPeriod))
    else count

/-- `generate_nominal_schedule`: the dates it writes. -/
def generateNominalSchedule (issueDate maturityDate : Int32) (frequency capacity : ℕ) : List Int32 :=
  if capacity = 0 then []
  else if maturityDate ≤ issueDate then []
  else
    let monthsPerPeriod : ℤ := if frequency = 2 then 6 else 12
    let count := countPeriods issueDate maturityDate monthsPerPeriod capacity 0 maturityDate
    let outDates := (List.range count).map fun i : ℕ =>
      addMonths issueDate ((i + 1 : ℕ) * monthsPerPeriod)
    -- the last date is made the maturity
    if outDates ≠ [] ∧ outDates.getLast? ≠ some maturityDate then outDates.dropLast ++ [maturityDate]
    else outDates

/-! ### Backward from the maturity -/

/-- The loop of `coupon_schedule_metrics`: the dates found so far and the next one, with the room
    that is left. -/
def walkBack (issueDate : Int32) (periodMonths : ℤ) : ℕ → List Int32 → Int32 → List Int32 × Int32
  | 0, coupons, couponDate => (coupons, couponDate)
  | room + 1, coupons, couponDate =>
    if issueDate < couponDate then
      walkBack issueDate periodMonths room (coupons ++ [couponDate])
        (addMonths couponDate (-periodMonths))
    else (coupons, couponDate)

/-- The coupon dates of `coupon_schedule_metrics`, or `none` where it refuses the bond before it uses
    them. -/
def couponScheduleDates (issueDate maturityDate : Int32) (frequency : ℕ) : Option (List Int32) :=
  if frequency = 0 then none
  else
    let periodMonths := 12 / frequency
    if periodMonths = 0 then none
    else
      let (coupons, couponDate) := walkBack issueDate periodMonths 1000 [] maturityDate
      if couponDate ≠ issueDate ∨ coupons = [] ∨ 1000 ≤ coupons.length then none
      else some coupons.reverse

/-! ### The two walks -/

/-- The day of the month of a date is there some months later. -/
def DayExists (date : Int32) (months : ℤ) : Prop :=
  let ⟨y, m, d⟩ := daysToYmd date
  let total := y * 12 + m - 1 + months
  d ≤ daysInMonth (total / 12) (total % 12 + 1).toNat

instance (date : Int32) (months : ℤ) : Decidable (DayExists date months) := by
  unfold DayExists
  infer_instance

theorem dayExists_iff {date : Int32} {x : gregorian.Day} (h : date.toInt = x.toInt) (months : ℤ) :
    DayExists date months ↔ x.number ≤ gregorian.length (x.month + months) := by
  have htotal : x.month / 12 * 12 + ((x.month % 12 + 1).toNat : ℕ) - 1 + months =
      x.month + months := by
    omega
  unfold DayExists
  rw [daysToYmd_eq h]
  simp only [ofDay, htotal, daysInMonth_eq]

/-! ### Dates of 32 bits -/

/-- Some months are not longer than that many times 31 days. -/
theorem gregorianStart_add_le (k : ℤ) (m : ℕ) :
    gregorianStart (k + m) ≤ gregorianStart k + 31 * m := by
  induction m with
  | zero => simp
  | succ m ih =>
    have hstep := gregorianStart_succ (k + m)
    have hlength := gregorianLength_le (k + m)
    push_cast
    rw [← add_assoc, hstep]
    omega

/-- A date of 32 bits that stands for a day. -/
theorem toInt_ofInt_day {x : gregorian.Day} (hlow : -2 ^ 31 ≤ x.toInt) (hhigh : x.toInt < 2 ^ 31) :
    (Int32.ofInt x.toInt).toInt = x.toInt := Int32.toInt_ofInt_of_le hlow hhigh

/-- The first date of 32 bits is the 23rd of its month, so a day from the 28th on has all earlier
    days from the 28th on in range. -/
theorem low_of_month_le {x y : gregorian.Day} (hx : -2 ^ 31 ≤ x.toInt) (hmonth : x.month ≤ y.month)
    (hnumber : min x.number 28 ≤ y.number) : -2 ^ 31 ≤ y.toInt := by
  rcases lt_or_eq_of_le hmonth with hlt | heq
  · have := Day.toInt_lt_of_month_lt hlt
    omega
  by_contra hlow
  have hxlength : x.number ≤ 31 := x.le_length.trans (gregorianLength_le x.month)
  have hdifference : x.toInt - y.toInt = x.number - y.number := by
    unfold Day.toInt
    rw [heq]
    ring
  -- such a day would be the 23rd, the 24th or the 25th
  have hfirst : gregorianStart (-70531687) = -2147483671 := by decide
  have hlength : gregorianLength (-70531687) = 30 := by decide
  obtain ⟨j, hj, hxj⟩ : ∃ j : ℕ, j ≤ 2 ∧ x.toInt = -2147483648 + j :=
    ⟨(x.toInt + 2147483648).toNat, by omega, by omega⟩
  let day : gregorian.Day := ⟨-70531687, 23 + j, by omega, by
    show 23 + j ≤ gregorianLength (-70531687)
    omega⟩
  have hday : day.toInt = x.toInt := by
    show gregorianStart (-70531687) + ((23 + j : ℕ) : ℤ) = _
    rw [hfirst, hxj]
    push_cast
    ring
  have hnumberEq : x.number = 23 + j := by rw [← Day.toInt_injective hday]
  omega

section Walks

variable {issueDate maturityDate : Int32} {x : gregorian.Day} {p : ℤ} {n : ℕ}

/-- A bond whose maturity is some periods after its issue date. -/
structure Periodic (issueDate maturityDate : Int32) (x : gregorian.Day) (p : ℤ) (n : ℕ) : Prop where
  issue : issueDate.toInt = x.toInt
  maturity : maturityDate.toInt = (x.shift (n * p)).toInt
  period : 0 < p

/-- A maturity after the issue date has not left the range. -/
theorem periodic_of_addMonths (hissue : issueDate.toInt = x.toInt) (hp : 0 < p) (hp12 : p ≤ 12)
    (hn : n ≤ 120) (hlt : issueDate < maturityDate)
    (hmaturity : maturityDate = addMonths issueDate (n * p)) :
    Periodic issueDate maturityDate x p n := by
  refine ⟨hissue, ?_, hp⟩
  have hlow := issueDate.le_toInt
  have hhigh := issueDate.toInt_lt
  rw [Int32.lt_iff_toInt_lt] at hlt
  obtain ⟨m, hm⟩ : ∃ m : ℕ, (m : ℤ) = n * p := ⟨(n * p).toNat, Int.toNat_of_nonneg (by positivity)⟩
  have hm1440 : m ≤ 1440 := by
    have : (n : ℤ) * p ≤ 120 * 12 := by
      apply mul_le_mul <;> omega
    omega
  have hstart := gregorianStart_add_le x.month m
  have hupper : (x.shift m).toInt ≤ x.toInt + 44671 := by
    have hnumber : (x.shift m).number ≤ 31 := (x.shift m).le_length.trans (gregorianLength_le _)
    have hpos := x.pos
    show gregorianStart (x.month + m) + ((x.shift m).number : ℤ) ≤ gregorianStart x.month +
      x.number + _
    omega
  have hlower : -2 ^ 31 ≤ (x.shift m).toInt := by
    refine low_of_month_le (x := x) (by omega) (by simp) ?_
    have h28 : 28 ≤ gregorian.length (x.month + m) := twentyEight_le_gregorianLength _
    rw [Day.shift_number]
    omega
  rw [hmaturity, addMonths_eq hissue, ← hm] at hlt ⊢
  by_cases hfits : (x.shift m).toInt < 2 ^ 31
  · exact toInt_ofInt_day hlower hfits
  · -- cut to 32 bits it would lie before the issue date
    rw [Int32.toInt_ofInt, Int.bmod_def] at hlt
    rw [show Int32.size = 4294967296 from rfl] at hlt
    split at hlt <;> omega

theorem Periodic.low (h : Periodic issueDate maturityDate x p n) {y : gregorian.Day}
    (hmonth : x.month ≤ y.month) (hnumber : min x.number 28 ≤ y.number) : -2 ^ 31 ≤ y.toInt := by
  have hissue := issueDate.le_toInt
  rw [h.issue] at hissue
  exact low_of_month_le hissue hmonth hnumber

/-- A day of a month before the maturity is in range. -/
theorem Periodic.high (h : Periodic issueDate maturityDate x p n) {y : gregorian.Day}
    (hmonth : y.month < (x.shift (n * p)).month) : y.toInt < 2 ^ 31 := by
  have hmaturity := maturityDate.toInt_lt
  rw [h.maturity] at hmaturity
  have := Day.toInt_lt_of_month_lt hmonth
  omega

/-! ### The way forward -/

/-- The periods are counted. -/
theorem Periodic.countPeriods_eq (h : Periodic issueDate maturityDate x p n) {room j : ℕ}
    {d : Int32} (hj : j ≤ n) (hroom : n ≤ room + j)
    (hd : d.toInt = ((x.shift (n * p)).shift (-j * p)).toInt) :
    countPeriods issueDate maturityDate p room j d = n := by
  have hp := h.period
  induction room generalizing j d with
  | zero =>
    rw [countPeriods]
    omega
  | succ room ih =>
    rw [countPeriods]
    rcases Nat.lt_or_ge j n with hlt | hge
    · -- still in a month after the issue date
      have hmonth : x.month < ((x.shift (n * p)).shift (-j * p)).month := by
        have : (0 : ℤ) < (n - j) * p := by
          apply mul_pos _ hp
          omega
        simp only [Day.shift_month]
        linarith
      have hafter : issueDate < d := by
        rw [Int32.lt_iff_toInt_lt, hd, h.issue]
        exact Day.toInt_lt_of_month_lt hmonth
      rw [if_pos hafter]
      apply ih (by omega) (by omega)
      rw [addMonths_eq h.maturity]
      have hnext : (0 : ℤ) ≤ (n - (j + 1)) * p := by
        apply mul_nonneg _ hp.le
        omega
      apply toInt_ofInt_day
      · refine h.low ?_ ?_
        · simp only [Day.shift_month]
          push_cast
          linarith
        · have h1 := twentyEight_le_gregorianLength (x.month + n * p)
          have h2 := twentyEight_le_gregorianLength (x.month + n * p + -(j + 1 : ℕ) * p)
          simp only [Day.shift_number, Day.shift_month]
          show _ ≤ min (min _ (gregorianLength _)) (gregorianLength _)
          omega
      · apply h.high
        simp only [Day.shift_month]
        push_cast
        have : (0 : ℤ) < (j + 1) * p := by positivity
        linarith
    · obtain rfl : j = n := by omega
      have hbefore : ¬ issueDate < d := by
        rw [Int32.lt_iff_toInt_lt, hd, h.issue, Day.toInt_lt_iff]
        simp only [Day.shift_month, Day.shift_number]
        have hmonth : x.month + j * p + -j * p = x.month := by ring
        rw [hmonth]
        omega
      rw [if_neg hbefore]

/-- **The way forward** visits every period after the issue date. -/
theorem Periodic.generateNominalSchedule_eq (h : Periodic issueDate maturityDate x p n) {frequency : ℕ}
    (hfrequency : (if frequency = 2 then 6 else 12) = p) (hpos : 1 ≤ n) (hn : n ≤ 120) :
    generateNominalSchedule issueDate maturityDate frequency 120 =
      (List.range n).map fun i : ℕ => Int32.ofInt (x.shift ((i + 1 : ℕ) * p)).toInt := by
  have hlt : ¬ maturityDate ≤ issueDate := by
    rw [Int32.le_iff_toInt_le, not_le, h.issue, h.maturity]
    have : (0 : ℤ) < n * p := mul_pos (by omega) h.period
    apply Day.toInt_lt_of_month_lt
    simp only [Day.shift_month]
    linarith
  have hcount : countPeriods issueDate maturityDate p 120 0 maturityDate = n := by
    apply h.countPeriods_eq (Nat.zero_le _) (by omega)
    rw [h.maturity, Nat.cast_zero, neg_zero, zero_mul, Day.shift_zero]
  have hdates : (List.range n).map (fun i : ℕ => addMonths issueDate ((i + 1 : ℕ) * p)) =
      (List.range n).map fun i : ℕ => Int32.ofInt (x.shift ((i + 1 : ℕ) * p)).toInt := by
    apply List.map_congr_left
    intro i _
    exact addMonths_eq h.issue _
  -- the last of them is the maturity
  have hlast : ((List.range n).map fun i : ℕ =>
      Int32.ofInt (x.shift ((i + 1 : ℕ) * p)).toInt).getLast? = some maturityDate := by
    obtain ⟨m, rfl⟩ : ∃ m, n = m + 1 := ⟨n - 1, by omega⟩
    rw [List.range_succ, List.map_append, List.map_singleton, List.getLast?_concat, ← h.maturity,
      Int32.ofInt_toInt]
  unfold generateNominalSchedule
  rw [if_neg (by decide), if_neg hlt]
  simp only [hfrequency, hcount, hdates, hlast]
  rw [if_neg (fun hbad => hbad.2 rfl)]

/-! ### The way back -/

theorem Periodic.back_month_lt (h : Periodic issueDate maturityDate x p n) {j : ℕ} (hj : j < n) :
    x.month < ((x.shift (n * p)).back p j).month := by
  rw [Day.back_shift_month x p hj.le, Day.shift_month]
  have : (0 : ℤ) < ((n - j : ℕ) : ℤ) * p := mul_pos (by omega) h.period
  linarith

theorem Periodic.back_month_last (x : gregorian.Day) (p : ℤ) (n : ℕ) :
    ((x.shift (n * p)).back p n).month = x.month := by
  rw [Day.back_shift_month x p le_rfl, Day.shift_month, Nat.sub_self]
  simp

/-- Every day on the way back is in range. -/
theorem Periodic.back_toInt (h : Periodic issueDate maturityDate x p n) {j : ℕ} (hj : j ≤ n) :
    (Int32.ofInt ((x.shift (n * p)).back p j).toInt).toInt = ((x.shift (n * p)).back p j).toInt := by
  have hp := h.period
  apply toInt_ofInt_day
  -- No month is shorter than the clamped day, so the date is not before the first month.
  · refine h.low ?_ ?_
    · rcases Nat.lt_or_ge j n with hlt | hge
      · exact (h.back_month_lt hlt).le
      · obtain rfl : j = n := by omega
        exact (Periodic.back_month_last x p j).ge
    · rw [Day.le_back_number_iff]
      have hlength : ∀ k, min x.number 28 ≤ gregorian.length k := by
        intro k
        have := twentyEight_le_gregorianLength k
        show _ ≤ gregorianLength k
        omega
      exact ⟨le_min (min_le_left _ _) (hlength _), fun i _ _ => hlength _⟩
  · rcases Nat.eq_zero_or_pos j with rfl | hpos
    · have := maturityDate.toInt_lt
      rw [h.maturity] at this
      exact this
    · apply h.high
      rw [Day.back_month]
      have : (0 : ℤ) < j * p := mul_pos (by omega) hp
      linarith

/-- **The way back** visits the days of `back`. -/
theorem Periodic.walkBack_eq (h : Periodic issueDate maturityDate x p n) {room j : ℕ}
    {coupons : List Int32} {d : Int32} (hj : j ≤ n) (hroom : n ≤ room + j)
    (hd : d.toInt = ((x.shift (n * p)).back p j).toInt) :
    walkBack issueDate p room coupons d =
      (coupons ++ (List.range' j (n - j)).map fun i : ℕ =>
        Int32.ofInt ((x.shift (n * p)).back p i).toInt,
      Int32.ofInt ((x.shift (n * p)).back p n).toInt) := by
  -- By induction on the room: `j` dates are already listed and `d` is the next one back.
  induction room generalizing j coupons d with
  | zero =>
    obtain rfl : j = n := by omega
    rw [walkBack, Nat.sub_self, ← hd, Int32.ofInt_toInt]
    simp
  | succ room ih =>
    rw [walkBack]
    rcases Nat.lt_or_ge j n with hlt | hge
    · have hafter : issueDate < d := by
        rw [Int32.lt_iff_toInt_lt, hd, h.issue]
        exact Day.toInt_lt_of_month_lt (h.back_month_lt hlt)
      have hnext : (addMonths d (-p)).toInt = ((x.shift (n * p)).back p (j + 1)).toInt := by
        rw [addMonths_eq hd, ← Day.back_succ]
        exact h.back_toInt hlt
      obtain ⟨m, hm⟩ : ∃ m, n - j = m + 1 := ⟨n - j - 1, by omega⟩
      rw [if_pos hafter, ih (by omega) (by omega) hnext, hm, List.range'_succ, List.map_cons, ← hd,
        Int32.ofInt_toInt, show n - (j + 1) = m by omega, List.append_assoc, List.singleton_append]
    · obtain rfl : j = n := by omega
      have hbefore : ¬ issueDate < d := by
        rw [Int32.lt_iff_toInt_lt, hd, h.issue, Day.toInt_lt_iff, Periodic.back_month_last]
        have := Day.back_shift_number_le x p j j
        omega
      rw [if_neg hbefore, Nat.sub_self, ← hd, Int32.ofInt_toInt]
      simp

/-- The walk ends on the issue date exactly when no month is too short. -/
theorem Periodic.back_eq_issue_iff (h : Periodic issueDate maturityDate x p n) :
    Int32.ofInt ((x.shift (n * p)).back p n).toInt = issueDate ↔ x.Kept p n := by
  rw [← Int32.toInt_inj, h.back_toInt le_rfl, h.issue, Day.toInt_injective.eq_iff]
  exact Day.back_shift_eq_iff

/-- The dates found on the way back, or the refusal. -/
theorem Periodic.couponScheduleDates_eq (h : Periodic issueDate maturityDate x p n) {frequency : ℕ}
    (hfrequency : frequency ≠ 0) (hp : ((12 / frequency : ℕ) : ℤ) = p) (hpos : 1 ≤ n) (hn : n ≤ 120) :
    (x.Kept p n → couponScheduleDates issueDate maturityDate frequency =
      some ((List.range n).map fun i : ℕ => Int32.ofInt (x.shift ((i + 1 : ℕ) * p)).toInt)) ∧
    (¬ x.Kept p n → couponScheduleDates issueDate maturityDate frequency = none) := by
  -- Walking back lists every date, the issue date left out.
  have hwalk : walkBack issueDate p 1000 [] maturityDate = _ :=
    h.walkBack_eq (j := 0) (Nat.zero_le n) (by omega) (show maturityDate.toInt = _ from h.maturity)
  have hperiod : 12 / frequency ≠ 0 := by
    have := h.period
    omega
  have hdates : couponScheduleDates issueDate maturityDate frequency = (
      let (coupons, couponDate) := walkBack issueDate p 1000 [] maturityDate
      if couponDate ≠ issueDate ∨ coupons = [] ∨ 1000 ≤ coupons.length then none
      else some coupons.reverse) := by
    rw [couponScheduleDates, if_neg hfrequency, ← hp]
    exact if_neg hperiod
  rw [hdates, hwalk]
  simp only [List.nil_append, Nat.sub_zero, ne_eq]
  constructor
  -- The days are kept, so the walk ends on the issue date and is read in reverse.
  · intro hkept
    have hne : (List.range' 0 n).map (fun i : ℕ =>
        Int32.ofInt ((x.shift (n * p)).back p i).toInt) ≠ [] := by
      rw [ne_eq, List.map_eq_nil_iff]
      intro hnil
      have := congrArg List.length hnil
      rw [List.length_range'] at this
      exact absurd this (by simp; omega)
    rw [if_neg]
    · rw [Option.some.injEq]
      apply List.ext_getElem
      · simp
      intro i hi _
      simp only [List.length_reverse, List.length_map, List.length_range'] at hi
      simp only [List.getElem_reverse, List.getElem_map, List.getElem_range', List.length_map,
        List.length_range', List.getElem_range]
      rw [show 0 + 1 * (n - 1 - i) = n - 1 - i by omega, hkept.back_eq (by omega),
        show n - (n - 1 - i) = i + 1 by omega]
    · rw [not_or, not_or, not_not]
      refine ⟨h.back_eq_issue_iff.mpr hkept, hne, ?_⟩
      simp only [List.length_map, List.length_range']
      omega
  · intro hkept
    rw [if_pos (.inl fun hend => hkept (h.back_eq_issue_iff.mp hend))]

end Walks

/-- **The two schedules agree** for a bond of some whole periods exactly when the day of its issue
    is there in every month on the way. -/
theorem coupon_schedules_agree_iff (issueDate maturityDate : Int32) (frequency n : ℕ)
    (hfrequency : frequency = 1 ∨ frequency = 2) (hpos : 1 ≤ n) (hn : n ≤ 120)
    (hlt : issueDate < maturityDate)
    (hmaturity : maturityDate = addMonths issueDate (n * (12 / frequency : ℕ))) :
    couponScheduleDates issueDate maturityDate frequency =
        some (generateNominalSchedule issueDate maturityDate frequency 120) ↔
      ∀ i : ℕ, 1 ≤ i → i ≤ n → DayExists issueDate (i * (12 / frequency : ℕ)) := by
  obtain ⟨x, hx⟩ := Day.exists_toInt gregorian issueDate.toInt
  obtain ⟨p, hp⟩ : ∃ p : ℤ, ((12 / frequency : ℕ) : ℤ) = p := ⟨_, rfl⟩
  have hvalues : p = 12 ∧ frequency ≠ 2 ∨ p = 6 ∧ frequency = 2 := by
    rcases hfrequency with rfl | rfl
    · exact .inl ⟨hp.symm, by decide⟩
    · exact .inr ⟨hp.symm, rfl⟩
  have hforward : (if frequency = 2 then 6 else 12) = p := by split <;> omega
  rw [hp] at hmaturity ⊢
  -- Both schedules are computed from the same number of whole periods.
  have h := periodic_of_addMonths hx.symm (by omega) (by omega) hn hlt hmaturity
  obtain ⟨hkept, hrefused⟩ := h.couponScheduleDates_eq (by omega) hp hpos hn
  have hcondition : (∀ i : ℕ, 1 ≤ i → i ≤ n → DayExists issueDate (i * p)) ↔ x.Kept p n := by
    simp only [dayExists_iff hx.symm]
    rfl
  rw [hcondition, h.generateNominalSchedule_eq hforward hpos hn]
  constructor
  · intro heq
    by_contra hnot
    rw [hrefused hnot] at heq
    cases heq
  · exact hkept

/-! ### A bond of the last day of August -/

/-- Issued on 2020-08-31, for a year, with two coupons: the first walk visits 2021-02-28 and
    2021-08-31, the second one ends on 2020-08-28. -/
theorem coupon_schedules_differ :
    (18505 : Int32) < 18870 ∧ (18870 : Int32) = addMonths 18505 (2 * (12 / 2 : ℕ)) ∧
    generateNominalSchedule 18505 18870 2 120 = [18686, 18870] ∧
    couponScheduleDates 18505 18870 2 = none := by
  decide +kernel

theorem coupon_schedules_agree_iff_sample :
    (18506 : Int32) < 18871 ∧ couponScheduleDates 18506 18871 2 = some [18687, 18871] := by
  have hagree := (coupon_schedules_agree_iff 18506 18871 2 2 (.inr rfl) (by decide) (by decide)
    (by decide +kernel) (by decide +kernel)).mpr (by
      intro i h1 h2
      interval_cases i <;> decide +kernel)
  rw [show generateNominalSchedule 18506 18871 2 120 = [18687, 18871] by decide +kernel] at hagree
  exact ⟨by decide +kernel, hagree⟩

end Ficant.Kernel
