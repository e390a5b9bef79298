import Ficant.Kernel.Schedules

namespace Ficant.Kernel

open Lib Lib.MonthCalendar

/-!
# The full schedule of a bond

Every date some periods after the issue date that is before the maturity, and the maturity.

* `fullSchedule` — what a bond pays on;
* `generateNominalSchedule_eq` — what `generate_nominal_schedule` writes for any two dates;
* `generateNominalSchedule_eq_iff` — it is the full schedule exactly when there is room for it and
  the maturity is not a later day of a month than the issue date could be.
-/

/-- The months from one date to another, by the months they are in. -/
def monthsBetween (first last : Int32) : ℤ :=
  let ⟨y₁, m₁, _⟩ := daysToYmd first
  let ⟨y₂, m₂, _⟩ := daysToYmd last
  y₂ * 12 + m₂ - (y₁ * 12 + m₁)

/-- The full schedule: the dates a number of periods after the issue date that come before the
    maturity, and the maturity.  Later dates are in later months. -/
def fullSchedule (issueDate maturityDate : Int32) (p : ℤ) : List Int32 :=
  ((List.range (monthsBetween issueDate maturityDate / p).toNat).map fun i : ℕ =>
    addMonths issueDate ((i + 1 : ℕ) * p)).filter (· < maturityDate) ++ [maturityDate]

/-- The issue date is the last day of its month, and the maturity is on a later day of a month whole
    periods after it. -/
def MonthEndStub (issueDate maturityDate : Int32) (p : ℤ) : Prop :=
  let ⟨y₁, m₁, d₁⟩ := daysToYmd issueDate
  p ∣ monthsBetween issueDate maturityDate ∧ d₁ = daysInMonth y₁ m₁ ∧ d₁ < (daysToYmd maturityDate).d

instance (issueDate maturityDate : Int32) (p : ℤ) :
    Decidable (MonthEndStub issueDate maturityDate p) := by
  unfold MonthEndStub
  infer_instance

/-- A bond whose dates are far enough from the ends of 32 bits for all periods that are counted. -/
structure Dated (issueDate maturityDate : Int32) (x z : gregorian.Day) (p : ℤ) : Prop where
  issue : issueDate.toInt = x.toInt
  maturity : maturityDate.toInt = z.toInt
  ordered : x.toInt < z.toInt
  period : 0 < p
  year : p ≤ 12
  low : -2 ^ 31 + 50000 ≤ x.toInt
  high : z.toInt < 2 ^ 31 - 50000

section Dated

variable {issueDate maturityDate : Int32} {x z : gregorian.Day} {p : ℤ}

/-! ### Dates of 32 bits -/

theorem gregorian_number_le (y : gregorian.Day) : y.number ≤ 31 :=
  y.le_length.trans (gregorianLength_le y.month)

/-- How far some months reach, in days. -/
theorem shift_toInt_le (y : gregorian.Day) (m : ℕ) : (y.shift m).toInt ≤ y.toInt + 31 * (m + 1) := by
  have hstart := gregorianStart_add_le y.month m
  have hnumber := gregorian_number_le (y.shift m)
  show gregorianStart (y.month + m) + ((y.shift m).number : ℤ) ≤ gregorianStart y.month + y.number + _
  omega

/-- A shift back is no longer than its months can be. -/
theorem le_shift_neg_toInt (y : gregorian.Day) (m : ℕ) :
    y.toInt - 31 * (m + 1) ≤ (y.shift (-m)).toInt := by
  have hstart := gregorianStart_add_le (y.month + -m) m
  rw [neg_add_cancel_right] at hstart
  have hnumber := gregorian_number_le y
  have hpos := (y.shift (-m)).pos
  show gregorianStart y.month + y.number - 31 * (m + 1) ≤
    gregorianStart (y.month + -m) + ((y.shift (-m)).number : ℤ)
  omega

/-- The months of up to 120 periods. -/
theorem Dated.exists_months (h : Dated issueDate maturityDate x z p) {k : ℕ} (hk : k ≤ 120) :
    ∃ m : ℕ, (m : ℤ) = k * p ∧ m ≤ 1440 := by
  have hpos := h.period
  have hle : (k : ℤ) * p ≤ 120 * 12 := by
    apply mul_le_mul _ h.year hpos.le (by norm_num)
    omega
  have hnonneg : (0 : ℤ) ≤ k * p := by positivity
  exact ⟨(k * p).toNat, Int.toNat_of_nonneg hnonneg, by omega⟩

/-- No date on the way forward leaves 32 bits. -/
theorem Dated.forward_toInt (h : Dated issueDate maturityDate x z p) {k : ℕ} (hk : k ≤ 120) :
    (addMonths issueDate (k * p)).toInt = (x.shift (k * p)).toInt := by
  obtain ⟨m, hm, hle⟩ := h.exists_months hk
  have hlow := h.low
  have hhigh := h.high
  have hordered := h.ordered
  have hupper := shift_toInt_le x m
  have hlower : x.toInt ≤ (x.shift m).toInt := by
    rcases Nat.eq_zero_or_pos m with rfl | hpos
    · rw [Nat.cast_zero, Day.shift_zero]
    · have := Day.shift_lt_shift x (show (0 : ℤ) < m by omega)
      rw [Day.shift_zero] at this
      exact this.le
  rw [addMonths_eq h.issue, ← hm]
  apply Int32.toInt_ofInt_of_le <;> omega

/-- Nor does one on the way back. -/
theorem Dated.backward_toInt (h : Dated issueDate maturityDate x z p) {k : ℕ} (hk : k ≤ 120) :
    (addMonths maturityDate (-(k : ℤ) * p)).toInt = (z.shift (-(k * p))).toInt := by
  obtain ⟨m, hm, hle⟩ := h.exists_months hk
  have hlow := h.low
  have hhigh := h.high
  have hordered := h.ordered
  have hlower := le_shift_neg_toInt z m
  have hupper : (z.shift (-m)).toInt ≤ z.toInt := by
    rcases Nat.eq_zero_or_pos m with rfl | hpos
    · rw [Nat.cast_zero, neg_zero, Day.shift_zero]
    · have := Day.shift_lt_shift z (show (-m : ℤ) < 0 by omega)
      rw [Day.shift_zero] at this
      exact this.le
  have hneg : -(k : ℤ) * p = -(k * p) := by ring
  rw [addMonths_eq h.maturity, hneg, ← hm]
  apply Int32.toInt_ofInt_of_le <;> omega

/-! ### The count of the periods -/

/-- The periods are counted back until the issue date is reached, or there is no room left. -/
theorem Dated.countPeriods_spec (h : Dated issueDate maturityDate x z p) {room j : ℕ} {d : Int32}
    (hroom : j + room ≤ 120) (hd : d.toInt = (z.shift (-(j * p))).toInt) :
    let count := countPeriods issueDate maturityDate p room j d
    j ≤ count ∧ count ≤ j + room ∧
      (∀ k : ℕ, j ≤ k → k < count → x.toInt < (z.shift (-(k * p))).toInt) ∧
      (count < j + room → (z.shift (-(count * p))).toInt ≤ x.toInt) := by
  -- By induction on the room: every step counted so far lies after the issue date.
  induction room generalizing j d with
  | zero =>
    rw [countPeriods]
    refine ⟨le_rfl, le_rfl, fun k hjk hkj => absurd hkj (by omega), fun hlt => absurd hlt (by omega)⟩
  | succ room ih =>
    rw [countPeriods]
    by_cases hafter : issueDate < d
    · rw [if_pos hafter]
      have hnext := h.backward_toInt (k := j + 1) (by omega)
      obtain ⟨hle, hroomLe, hbefore, hend⟩ := ih (j := j + 1) (by omega) hnext
      refine ⟨by omega, by omega, ?_, fun hlt => hend (by omega)⟩
      intro k hjk hk
      rcases Nat.eq_or_lt_of_le hjk with rfl | hlt
      · rw [Int32.lt_iff_toInt_lt, h.issue, hd] at hafter
        exact hafter
      · exact hbefore k hlt hk
    · rw [if_neg hafter]
      rw [Int32.lt_iff_toInt_lt, not_lt, h.issue, hd] at hafter
      exact ⟨le_rfl, by omega, fun k hjk hkj => absurd hkj (by omega), fun _ => hafter⟩

/-- The count of a bond. -/
theorem Dated.exists_count (h : Dated issueDate maturityDate x z p) :
    ∃ c : ℕ, countPeriods issueDate maturityDate p 120 0 maturityDate = c + 1 ∧ c + 1 ≤ 120 ∧
      (∀ k : ℕ, k ≤ c → x.toInt < (z.shift (-(k * p))).toInt) ∧
      (c + 1 < 120 → (z.shift (-((c + 1 : ℕ) * p))).toInt ≤ x.toInt) := by
  have hstart : (z.shift (-((0 : ℕ) * p))) = z := by
    rw [Nat.cast_zero, zero_mul, neg_zero, Day.shift_zero]
  obtain ⟨-, hle, hbefore, hend⟩ := @Dated.countPeriods_spec _ _ _ _ _ h 120 0 _ (by norm_num)
    (h.maturity.trans (by rw [hstart]))
  rw [Nat.zero_add] at hle hend
  generalize countPeriods issueDate maturityDate p 120 0 maturityDate = count at hle hbefore hend ⊢
  obtain _ | c := count
  · -- the maturity itself is after the issue date
    have hreached := hend (by norm_num)
    rw [hstart] at hreached
    exact absurd h.ordered (not_lt.mpr hreached)
  · exact ⟨c, rfl, hle, fun k hk => hbefore k (Nat.zero_le k) (by omega), hend⟩

/-- **What `generate_nominal_schedule` writes**: the dates after the periods it counted, the last one
    made the maturity. -/
theorem generateNominalSchedule_eq {c frequency : ℕ} (hordered : issueDate < maturityDate)
    (hfrequency : (if frequency = 2 then 6 else 12) = p)
    (hcount : countPeriods issueDate maturityDate p 120 0 maturityDate = c + 1) :
    generateNominalSchedule issueDate maturityDate frequency 120 =
      (List.range c).map (fun i : ℕ => addMonths issueDate ((i + 1 : ℕ) * p)) ++ [maturityDate] := by
  have hnot : ¬maturityDate ≤ issueDate := Int32.not_le.mpr hordered
  unfold generateNominalSchedule
  rw [if_neg (by decide), if_neg hnot]
  simp only [hfrequency, hcount, List.range_succ, List.map_append, List.map_cons, List.map_nil]
  split
  · rw [List.dropLast_concat]
  · rename_i hlast
    -- the last date is the maturity already
    rw [not_and_not_right] at hlast
    have hsame := hlast (by simp)
    rw [List.getLast?_concat] at hsame
    rw [Option.some.inj hsame]

/-! ### The full schedule -/

/-- The numbers below a bound come first. -/
theorem filter_range_of_le {q n : ℕ} {P : ℕ → Bool} (hle : n ≤ q)
    (h : ∀ i < q, P i = true ↔ i < n) : (List.range q).filter P = List.range n := by
  obtain ⟨m, rfl⟩ := Nat.exists_eq_add_of_le hle
  rw [List.range_add, List.filter_append]
  have hfirst : (List.range n).filter P = List.range n := by
    rw [List.filter_eq_self]
    intro i hi
    have hlt := List.mem_range.mp hi
    exact (h i (by omega)).mpr hlt
  have hsecond : ((List.range m).map (n + ·)).filter P = [] := by
    rw [List.filter_eq_nil_iff]
    intro i hi
    obtain ⟨k, hk, rfl⟩ := List.mem_map.mp hi
    have hlt := List.mem_range.mp hk
    rw [h (n + k) (by omega)]
    omega
  rw [hfirst, hsecond, List.append_nil]

/-- The months between two dates are those of the calendar. -/
theorem monthsBetween_eq (hx : issueDate.toInt = x.toInt) (hz : maturityDate.toInt = z.toInt) :
    monthsBetween issueDate maturityDate = z.month - x.month := by
  unfold monthsBetween
  rw [daysToYmd_eq hx, daysToYmd_eq hz]
  show z.month / 12 * 12 + ((z.month % 12 + 1).toNat : ℤ) -
    (x.month / 12 * 12 + ((x.month % 12 + 1).toNat : ℤ)) = _
  omega

/-- The maturity is in no earlier month than the issue. -/
theorem Dated.month_le (h : Dated issueDate maturityDate x z p) : x.month ≤ z.month := by
  have hordered := Day.toInt_lt_iff.mp h.ordered
  omega

/-- The dates up to the month of the maturity are in range. -/
theorem Dated.forward_toInt_of_month (h : Dated issueDate maturityDate x z p) {k : ℕ}
    (hmonth : x.month + k * p ≤ z.month) :
    (addMonths issueDate (k * p)).toInt = (x.shift (k * p)).toInt := by
  have hlow := h.low
  have hhigh := h.high
  have hpos := h.period
  -- The date lies between the issue date and the end of the month of maturity.
  have hlower : x.toInt ≤ (x.shift (k * p)).toInt := by
    rcases Nat.eq_zero_or_pos k with rfl | hk
    · rw [Nat.cast_zero, zero_mul, Day.shift_zero]
    · have hstep := Day.shift_lt_shift x (show (0 : ℤ) < k * p by positivity)
      rw [Day.shift_zero] at hstep
      exact hstep.le
  have hupper : (x.shift (k * p)).toInt ≤ z.toInt + 31 := by
    have hnumber := gregorian_number_le (x.shift (k * p))
    rcases lt_or_eq_of_le hmonth with hlt | heq
    · have hbefore : (x.shift (k * p)).toInt < z.toInt := Day.toInt_lt_of_month_lt hlt
      omega
    · show gregorianStart (x.month + k * p) + ((x.shift (k * p)).number : ℤ) ≤
        gregorianStart z.month + z.number + 31
      rw [heq]
      omega
  rw [addMonths_eq h.issue]
  apply Int32.toInt_ofInt_of_le <;> omega

/-- **The full schedule**: the dates before the maturity are those of the first periods. -/
theorem Dated.exists_fullSchedule (h : Dated issueDate maturityDate x z p) :
    ∃ n : ℕ, fullSchedule issueDate maturityDate p =
        (List.range n).map (fun i : ℕ => addMonths issueDate ((i + 1 : ℕ) * p)) ++ [maturityDate] ∧
      (∀ k : ℕ, 0 < k → k ≤ n → (x.shift (k * p)).toInt < z.toInt) ∧
      z.toInt ≤ (x.shift ((n + 1 : ℕ) * p)).toInt := by
  have hpos := h.period
  have hmonth := h.month_le
  obtain ⟨q, hq⟩ : ∃ q : ℕ, (q : ℤ) = (z.month - x.month) / p :=
    ⟨((z.month - x.month) / p).toNat,
      Int.toNat_of_nonneg (Int.ediv_nonneg (by omega) hpos.le)⟩
  have hle : (q : ℤ) * p ≤ z.month - x.month := hq ▸ Int.ediv_mul_le _ hpos.ne'
  have hlt : z.month - x.month < (q + 1) * p := hq ▸ Int.lt_ediv_add_one_mul_self _ hpos
  have hearlier : ∀ k : ℕ, k < q → (x.shift (k * p)).toInt < z.toInt := by
    intro k hk
    apply Day.toInt_lt_of_month_lt
    have : (k + 1 : ℤ) * p ≤ q * p := by
      apply mul_le_mul_of_nonneg_right _ hpos.le
      omega
    simp only [Day.shift_month]
    linarith
  have hlater : z.toInt ≤ (x.shift ((q + 1 : ℕ) * p)).toInt := by
    apply le_of_lt
    apply Day.toInt_lt_of_month_lt
    simp only [Day.shift_month]
    push_cast
    linarith
  -- the last of these dates may lie in the month of the maturity
  obtain ⟨n, hnq, hbefore, hafter⟩ : ∃ n, n ≤ q ∧ (∀ k : ℕ, 0 < k → k ≤ q →
      ((x.shift (k * p)).toInt < z.toInt ↔ k ≤ n)) ∧ z.toInt ≤ (x.shift ((n + 1 : ℕ) * p)).toInt := by
    by_cases hlast : 0 < q ∧ z.toInt ≤ (x.shift (q * p)).toInt
    · obtain ⟨r, rfl⟩ : ∃ r, q = r + 1 := ⟨q - 1, by omega⟩
      refine ⟨r, Nat.le_succ r, fun k hk hkq => ?_, hlast.2⟩
      rcases Nat.eq_or_lt_of_le hkq with rfl | hsmall
      · exact iff_of_false (not_lt.mpr hlast.2) (by omega)
      · exact iff_of_true (hearlier k hsmall) (by omega)
    · refine ⟨q, le_rfl, fun k hk hkq => iff_of_true ?_ hkq, hlater⟩
      rcases Nat.eq_or_lt_of_le hkq with rfl | hsmall
      · exact not_le.mp fun hreached => hlast ⟨hk, hreached⟩
      · exact hearlier k hsmall
  refine ⟨n, ?_, fun k hk hkn => (hbefore k hk (hkn.trans hnq)).mpr hkn, hafter⟩
  unfold fullSchedule
  rw [monthsBetween_eq h.issue h.maturity, ← hq, Int.toNat_natCast, List.filter_map,
    filter_range_of_le hnq]
  intro i hi
  have hdate : (addMonths issueDate ((i + 1 : ℕ) * p)).toInt = (x.shift ((i + 1 : ℕ) * p)).toInt := by
    apply h.forward_toInt_of_month
    have : ((i + 1 : ℕ) : ℤ) * p ≤ q * p := by
      apply mul_le_mul_of_nonneg_right _ hpos.le
      omega
    linarith
  rw [Function.comp_apply, decide_eq_true_eq, Int32.lt_iff_toInt_lt, hdate, h.maturity,
    hbefore (i + 1) (Nat.succ_pos i) (by omega)]
  exact Nat.succ_le_iff

/-- The dates of a schedule come after the issue date, in order. -/
theorem Dated.schedule_sorted (h : Dated issueDate maturityDate x z p) {m : ℕ}
    (hbefore : ∀ k : ℕ, 0 < k → k ≤ m → (x.shift (k * p)).toInt < z.toInt) :
    ((List.range m).map (fun i : ℕ => addMonths issueDate ((i + 1 : ℕ) * p)) ++
        [maturityDate]).Pairwise (· < ·) ∧
      ∀ date ∈ (List.range m).map (fun i : ℕ => addMonths issueDate ((i + 1 : ℕ) * p)) ++
        [maturityDate], issueDate < date := by
  have hpos := h.period
  -- Every date is the issue date some periods on, clamped only within its month.
  have hdate : ∀ i : ℕ, i < m →
      (addMonths issueDate ((i + 1 : ℕ) * p)).toInt = (x.shift ((i + 1 : ℕ) * p)).toInt := by
    intro i hi
    apply h.forward_toInt_of_month
    have hlt := Day.toInt_lt_iff.mp (hbefore (i + 1) (Nat.succ_pos i) hi)
    simp only [Day.shift_month] at hlt
    omega
  refine ⟨?_, ?_⟩
  · rw [List.pairwise_append]
    refine ⟨?_, List.pairwise_singleton _ _, ?_⟩
    · rw [List.pairwise_map]
      refine List.pairwise_lt_range.imp_of_mem ?_
      intro i j hi hj hij
      rw [Int32.lt_iff_toInt_lt, hdate i (List.mem_range.mp hi), hdate j (List.mem_range.mp hj)]
      apply Day.shift_lt_shift
      exact mul_lt_mul_of_pos_right (by omega) hpos
    · intro date hmem last hlast
      obtain ⟨i, hi, rfl⟩ := List.mem_map.mp hmem
      rw [List.mem_singleton.mp hlast, Int32.lt_iff_toInt_lt, hdate i (List.mem_range.mp hi),
        h.maturity]
      exact hbefore (i + 1) (Nat.succ_pos i) (List.mem_range.mp hi)
  · intro date hmem
    rw [Int32.lt_iff_toInt_lt, h.issue]
    rcases List.mem_append.mp hmem with hmem | hmem
    · obtain ⟨i, hi, rfl⟩ := List.mem_map.mp hmem
      have hstep := Day.shift_lt_shift x (show (0 : ℤ) < (i + 1 : ℕ) * p by positivity)
      rw [Day.shift_zero] at hstep
      rw [hdate i (List.mem_range.mp hi)]
      exact hstep
    · rw [List.mem_singleton.mp hmem, h.maturity]
      exact h.ordered

/-- What is true of both schedules of a bond. -/
structure ScheduleOf (issueDate maturityDate : Int32) (dates : List Int32) : Prop where
  sorted : dates.Pairwise (· < ·)
  after : ∀ date ∈ dates, issueDate < date
  last : ∃ before, dates = before ++ [maturityDate]

/-- No date is after the maturity. -/
theorem ScheduleOf.le {dates : List Int32} (h : ScheduleOf issueDate maturityDate dates)
    {date : Int32} (hmem : date ∈ dates) : date ≤ maturityDate := by
  obtain ⟨before, rfl⟩ := h.last
  rcases List.mem_append.mp hmem with hbefore | hlast
  · exact Int32.le_of_lt ((List.pairwise_append.mp h.sorted).2.2 date hbefore maturityDate (by simp))
  · rw [List.mem_singleton.mp hlast]
    exact Int32.le_refl _

/-- The whole schedule is one of the bond. -/
theorem Dated.fullSchedule_scheduleOf (h : Dated issueDate maturityDate x z p) :
    ScheduleOf issueDate maturityDate (fullSchedule issueDate maturityDate p) := by
  obtain ⟨n, hfull, hbefore, -⟩ := h.exists_fullSchedule
  obtain ⟨hsorted, hafter⟩ := h.schedule_sorted hbefore
  rw [hfull]
  exact ⟨hsorted, hafter, _, rfl⟩

/-- So is the one of the kernel as long as it is not cut off. -/
theorem Dated.generateNominalSchedule_scheduleOf (h : Dated issueDate maturityDate x z p)
    {frequency : ℕ} (hfrequency : (if frequency = 2 then 6 else 12) = p) :
    ScheduleOf issueDate maturityDate
        (generateNominalSchedule issueDate maturityDate frequency 120) ∧
      (generateNominalSchedule issueDate maturityDate frequency 120).length ≤ 120 := by
  have hordered : issueDate < maturityDate := by
    rw [Int32.lt_iff_toInt_lt, h.issue, h.maturity]
    exact h.ordered
  obtain ⟨c, hc, hroom, hbefore, -⟩ := h.exists_count
  rw [generateNominalSchedule_eq hordered hfrequency hc]
  obtain ⟨hsorted, hafter⟩ := h.schedule_sorted (m := c) fun k hk hkc => by
    -- a date that reached the maturity would have ended the count
    by_contra hreached
    have hback : (z.shift (-(k * p))).toInt ≤ x.toInt :=
      Day.shift_neg_le_iff.mpr (.inl (not_lt.mp hreached))
    have := hbefore k hkc
    omega
  exact ⟨⟨hsorted, hafter, _, rfl⟩, by simpa using hroom⟩

/-! ### When they are equal -/

/-- **The stub at the end of a month**, in months and days. -/
theorem monthEndStub_iff (hx : issueDate.toInt = x.toInt) (hz : maturityDate.toInt = z.toInt) :
    MonthEndStub issueDate maturityDate p ↔
      p ∣ z.month - x.month ∧ x.number = gregorian.length x.month ∧ x.number < z.number := by
  unfold MonthEndStub
  rw [daysToYmd_eq hx, daysToYmd_eq hz, monthsBetween_eq hx hz]
  show p ∣ _ ∧ x.number = daysInMonth (x.month / 12) (x.month % 12 + 1).toNat ∧ _ ↔ _
  rw [daysInMonth_eq]
  rfl

/-- The dates some periods after a day, in order. -/
theorem Dated.shift_le_shift (h : Dated issueDate maturityDate x z p) {j k : ℕ} (hle : j ≤ k) :
    (x.shift (j * p)).toInt ≤ (x.shift (k * p)).toInt := by
  have hpos := h.period
  rcases Nat.eq_or_lt_of_le hle with rfl | hlt
  · exact le_rfl
  · apply le_of_lt
    apply Day.shift_lt_shift
    exact mul_lt_mul_of_pos_right (by omega) hpos

/-- A stub at the end of a month is a number of periods away, where going back finds the issue date
    and going forward stays before the maturity. -/
theorem Dated.exists_stub (h : Dated issueDate maturityDate x z p)
    (hstub : MonthEndStub issueDate maturityDate p) :
    ∃ k : ℕ, (z.shift (-(k * p))).toInt ≤ x.toInt ∧ (x.shift (k * p)).toInt < z.toInt := by
  obtain ⟨⟨t, ht⟩, hlast, hlater⟩ := (monthEndStub_iff h.issue h.maturity).mp hstub
  have hmonth := h.month_le
  have hpos := h.period
  have hnonneg : 0 ≤ t := by
    by_contra hneg
    have := mul_neg_of_pos_of_neg hpos (not_le.mp hneg)
    omega
  obtain ⟨k, rfl⟩ := Int.eq_ofNat_of_zero_le hnonneg
  have hsame : z.month = x.month + k * p := by linarith
  refine ⟨k, Day.shift_neg_le_iff.mpr (.inr ⟨hsame, hlast, hlater⟩), ?_⟩
  rw [Day.toInt_lt_iff]
  refine .inr ⟨hsame.symm, ?_⟩
  exact lt_of_le_of_lt (min_le_left _ _) hlater

/-- **The schedule is the full one** exactly when the maturity is at most 120 periods away and not a
    later day of a month than the issue date could be. -/
theorem Dated.generateNominalSchedule_eq_iff (h : Dated issueDate maturityDate x z p) {frequency : ℕ}
    (hfrequency : (if frequency = 2 then 6 else 12) = p) :
    (generateNominalSchedule issueDate maturityDate frequency 120 =
        fullSchedule issueDate maturityDate p ↔
      maturityDate ≤ addMonths issueDate (120 * p) ∧ ¬MonthEndStub issueDate maturityDate p) ∧
    ((generateNominalSchedule issueDate maturityDate frequency 120).length =
        (fullSchedule issueDate maturityDate p).length →
      generateNominalSchedule issueDate maturityDate frequency 120 =
        fullSchedule issueDate maturityDate p) := by
  have hordered : issueDate < maturityDate := by
    rw [Int32.lt_iff_toInt_lt, h.issue, h.maturity]
    exact h.ordered
  obtain ⟨c, hc, hroom, hbefore, hend⟩ := h.exists_count
  obtain ⟨n, hfull, hearlier, hafter⟩ := h.exists_fullSchedule
  rw [generateNominalSchedule_eq hordered hfrequency hc, hfull]
  refine ⟨?_, fun hlength => ?_⟩
  swap
  · obtain rfl : c = n := by simpa using hlength
    rfl
  have hcount : (List.range c).map (fun i : ℕ => addMonths issueDate ((i + 1 : ℕ) * p)) ++
    [maturityDate] =
      (List.range n).map (fun i : ℕ => addMonths issueDate ((i + 1 : ℕ) * p)) ++ [maturityDate] ↔
        c = n := by
    constructor
    · intro heq
      simpa using congrArg List.length heq
    · rintro rfl
      rfl
  have hreach : maturityDate ≤ addMonths issueDate (120 * p) ↔ n + 1 ≤ 120 := by
    have hdate := h.forward_toInt (k := 120) le_rfl
    rw [Int32.le_iff_toInt_le, h.maturity, show (120 : ℤ) * p = (120 : ℕ) * p from rfl, hdate]
    constructor
    · intro hle
      by_contra hlarge
      exact absurd (hearlier 120 (by norm_num) (by omega)) (not_lt.mpr hle)
    · intro hsmall
      exact hafter.trans (h.shift_le_shift hsmall)
  rw [hcount, hreach]
  constructor
  · rintro rfl
    refine ⟨hroom, fun hstub => ?_⟩
    obtain ⟨k, hback, hforward⟩ := h.exists_stub hstub
    -- the stub is reached after the count ended
    have hk : c + 1 ≤ k := by
      by_contra hsmall
      exact absurd (hbefore k (by omega)) (not_lt.mpr hback)
    have hle := h.shift_le_shift hk
    omega
  · rintro ⟨hsmall, hstub⟩
    have hagree : ∀ k : ℕ, (z.shift (-(k * p))).toInt ≤ x.toInt →
        z.toInt ≤ (x.shift (k * p)).toInt := by
      intro k hback
      rcases Day.shift_neg_le_iff.mp hback with hforward | ⟨hmonth, hlast, hlater⟩
      · exact hforward
      · refine absurd ((monthEndStub_iff h.issue h.maturity).mpr ⟨⟨k, ?_⟩, hlast, hlater⟩) hstub
        linarith
    apply le_antisymm
    · by_contra hlarge
      have hlt := hbefore (n + 1) (by omega)
      have hback : (z.shift (-((n + 1 : ℕ) * p))).toInt ≤ x.toInt :=
        Day.shift_neg_le_iff.mpr (.inl hafter)
      omega
    · by_contra hlarge
      have hle := hagree (c + 1) (hend (by omega))
      have hlt := hearlier (c + 1) (Nat.succ_pos c) (by omega)
      omega

end Dated

end Ficant.Kernel
