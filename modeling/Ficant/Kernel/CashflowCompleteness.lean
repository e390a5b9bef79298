import Ficant.Kernel.CashflowList

namespace Ficant.Kernel

open Lib Lib.MonthCalendar Analytics

/-!
# No contractual cashflow is lost

The calls of the kernel against the full schedule of a bond, for all settlements.

* `dueDates` — the dates of the full schedule that are paid after a settlement;
* `CallsComplete`, `CarryAdds` — the calls of one settlement report them, and the lists of two
  settlements fit together;
* `no_cashflow_lost_iff` — the bonds for which that is so.
-/

variable {F : Type} [Doubles F]

/-- The months of a coupon period. -/
def periodMonths : CouponFrequency → ℤ
  | .annual => 12
  | .semiannual => 6

/-- The dates of the full schedule that are paid after the settlement, with their payment dates. -/
def dueDates (terms : BondTerms) (calcInput : CalculateInput F) : List (Int32 × Int32) :=
  ((fullSchedule (epochDays terms.firstIssueDate) (epochDays terms.maturityDate)
    (periodMonths terms.frequency)).map fun date => (date, paymentDate calcInput date)).filter
      fun due => calcInput.settlementDate < due.2

/-- The cashflows of some dates, in order and with the principal on the last one only. -/
def CashflowsOf (dates : List (Int32 × Int32)) (faceValue : F) (cashflows : List (RawCashflow F)) :
    Prop :=
  cashflows.map (fun cashflow => (cashflow.nominalDate, cashflow.paymentDate)) = dates ∧
    (cashflows.map RawCashflow.nominalDate).Pairwise (· < ·) ∧
    (cashflows.map RawCashflow.paymentDate).Pairwise (· ≤ ·) ∧
    ∃ before last, cashflows = before ++ [last] ∧ last.principal = faceValue ∧
      ∀ cashflow ∈ before, cashflow.principal = Doubles.zero

section Property

variable (pricing : BondInput F → CalculateInput F → List Int32 → Except PricingFailure (Measures F))

/-- The sizing call and the filling call report as many cashflows as are due, and those that are
    returned are the due ones. -/
def CallsComplete (terms : BondTerms) (calcInput : CalculateInput F) : Prop :=
  (∃ sizing filling, sizingCall pricing (bondInput terms) calcInput = some sizing ∧
    fillingCall pricing (bondInput terms) calcInput sizing.result.cashflowCount = some filling ∧
    sizing.result.cashflowCount = (dueDates terms calcInput).length ∧
    filling.result.cashflowCount = (dueDates terms calcInput).length ∧
    (filling.status = .ok → ∃ written, filling.cashflows = some written ∧
      CashflowsOf (dueDates terms calcInput) (bondInput (F := F) terms).faceValue written)) ∧
  ∃ status result cashflows,
    calculate pricing (bondInput terms) calcInput = some (status, result, cashflows) ∧
    (status = .ok →
      CashflowsOf (dueDates terms calcInput) (bondInput (F := F) terms).faceValue cashflows)

/-- The cashflows of a settlement are those paid up to a later one, and those of the later one. -/
def CarryAdds (bond : BondInput F) (first second : CalculateInput F) : Prop :=
  ∀ firstResult firstFlows secondResult secondFlows,
    calculate pricing bond first = some (.ok, firstResult, firstFlows) →
    calculate pricing bond second = some (.ok, secondResult, secondFlows) →
    firstFlows.map RawCashflow.entry =
      (firstFlows.filter fun flow => flow.paymentDate ≤ second.settlementDate).map
        RawCashflow.entry ++ secondFlows.map RawCashflow.entry

/-- A settlement that is asked of the kernel for a bond. -/
def Settles (terms : BondTerms) (settlement : NaiveDate) : Prop :=
  terms.firstIssueDate ≤ settlement ∧ settlement < terms.maturityDate

/-- **No contractual cashflow is lost**, at any settlement and between any two. -/
def NoCashflowLost (terms : BondTerms) (calendar : CalendarBinding) : Prop :=
  (∀ settlement mode value, Settles terms settlement → 0 < value.scaled →
    CallsComplete pricing terms (calculateInput calendar .referenceReplay settlement mode value)) ∧
  ∀ first firstMode firstValue second secondMode secondValue, Settles terms first →
    Settles terms second → first < second → 0 < firstValue.scaled → 0 < secondValue.scaled →
    CarryAdds pricing (bondInput terms)
      (calculateInput calendar .referenceReplay first firstMode firstValue)
      (calculateInput calendar .referenceReplay second secondMode secondValue)

end Property

/-! ### Lists -/

/-- A list in the order of a key is cut by a bound. -/
theorem filter_le_append_filter_lt {α : Type} {key : α → Int32} {bound : Int32} {l : List α}
    (h : l.Pairwise fun a b => key a ≤ key b) :
    l = (l.filter fun a => key a ≤ bound) ++ l.filter fun a => bound < key a := by
  induction l with
  | nil => rfl
  | cons a rest ih =>
    obtain ⟨hfirst, hrest⟩ := List.pairwise_cons.mp h
    rw [List.filter_cons, List.filter_cons]
    by_cases hle : key a ≤ bound
    · have hnot : ¬bound < key a := Int32.not_lt.mpr hle
      rw [if_pos (by simpa using hle), if_neg (by simpa using hnot), List.cons_append, ← ih hrest]
    · -- everything after is later still
      have hlt : bound < key a := Int32.not_le.mp hle
      have hnone : (rest.filter fun b => key b ≤ bound) = [] := by
        rw [List.filter_eq_nil_iff]
        intro b hb
        have hlater := Int32.lt_of_lt_of_le hlt (hfirst b hb)
        simpa using Int32.not_le.mpr hlater
      have hall : (rest.filter fun b => bound < key b) = rest := by
        rw [List.filter_eq_self]
        intro b hb
        simpa using Int32.lt_of_lt_of_le hlt (hfirst b hb)
      rw [if_neg (by simpa using hle), if_pos (by simpa using hlt), hnone, hall, List.nil_append]

/-! ### The bond of the terms -/

section Bond

variable {terms : BondTerms} {calendar : CalendarBinding}

/-- The dates of a bond are far from the ends of 32 bits. -/
theorem dated (terms : BondTerms) :
    Dated (epochDays terms.firstIssueDate) (epochDays terms.maturityDate)
      terms.firstIssueDate.toDay terms.maturityDate.toDay (periodMonths terms.frequency) := by
  have hissue := epochDays_bounds terms.firstIssueDate
  have hmaturity := epochDays_bounds terms.maturityDate
  refine ⟨epochDays_toInt _, epochDays_toInt _, NaiveDate.toDay_lt_iff.mpr terms.ordered, ?_, ?_, ?_,
    ?_⟩
  · cases terms.frequency <;> decide
  · cases terms.frequency <;> decide
  · rw [NaiveDate.toDay_toInt]
    omega
  · rw [NaiveDate.toDay_toInt]
    omega

theorem frequency_eq (terms : BondTerms) :
    (if (bondInput (F := F) terms).frequency.toNat = 2 then (6 : ℤ) else 12) =
      periodMonths terms.frequency := by
  unfold bondInput
  cases terms.frequency <;> rfl

variable {settlement : NaiveDate} {mode : AnalyticsMode} {value : FixedDecimal}

/-- Every date of a schedule has a payment date. -/
theorem exists_adjustDate_of_scheduleOf {dates : List Int32}
    (h : ScheduleOf (epochDays terms.firstIssueDate) (epochDays terms.maturityDate) dates) :
    ∀ date ∈ dates, ∃ adjusted, adjustDate date
      (calculateInput (F := F) calendar .referenceReplay settlement mode value) = some adjusted := by
  intro date hdate
  have hmaturity := epochDays_bounds terms.maturityDate
  have hend := epochDays_bounds calendar.coverageEnd
  have hle := h.le hdate
  rw [Int32.le_iff_toInt_le, epochDays_toInt, NaiveDate.toDay_toInt] at hle
  apply exists_adjustDate
  · omega
  · show (epochDays calendar.coverageEnd).toInt < _
    rw [epochDays_toInt, NaiveDate.toDay_toInt]
    omega

/-- The payment dates of a schedule are in order. -/
theorem paymentDates_sorted {dates : List Int32}
    (h : ScheduleOf (epochDays terms.firstIssueDate) (epochDays terms.maturityDate) dates) :
    dates.Pairwise fun a b =>
      paymentDate (calculateInput (F := F) calendar .referenceReplay settlement mode value) a ≤
        paymentDate (calculateInput (F := F) calendar .referenceReplay settlement mode value) b := by
  have hadjust := @exists_adjustDate_of_scheduleOf F _ _ calendar
    settlement mode value _ h
  refine h.sorted.imp_of_mem fun ha hb hlt => ?_
  exact paymentDate_mono (Int32.le_of_lt hlt) (hadjust _ ha) (hadjust _ hb)

/-- The maturity is paid after every settlement before it. -/
theorem settlement_lt_payment (hsettles : Settles terms settlement) :
    epochDays settlement < paymentDate
      (calculateInput (F := F) calendar .referenceReplay settlement mode value)
      (epochDays terms.maturityDate) :=
  Int32.lt_of_lt_of_le (epochDays_lt_iff.mpr hsettles.2) (le_paymentDate _)

/-- The due cashflows of a schedule, the last one with the principal. -/
theorem dueFlows_concat {dates : List Int32}
    (h : ScheduleOf (epochDays terms.firstIssueDate) (epochDays terms.maturityDate) dates)
    (hsettles : Settles terms settlement) :
    ∃ before last, dueFlows (bondInput (F := F) terms)
        (calculateInput calendar .referenceReplay settlement mode value) dates = before ++ [last] ∧
      last.principal = (bondInput (F := F) terms).faceValue ∧
      ∀ flow ∈ before, flow.principal = Doubles.zero := by
  obtain ⟨early, rfl⟩ := h.last
  obtain ⟨before, hflows, hzero⟩ := flows_concat
    (paymentDate (calculateInput (F := F) calendar .referenceReplay settlement mode value))
    (couponAmount (bondInput (F := F) terms)) (bondInput (F := F) terms).faceValue early
    (epochDays terms.maturityDate)
  refine ⟨before.filter fun flow => epochDays settlement < flow.paymentDate,
    cashflowEntry (couponAmount (bondInput (F := F) terms)) (bondInput (F := F) terms).faceValue
      (epochDays terms.maturityDate) (paymentDate
        (calculateInput (F := F) calendar .referenceReplay settlement mode value)
        (epochDays terms.maturityDate)) true, ?_, rfl,
    fun flow hflow => hzero flow (List.mem_of_mem_filter hflow)⟩
  · unfold dueFlows
    rw [hflows, List.filter_append]
    congr 1
    rw [List.filter_cons, if_pos]
    · rfl
    · exact decide_eq_true (settlement_lt_payment hsettles)

/-- What is written for the full schedule is what is due. -/
theorem cashflowsOf_of_entries {written : List (RawCashflow F)}
    (hsettles : Settles terms settlement)
    (hentries : written.map RawCashflow.entry = dueFlows (bondInput (F := F) terms)
      (calculateInput calendar .referenceReplay settlement mode value)
      (fullSchedule (epochDays terms.firstIssueDate) (epochDays terms.maturityDate)
        (periodMonths terms.frequency))) :
    CashflowsOf (dueDates terms
        (calculateInput (F := F) calendar .referenceReplay settlement mode value))
      (bondInput (F := F) terms).faceValue written := by
  have hschedule := (dated terms).fullSchedule_scheduleOf
  have hdates : written.map (fun cashflow => (cashflow.nominalDate, cashflow.paymentDate)) =
      dueDates terms (calculateInput (F := F) calendar .referenceReplay settlement mode value) := by
    unfold dueDates
    rw [← dueFlows_dates (bondInput (F := F) terms), ← hentries, List.map_map]
    rfl
  refine ⟨hdates, ?_, ?_, ?_⟩
  · -- a part of the schedule, which is in order
    have hnominal : written.map RawCashflow.nominalDate =
        (dueDates terms (calculateInput (F := F) calendar .referenceReplay settlement mode value)).map
          Prod.fst := by
      rw [← hdates, List.map_map]
      rfl
    rw [hnominal, List.pairwise_map]
    refine List.Pairwise.filter _ ?_
    rw [List.pairwise_map]
    exact hschedule.sorted
  · have hpayment : written.map RawCashflow.paymentDate =
        (dueDates terms (calculateInput (F := F) calendar .referenceReplay settlement mode value)).map
          Prod.snd := by
      rw [← hdates, List.map_map]
      rfl
    rw [hpayment, List.pairwise_map]
    refine List.Pairwise.filter _ ?_
    rw [List.pairwise_map]
    exact paymentDates_sorted hschedule
  · obtain ⟨before, last, hdue, hlast, hbefore⟩ := @dueFlows_concat F _ _ calendar
      _ mode value _ hschedule hsettles
    rw [hdue] at hentries
    obtain ⟨first, final, rfl, hfirst, hfinal⟩ := List.map_eq_append_iff.mp hentries
    obtain ⟨cashflow, rfl, rfl⟩ := List.map_eq_singleton_iff.mp hfinal
    refine ⟨first, cashflow, rfl, hlast, fun flow hflow => ?_⟩
    exact hbefore flow.entry (hfirst ▸ List.mem_map_of_mem hflow)

/-- At the issue date the whole schedule is due. -/
theorem length_due_issue {dates : List Int32} (value : FixedDecimal)
    (h : ScheduleOf (epochDays terms.firstIssueDate) (epochDays terms.maturityDate) dates) :
    (dueFlows (bondInput (F := F) terms)
      (calculateInput calendar .referenceReplay terms.firstIssueDate .yieldIn value) dates).length =
      dates.length := by
  rw [← length_flows (paymentDate (calculateInput (F := F) calendar .referenceReplay
    terms.firstIssueDate .yieldIn value)) (couponAmount (bondInput (F := F) terms))
    (bondInput (F := F) terms).faceValue dates]
  unfold dueFlows
  rw [List.filter_eq_self.mpr]
  intro flow hflow
  have hpair : (flow.nominalDate, flow.paymentDate) ∈ dates.map fun date =>
      (date, paymentDate (calculateInput (F := F) calendar .referenceReplay terms.firstIssueDate
        .yieldIn value) date) := by
    rw [← flows_dates _ (couponAmount (bondInput (F := F) terms)) (bondInput (F := F) terms).faceValue]
    exact List.mem_map_of_mem hflow
  obtain ⟨date, hdate, hsame⟩ := List.mem_map.mp hpair
  rw [← (Prod.mk.inj hsame).2, decide_eq_true_eq]
  exact Int32.lt_of_lt_of_le (h.after date hdate) (le_paymentDate date)

/-! ### The calls -/

variable [LawfulDoubles F]

/-- A coupon bond has its dates generated. -/
theorem nominalSchedule_bondInput (hcoupon : 0 < terms.couponRate.scaled) :
    nominalSchedule (bondInput (F := F) terms) =
      generateNominalSchedule (epochDays terms.firstIssueDate) (epochDays terms.maturityDate)
        (bondInput (F := F) terms).frequency.toNat 120 := by
  have hpos := LawfulDoubles.pos_scaled (F := F) _ hcoupon terms.couponRate.range
  have hzero : Doubles.beq (bondInput (F := F) terms).couponRate Doubles.zero = false :=
    LawfulDoubles.not_beq_of_lt _ _ hpos
  unfold nominalSchedule
  rw [if_neg (by rw [hzero]; exact Bool.false_ne_true)]
  rfl

/-- The schedule of the kernel, in order up to the maturity. -/
theorem nominalSchedule_scheduleOf (hcoupon : 0 < terms.couponRate.scaled) :
    ScheduleOf (epochDays terms.firstIssueDate) (epochDays terms.maturityDate)
        (nominalSchedule (bondInput (F := F) terms)) ∧
      (nominalSchedule (bondInput (F := F) terms)).length ≤ 120 := by
  rw [nominalSchedule_bondInput hcoupon]
  exact (dated terms).generateNominalSchedule_scheduleOf (frequency_eq terms)

variable {pricing : BondInput F → CalculateInput F → List Int32 → Except PricingFailure (Measures F)}

/-- The calls of a settlement, by the schedule of the kernel. -/
theorem calls_eq (hcoupon : 0 < terms.couponRate.scaled) (calendar : CalendarBinding)
    (hsettles : Settles terms settlement) (mode : AnalyticsMode) (value : FixedDecimal) :
    let calcInput : CalculateInput F :=
      calculateInput calendar .referenceReplay settlement mode value
    let due := dueFlows (bondInput (F := F) terms) calcInput
      (nominalSchedule (bondInput (F := F) terms))
    (∃ sizing filling, sizingCall pricing (bondInput terms) calcInput = some sizing ∧
      fillingCall pricing (bondInput terms) calcInput sizing.result.cashflowCount = some filling ∧
      sizing.result.cashflowCount = due.length ∧ filling.result.cashflowCount = due.length ∧
      (filling.status = .ok → ∃ written, filling.cashflows = some written ∧
        written.map RawCashflow.entry = due)) ∧
    ∃ status result cashflows,
      calculate pricing (bondInput terms) calcInput = some (status, result, cashflows) ∧
      (status = .ok → cashflows.map RawCashflow.entry = due) := by
  intro calcInput due
  obtain ⟨hschedule, hlength⟩ := nominalSchedule_scheduleOf (F := F) hcoupon
  have hbond := validateBondInput_bondInput (F := F) hcoupon
  have hcalc := validateCalcInput_calculateInput (F := F) calendar .referenceReplay settlement mode
    value
  -- A reference replay requires nothing of the coverage.
  have hcovered : Covered (bondInput (F := F) terms) calcInput := fun hexact => by cases hexact
  have hcounts : calcInput.nonBusinessDays.length < 2 ^ 32 ∧
      calcInput.workWeekends.length < 2 ^ 32 := by
    refine ⟨?_, ?_⟩
    · show (calendar.nonBusinessDays.map epochDays).length < _
      rw [List.length_map]
      exact length_lt_of_pairwise calendar.nonBusinessDays_sorted
    · show (calendar.workWeekends.map epochDays).length < _
      rw [List.length_map]
      exact length_lt_of_pairwise calendar.workWeekends_sorted
  have hne : nominalSchedule (bondInput (F := F) terms) ≠ [] := by
    obtain ⟨before, hlast⟩ := hschedule.last
    rw [hlast]
    simp
  have hadjust := @exists_adjustDate_of_scheduleOf F _ _ calendar
    settlement mode value _ hschedule
  have hdue : due ≠ [] := by
    obtain ⟨before, last, hconcat, -, -⟩ := @dueFlows_concat F _ _ calendar
      _ mode value _ hschedule hsettles
    show dueFlows _ _ _ ≠ []
    rw [hconcat]
    simp
  -- The schedule never exceeds the room that the caller provides.
  have hroom : due.length ≤ maxCashflows := by
    have hfilter : due.length ≤ (nominalSchedule (bondInput (F := F) terms)).length := by
      refine (List.length_filter_le _ _).trans ?_
      rw [length_flows]
    exact (hfilter.trans hlength).trans (by decide)
  obtain ⟨sizing, hsizing, -, hsizingCount, -⟩ := @sizingCall_eq _ _ pricing _ _ hbond hcalc hcovered
    hne hadjust hdue
  obtain ⟨filling, hfilling, hfillingCount, -, -, hwritten⟩ := @fillingCall_eq _ _ pricing _ _ hbond
    hcalc hcovered hne hadjust hdue
  obtain ⟨status, result, cashflows, hcalculate, -, hentries⟩ := @calculate_eq _ _ pricing _ _
    hbond hcalc hcovered hcounts hne hadjust hdue hroom
  refine ⟨⟨sizing, filling, hsizing, ?_, hsizingCount, hfillingCount, hwritten⟩,
    status, result, cashflows, hcalculate, hentries⟩
  rw [hsizingCount]
  exact hfilling

/-- **The lists of two settlements fit together**, whatever the schedule is. -/
theorem carryAdds (hcoupon : 0 < terms.couponRate.scaled) (calendar : CalendarBinding)
    {first second : NaiveDate} (hfirst : Settles terms first) (hsecond : Settles terms second)
    (hlt : first < second) (firstMode secondMode : AnalyticsMode)
    (firstValue secondValue : FixedDecimal) :
    CarryAdds pricing (bondInput terms)
      (calculateInput calendar .referenceReplay first firstMode firstValue)
      (calculateInput calendar .referenceReplay second secondMode secondValue) := by
  obtain ⟨hschedule, -⟩ := nominalSchedule_scheduleOf (F := F) hcoupon
  intro firstResult firstFlows secondResult secondFlows hfirstCall hsecondCall
  obtain ⟨-, _, _, firstWritten, hfirstEq, hfirstEntries⟩ :=
    @calls_eq _ _ _ _ _ pricing hcoupon calendar
    hfirst firstMode firstValue
  obtain ⟨-, _, _, secondWritten, hsecondEq, hsecondEntries⟩ :=
    @calls_eq _ _ _ _ _ pricing hcoupon calendar
    hsecond secondMode secondValue
  obtain ⟨rfl, rfl, rfl⟩ : _ ∧ _ ∧ _ := by
    simpa [Prod.ext_iff] using hfirstEq.symm.trans hfirstCall
  obtain ⟨rfl, rfl, rfl⟩ : _ ∧ _ ∧ _ := by
    simpa [Prod.ext_iff] using hsecondEq.symm.trans hsecondCall
  replace hfirstEntries := hfirstEntries rfl
  replace hsecondEntries := hsecondEntries rfl
  have hkept : (firstWritten.filter fun flow => flow.paymentDate ≤ epochDays second).map
      RawCashflow.entry =
      (firstWritten.map RawCashflow.entry).filter fun flow => flow.paymentDate ≤ epochDays second := by
    rw [List.filter_map]
    rfl
  show _ = (firstWritten.filter fun flow => flow.paymentDate ≤ epochDays second).map
    RawCashflow.entry ++ _
  rw [hkept, hfirstEntries, hsecondEntries]
  -- the cashflows of the first settlement, cut at the second one
  have hsorted : (flows (paymentDate (calculateInput (F := F) calendar .referenceReplay first firstMode
      firstValue)) (couponAmount (bondInput (F := F) terms)) (bondInput (F := F) terms).faceValue
      (nominalSchedule (bondInput (F := F) terms))).Pairwise
        fun a b => a.paymentDate ≤ b.paymentDate := by
    have hpairs : ((nominalSchedule (bondInput (F := F) terms)).map fun date =>
        (date, paymentDate (calculateInput (F := F) calendar .referenceReplay first firstMode
          firstValue) date)).Pairwise fun a b => a.2 ≤ b.2 := by
      rw [List.pairwise_map]
      exact paymentDates_sorted hschedule
    rw [← flows_dates _ (couponAmount (bondInput (F := F) terms)) (bondInput (F := F) terms).faceValue,
      List.pairwise_map] at hpairs
    exact hpairs
  have hcut := @filter_le_append_filter_lt _ CashflowEntry.paymentDate
    (epochDays second) _ (List.Pairwise.filter
      (fun flow => decide (epochDays first < flow.paymentDate)) hsorted)
  refine hcut.trans (congrArg _ ?_)
  rw [List.filter_filter]
  apply List.filter_congr
  intro flow _
  have hlater : epochDays second < flow.paymentDate → epochDays first < flow.paymentDate :=
    Int32.lt_trans (epochDays_lt_iff.mpr hlt)
  rw [Bool.eq_iff_iff, Bool.and_eq_true, decide_eq_true_eq, decide_eq_true_eq, decide_eq_true_eq]
  exact ⟨fun h => h.1, fun h => ⟨h, hlater h⟩⟩

/-- The calls of a bond with its full schedule. -/
theorem callsComplete_of_eq (hcoupon : 0 < terms.couponRate.scaled) (calendar : CalendarBinding)
    (hsettles : Settles terms settlement) (mode : AnalyticsMode) (value : FixedDecimal)
    (hfull : nominalSchedule (bondInput (F := F) terms) =
      fullSchedule (epochDays terms.firstIssueDate) (epochDays terms.maturityDate)
        (periodMonths terms.frequency)) :
    CallsComplete pricing terms
      (calculateInput (F := F) calendar .referenceReplay settlement mode value) := by
  obtain ⟨⟨sizing, filling, hsizing, hfilling, hsizingCount, hfillingCount, hwritten⟩, status, result,
    cashflows, hcalculate, hentries⟩ := @calls_eq _ _ _ _ _ pricing hcoupon calendar hsettles mode
      value
  rw [hfull] at hsizingCount hfillingCount hwritten hentries
  have hlength : (dueFlows (bondInput (F := F) terms)
      (calculateInput calendar .referenceReplay settlement mode value)
      (fullSchedule (epochDays terms.firstIssueDate) (epochDays terms.maturityDate)
        (periodMonths terms.frequency))).length =
      (dueDates terms
        (calculateInput (F := F) calendar .referenceReplay settlement mode value)).length := by
    unfold dueDates
    rw [← dueFlows_dates (bondInput (F := F) terms), List.length_map]
  refine ⟨⟨sizing, filling, hsizing, hfilling, hsizingCount.trans hlength,
    hfillingCount.trans hlength, fun hok => ?_⟩, status, result, cashflows, hcalculate,
    fun hok => cashflowsOf_of_entries hsettles (hentries hok)⟩
  obtain ⟨written, hcashflows, hdue⟩ := hwritten hok
  exact ⟨written, hcashflows, cashflowsOf_of_entries hsettles hdue⟩

/-- At the issue date every date is due, so the number of cashflows gives the schedule away. -/
theorem schedule_eq_of_noCashflowLost (hcoupon : 0 < terms.couponRate.scaled)
    (h : NoCashflowLost pricing terms calendar) :
    nominalSchedule (bondInput (F := F) terms) =
      fullSchedule (epochDays terms.firstIssueDate) (epochDays terms.maturityDate)
        (periodMonths terms.frequency) := by
  have hissue : Settles terms terms.firstIssueDate := ⟨le_rfl, terms.ordered⟩
  obtain ⟨⟨sizing, _, hsizing, -, hcount, -⟩, -⟩ := h.1 terms.firstIssueDate .yieldIn
    terms.faceAmount hissue terms.face_pos
  obtain ⟨⟨sizing', _, hsizing', -, hcount', -⟩, -⟩ := @calls_eq _ _ _ _ _ pricing hcoupon calendar
    hissue .yieldIn terms.faceAmount
  obtain rfl := Option.some.inj (hsizing.symm.trans hsizing')
  obtain ⟨hschedule, -⟩ := nominalSchedule_scheduleOf (F := F) hcoupon
  rw [length_due_issue terms.faceAmount hschedule] at hcount'
  unfold dueDates at hcount
  rw [← dueFlows_dates (bondInput (F := F) terms), List.length_map,
    length_due_issue terms.faceAmount (dated terms).fullSchedule_scheduleOf, hcount'] at hcount
  obtain ⟨-, hlengths⟩ := (dated terms).generateNominalSchedule_eq_iff (frequency_eq (F := F) terms)
  rw [← nominalSchedule_bondInput hcoupon] at hlengths
  exact hlengths hcount

/-- **Exactly then no cashflow is lost**: the maturity is at most 120 periods after the issue date,
    and it is not a later day of a month than the last day of the issue month. -/
theorem no_cashflow_lost_iff
    (pricing : BondInput F → CalculateInput F → List Int32 → Except PricingFailure (Measures F))
    {terms : BondTerms} (hcoupon : 0 < terms.couponRate.scaled) (calendar : CalendarBinding) :
    NoCashflowLost pricing terms calendar ↔
      epochDays terms.maturityDate ≤
          addMonths (epochDays terms.firstIssueDate) (120 * periodMonths terms.frequency) ∧
        ¬MonthEndStub (epochDays terms.firstIssueDate) (epochDays terms.maturityDate)
          (periodMonths terms.frequency) := by
  obtain ⟨hiff, -⟩ := (dated terms).generateNominalSchedule_eq_iff (frequency_eq (F := F) terms)
  rw [← nominalSchedule_bondInput hcoupon] at hiff
  rw [← hiff]
  constructor
  · exact schedule_eq_of_noCashflowLost hcoupon
  · intro hfull
    exact ⟨fun settlement mode value hsettles _ =>
        callsComplete_of_eq hcoupon calendar hsettles mode value hfull,
      fun _ firstMode firstValue _ secondMode secondValue hfirst hsecond hlt _ _ =>
        carryAdds hcoupon calendar hfirst hsecond hlt firstMode secondMode firstValue secondValue⟩

end Bond

/-! ### Two bonds -/

/-- One half a year on a face of 100. -/
def halfCoupon : FixedDecimal := ⟨500000000000, by decide⟩

def hundred : FixedDecimal := ⟨100000000000000, by decide⟩

def endOfFebruary : NaiveDate :=
  ⟨2021, 2, 28, by decide, by decide, by decide, by decide, by decide, by decide⟩

/-- Issued on the last day of February, and repaid half a year later on the 29th of August. -/
def stubTerms : BondTerms :=
  ⟨endOfFebruary, endOfFebruary,
    ⟨2021, 8, 29, by decide, by decide, by decide, by decide, by decide, by decide⟩,
    .semiannual, .actActBondIsma, .following, halfCoupon, hundred, hundred, none, by decide,
    by decide, by decide, by decide, by decide, fun _ => ⟨rfl, rfl⟩⟩

/-- The coupon of the 28th of August is lost. -/
theorem stub_coupon_lost : ¬∃ (pricing : BondInput ℚ → CalculateInput ℚ → List Int32 →
    Except PricingFailure (Measures ℚ)) (calendar : CalendarBinding),
    NoCashflowLost pricing stubTerms calendar := by
  rintro ⟨pricing, calendar, h⟩
  have hcoupon : 0 < stubTerms.couponRate.scaled := by decide
  have hschedule := schedule_eq_of_noCashflowLost hcoupon h
  rw [nominalSchedule_bondInput hcoupon] at hschedule
  revert hschedule
  decide

/-- Repaid a day earlier. -/
def wholeTerms : BondTerms :=
  ⟨endOfFebruary, endOfFebruary,
    ⟨2021, 8, 28, by decide, by decide, by decide, by decide, by decide, by decide⟩,
    .semiannual, .actActBondIsma, .following, halfCoupon, hundred, hundred, none, by decide,
    by decide, by decide, by decide, by decide, fun _ => ⟨rfl, rfl⟩⟩

/-- A day earlier nothing is lost. -/
theorem no_cashflow_lost_whole : 0 < wholeTerms.couponRate.scaled ∧
    ∀ (pricing : BondInput ℚ → CalculateInput ℚ → List Int32 →
      Except PricingFailure (Measures ℚ)) (calendar : CalendarBinding),
      NoCashflowLost pricing wholeTerms calendar :=
  ⟨by decide, fun pricing calendar =>
    (no_cashflow_lost_iff pricing (by decide) calendar).mpr ⟨by decide, by decide⟩⟩

end Ficant.Kernel
