import Ficant.Kernel.BondEngine
import Ficant.Kernel.FullSchedule

namespace Ficant.Kernel

open Lib Lib.MonthCalendar Analytics

/-!
# The cashflows of a call

What the two calls of the kernel report for a bond.

* `paymentDate`, `flows` — the payment date of a nominal date and the cashflows of a schedule;
* `cashflowEntries_eq` — the loop keeps those after the settlement, unless the calendar must be exact
  and a payment date is not covered (`cashflowEntries_eq_error`);
* `Covered` — the calls that are not refused for their calendar;
* `sizingCall_eq`, `fillingCall_eq`, `calculate_eq` — these calls, by their cashflows.
-/

variable {F : Type}

/-- The adjusted date of a nominal date. -/
def paymentDate (calcInput : CalculateInput F) (nominal : Int32) : Int32 :=
  ((adjustDate nominal calcInput).map Prod.fst).getD nominal

/-- What is written of a cashflow. -/
def RawCashflow.entry (cashflow : RawCashflow F) : CashflowEntry F :=
  ⟨cashflow.nominalDate, cashflow.paymentDate, cashflow.coupon, cashflow.principal, cashflow.total⟩

/-! ### Payment dates -/

section Payment

variable {calcInput : CalculateInput F}

/-- A calendar that ends before the last days of 32 bits gives every earlier date a payment date. -/
theorem exists_adjustDate {nominal : Int32} (hnominal : nominal.toInt < 2 ^ 31 - 50000)
    (hend : calcInput.calendarCoverageEnd.toInt < 2 ^ 31 - 50000) :
    ∃ adjusted, adjustDate nominal calcInput = some adjusted := by
  by_contra hnone
  rw [← Option.isSome_iff_exists, Bool.not_eq_true, Option.isSome_eq_false_iff,
    Option.isNone_iff_eq_none] at hnone
  have hclosed := followingAdjust_eq_none_iff.mp hnone
  -- a day after the coverage that is not a weekend
  obtain ⟨t, hlow, hcovered, hhigh, hweekday⟩ : ∃ t : ℤ, nominal.toInt ≤ t ∧
      calcInput.calendarCoverageEnd.toInt < t ∧ t < 2 ^ 31 ∧ ¬((t + 4) % 7 = 0 ∨ (t + 4) % 7 = 6) := by
    obtain ⟨t₀, h₀⟩ : ∃ t₀, t₀ = max nominal.toInt (calcInput.calendarCoverageEnd.toInt + 1) :=
      ⟨_, rfl⟩
    by_cases hsaturday : (t₀ + 4) % 7 = 6
    · exact ⟨t₀ + 2, by omega, by omega, by omega, by omega⟩
    · by_cases hsunday : (t₀ + 4) % 7 = 0
      · exact ⟨t₀ + 1, by omega, by omega, by omega, by omega⟩
      · exact ⟨t₀, by omega, by omega, by omega, by omega⟩
  have hlower := nominal.le_toInt
  have hday : (Int32.ofInt t).toInt = t := Int32.toInt_ofInt_of_le (by omega) hhigh
  have hstop := hclosed (Int32.ofInt t) (by rw [Int32.le_iff_toInt_le, hday]; exact hlow)
  unfold stopsAt at hstop
  rw [if_pos (by rw [Int32.lt_iff_toInt_lt, hday]; exact hcovered), Bool.or_eq_false_iff,
    Bool.not_eq_false', isWeekend_iff, hday] at hstop
  exact hweekday hstop.2

/-- The payment date is the adjusted one. -/
theorem paymentDate_eq {nominal : Int32} {adjusted : Int32 × Bool}
    (h : adjustDate nominal calcInput = some adjusted) :
    paymentDate calcInput nominal = adjusted.1 := by
  unfold paymentDate
  rw [h]
  rfl

/-- A payment is not before its nominal date. -/
theorem le_paymentDate (nominal : Int32) : nominal ≤ paymentDate calcInput nominal := by
  rcases h : adjustDate nominal calcInput with - | ⟨adjusted, used⟩
  · unfold paymentDate
    rw [h]
    exact Int32.le_refl _
  · rw [paymentDate_eq h]
    exact (followingAdjust_eq_some_iff.mp h).1.1.1

/-- A later nominal date is not paid earlier. -/
theorem paymentDate_mono {a b : Int32} (hab : a ≤ b)
    (ha : ∃ adjusted, adjustDate a calcInput = some adjusted)
    (hb : ∃ adjusted, adjustDate b calcInput = some adjusted) :
    paymentDate calcInput a ≤ paymentDate calcInput b := by
  obtain ⟨⟨first, firstUsed⟩, hfirst⟩ := ha
  obtain ⟨⟨second, secondUsed⟩, hsecond⟩ := hb
  rw [paymentDate_eq hfirst, paymentDate_eq hsecond]
  have hleast := (followingAdjust_eq_some_iff.mp hfirst).1
  have hmem := (followingAdjust_eq_some_iff.mp hsecond).1.1
  exact hleast.2 ⟨Int32.le_trans hab hmem.1, hmem.2⟩

end Payment

/-! ### What is written -/

/-- The cashflows are written over the room for them. -/
theorem writeCashflows_eq {i : ℕ} {entries : List (CashflowEntry F)} {cashflow : RawCashflow F} :
    ((writeCashflows i entries (List.replicate entries.length cashflow)).map RawCashflow.entry) =
      entries := by
  induction entries generalizing i with
  | nil => rfl
  | cons entry entries ih =>
    rw [List.length_cons, List.replicate_succ, writeCashflows, List.map_cons, ih]
    rfl

/-! ### The cashflows of a schedule -/

section Flows

variable [Doubles F]

/-- The cashflows of the dates of a schedule. -/
def flows (payment : Int32 → Int32) (couponAmount faceValue : F) :
    List Int32 → List (CashflowEntry F)
  | [] => []
  | nominal :: rest =>
    cashflowEntry couponAmount faceValue nominal (payment nominal) rest.isEmpty ::
      flows payment couponAmount faceValue rest

variable (payment : Int32 → Int32) (couponAmount faceValue : F)

/-- The flows carry the nominal dates and the payment dates that belong to them. -/
theorem flows_dates (dates : List Int32) :
    (flows payment couponAmount faceValue dates).map
        (fun flow => (flow.nominalDate, flow.paymentDate)) =
      dates.map fun date => (date, payment date) := by
  induction dates with
  | nil => rfl
  | cons nominal rest ih =>
    rw [flows, List.map_cons, List.map_cons, ih]
    rfl

/-- There is one flow for every date. -/
theorem length_flows (dates : List Int32) :
    (flows payment couponAmount faceValue dates).length = dates.length := by
  have h := congrArg List.length (flows_dates payment couponAmount faceValue dates)
  simpa using h

/-- The principal is paid with the last cashflow. -/
theorem flows_concat (dates : List Int32) (last : Int32) :
    ∃ before : List (CashflowEntry F), flows payment couponAmount faceValue (dates ++ [last]) =
        before ++ [cashflowEntry couponAmount faceValue last (payment last) true] ∧
      ∀ flow ∈ before, flow.principal = Doubles.zero := by
  induction dates with
  | nil => exact ⟨[], rfl, by simp⟩
  | cons nominal rest ih =>
    obtain ⟨before, hflows, hzero⟩ := ih
    refine ⟨cashflowEntry couponAmount faceValue nominal (payment nominal) false ::
      before, ?_, ?_⟩
    · have hnonempty : (rest ++ [last]).isEmpty = false := by simp
      rw [List.cons_append, flows, hflows, hnonempty]
      rfl
    · intro flow hflow
      rcases List.mem_cons.mp hflow with rfl | hmem
      · rfl
      · exact hzero flow hmem

variable {calcInput : CalculateInput F} {couponAmount faceValue}

/-- A payment date is outside the coverage. -/
def uncovered (calcInput : CalculateInput F) (date : Int32) : Bool :=
  isProvisionalDate date calcInput.calendarCoverageStart calcInput.calendarCoverageEnd

/-- The provisional rule is used for a nominal date. -/
def provisional (calcInput : CalculateInput F) (nominal : Int32) : Bool :=
  usedAt calcInput.calendarCoverageEnd calcInput.exactRequired (paymentDate calcInput nominal)

omit [Doubles F] in
/-- An adjustment that exists does not stop the schedule. -/
theorem adjustDateOrStop_eq {nominal : Int32}
    (h : ∃ adjusted, adjustDate nominal calcInput = some adjusted) :
    adjustDateOrStop nominal calcInput =
      .ok (paymentDate calcInput nominal, provisional calcInput nominal) := by
  obtain ⟨⟨payment, used⟩, hpayment⟩ := h
  unfold adjustDateOrStop provisional
  rw [paymentDate_eq hpayment, hpayment]
  simp only
  rw [← (followingAdjust_eq_some_iff.mp hpayment).2]

/-- **The loop keeps the cashflows after the settlement.** -/
theorem cashflowEntries_eq {dates : List Int32}
    (hadjust : ∀ date ∈ dates, ∃ adjusted, adjustDate date calcInput = some adjusted)
    (hcovered : calcInput.exactRequired = true →
      ∀ date ∈ dates, uncovered calcInput (paymentDate calcInput date) = false) :
    cashflowEntries calcInput couponAmount faceValue dates =
      .ok ((flows (paymentDate calcInput) couponAmount faceValue dates).filter
        (fun flow => calcInput.settlementDate < flow.paymentDate),
        dates.any (provisional calcInput)) := by
  induction dates with
  | nil => rfl
  | cons nominal rest ih =>
    have hrest := ih (fun date hdate => hadjust date (.tail _ hdate))
      fun hexact date hdate => hcovered hexact date (.tail _ hdate)
    -- Where the coverage is required every payment lies inside it.
    have hpass : ¬(calcInput.exactRequired = true ∧
        isProvisionalDate (paymentDate calcInput nominal) calcInput.calendarCoverageStart
          calcInput.calendarCoverageEnd = true) := by
      rintro ⟨hexact, houtside⟩
      exact Bool.false_ne_true ((hcovered hexact nominal (.head _)).symm.trans houtside)
    rw [cashflowEntries, adjustDateOrStop_eq (hadjust nominal (.head _)), ok_bind]
    simp only
    rw [rejectIf_of_not hpass, ok_bind, hrest, ok_bind]
    simp only
    rw [flows, List.filter_cons, List.any_cons]
    -- A payment up to the settlement date is skipped, in the loop and in the filter alike.
    by_cases hpaid : paymentDate calcInput nominal ≤ calcInput.settlementDate
    · rw [if_pos hpaid, if_neg]
      simpa [cashflowEntry] using hpaid
    · rw [if_neg hpaid, if_pos]
      simpa [cashflowEntry] using hpaid

/-- The loop ends on the first payment date that is not covered, when it must be. -/
theorem cashflowEntries_eq_error {dates : List Int32} (hexact : calcInput.exactRequired = true)
    (hadjust : ∀ date ∈ dates, ∃ adjusted, adjustDate date calcInput = some adjusted)
    (huncovered : ∃ date ∈ dates, uncovered calcInput (paymentDate calcInput date) = true) :
    cashflowEntries calcInput couponAmount faceValue dates =
      .error (.status .calendarCoverageMissing) := by
  induction dates with
  | nil =>
    obtain ⟨date, hdate, -⟩ := huncovered
    cases hdate
  | cons nominal rest ih =>
    rw [cashflowEntries, adjustDateOrStop_eq (hadjust nominal (.head _)), ok_bind]
    simp only
    -- Either this payment is refused or a later one is.
    by_cases hnominal : uncovered calcInput (paymentDate calcInput nominal) = true
    · unfold uncovered at hnominal
      unfold rejectIf
      rw [if_pos ⟨hexact, hnominal⟩]
      rfl
    · have hlater : ∃ date ∈ rest, uncovered calcInput (paymentDate calcInput date) = true := by
        obtain ⟨date, hdate, houtside⟩ := huncovered
        rcases List.mem_cons.mp hdate with rfl | hmem
        · exact absurd houtside hnominal
        · exact ⟨date, hmem, houtside⟩
      rw [rejectIf_of_not fun h => hnominal h.2, ok_bind,
        ih (fun date hdate => hadjust date (.tail _ hdate)) hlater]
      rfl

end Flows

/-! ### The calls -/

section Calls

variable [Doubles F]

/-- Blank cash flows leave the header as it is. -/
theorem headerStatus_replicate (n : ℕ) :
    headerStatus (List.replicate n (rawCashflow (F := F))) = .ok := by
  induction n with
  | zero => rfl
  | succ n ih =>
    rw [List.replicate_succ, headerStatus]
    simpa [rawCashflow] using ih

/-- The cashflows of a schedule after the settlement. -/
def dueFlows (bond : BondInput F) (calcInput : CalculateInput F) (dates : List Int32) :
    List (CashflowEntry F) :=
  (flows (paymentDate calcInput) (couponAmount bond) bond.faceValue dates).filter
    fun flow => calcInput.settlementDate < flow.paymentDate

/-- The due cashflows by their dates. -/
theorem dueFlows_dates (bond : BondInput F) (calcInput : CalculateInput F) (dates : List Int32) :
    (dueFlows bond calcInput dates).map (fun flow => (flow.nominalDate, flow.paymentDate)) =
      (dates.map fun date => (date, paymentDate calcInput date)).filter
        fun due => calcInput.settlementDate < due.2 := by
  unfold dueFlows
  rw [← flows_dates (paymentDate calcInput) (couponAmount bond) bond.faceValue, List.filter_map]
  rfl

variable {pricing : BondInput F → CalculateInput F → List Int32 → Except PricingFailure (Measures F)}
  {bond : BondInput F} {calcInput : CalculateInput F}

/-- A call whose calendar covers what it must. -/
def Covered (bond : BondInput F) (calcInput : CalculateInput F) : Prop :=
  calcInput.exactRequired = true → uncovered calcInput calcInput.settlementDate = false ∧
    ∀ date ∈ nominalSchedule bond, uncovered calcInput (paymentDate calcInput date) = false

/-- The resolution of a call that is not refused. -/
def resolution (bond : BondInput F) (calcInput : CalculateInput F) : CalendarResolution :=
  if (nominalSchedule bond).any (provisional calcInput) then .provisionalWeekendOnly else .exact

/-- A call that passes the checks comes to its end. -/
theorem calculateBond_eq (hbond : validateBondInput bond = .ok)
    (hcalc : validateCalcInput calcInput = .ok) (hcovered : Covered bond calcInput)
    (hschedule : nominalSchedule bond ≠ [])
    (hadjust : ∀ date ∈ nominalSchedule bond, ∃ adjusted, adjustDate date calcInput = some adjusted) :
    ∃ result : KernelResult F,
      result.cashflowCount = (dueFlows bond calcInput (nominalSchedule bond)).length ∧
      result.calendarResolution = some (resolution bond calcInput) ∧
      ∀ (cashflows : Option (List (RawCashflow F))) (cashflowCapacity : ℕ),
        ¬(cashflows.isNone ∧ 0 < cashflowCapacity ∨ cashflows.isSome ∧ cashflowCapacity = 0) →
        calculateBond pricing bond calcInput initializedResult cashflows cashflowCapacity =
          some (finishCalculation pricing bond calcInput result
            (dueFlows bond calcInput (nominalSchedule bond)) cashflows cashflowCapacity) := by
  -- Every check passes, so the result is what the list of cash flows says.
  have hentries := @cashflowEntries_eq _ _ (couponAmount bond) bond.faceValue _ _
    hadjust fun hexact => (hcovered hexact).2
  have hsettlement : ¬(calcInput.exactRequired = true ∧
      isProvisionalDate calcInput.settlementDate calcInput.calendarCoverageStart
        calcInput.calendarCoverageEnd = true) := by
    rintro ⟨hexact, houtside⟩
    exact Bool.false_ne_true ((hcovered hexact).1.symm.trans houtside)
  refine ⟨{ zeroResult (initializedResult (F := F)) with
    cashflowCount := (dueFlows bond calcInput (nominalSchedule bond)).length
    calendarResolution := some (resolution bond calcInput) }, rfl, rfl, ?_⟩
  intro cashflows cashflowCapacity hargs
  have hheader : validateResultHeader (initializedResult (F := F)) = .ok := rfl
  unfold calculateBond
  rw [if_neg (by simp [hheader])]
  simp only
  rw [if_neg (by simp [hbond]), if_neg (by simp [hcalc]), if_neg hargs]
  unfold calculateImpl
  rw [if_neg hsettlement, if_neg hschedule, hentries]
  rfl

/-- **The sizing call** reports how many cashflows there are. -/
theorem sizingCall_eq (hbond : validateBondInput bond = .ok)
    (hcalc : validateCalcInput calcInput = .ok) (hcovered : Covered bond calcInput)
    (hschedule : nominalSchedule bond ≠ [])
    (hadjust : ∀ date ∈ nominalSchedule bond, ∃ adjusted, adjustDate date calcInput = some adjusted)
    (hdue : dueFlows bond calcInput (nominalSchedule bond) ≠ []) :
    ∃ sizing, sizingCall pricing bond calcInput = some sizing ∧ sizing.status = .bufferTooSmall ∧
      sizing.result.cashflowCount = (dueFlows bond calcInput (nominalSchedule bond)).length ∧
      sizing.result.calendarResolution = some (resolution bond calcInput) := by
  obtain ⟨result, hcount, hresolution, hcalls⟩ :=
    @calculateBond_eq _ _ pricing _ _ hbond hcalc hcovered
    hschedule hadjust
  refine ⟨_, hcalls none 0 (by simp), ?_, hcount, hresolution⟩
  show (if 0 < (dueFlows bond calcInput (nominalSchedule bond)).length then _ else _) = _
  rw [if_pos (List.length_pos_iff.mpr hdue)]

/-- **The filling call** reports the same number, and writes the cashflows when it succeeds. -/
theorem fillingCall_eq (hbond : validateBondInput bond = .ok)
    (hcalc : validateCalcInput calcInput = .ok) (hcovered : Covered bond calcInput)
    (hschedule : nominalSchedule bond ≠ [])
    (hadjust : ∀ date ∈ nominalSchedule bond, ∃ adjusted, adjustDate date calcInput = some adjusted)
    (hdue : dueFlows bond calcInput (nominalSchedule bond) ≠ []) :
    ∃ filling, fillingCall pricing bond calcInput
        (dueFlows bond calcInput (nominalSchedule bond)).length = some filling ∧
      filling.result.cashflowCount = (dueFlows bond calcInput (nominalSchedule bond)).length ∧
      filling.result.calendarResolution = some (resolution bond calcInput) ∧
      (∀ measures, pricing bond calcInput (nominalSchedule bond) = .ok measures →
        filling.status = .ok) ∧
      (filling.status = .ok → ∃ written, filling.cashflows = some written ∧
        written.map RawCashflow.entry = dueFlows bond calcInput (nominalSchedule bond)) := by
  obtain ⟨result, hcount, hresolution, hcalls⟩ := @calculateBond_eq _ _ pricing _ _ hbond hcalc
    hcovered hschedule hadjust
  generalize dueFlows bond calcInput (nominalSchedule bond) = due at hcount hcalls hdue ⊢
  have hpos : 0 < due.length := List.length_pos_iff.mpr hdue
  refine ⟨_, hcalls (some (List.replicate due.length rawCashflow)) due.length (by simp; omega), ?_⟩
  unfold finishCalculation
  simp only
  rw [if_neg (lt_irrefl _), List.take_of_length_le (by rw [List.length_replicate]),
    headerStatus_replicate, if_neg (by simp)]
  -- only the prices may still fail
  rcases pricing bond calcInput (nominalSchedule bond) with failure | measures
  · refine ⟨hcount, hresolution, ?_, ?_⟩
    · intro measures hok
      cases hok
    · intro hok
      cases failure <;> cases hok
  · exact ⟨hcount, hresolution, fun _ _ => rfl, fun _ => ⟨_, rfl, writeCashflows_eq⟩⟩

/-- **The caller** gets what the filling call wrote. -/
theorem calculate_eq (hbond : validateBondInput bond = .ok)
    (hcalc : validateCalcInput calcInput = .ok) (hcovered : Covered bond calcInput)
    (hcounts : calcInput.nonBusinessDays.length < 2 ^ 32 ∧ calcInput.workWeekends.length < 2 ^ 32)
    (hschedule : nominalSchedule bond ≠ [])
    (hadjust : ∀ date ∈ nominalSchedule bond, ∃ adjusted, adjustDate date calcInput = some adjusted)
    (hdue : dueFlows bond calcInput (nominalSchedule bond) ≠ [])
    (hroom : (dueFlows bond calcInput (nominalSchedule bond)).length ≤ maxCashflows) :
    ∃ status result cashflows,
      calculate pricing bond calcInput = some (status, result, cashflows) ∧
      result.cashflowCount = (dueFlows bond calcInput (nominalSchedule bond)).length ∧
      (status = .ok →
        cashflows.map RawCashflow.entry = dueFlows bond calcInput (nominalSchedule bond)) := by
  obtain ⟨sizing, hsizing, hsizingStatus, hsizingCount, -⟩ := @sizingCall_eq _ _ pricing _ _ hbond
    hcalc hcovered hschedule hadjust hdue
  obtain ⟨filling, hfilling, hfillingCount, -, -, hwritten⟩ := @fillingCall_eq _ _ pricing _ _ hbond
    hcalc hcovered hschedule hadjust hdue
  -- Something is due, so the second call is made and has room for all of it.
  have hpos := List.length_pos_iff.mpr hdue
  unfold calculate
  rw [if_neg (by omega), hsizing]
  simp only [Option.bind_eq_bind, Option.bind_some]
  rw [if_neg (by simp [hsizingStatus]), hsizingCount, if_neg (by omega), if_neg (by omega), hfilling]
  simp only [Option.bind_some]
  -- A call that fails writes no cash flow.
  by_cases hok : filling.status = .ok
  · obtain ⟨written, hcashflows, hentries⟩ := hwritten hok
    have hlength : written.length = filling.result.cashflowCount := by
      rw [hfillingCount, ← hentries, List.length_map]
    rw [if_neg (by simp [hok, hfillingCount])]
    refine ⟨_, _, _, rfl, hfillingCount, fun _ => ?_⟩
    rw [hcashflows, Option.getD_some, ← hlength, List.take_length, hentries]
  · rw [if_pos (.inl hok)]
    exact ⟨_, _, _, rfl, hfillingCount, fun h => absurd h hok⟩

end Calls

end Ficant.Kernel
