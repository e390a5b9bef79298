import Ficant.Kernel.CashflowList

namespace Ficant.Kernel

open Lib

/-!
# What a calendar resolution says

The days that the kernel uses against the calendar that it is given, which is known from the start of
its coverage to its end.

* `calendarDay` — the business days of the calendar: the lists inside the coverage, the weekends
  outside of it;
* `HonestResolution` — payment dates on the next of these days, and the label EXACT for covered dates
  only;
* `HonestInput`, `honest_resolution_iff` — the inputs for which that is so: the loop looks at the end
  of the coverage only, and so does the label.
-/

variable {F : Type}

section Days

variable (calcInput : CalculateInput F)

/-- A business day by the lists. -/
def listDay (t : Int32) : Bool :=
  isBusinessDay t calcInput.nonBusinessDays calcInput.workWeekends

/-- A business day of the calendar, with weekends only outside the coverage. -/
def calendarDay (t : Int32) : Bool :=
  if uncovered calcInput t then !isWeekend t else listDay calcInput t

/-- A day on which the kernel's loop stops. -/
def stopDay (t : Int32) : Bool :=
  stopsAt calcInput.nonBusinessDays calcInput.workWeekends calcInput.calendarCoverageEnd
    calcInput.exactRequired t

/-- From a day on the lists make no exception before the coverage, or only after a day that is open
    both by the lists and by the weekends. -/
def AgreesFrom (nominal : Int32) : Prop :=
  ∀ u, nominal ≤ u → u < calcInput.calendarCoverageStart → listDay calcInput u ≠ !isWeekend u →
    ∃ v, nominal ≤ v ∧ v < u ∧ listDay calcInput v = true ∧ isWeekend v = false

/-- No day from a day to the end of the coverage is open. -/
def ClosedFrom (nominal : Int32) : Prop :=
  ∀ t, nominal ≤ t → t ≤ calcInput.calendarCoverageEnd → listDay calcInput t = false

/-- Some day from a day on is open before the coverage. -/
def OpenBefore (nominal : Int32) : Prop :=
  ∃ t, nominal ≤ t ∧ t < calcInput.calendarCoverageStart ∧ listDay calcInput t = true

end Days

section Payment

variable {calcInput : CalculateInput F} {nominal a : Int32}

/-- A date within the coverage stops where the list says. -/
theorem stopDay_of_le {t : Int32} (h : t ≤ calcInput.calendarCoverageEnd) :
    stopDay calcInput t = listDay calcInput t := by
  unfold stopDay stopsAt
  rw [if_neg (Int32.not_lt.mpr h)]
  rfl

/-- A date is uncovered exactly when it lies outside the coverage. -/
theorem uncovered_iff {t : Int32} : uncovered calcInput t = true ↔
    t < calcInput.calendarCoverageStart ∨ calcInput.calendarCoverageEnd < t := by
  unfold uncovered isProvisionalDate
  rw [Bool.or_eq_true, decide_eq_true_eq, decide_eq_true_eq]

/-- A payment is found exactly when there is a day to stop on. -/
theorem exists_adjustDate_iff :
    (∃ adjusted, adjustDate nominal calcInput = some adjusted) ↔
      ∃ t, nominal ≤ t ∧ stopDay calcInput t = true := by
  rw [← not_iff_not, ← Option.isSome_iff_exists, Bool.not_eq_true, Option.isSome_eq_false_iff,
    Option.isNone_iff_eq_none]
  refine followingAdjust_eq_none_iff.trans ?_
  simp only [not_exists, not_and, Bool.not_eq_true]
  rfl

/-- A payment date is the least day to stop on. -/
theorem paymentDate_isLeast (h : ∃ adjusted, adjustDate nominal calcInput = some adjusted) :
    IsLeast {t | nominal ≤ t ∧ stopDay calcInput t = true} (paymentDate calcInput nominal) := by
  obtain ⟨⟨payment, used⟩, hpayment⟩ := h
  rw [paymentDate_eq hpayment]
  exact (followingAdjust_eq_some_iff.mp hpayment).1

/-- A payment up to the settlement: there was a day to stop on by then. -/
theorem paymentDate_le_iff {nominal settlement : Int32}
    (h : ∃ adjusted, adjustDate nominal calcInput = some adjusted) :
    paymentDate calcInput nominal ≤ settlement ↔
      ∃ t, nominal ≤ t ∧ t ≤ settlement ∧ stopDay calcInput t = true := by
  have hleast := paymentDate_isLeast h
  constructor
  · intro hle
    exact ⟨_, hleast.1.1, hle, hleast.1.2⟩
  · rintro ⟨t, hle, hsettled, hstop⟩
    exact Int32.le_trans (hleast.2 ⟨hle, hstop⟩) hsettled

/-- A payment after the coverage: no day up to its end was open. -/
theorem end_lt_payment_iff (h : IsLeast {t | nominal ≤ t ∧ stopDay calcInput t = true} a) :
    calcInput.calendarCoverageEnd < a ↔ ClosedFrom calcInput nominal := by
  constructor
  · intro hafter t hle hcovered
    by_contra hopen
    rw [Bool.not_eq_false, ← stopDay_of_le hcovered] at hopen
    have hleast := h.2 ⟨hle, hopen⟩
    exact Int32.not_lt.mpr hcovered (Int32.lt_of_lt_of_le hafter hleast)
  · intro hclosed
    by_contra hcovered
    rw [Int32.not_lt] at hcovered
    have hopen := h.1.2
    rw [stopDay_of_le hcovered, hclosed a h.1.1 hcovered] at hopen
    cases hopen

/-- A payment before the coverage: a day before it was open. -/
theorem payment_lt_start_iff (h : IsLeast {t | nominal ≤ t ∧ stopDay calcInput t = true} a)
    (hcoverage : calcInput.calendarCoverageStart ≤ calcInput.calendarCoverageEnd) :
    a < calcInput.calendarCoverageStart ↔ OpenBefore calcInput nominal := by
  have hcovered : ∀ t, t < calcInput.calendarCoverageStart → t ≤ calcInput.calendarCoverageEnd :=
    fun t ht => Int32.le_trans (Int32.le_of_lt ht) hcoverage
  constructor
  · intro hbefore
    refine ⟨a, h.1.1, hbefore, ?_⟩
    rw [← stopDay_of_le (hcovered a hbefore)]
    exact h.1.2
  · rintro ⟨t, hle, hbefore, hopen⟩
    rw [← stopDay_of_le (hcovered t hbefore)] at hopen
    exact Int32.lt_of_le_of_lt (h.2 ⟨hle, hopen⟩) hbefore

/-- **The payment is on the next business day of the calendar** exactly when the lists make no
    exception before the coverage on the way. -/
theorem isLeast_calendarDay_iff (h : IsLeast {t | nominal ≤ t ∧ stopDay calcInput t = true} a)
    (hcoverage : calcInput.calendarCoverageStart ≤ calcInput.calendarCoverageEnd)
    (hend : calcInput.exactRequired = true → a ≤ calcInput.calendarCoverageEnd) :
    IsLeast {t | nominal ≤ t ∧ calendarDay calcInput t = true} a ↔ AgreesFrom calcInput nominal := by
  have hbeforeStop : ∀ t, t < calcInput.calendarCoverageStart →
      stopDay calcInput t = listDay calcInput t ∧ calendarDay calcInput t = !isWeekend t := by
    intro t ht
    refine ⟨stopDay_of_le (Int32.le_trans (Int32.le_of_lt ht) hcoverage), ?_⟩
    unfold calendarDay
    rw [if_pos (uncovered_iff.mpr (.inl ht))]
  -- from the start of the coverage on both rules are the same, up to the payment
  have hafterStop : ∀ t, calcInput.calendarCoverageStart ≤ t → t ≤ a →
      stopDay calcInput t = calendarDay calcInput t := by
    intro t ht hta
    unfold calendarDay
    by_cases hcovered : t ≤ calcInput.calendarCoverageEnd
    · rw [stopDay_of_le hcovered, if_neg]
      rw [uncovered_iff]
      rintro (hless | hmore)
      · exact Int32.not_lt.mpr ht hless
      · exact Int32.not_lt.mpr hcovered hmore
    · rw [Int32.not_le] at hcovered
      have hreference : calcInput.exactRequired = false := by
        by_contra hexact
        rw [Bool.not_eq_false] at hexact
        exact Int32.not_lt.mpr (hend hexact) (Int32.lt_of_lt_of_le hcovered hta)
      rw [if_pos (uncovered_iff.mpr (.inr hcovered))]
      unfold stopDay stopsAt
      rw [if_pos hcovered, hreference, Bool.false_or]
  constructor
  · intro hleast u hle hbefore hdiffer
    obtain ⟨hstop, hcalendar⟩ := hbeforeStop u hbefore
    -- one of the rules is open on that day, and the payment is not later
    have hau : a ≤ u ∧ a ≠ u := by
      cases hlist : listDay calcInput u with
      | true =>
        refine ⟨h.2 ⟨hle, hstop.trans hlist⟩, fun hsame => ?_⟩
        have hopen := hleast.1.2
        rw [hsame, hcalendar] at hopen
        exact hdiffer (hlist.trans hopen.symm)
      | false =>
        rw [hlist] at hdiffer
        have hopen : (!isWeekend u) = true := by
          cases hweekend : !isWeekend u with
          | true => rfl
          | false => exact absurd hweekend.symm hdiffer
        refine ⟨hleast.2 ⟨hle, hcalendar.trans hopen⟩, fun hsame => ?_⟩
        have hstopped := h.1.2
        rw [hsame, hstop, hlist] at hstopped
        cases hstopped
    have hlt : a < u := by
      rw [Int32.lt_iff_toInt_lt]
      have hneq := Int32.toInt_inj.not.mpr hau.2
      have hleInt := Int32.le_iff_toInt_le.mp hau.1
      omega
    obtain ⟨hstopA, hcalendarA⟩ := hbeforeStop a (Int32.lt_trans hlt hbefore)
    refine ⟨a, h.1.1, hlt, hstopA ▸ h.1.2, ?_⟩
    have hopen := hcalendarA ▸ hleast.1.2
    simpa using hopen
  · intro hagrees
    -- no day before the coverage can be a difference, since the payment is the first stop
    have hsame : ∀ u, nominal ≤ u → u ≤ a → u < calcInput.calendarCoverageStart →
        stopDay calcInput u = calendarDay calcInput u := by
      intro u hle hua hbefore
      obtain ⟨hstop, hcalendar⟩ := hbeforeStop u hbefore
      rw [hstop, hcalendar]
      by_contra hdiffer
      obtain ⟨v, hlev, hvu, hopen, -⟩ := hagrees u hle hbefore hdiffer
      have hleast := h.2 ⟨hlev, (hbeforeStop v (Int32.lt_trans hvu hbefore)).1.trans hopen⟩
      exact Int32.not_lt.mpr hleast (Int32.lt_of_lt_of_le hvu hua)
    have hequal : ∀ u, nominal ≤ u → u ≤ a → stopDay calcInput u = calendarDay calcInput u := by
      intro u hle hua
      by_cases hbefore : u < calcInput.calendarCoverageStart
      · exact hsame u hle hua hbefore
      · exact hafterStop u (Int32.not_lt.mp hbefore) hua
    refine ⟨⟨h.1.1, (hequal a h.1.1 (Int32.le_refl a)).symm.trans h.1.2⟩, ?_⟩
    rintro u ⟨hle, hopen⟩
    by_contra hless
    rw [Int32.not_le] at hless
    have hstop := (hequal u hle (Int32.le_of_lt hless)).trans hopen
    exact Int32.not_lt.mpr (h.2 ⟨hle, hstop⟩) hless

end Payment

/-! ### The property and its inputs -/

section Property

variable [Doubles F] (bond : BondInput F) (calcInput : CalculateInput F)

/-- **The calendar resolution is honest.** -/
structure HonestResolution : Prop where
  terminates : ∀ nominal ∈ nominalSchedule bond,
    ∃ adjusted, adjustDate nominal calcInput = some adjusted
  adjusts : ∀ pricing sizing, sizingCall pricing bond calcInput = some sizing →
    sizing.status = .calendarCoverageMissing ∨
      ∀ nominal ∈ nominalSchedule bond, ∀ adjusted, adjustDate nominal calcInput = some adjusted →
        IsLeast {t | nominal ≤ t ∧ calendarDay calcInput t = true} adjusted.1
  covers : ∀ pricing sizing filling written, sizingCall pricing bond calcInput = some sizing →
    fillingCall pricing bond calcInput sizing.result.cashflowCount = some filling →
    filling.status = .ok → filling.cashflows = some written →
    filling.result.calendarResolution = some .exact →
    ∀ cashflow ∈ written, uncovered calcInput cashflow.nominalDate = false ∧
      uncovered calcInput cashflow.paymentDate = false
  exactOrMissing : calcInput.exactRequired = true →
    ∀ pricing cashflows cashflowCapacity outcome,
      ¬(cashflows.isNone ∧ 0 < cashflowCapacity ∨ cashflows.isSome ∧ cashflowCapacity = 0) →
      calculateBond pricing bond calcInput initializedResult cashflows cashflowCapacity =
        some outcome →
      outcome.result.calendarResolution = some .exact ∨ outcome.status = .calendarCoverageMissing

/-- An exact calendar is required and it does not cover the settlement or the next open day of some
    nominal date. -/
def RefusedInput : Prop :=
  calcInput.exactRequired = true ∧ (uncovered calcInput calcInput.settlementDate = true ∨
    ∃ nominal ∈ nominalSchedule bond, OpenBefore calcInput nominal ∨ ClosedFrom calcInput nominal)

/-- The inputs of an honest resolution: every nominal date has a day to stop on; and, unless the call
    is refused, the lists make no exception on the way from a nominal date to the coverage, and every
    nominal date before the coverage is settled, if not some day after the coverage is used. -/
structure HonestInput : Prop where
  ends : ∀ nominal ∈ nominalSchedule bond, ∃ t, nominal ≤ t ∧ stopDay calcInput t = true
  agrees : RefusedInput bond calcInput ∨
    ∀ nominal ∈ nominalSchedule bond, AgreesFrom calcInput nominal
  labels : RefusedInput bond calcInput ∨
    (∃ nominal ∈ nominalSchedule bond, ClosedFrom calcInput nominal) ∨
    ∀ nominal ∈ nominalSchedule bond, nominal < calcInput.calendarCoverageStart →
      ∃ t, nominal ≤ t ∧ t ≤ calcInput.settlementDate ∧ stopDay calcInput t = true

end Property

section Calls

variable [Doubles F] {bond : BondInput F} {calcInput : CalculateInput F}

/-- A call that is refused for its calendar says so. -/
theorem calculateBond_refused
    {pricing : BondInput F → CalculateInput F → List Int32 → Except PricingFailure (Measures F)}
    (hbond : validateBondInput bond = .ok) (hcalc : validateCalcInput calcInput = .ok)
    (hadjust : ∀ date ∈ nominalSchedule bond, ∃ adjusted, adjustDate date calcInput = some adjusted)
    (hschedule : nominalSchedule bond ≠ []) (hrefused : ¬Covered bond calcInput)
    {cashflows : Option (List (RawCashflow F))} {cashflowCapacity : ℕ}
    (hargs : ¬(cashflows.isNone ∧ 0 < cashflowCapacity ∨ cashflows.isSome ∧ cashflowCapacity = 0)) :
    ∃ outcome, calculateBond pricing bond calcInput initializedResult cashflows cashflowCapacity =
      some outcome ∧ outcome.status = .calendarCoverageMissing := by
  have hheader : validateResultHeader (initializedResult (F := F)) = .ok := rfl
  unfold Covered at hrefused
  rw [not_forall] at hrefused
  obtain ⟨hexact, hmissing⟩ := hrefused
  unfold calculateBond
  rw [if_neg (by simp [hheader])]
  simp only
  rw [if_neg (by simp [hbond]), if_neg (by simp [hcalc]), if_neg hargs]
  unfold calculateImpl
  -- The settlement is looked at first; only then are the payments.
  by_cases hsettlement : uncovered calcInput calcInput.settlementDate = true
  · rw [if_pos ⟨hexact, hsettlement⟩]
    exact ⟨_, rfl, rfl⟩
  · rw [Bool.not_eq_true] at hsettlement
    have huncovered : ∃ date ∈ nominalSchedule bond,
        uncovered calcInput (paymentDate calcInput date) = true := by
      by_contra hnone
      refine hmissing ⟨hsettlement, fun date hdate => ?_⟩
      by_contra houtside
      exact hnone ⟨date, hdate, Bool.not_eq_false _ ▸ houtside⟩
    rw [if_neg (fun h => Bool.false_ne_true (hsettlement.symm.trans h.2)), if_neg hschedule,
      cashflowEntries_eq_error hexact hadjust huncovered]
    exact ⟨_, rfl, rfl⟩

/-- The inputs of the refused calls. -/
theorem covered_iff (hcoverage : calcInput.calendarCoverageStart ≤ calcInput.calendarCoverageEnd)
    (hadjust : ∀ date ∈ nominalSchedule bond, ∃ adjusted, adjustDate date calcInput = some adjusted) :
    Covered bond calcInput ↔ ¬RefusedInput bond calcInput := by
  have hpayment : ∀ date ∈ nominalSchedule bond,
      (uncovered calcInput (paymentDate calcInput date) = true ↔
        OpenBefore calcInput date ∨ ClosedFrom calcInput date) := by
    intro date hdate
    have hleast := paymentDate_isLeast (hadjust date hdate)
    rw [uncovered_iff, payment_lt_start_iff hleast hcoverage, end_lt_payment_iff hleast]
  unfold Covered RefusedInput
  rw [not_and, not_or, not_exists]
  refine imp_congr_right fun _ => and_congr (by rw [Bool.not_eq_true]) ?_
  refine forall_congr' fun date => ?_
  rw [not_and]
  refine imp_congr_right fun hdate => ?_
  rw [← hpayment date hdate, Bool.not_eq_true]

/-! ### What the checks leave -/

/-- Counting periods never counts down. -/
theorem le_countPeriods {issueDate maturityDate d : Int32} {p : ℤ} {room count : ℕ} :
    count ≤ countPeriods issueDate maturityDate p room count d := by
  induction room generalizing count d with
  | zero => exact le_rfl
  | succ room ih =>
    rw [countPeriods]
    split
    · exact (Nat.le_succ count).trans ih
    · exact le_rfl

/-- A bond that is accepted has a nominal date. -/
theorem nominalSchedule_ne_nil (hbond : validateBondInput bond = .ok) : nominalSchedule bond ≠ [] := by
  -- A bond that validates is issued before it matures.
  have hordered : ¬bond.maturityDate ≤ bond.issueDate := by
    intro hle
    unfold validateBondInput at hbond
    split at hbond
    · cases hbond
    split at hbond
    · cases hbond
    split at hbond
    · cases hbond
    split at hbond
    · cases hbond
    · rename_i hfields
      exact hfields (.inr (.inr (.inl hle)))
  have hafter : bond.issueDate < bond.maturityDate := Int32.not_le.mp hordered
  unfold nominalSchedule
  split
  · simp
  · obtain ⟨p, hp⟩ : ∃ p : ℤ, (if bond.frequency.toNat = 2 then 6 else 12) = p := ⟨_, rfl⟩
    obtain ⟨c, hc⟩ : ∃ c, countPeriods bond.issueDate bond.maturityDate p 120 0 bond.maturityDate =
        c + 1 := by
      rw [countPeriods, if_pos hafter]
      exact Nat.exists_eq_add_of_le' le_countPeriods
    rw [show maxSchedule = 120 from rfl, generateNominalSchedule_eq hafter hp hc]
    simp

/-- A calendar that validates starts no later than it ends. -/
theorem coverage_le (hcalc : validateCalcInput calcInput = .ok) :
    calcInput.calendarCoverageStart ≤ calcInput.calendarCoverageEnd := by
  unfold validateCalcInput at hcalc
  split at hcalc
  · cases hcalc
  split at hcalc
  · cases hcalc
  split at hcalc
  · cases hcalc
  split at hcalc
  · cases hcalc
  split at hcalc
  · cases hcalc
  split at hcalc
  · cases hcalc
  · rename_i hfields
    exact Int32.not_lt.mp fun h => hfields (.inl h)

/-! ### The label -/

/-- A call that is not refused is labelled exact when no payment is after the coverage. -/
theorem resolution_eq_exact_iff (hcovered : Covered bond calcInput)
    (hadjust : ∀ date ∈ nominalSchedule bond, ∃ adjusted, adjustDate date calcInput = some adjusted) :
    resolution bond calcInput = .exact ↔ ∀ nominal ∈ nominalSchedule bond,
      ¬ClosedFrom calcInput nominal := by
  -- A payment is provisional exactly when every day up to the end of the coverage is closed.
  have hprovisional : ∀ nominal ∈ nominalSchedule bond,
      (provisional calcInput nominal = true ↔ ClosedFrom calcInput nominal) := by
    intro nominal hnominal
    rw [← end_lt_payment_iff (paymentDate_isLeast (hadjust nominal hnominal))]
    unfold provisional usedAt
    rw [Bool.and_eq_true, decide_eq_true_eq, Bool.not_eq_true']
    refine ⟨fun h => h.1, fun h => ⟨h, ?_⟩⟩
    by_contra hexact
    rw [Bool.not_eq_false] at hexact
    have hinside := (hcovered hexact).2 nominal hnominal
    rw [uncovered_iff.mpr (.inr h)] at hinside
    cases hinside
  unfold resolution
  constructor
  · intro hexact nominal hnominal hclosed
    have hany : (nominalSchedule bond).any (provisional calcInput) = true :=
      List.any_eq_true.mpr ⟨nominal, hnominal, (hprovisional nominal hnominal).mpr hclosed⟩
    rw [if_pos hany] at hexact
    cases hexact
  · intro hopen
    rw [if_neg]
    intro hany
    obtain ⟨nominal, hnominal, hused⟩ := List.any_eq_true.mp hany
    exact hopen nominal hnominal ((hprovisional nominal hnominal).mp hused)

/-- The end of a calculation keeps the resolution. -/
theorem finishCalculation_resolution
    {pricing : BondInput F → CalculateInput F → List Int32 → Except PricingFailure (Measures F)}
    {result : KernelResult F} {entries : List (CashflowEntry F)}
    {cashflows : Option (List (RawCashflow F))} {cashflowCapacity : ℕ} :
    (finishCalculation pricing bond calcInput result entries cashflows
      cashflowCapacity).result.calendarResolution = result.calendarResolution := by
  unfold finishCalculation
  split
  · rfl
  · split
    · rfl
    · simp only
      split
      · rfl
      · split
        · rfl
        · rfl

/-- A cashflow that is written has a nominal date of the schedule, and is paid after the settlement. -/
theorem mem_written {written : List (RawCashflow F)} {dates : List Int32}
    (hwritten : written.map RawCashflow.entry = dueFlows bond calcInput dates)
    {cashflow : RawCashflow F} (hmem : cashflow ∈ written) :
    cashflow.nominalDate ∈ dates ∧
      cashflow.paymentDate = paymentDate calcInput cashflow.nominalDate ∧
      calcInput.settlementDate < cashflow.paymentDate := by
  have hpair : (cashflow.nominalDate, cashflow.paymentDate) ∈
      (dueFlows bond calcInput dates).map fun flow => (flow.nominalDate, flow.paymentDate) := by
    rw [← hwritten, List.map_map]
    exact List.mem_map_of_mem (f := fun c : RawCashflow F => (c.nominalDate, c.paymentDate)) hmem
  rw [dueFlows_dates, List.mem_filter] at hpair
  obtain ⟨hdate, hdue⟩ := hpair
  obtain ⟨date, hdate, hsame⟩ := List.mem_map.mp hdate
  obtain ⟨rfl, hpayment⟩ := Prod.mk.inj hsame
  exact ⟨hdate, hpayment.symm, of_decide_eq_true hdue⟩

/-! ### The two directions -/

/-- A sizing call that is not refused. -/
theorem exists_sizing
    (pricing : BondInput F → CalculateInput F → List Int32 → Except PricingFailure (Measures F))
    (hbond : validateBondInput bond = .ok) (hcalc : validateCalcInput calcInput = .ok)
    (hcovered : Covered bond calcInput)
    (hadjust : ∀ date ∈ nominalSchedule bond, ∃ adjusted, adjustDate date calcInput = some adjusted) :
    ∃ sizing, sizingCall pricing bond calcInput = some sizing ∧
      sizing.status ≠ .calendarCoverageMissing ∧
      sizing.result.cashflowCount = (dueFlows bond calcInput (nominalSchedule bond)).length := by
  obtain ⟨result, hcount, -, hcalls⟩ := @calculateBond_eq _ _ pricing _ _ hbond hcalc hcovered
    (nominalSchedule_ne_nil hbond) hadjust
  refine ⟨_, hcalls none 0 (by simp), ?_, hcount⟩
  show (if 0 < _ then KernelStatus.bufferTooSmall else .ok) ≠ _
  split <;> simp

/-- A filling call without room is refused. -/
theorem fillingCall_zero
    {pricing : BondInput F → CalculateInput F → List Int32 → Except PricingFailure (Measures F)}
    (hbond : validateBondInput bond = .ok) (hcalc : validateCalcInput calcInput = .ok)
    {filling : Outcome F} (h : fillingCall pricing bond calcInput 0 = some filling) :
    filling.status ≠ .ok := by
  have hheader : validateResultHeader (initializedResult (F := F)) = .ok := rfl
  unfold fillingCall calculateBond at h
  rw [if_neg (by simp [hheader])] at h
  simp only at h
  rw [if_neg (by simp [hbond]), if_neg (by simp [hcalc]), if_pos (by simp)] at h
  obtain rfl := Option.some.inj h
  simp [returnStatus]

/-- What an honest resolution needs of its inputs. -/
theorem honestInput_of_honestResolution (hbond : validateBondInput bond = .ok)
    (hcalc : validateCalcInput calcInput = .ok) (h : HonestResolution bond calcInput) :
    HonestInput bond calcInput := by
  have hadjust := h.terminates
  have hcoverage := coverage_le hcalc
  have hcoveredIff := covered_iff hcoverage hadjust
  -- prices that are always found
  let prices : BondInput F → CalculateInput F → List Int32 → Except PricingFailure (Measures F) :=
    fun _ _ _ => .ok ⟨Doubles.zero, Doubles.zero, Doubles.zero, Doubles.zero, Doubles.zero,
      Doubles.zero, Doubles.zero, Doubles.zero⟩
  refine ⟨fun nominal hnominal => exists_adjustDate_iff.mp (hadjust nominal hnominal), ?_, ?_⟩
  · by_cases hrefused : RefusedInput bond calcInput
    · exact .inl hrefused
    refine .inr fun nominal hnominal => ?_
    have hcovered := hcoveredIff.mpr hrefused
    obtain ⟨sizing, hsizing, hstatus, -⟩ := exists_sizing prices hbond hcalc hcovered hadjust
    obtain ⟨adjusted, hadjusted⟩ := hadjust nominal hnominal
    have hleast := ((h.adjusts prices sizing hsizing).resolve_left hstatus) nominal hnominal adjusted
      hadjusted
    rw [← paymentDate_eq hadjusted] at hleast
    refine (isLeast_calendarDay_iff (paymentDate_isLeast ⟨adjusted, hadjusted⟩) hcoverage ?_).mp hleast
    intro hexact
    have hinside := (hcovered hexact).2 nominal hnominal
    by_contra hafter
    rw [uncovered_iff.mpr (.inr (Int32.not_le.mp hafter))] at hinside
    cases hinside
  · by_cases hrefused : RefusedInput bond calcInput
    · exact .inl hrefused
    by_cases hclosed : ∃ nominal ∈ nominalSchedule bond, ClosedFrom calcInput nominal
    · exact .inr (.inl hclosed)
    refine .inr (.inr fun nominal hnominal hbefore => ?_)
    have hcovered := hcoveredIff.mpr hrefused
    by_contra hunsettled
    rw [← paymentDate_le_iff (hadjust nominal hnominal), Int32.not_le] at hunsettled
    -- its cashflow is returned by an exact call
    have hpair : (nominal, paymentDate calcInput nominal) ∈
        (dueFlows bond calcInput (nominalSchedule bond)).map
          fun flow => (flow.nominalDate, flow.paymentDate) := by
      rw [dueFlows_dates, List.mem_filter]
      exact ⟨List.mem_map_of_mem hnominal, decide_eq_true hunsettled⟩
    obtain ⟨flow, hflow, hflowDates⟩ := List.mem_map.mp hpair
    have hdue : dueFlows bond calcInput (nominalSchedule bond) ≠ [] := List.ne_nil_of_mem hflow
    obtain ⟨sizing, hsizing, -, hcount, -⟩ := @sizingCall_eq _ _ prices _ _ hbond hcalc hcovered
      (nominalSchedule_ne_nil hbond) hadjust hdue
    obtain ⟨filling, hfilling, -, hresolution, hfilled, hwritten⟩ := @fillingCall_eq
      _ _ prices _ _ hbond hcalc hcovered (nominalSchedule_ne_nil hbond) hadjust hdue
    obtain ⟨written, hcashflows, hentries⟩ := hwritten (hfilled _ rfl)
    have hexact : resolution bond calcInput = .exact :=
      (resolution_eq_exact_iff hcovered hadjust).mpr fun date hdate hdateClosed =>
        hclosed ⟨date, hdate, hdateClosed⟩
    rw [← hentries] at hflow
    obtain ⟨cashflow, hcashflow, rfl⟩ := List.mem_map.mp hflow
    have hinside := (h.covers prices sizing filling written hsizing (hcount ▸ hfilling) (hfilled _ rfl)
      hcashflows (hexact ▸ hresolution) cashflow hcashflow).1
    have hnominalDate : cashflow.nominalDate = nominal := (Prod.mk.inj hflowDates).1
    rw [hnominalDate, uncovered_iff.mpr (.inl hbefore)] at hinside
    cases hinside

/-- An input that is as it must be gives an honest resolution. -/
theorem honestResolution_of_honestInput (hbond : validateBondInput bond = .ok)
    (hcalc : validateCalcInput calcInput = .ok) (h : HonestInput bond calcInput) :
    HonestResolution bond calcInput := by
  have hadjust : ∀ nominal ∈ nominalSchedule bond,
      ∃ adjusted, adjustDate nominal calcInput = some adjusted :=
    fun nominal hnominal => exists_adjustDate_iff.mpr (h.ends nominal hnominal)
  have hcoverage := coverage_le hcalc
  have hcoveredIff := covered_iff hcoverage hadjust
  have hschedule := nominalSchedule_ne_nil hbond
  refine ⟨hadjust, ?_, ?_, ?_⟩
  · intro pricing sizing hsizing
    by_cases hcovered : Covered bond calcInput
    · have hagrees := h.agrees.resolve_left (hcoveredIff.mp hcovered)
      refine .inr fun nominal hnominal adjusted hadjusted => ?_
      rw [← paymentDate_eq hadjusted]
      refine (isLeast_calendarDay_iff (paymentDate_isLeast ⟨adjusted, hadjusted⟩) hcoverage ?_).mpr
        (hagrees nominal hnominal)
      intro hexact
      have hinside := (hcovered hexact).2 nominal hnominal
      by_contra hafter
      rw [uncovered_iff.mpr (.inr (Int32.not_le.mp hafter))] at hinside
      cases hinside
    · obtain ⟨outcome, houtcome, hstatus⟩ := @calculateBond_refused _ _ _ _ pricing hbond hcalc
        hadjust hschedule hcovered none 0 (by simp)
      obtain rfl := Option.some.inj (houtcome.symm.trans hsizing)
      exact .inl hstatus
  · intro pricing sizing filling written hsizing hfilling hok hcashflows hexact cashflow hmem
    -- there was room, so the call was not refused and something is due
    have hroom : sizing.result.cashflowCount ≠ 0 := by
      intro hzero
      rw [hzero] at hfilling
      exact fillingCall_zero hbond hcalc hfilling hok
    have hcovered : Covered bond calcInput := by
      by_contra hrefused
      obtain ⟨outcome, houtcome, hstatus⟩ := @calculateBond_refused _ _ _ _ pricing hbond hcalc
        hadjust hschedule hrefused
        (some (List.replicate sizing.result.cashflowCount rawCashflow))
        sizing.result.cashflowCount (by simp [hroom])
      obtain rfl := Option.some.inj (houtcome.symm.trans hfilling)
      rw [hok] at hstatus
      cases hstatus
    obtain ⟨sizing', hsizing', -, hcount⟩ := exists_sizing pricing hbond hcalc hcovered hadjust
    obtain rfl := Option.some.inj (hsizing.symm.trans hsizing')
    have hdue : dueFlows bond calcInput (nominalSchedule bond) ≠ [] := by
      intro hnone
      rw [hnone] at hcount
      exact hroom hcount
    obtain ⟨filling', hfilling', -, hresolution, -, hwritten⟩ := @fillingCall_eq _ _ pricing _ _
      hbond hcalc hcovered hschedule hadjust hdue
    rw [← hcount] at hfilling'
    obtain rfl := Option.some.inj (hfilling.symm.trans hfilling')
    obtain ⟨written', hcashflows', hentries⟩ := hwritten hok
    obtain rfl := Option.some.inj (hcashflows.symm.trans hcashflows')
    obtain ⟨hnominal, hpayment, hunsettled⟩ := mem_written hentries hmem
    have hopen := (resolution_eq_exact_iff hcovered hadjust).mp
      (Option.some.inj (hresolution.symm.trans hexact))
    have hlabels := h.labels.resolve_left (hcoveredIff.mp hcovered)
    have hsettled := hlabels.resolve_left fun ⟨nominal, hdate, hclosed⟩ => hopen nominal hdate hclosed
    have hstart : calcInput.calendarCoverageStart ≤ cashflow.nominalDate := by
      by_contra hbefore
      have hpaid := (paymentDate_le_iff (hadjust _ hnominal)).mpr
        (hsettled _ hnominal (Int32.not_le.mp hbefore))
      rw [← hpayment] at hpaid
      exact Int32.not_lt.mpr hpaid hunsettled
    have hend : cashflow.paymentDate ≤ calcInput.calendarCoverageEnd := by
      by_contra hafter
      rw [Int32.not_le, hpayment, end_lt_payment_iff (paymentDate_isLeast (hadjust _ hnominal))]
        at hafter
      exact hopen _ hnominal hafter
    have horder : cashflow.nominalDate ≤ cashflow.paymentDate := by
      rw [hpayment]
      exact le_paymentDate _
    have hinside : ∀ date, calcInput.calendarCoverageStart ≤ date →
        date ≤ calcInput.calendarCoverageEnd → uncovered calcInput date = false := by
      intro date hlow hhigh
      rw [← Bool.not_eq_true, uncovered_iff]
      rintro (hless | hmore)
      · exact Int32.not_lt.mpr hlow hless
      · exact Int32.not_lt.mpr hhigh hmore
    exact ⟨hinside _ hstart (Int32.le_trans horder hend),
      hinside _ (Int32.le_trans hstart horder) hend⟩
  · intro hexact pricing cashflows cashflowCapacity outcome hargs houtcome
    by_cases hcovered : Covered bond calcInput
    · obtain ⟨result, -, hresolution, hcalls⟩ := @calculateBond_eq _ _ pricing _ _ hbond hcalc
        hcovered hschedule hadjust
      obtain rfl := Option.some.inj ((hcalls cashflows cashflowCapacity hargs).symm.trans houtcome)
      rw [finishCalculation_resolution, hresolution]
      refine .inl (congrArg some ?_)
      rw [resolution_eq_exact_iff hcovered hadjust]
      intro nominal hnominal hclosed
      have hinside := (hcovered hexact).2 nominal hnominal
      rw [uncovered_iff.mpr (.inr ((end_lt_payment_iff
        (paymentDate_isLeast (hadjust nominal hnominal))).mpr hclosed))] at hinside
      cases hinside
    · obtain ⟨refused, hrefused, hstatus⟩ := @calculateBond_refused _ _ _ _ pricing hbond hcalc
        hadjust hschedule hcovered _ _ hargs
      obtain rfl := Option.some.inj (hrefused.symm.trans houtcome)
      exact .inr hstatus

/-- **The resolution is honest exactly for these inputs.** -/
theorem honest_resolution_iff (hbond : validateBondInput bond = .ok)
    (hcalc : validateCalcInput calcInput = .ok) :
    HonestResolution bond calcInput ↔ HonestInput bond calcInput :=
  ⟨honestInput_of_honestResolution hbond hcalc, honestResolution_of_honestInput hbond hcalc⟩

end Calls

/-! ### Two calendars -/

/-- A bond from the 1st of March to the 1st of September 2021. -/
def halfYearBond : BondInput ℚ := ⟨sizeOfBondInput, abiVersion, 18687, 18871, 2, 1, 1, 1, 100⟩

/-- A calendar for 2030 only, and one for 2021. -/
def lateCalendar : CalculateInput ℚ :=
  ⟨sizeOfCalculateInput, abiVersion, 18687, 1, 1, 1, 21915, 22279, [], []⟩

def coveringCalendar : CalculateInput ℚ :=
  ⟨sizeOfCalculateInput, abiVersion, 18687, 1, 1, 1, 18628, 18992, [], []⟩

theorem nominalSchedule_halfYear : nominalSchedule halfYearBond = [18871] := by
  unfold nominalSchedule
  rw [if_neg (by decide)]
  decide

/-- A cashflow of 2021 is labelled exact by a calendar for 2030. -/
theorem late_calendar_exact : validateBondInput halfYearBond = .ok ∧
    validateCalcInput lateCalendar = .ok ∧ ¬HonestResolution halfYearBond lateCalendar := by
  refine ⟨by decide, by decide, fun h => ?_⟩
  have hinput := honestInput_of_honestResolution (by decide) (by decide) h
  have hreference : ¬RefusedInput halfYearBond lateCalendar := fun hrefused => by
    have hexact : lateCalendar.exactRequired = false := by decide
    rw [hrefused.1] at hexact
    cases hexact
  have hmem : (18871 : Int32) ∈ nominalSchedule halfYearBond := by
    rw [nominalSchedule_halfYear]
    exact List.mem_singleton_self _
  rcases hinput.labels.resolve_left hreference with ⟨nominal, hnominal, hclosed⟩ | hsettled
  · -- the date itself is a weekday
    rw [nominalSchedule_halfYear, List.mem_singleton] at hnominal
    subst hnominal
    have hopen : listDay lateCalendar 18871 = true := by decide
    rw [hclosed 18871 (Int32.le_refl _) (by decide)] at hopen
    cases hopen
  · obtain ⟨t, hle, hsettlement, -⟩ := hsettled 18871 hmem (by decide)
    exact absurd (Int32.le_trans hle hsettlement) (by decide)

/-- The calendar for 2021 resolves it. -/
theorem covering_calendar_honest : HonestResolution halfYearBond coveringCalendar := by
  refine (honest_resolution_iff (by decide) (by decide)).mpr ⟨?_, .inr ?_, .inr (.inr ?_)⟩
  · intro nominal hnominal
    rw [nominalSchedule_halfYear, List.mem_singleton] at hnominal
    subst hnominal
    exact ⟨18871, Int32.le_refl _, by decide⟩
  · intro nominal hnominal u hle hbefore _
    rw [nominalSchedule_halfYear, List.mem_singleton] at hnominal
    subst hnominal
    exact absurd (Int32.lt_of_le_of_lt hle hbefore) (by decide)
  · intro nominal hnominal hbefore
    rw [nominalSchedule_halfYear, List.mem_singleton] at hnominal
    subst hnominal
    exact absurd hbefore (by decide)

end Ficant.Kernel
