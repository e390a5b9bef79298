import Ficant.Kernel.Cashflows
import Ficant.Kernel.EpochDays
import Ficant.Analytics.Bond
import Mathlib.Data.Int.Interval
import Mathlib.Data.Rat.Defs
import Mathlib.Tactic.NormNum
import Mathlib.Tactic.Positivity

namespace Ficant.Kernel

open Lib Analytics

/-!
# The caller of the kernel

What `NativeBondAnalyticsEngine` gives the kernel for a bond, and the two calls of
`ficant-kernel-sys`.

* `bondInput`, `calculateInput` — the structures of the call, with epoch days and doubles;
* `calculate` — the sizing call, then the filling call with the room that it asks for;
* `LawfulDoubles` — what a positive decimal is as a double.
-/

variable {F : Type} [Doubles F]

/-- `decimal_to_f64`, before its check. -/
def scaledToDouble (scaled : ℤ) : F :=
  Doubles.div (Doubles.ofInt scaled) (Doubles.ofInt 1000000000000)

/-- What is used of doubles: a positive decimal is a finite double after zero. -/
class LawfulDoubles (F : Type) [Doubles F] : Prop where
  finite_scaled : ∀ scaled, InI128 scaled → Doubles.isFinite (scaledToDouble (F := F) scaled) = true
  pos_scaled : ∀ scaled, 0 < scaled → InI128 scaled →
    Doubles.lt Doubles.zero (scaledToDouble (F := F) scaled) = true
  not_lt_of_lt : ∀ a b : F, Doubles.lt a b = true → Doubles.lt b a = false
  not_le_of_lt : ∀ a b : F, Doubles.lt a b = true → Doubles.le b a = false
  not_beq_of_lt : ∀ a b : F, Doubles.lt a b = true → Doubles.beq b a = false

/-- The bond of a call. -/
def bondInput (terms : BondTerms) : BondInput F where
  structSize := sizeOfBondInput
  abiVersion := abiVersion
  issueDate := epochDays terms.firstIssueDate
  maturityDate := epochDays terms.maturityDate
  frequency := match terms.frequency with
    | .annual => 1
    | .semiannual => 2
  dayCountConvention := match terms.dayCount with
    | .actActBondIsma => 1
  businessDayConvention := match terms.businessDay with
    | .following => 1
  couponRate := scaledToDouble terms.couponRate.scaled
  faceValue := scaledToDouble terms.faceAmount.scaled

/-- The other input of a call. -/
def calculateInput (calendar : CalendarBinding) (calendarRequirement : CalendarRequirement)
    (settlementDate : NaiveDate) (mode : AnalyticsMode) (inputValue : FixedDecimal) :
    CalculateInput F where
  structSize := sizeOfCalculateInput
  abiVersion := abiVersion
  settlementDate := epochDays settlementDate
  inputMode := match mode with
    | .yieldIn => 1
    | .priceIn => 2
  inputValue := scaledToDouble inputValue.scaled
  calendarRequirement := match calendarRequirement with
    | .referenceReplay => 1
    | .exactMarket => 2
  calendarCoverageStart := epochDays calendar.coverageStart
  calendarCoverageEnd := epochDays calendar.coverageEnd
  nonBusinessDays := calendar.nonBusinessDays.map epochDays
  workWeekends := calendar.workWeekends.map epochDays

/-- `initialized_result`. -/
def initializedResult : KernelResult F :=
  ⟨sizeOfResult, abiVersion, 0, none, .ok, ⟨Doubles.zero, Doubles.zero, Doubles.zero, Doubles.zero,
    Doubles.zero, Doubles.zero, Doubles.zero, Doubles.zero⟩⟩

/-- `raw_cashflow`. -/
def rawCashflow : RawCashflow F :=
  ⟨sizeOfCashflow, abiVersion, 0, 0, 0, Doubles.zero, Doubles.zero, Doubles.zero⟩

/-- `MAX_CASHFLOWS`. -/
def maxCashflows : ℕ := 4096

variable (pricing : BondInput F → CalculateInput F → List Int32 → Except PricingFailure (Measures F))

/-- The sizing call. -/
def sizingCall (bond : BondInput F) (calcInput : CalculateInput F) : Option (Outcome F) :=
  calculateBond pricing bond calcInput initializedResult none 0

/-- The filling call. -/
def fillingCall (bond : BondInput F) (calcInput : CalculateInput F) (required : ℕ) :
    Option (Outcome F) :=
  calculateBond pricing bond calcInput initializedResult
    (some (List.replicate required rawCashflow)) required

/-- `ficant_kernel_sys::calculate`. -/
def calculate (bond : BondInput F) (calcInput : CalculateInput F) :
    Option (KernelStatus × KernelResult F × List (RawCashflow F)) := do
  -- the counts are passed in 32 bits
  if 2 ^ 32 ≤ calcInput.nonBusinessDays.length ∨ 2 ^ 32 ≤ calcInput.workWeekends.length then
    return (.invalidArgument, initializedResult, [])
  let sizing ← sizingCall pricing bond calcInput
  if sizing.status ≠ .bufferTooSmall ∧ sizing.status ≠ .ok then
    return (sizing.status, sizing.result, [])
  let required := sizing.result.cashflowCount
  if maxCashflows < required then return (.internalError, sizing.result, [])
  if required = 0 then return (sizing.status, sizing.result, [])
  let filling ← fillingCall pricing bond calcInput required
  if filling.status ≠ .ok ∨ required < filling.result.cashflowCount then
    return (filling.status, filling.result, [])
  return (filling.status, filling.result,
    (filling.cashflows.getD []).take filling.result.cashflowCount)

/-! ### The checks of the kernel -/

section Checks

variable [LawfulDoubles F]

/-- A coupon bond with its terms passes the kernel's check. -/
theorem validateBondInput_bondInput {terms : BondTerms} (hcoupon : 0 < terms.couponRate.scaled) :
    validateBondInput (bondInput (F := F) terms) = .ok := by
  -- Positive decimals give positive doubles, which is all the kernel asks of the amounts.
  have hcouponPos := LawfulDoubles.pos_scaled (F := F) _ hcoupon terms.couponRate.range
  have hfacePos := LawfulDoubles.pos_scaled (F := F) _ terms.face_pos terms.faceAmount.range
  have hdates : ¬epochDays terms.maturityDate ≤ epochDays terms.firstIssueDate := by
    rw [epochDays_le_iff]
    exact not_le.mpr terms.ordered
  have hfrequency : (bondInput (F := F) terms).frequency = 1 ∨
      (bondInput (F := F) terms).frequency = 2 := by
    unfold bondInput
    cases terms.frequency
    · exact .inl rfl
    · exact .inr rfl
  have hconventions : (bondInput (F := F) terms).dayCountConvention = 1 ∧
      (bondInput (F := F) terms).businessDayConvention = 1 := ⟨rfl, rfl⟩
  unfold validateBondInput
  rw [if_neg (by simp [bondInput]), if_neg (by simp [bondInput]),
    if_neg (by rcases hfrequency with h | h <;> simp [h]), if_neg]
  rintro (h | h | h | h | h | h | h)
  · exact h hconventions.1
  · exact h hconventions.2
  · exact hdates h
  · exact Bool.false_ne_true (h.symm.trans (LawfulDoubles.finite_scaled _ terms.couponRate.range))
  · exact Bool.false_ne_true ((LawfulDoubles.not_lt_of_lt _ _ hcouponPos).symm.trans h)
  · exact Bool.false_ne_true (h.symm.trans (LawfulDoubles.finite_scaled _ terms.faceAmount.range))
  · exact Bool.false_ne_true ((LawfulDoubles.not_le_of_lt _ _ hfacePos).symm.trans h)

/-- The dates of a calendar stay sorted. -/
theorem validateSortedUniqueDates_map {dates : List NaiveDate} (h : dates.Pairwise (· < ·)) :
    validateSortedUniqueDates (dates.map epochDays) = true := by
  have : IsTrans Int32 (· < ·) := ⟨fun _ _ _ => Int32.lt_trans⟩
  unfold validateSortedUniqueDates
  rw [all_zip_tail_iff_pairwise (fun a b : Int32 => a < b), List.pairwise_map]
  exact h.imp fun hlt => epochDays_lt_iff.mpr hlt

/-- A calendar with a settlement passes the kernel's check. -/
theorem validateCalcInput_calculateInput (calendar : CalendarBinding)
    (requirement : CalendarRequirement) (settlement : NaiveDate) (mode : AnalyticsMode)
    (value : FixedDecimal) :
    validateCalcInput (calculateInput (F := F) calendar requirement settlement mode value) = .ok := by
  have hcovers : ¬epochDays calendar.coverageEnd < epochDays calendar.coverageStart := by
    rw [epochDays_lt_iff]
    exact not_lt.mpr calendar.covers
  have hfinite := LawfulDoubles.finite_scaled (F := F) _ value.range
  unfold validateCalcInput calculateInput
  rw [if_neg (by simp), if_neg (by simp), if_neg (by cases mode <;> simp),
    if_neg (by simp [hfinite]), if_neg (by cases requirement <;> simp), if_neg]
  rintro (h | h | h)
  · exact hcovers h
  · rw [validateSortedUniqueDates_map calendar.nonBusinessDays_sorted] at h
    cases h
  · rw [validateSortedUniqueDates_map calendar.workWeekends_sorted] at h
    cases h

/-- A calendar never has too many dates for a count of 32 bits. -/
theorem length_lt_of_pairwise {dates : List NaiveDate} (h : dates.Pairwise (· < ·)) :
    dates.length < 2 ^ 32 := by
  have hnodup : (dates.map fun d => d.dayNumber - 719163).Nodup := by
    rw [List.nodup_iff_pairwise_ne, List.pairwise_map]
    refine h.imp fun hlt hsame => ?_
    rw [← epochDays_lt_iff, Int32.lt_iff_toInt_lt, epochDays_toInt, epochDays_toInt,
      NaiveDate.toDay_toInt, NaiveDate.toDay_toInt] at hlt
    omega
  have hsubset : (dates.map fun d => d.dayNumber - 719163).toFinset ⊆
      Finset.Icc (-97000000 : ℤ) 96000000 := by
    intro day hday
    obtain ⟨d, -, rfl⟩ := List.mem_map.mp (List.mem_toFinset.mp hday)
    exact Finset.mem_Icc.mpr (epochDays_bounds d)
  have hcard := Finset.card_le_card hsubset
  rw [List.toFinset_card_of_nodup hnodup, List.length_map, Int.card_Icc] at hcard
  omega

end Checks

/-! ### Rationals -/

/-- Rationals in place of doubles, which are exact where these bonds need them. -/
instance : Doubles ℚ where
  zero := 0
  add := (· + ·)
  mul := (· * ·)
  div := (· / ·)
  ofInt := fun n => n
  isFinite := fun _ => true
  lt := fun a b => a < b
  le := fun a b => a ≤ b
  beq := fun a b => a = b

theorem scaledToDouble_rat (scaled : ℤ) : scaledToDouble (F := ℚ) scaled = scaled / 1000000000000 := by
  show (scaled : ℚ) / ((1000000000000 : ℤ) : ℚ) = _
  norm_num

instance : LawfulDoubles ℚ where
  finite_scaled := fun _ _ => rfl
  pos_scaled := fun scaled hpos _ => by
    show decide ((0 : ℚ) < scaledToDouble scaled) = true
    rw [scaledToDouble_rat, decide_eq_true_eq]
    positivity
  not_lt_of_lt := fun a b h => decide_eq_false (lt_asymm (of_decide_eq_true h))
  not_le_of_lt := fun a b h => decide_eq_false (not_le.mpr (of_decide_eq_true h))
  not_beq_of_lt := fun a b h => decide_eq_false (ne_of_gt (of_decide_eq_true h))

end Ficant.Kernel
