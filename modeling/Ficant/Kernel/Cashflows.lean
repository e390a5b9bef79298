import Ficant.Kernel.BusinessDays
import Ficant.Kernel.Schedules
import Ficant.Lib.Except

namespace Ficant.Kernel

open Lib

/-!
# The kernel's calculation for a bond

`ficant_kernel_calculate_bond_v1` (`fixed-income-kernel/src/kernel_api.cpp`), with its statuses, its
checks and the cashflows that it finds.

* `validateBondInput`, `validateCalcInput`, `validateResultHeader` — the checks;
* `cashflowEntries` — the loop over the nominal dates: payment dates, coverage and settlement;
* `calculateImpl`, `calculateBond` — the sizing call and the filling call.

What is computed in doubles from the dates, the prices and the risk measures, is the parameter
`pricing`; an array with its count is a list. `none` is a date that overflows 32 bits.
-/

/-- `FICANT_KERNEL_ABI_VERSION`. -/
def abiVersion : UInt32 := 1

/-- The status codes. -/
inductive KernelStatus
  | ok | invalidArgument | abiMismatch | bufferTooSmall | noBracket | notConverged | nonFinite
  | calendarCoverageMissing | internalError
  deriving DecidableEq, Repr

/-- How the prices fail; what throws is an internal error. -/
inductive PricingFailure
  | nonFinite | noBracket | notConverged | internalError
  deriving DecidableEq, Repr

def PricingFailure.status : PricingFailure → KernelStatus
  | .nonFinite => .nonFinite
  | .noBracket => .noBracket
  | .notConverged => .notConverged
  | .internalError => .internalError

/-- The calendar resolutions. -/
inductive CalendarResolution
  | exact | provisionalWeekendOnly
  deriving DecidableEq, Repr

/-- What the kernel uses of doubles where it decides on dates and amounts. -/
class Doubles (F : Type) where
  zero : F
  add : F → F → F
  mul : F → F → F
  div : F → F → F
  ofInt : ℤ → F
  isFinite : F → Bool
  lt : F → F → Bool
  le : F → F → Bool
  beq : F → F → Bool

/-- `ficant_kernel_bond_input_v1`. -/
structure BondInput (F : Type) where
  structSize : UInt32
  abiVersion : UInt32
  issueDate : Int32
  maturityDate : Int32
  frequency : UInt32
  dayCountConvention : UInt32
  businessDayConvention : UInt32
  couponRate : F
  faceValue : F

/-- `ficant_kernel_calculate_input_v1`. -/
structure CalculateInput (F : Type) where
  structSize : UInt32
  abiVersion : UInt32
  settlementDate : Int32
  inputMode : UInt32
  inputValue : F
  calendarRequirement : UInt32
  calendarCoverageStart : Int32
  calendarCoverageEnd : Int32
  nonBusinessDays : List Int32
  workWeekends : List Int32

/-- The measures of a result. -/
structure Measures (F : Type) where
  accruedInterest : F
  cleanPrice : F
  dirtyPrice : F
  yieldToMaturity : F
  macaulayDuration : F
  modifiedDuration : F
  convexity : F
  dv01 : F
  deriving DecidableEq

/-- `ficant_kernel_result_v1`.  A new result has no resolution yet, which is a zero there. -/
structure KernelResult (F : Type) where
  structSize : UInt32
  abiVersion : UInt32
  cashflowCount : ℕ
  calendarResolution : Option CalendarResolution
  statusCode : KernelStatus
  measures : Measures F
  deriving DecidableEq

/-- `ficant_kernel_cashflow_v1`. -/
structure RawCashflow (F : Type) where
  structSize : UInt32
  abiVersion : UInt32
  sequence : ℕ
  nominalDate : Int32
  paymentDate : Int32
  coupon : F
  principal : F
  total : F
  deriving DecidableEq

/-- The sizes of the structures. -/
def sizeOfBondInput : UInt32 := 48

def sizeOfCalculateInput : UInt32 := 72

def sizeOfResult : UInt32 := 88

def sizeOfCashflow : UInt32 := 48

section Doubles

variable {F : Type} [Doubles F]

/-! ### Checks -/

/-- `validate_bond_input`. -/
def validateBondInput (b : BondInput F) : KernelStatus :=
  if b.structSize ≠ sizeOfBondInput then .invalidArgument
  else if b.abiVersion ≠ abiVersion then .abiMismatch
  else if b.frequency ≠ 1 ∧ b.frequency ≠ 2 then .invalidArgument
  else if b.dayCountConvention ≠ 1 ∨ b.businessDayConvention ≠ 1 ∨ b.maturityDate ≤ b.issueDate ∨
      Doubles.isFinite b.couponRate = false ∨ Doubles.lt b.couponRate Doubles.zero = true ∨
      Doubles.isFinite b.faceValue = false ∨ Doubles.le b.faceValue Doubles.zero = true then
    .invalidArgument
  else .ok

/-- `validate_sorted_unique_dates`. -/
def validateSortedUniqueDates (dates : List Int32) : Bool :=
  (dates.zip dates.tail).all fun pair => pair.1 < pair.2

/-- `validate_calc_input`. -/
def validateCalcInput (c : CalculateInput F) : KernelStatus :=
  if c.structSize ≠ sizeOfCalculateInput then .invalidArgument
  else if c.abiVersion ≠ abiVersion then .abiMismatch
  else if c.inputMode ≠ 1 ∧ c.inputMode ≠ 2 then .invalidArgument
  else if Doubles.isFinite c.inputValue = false then .invalidArgument
  else if c.calendarRequirement ≠ 1 ∧ c.calendarRequirement ≠ 2 then .invalidArgument
  else if c.calendarCoverageEnd < c.calendarCoverageStart ∨
      validateSortedUniqueDates c.nonBusinessDays = false ∨
      validateSortedUniqueDates c.workWeekends = false then .invalidArgument
  else .ok

/-- `validate_result_header`. -/
def validateResultHeader (r : KernelResult F) : KernelStatus :=
  if r.structSize ≠ sizeOfResult then .invalidArgument
  else if r.abiVersion ≠ abiVersion then .abiMismatch
  else .ok

/-! ### Dates -/

/-- `is_provisional_date`. -/
def isProvisionalDate (date coverageStart coverageEnd : Int32) : Bool :=
  date < coverageStart || coverageEnd < date

/-- Whether the requirement is EXACT_MARKET. -/
def CalculateInput.exactRequired (calcInput : CalculateInput F) : Bool :=
  calcInput.calendarRequirement = 2

/-- `adjust_date`. -/
def adjustDate (date : Int32) (calcInput : CalculateInput F) : Option (Int32 × Bool) :=
  followingAdjust date calcInput.nonBusinessDays calcInput.workWeekends calcInput.calendarCoverageEnd
    calcInput.exactRequired

/-- `CashflowEntry`. -/
structure CashflowEntry (F : Type) where
  nominalDate : Int32
  paymentDate : Int32
  coupon : F
  principal : F
  total : F

/-- Why the loop over the nominal dates ends early. -/
inductive Stop
  | overflow
  | status (status : KernelStatus)

/-- `adjust_date` on its way in the loop. -/
def adjustDateOrStop (date : Int32) (calcInput : CalculateInput F) : Except Stop (Int32 × Bool) :=
  match adjustDate date calcInput with
  | some adjusted => .ok adjusted
  | none => .error .overflow

/-- The cashflow of a nominal date; the principal comes with the last one. -/
def cashflowEntry (couponAmount faceValue : F) (nominal payment : Int32) (last : Bool) :
    CashflowEntry F :=
  let principal := if last then faceValue else Doubles.zero
  ⟨nominal, payment, couponAmount, principal, Doubles.add couponAmount principal⟩

/-- The loop over the nominal schedule: the cashflows after the settlement, and whether any date
    needed the provisional rule. -/
def cashflowEntries (calcInput : CalculateInput F) (couponAmount faceValue : F) :
    List Int32 → Except Stop (List (CashflowEntry F) × Bool)
  | [] => .ok ([], false)
  | nominal :: rest => do
    let (payment, usedProvisional) ← adjustDateOrStop nominal calcInput
    rejectIf (calcInput.exactRequired = true ∧
      isProvisionalDate payment calcInput.calendarCoverageStart calcInput.calendarCoverageEnd = true)
      (.status .calendarCoverageMissing)
    let (entries, anyProvisional) ← cashflowEntries calcInput couponAmount faceValue rest
    -- the settlement owns what was paid up to its day
    if payment ≤ calcInput.settlementDate then .ok (entries, usedProvisional || anyProvisional)
    else .ok (cashflowEntry couponAmount faceValue nominal payment rest.isEmpty :: entries,
      usedProvisional || anyProvisional)

/-! ### Results -/

/-- `zero_result`. -/
def zeroResult (result : KernelResult F) : KernelResult F :=
  { result with
    abiVersion := abiVersion
    cashflowCount := 0
    calendarResolution := none
    statusCode := .ok
    measures := ⟨Doubles.zero, Doubles.zero, Doubles.zero, Doubles.zero, Doubles.zero, Doubles.zero,
      Doubles.zero, Doubles.zero⟩ }

/-- What a call leaves: the status that it returns, the result and the cashflows. -/
structure Outcome (F : Type) where
  status : KernelStatus
  result : KernelResult F
  cashflows : Option (List (RawCashflow F))

/-- `return_status`. -/
def returnStatus (result : KernelResult F) (cashflows : Option (List (RawCashflow F)))
    (status : KernelStatus) : Outcome F :=
  ⟨status, { result with statusCode := status }, cashflows⟩

/-- The check of the headers that the cashflows are written to. -/
def headerStatus : List (RawCashflow F) → KernelStatus
  | [] => .ok
  | cashflow :: rest =>
    if cashflow.structSize ≠ sizeOfCashflow then .invalidArgument
    else if cashflow.abiVersion ≠ abiVersion then .abiMismatch
    else headerStatus rest

/-- The loop that writes the cashflows, from a sequence number on. -/
def writeCashflows : ℕ → List (CashflowEntry F) → List (RawCashflow F) → List (RawCashflow F)
  | i, entry :: entries, cashflow :: rest =>
    { cashflow with
      abiVersion := abiVersion
      sequence := i + 1
      nominalDate := entry.nominalDate
      paymentDate := entry.paymentDate
      coupon := entry.coupon
      principal := entry.principal
      total := entry.total } :: writeCashflows (i + 1) entries rest
  | _, _, cashflows => cashflows

/-- `MAX_SCHEDULE`. -/
def maxSchedule : ℕ := 120

variable (pricing : BondInput F → CalculateInput F → List Int32 → Except PricingFailure (Measures F))

/-- The nominal dates of a bond; a discount bond has only its maturity. -/
def nominalSchedule (bond : BondInput F) : List Int32 :=
  if Doubles.beq bond.couponRate Doubles.zero = true then [bond.maturityDate]
  else generateNominalSchedule bond.issueDate bond.maturityDate bond.frequency.toNat maxSchedule

/-- The coupon of one period. -/
def couponAmount (bond : BondInput F) : F :=
  if 0 < bond.frequency then
    Doubles.div (Doubles.mul bond.couponRate bond.faceValue) (Doubles.ofInt bond.frequency.toNat)
  else Doubles.zero

/-- The end of `calculate_impl`, with the cashflows known: the sizing call gets their number, the
    filling call the measures and the cashflows. -/
def finishCalculation (bond : BondInput F) (calcInput : CalculateInput F) (result : KernelResult F)
    (entries : List (CashflowEntry F)) (cashflows : Option (List (RawCashflow F)))
    (cashflowCapacity : ℕ) : Outcome F :=
  match cashflows with
  | none => returnStatus result none (if 0 < entries.length then .bufferTooSmall else .ok)
  | some buffer =>
    if cashflowCapacity < entries.length then returnStatus result (some buffer) .bufferTooSmall
    else
      let headers := headerStatus (buffer.take entries.length)
      if headers ≠ .ok then returnStatus result (some buffer) headers
      else match pricing bond calcInput (nominalSchedule bond) with
        | .error failure => returnStatus result (some buffer) failure.status
        | .ok measures =>
          returnStatus { result with measures := measures } (some (writeCashflows 0 entries buffer))
            .ok

/-- `calculate_impl`. -/
def calculateImpl (bond : BondInput F) (calcInput : CalculateInput F) (result : KernelResult F)
    (cashflows : Option (List (RawCashflow F))) (cashflowCapacity : ℕ) : Option (Outcome F) :=
  if calcInput.exactRequired = true ∧ isProvisionalDate calcInput.settlementDate
      calcInput.calendarCoverageStart calcInput.calendarCoverageEnd = true then
    some (returnStatus result cashflows .calendarCoverageMissing)
  else if nominalSchedule bond = [] then some (returnStatus result cashflows .internalError)
  else match cashflowEntries calcInput (couponAmount bond) bond.faceValue (nominalSchedule bond) with
    | .error .overflow => none
    | .error (.status status) => some (returnStatus result cashflows status)
    | .ok (entries, anyProvisional) =>
      some (finishCalculation pricing bond calcInput
        { result with
          cashflowCount := entries.length
          calendarResolution := some (if anyProvisional then .provisionalWeekendOnly else .exact) }
        entries cashflows cashflowCapacity)

/-- `ficant_kernel_calculate_bond_v1`. -/
def calculateBond (bond : BondInput F) (calcInput : CalculateInput F) (result : KernelResult F)
    (cashflows : Option (List (RawCashflow F))) (cashflowCapacity : ℕ) : Option (Outcome F) :=
  if validateResultHeader result ≠ .ok then
    some ⟨validateResultHeader result, result, cashflows⟩
  else
    let result := zeroResult result
    if validateBondInput bond ≠ .ok then
      some (returnStatus result cashflows (validateBondInput bond))
    else if validateCalcInput calcInput ≠ .ok then
      some (returnStatus result cashflows (validateCalcInput calcInput))
    -- only a null pointer with no capacity asks for the size
    else if cashflows.isNone ∧ 0 < cashflowCapacity ∨ cashflows.isSome ∧ cashflowCapacity = 0 then
      some (returnStatus result cashflows .invalidArgument)
    else calculateImpl pricing bond calcInput result cashflows cashflowCapacity

end Doubles

end Ficant.Kernel
