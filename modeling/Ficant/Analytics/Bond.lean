import Ficant.Lib.StableSort
import Ficant.Primitives.EpochDate
import Ficant.Primitives.FixedDecimal

namespace Ficant.Analytics

open Lib

/-!
# Bonds

What a calculation for a bond is given (`ficant-domain/src/analytics.rs`): the terms of the bond, a
calendar with the days it covers, and the settlement.

* `BondTerms`, `CalendarBinding`, `BondAnalyticsInput` — immutable values with their checks;
* `BondTerms.new`, `BondTerms.withIssuance`, … — the constructors.
-/

/-- `MARKET_TIMEZONE`. -/
def marketTimezone : String := "Asia/Shanghai"

/-- `AnalyticsObjectRef`. -/
structure AnalyticsObjectRef where
  versionRef : VersionRef
  contentHash : ContentHash
  deriving DecidableEq

/-- `AnalyticsMode`. -/
inductive AnalyticsMode
  | yieldIn | priceIn
  deriving DecidableEq, Repr

/-- `CalendarRequirement`. -/
inductive CalendarRequirement
  | referenceReplay | exactMarket
  deriving DecidableEq, Repr

/-- `CouponFrequency`. -/
inductive CouponFrequency
  | annual | semiannual
  deriving DecidableEq, Repr

/-- `DayCountConvention`. -/
inductive DayCountConvention
  | actActBondIsma
  deriving DecidableEq, Repr

/-- `BusinessDayConvention`. -/
inductive BusinessDayConvention
  | following
  deriving DecidableEq, Repr

/-- The discriminants of the enumerations. -/
def AnalyticsMode.code : AnalyticsMode → ℕ
  | .yieldIn => 1
  | .priceIn => 2

def CalendarRequirement.code : CalendarRequirement → ℕ
  | .referenceReplay => 1
  | .exactMarket => 2

def CouponFrequency.code : CouponFrequency → ℕ
  | .annual => 1
  | .semiannual => 2

def DayCountConvention.code : DayCountConvention → ℕ
  | .actActBondIsma => 1

def BusinessDayConvention.code : BusinessDayConvention → ℕ
  | .following => 1

/-! ### Terms -/

/-- `ValueAddedTaxStatus` and `IncomeTaxStatus`. -/
inductive TaxStatus
  | exempt | taxable
  deriving DecidableEq, Repr

/-- `BondTaxAttributes`. -/
structure BondTaxAttributes where
  valueAddedTaxStatus : TaxStatus
  incomeTaxStatus : TaxStatus
  deriving DecidableEq, Repr

/-- `BondTerms`.  Without tax attributes the bond was issued once, for its face amount. -/
structure BondTerms where
  firstIssueDate : NaiveDate
  currentIssueDate : NaiveDate
  maturityDate : NaiveDate
  frequency : CouponFrequency
  dayCount : DayCountConvention
  businessDay : BusinessDayConvention
  couponRate : FixedDecimal
  faceAmount : FixedDecimal
  cumulativeIssuedAmount : FixedDecimal
  taxAttributes : Option BondTaxAttributes
  ordered : firstIssueDate < maturityDate
  issued : firstIssueDate ≤ currentIssueDate ∧ currentIssueDate < maturityDate
  coupon_nonneg : 0 ≤ couponRate.scaled
  face_pos : 0 < faceAmount.scaled
  issued_pos : 0 < cumulativeIssuedAmount.scaled
  untaxed : taxAttributes = none →
    currentIssueDate = firstIssueDate ∧ cumulativeIssuedAmount = faceAmount
  deriving DecidableEq

/-- `BondTerms::new`. -/
def BondTerms.new (firstIssueDate maturityDate : NaiveDate) (frequency : CouponFrequency)
    (dayCount : DayCountConvention) (businessDay : BusinessDayConvention)
    (couponRate faceAmount : FixedDecimal) : Except DomainErrorCode BondTerms :=
  if h : firstIssueDate < maturityDate ∧ 0 ≤ couponRate.scaled ∧ 0 < faceAmount.scaled then
    .ok ⟨firstIssueDate, firstIssueDate, maturityDate, frequency, dayCount, businessDay, couponRate,
      faceAmount, faceAmount, none, h.1, ⟨le_rfl, h.1⟩, h.2.1, h.2.2, h.2.2, fun _ => ⟨rfl, rfl⟩⟩
  else .error .invalidValue

/-- `BondTerms::with_issuance`. -/
def BondTerms.withIssuance (firstIssueDate currentIssueDate maturityDate : NaiveDate)
    (frequency : CouponFrequency) (dayCount : DayCountConvention)
    (businessDay : BusinessDayConvention)
    (couponRate faceAmount cumulativeIssuedAmount : FixedDecimal) (taxAttributes : BondTaxAttributes) :
    Except DomainErrorCode BondTerms :=
  if h : firstIssueDate < maturityDate ∧
      (firstIssueDate ≤ currentIssueDate ∧ currentIssueDate < maturityDate) ∧
      0 ≤ couponRate.scaled ∧ 0 < faceAmount.scaled ∧ 0 < cumulativeIssuedAmount.scaled then
    .ok ⟨firstIssueDate, currentIssueDate, maturityDate, frequency, dayCount, businessDay, couponRate,
      faceAmount, cumulativeIssuedAmount, some taxAttributes, h.1, h.2.1, h.2.2.1, h.2.2.2.1,
      h.2.2.2.2, fun hnone => nomatch hnone⟩
  else .error .invalidValue

/-! ### Calendars -/

/-- `CalendarBinding`. -/
structure CalendarBinding where
  calendarId : String
  version : Version
  contentHash : ContentHash
  coverageStart : NaiveDate
  coverageEnd : NaiveDate
  nonBusinessDays : List NaiveDate
  workWeekends : List NaiveDate
  id_proper : properName calendarId = true
  covers : coverageStart ≤ coverageEnd
  nonBusinessDays_sorted : nonBusinessDays.Pairwise (· < ·)
  workWeekends_sorted : workWeekends.Pairwise (· < ·)
  deriving DecidableEq

/-- `strictly_sorted`. -/
def strictlySorted (values : List NaiveDate) : Bool :=
  (values.zip values.tail).all fun pair => pair.1 < pair.2

theorem strictlySorted_iff {values : List NaiveDate} :
    strictlySorted values = true ↔ values.Pairwise (· < ·) := all_zip_tail_iff_pairwise (· < ·)

/-- `CalendarBinding::new`. -/
def CalendarBinding.new (calendarId : String) (version : Version) (contentHash : ContentHash)
    (coverageStart coverageEnd : NaiveDate) (nonBusinessDays workWeekends : List NaiveDate) :
    Except DomainErrorCode CalendarBinding :=
  if h : properName calendarId = true ∧ coverageStart ≤ coverageEnd ∧
      strictlySorted nonBusinessDays = true ∧ strictlySorted workWeekends = true then
    .ok ⟨calendarId, version, contentHash, coverageStart, coverageEnd, nonBusinessDays, workWeekends,
      h.1, h.2.1, strictlySorted_iff.mp h.2.2.1, strictlySorted_iff.mp h.2.2.2⟩
  else .error .invalidValue

/-! ### Inputs -/

/-- `BondAnalyticsInput`. -/
structure BondAnalyticsInput where
  owner : OwnerRef
  bond : AnalyticsObjectRef
  rulePack : AnalyticsObjectRef
  snapshot : AnalyticsObjectRef
  valuationAt : MarketTime
  settlementDate : NaiveDate
  calendarRequirement : CalendarRequirement
  calendar : CalendarBinding
  terms : BondTerms
  mode : AnalyticsMode
  inputValue : FixedDecimal
  timezone : valuationAt.marketTimezone = marketTimezone
  settles : terms.firstIssueDate ≤ settlementDate ∧ settlementDate < terms.maturityDate
  value_pos : 0 < inputValue.scaled
  covered : calendarRequirement = .exactMarket →
    calendar.coverageStart ≤ settlementDate ∧ settlementDate ≤ calendar.coverageEnd
  deriving DecidableEq

/-- `BondAnalyticsInput::new`. -/
def BondAnalyticsInput.new (owner : OwnerRef) (bond rulePack snapshot : AnalyticsObjectRef)
    (valuationAt : MarketTime) (settlementDate : NaiveDate)
    (calendarRequirement : CalendarRequirement) (calendar : CalendarBinding) (terms : BondTerms)
    (mode : AnalyticsMode) (inputValue : FixedDecimal) : Except DomainErrorCode BondAnalyticsInput :=
  if h : valuationAt.marketTimezone = marketTimezone ∧
      (terms.firstIssueDate ≤ settlementDate ∧ settlementDate < terms.maturityDate) ∧
      0 < inputValue.scaled then
    if hcovered : calendarRequirement = .exactMarket →
        calendar.coverageStart ≤ settlementDate ∧ settlementDate ≤ calendar.coverageEnd then
      .ok ⟨owner, bond, rulePack, snapshot, valuationAt, settlementDate, calendarRequirement, calendar,
        terms, mode, inputValue, h.1, h.2.1, h.2.2, hcovered⟩
    else .error .invalidEffectiveTime
  else .error .invalidValue

end Ficant.Analytics
