import Ficant.Lib.Except
import Ficant.Lib.StableSort
import Ficant.Analytics.Bond
import Ficant.Kernel.EpochDays

namespace Ficant.Futures

open Lib

/-!
# Delivery rules of bond futures

The rule that a parsed `RulePack` gives for a product (`ficant-domain/src/futures_delivery.rs`), and
the test whether a bond can be delivered.

* `FuturesDeliveryRule` — with its constructor, and the contract size that may be added later;
* `isDeliverableByDates` — the terms at issue and at delivery, in months.
-/

/-- `FuturesDeliveryRule`. -/
structure FuturesDeliveryRule where
  originalTermMaxMonths : UInt32
  residualMinMonths : UInt32
  residualMaxMonths : Option UInt32
  deliveryMonths : List UInt32
  nominalCoupon : FixedDecimal
  faceQuoteBasis : FixedDecimal
  accruedInterestDayCount : UInt32
  conversionFactorRoundingPlaces : UInt32
  accruedInterestRoundingPlaces : UInt32
  annualDayBasis : UInt32
  contractSizeInQuoteUnits : Option UInt32
  original_pos : originalTermMaxMonths ≠ 0
  residual_pos : residualMinMonths ≠ 0
  residual_le : ∀ value ∈ residualMaxMonths, residualMinMonths ≤ value
  deliveryMonths_ne : deliveryMonths ≠ []
  deliveryMonths_range : ∀ month ∈ deliveryMonths, 1 ≤ month ∧ month ≤ 12
  deliveryMonths_sorted : deliveryMonths.Pairwise (· < ·)
  nominalCoupon_pos : 0 < nominalCoupon.scaled
  faceQuoteBasis_pos : 0 < faceQuoteBasis.scaled
  dayCount_ne : accruedInterestDayCount ≠ 0
  factorPlaces_le : conversionFactorRoundingPlaces ≤ 12
  interestPlaces_le : accruedInterestRoundingPlaces ≤ 12
  dayBasis_ne : annualDayBasis ≠ 0
  contractSize_ne : contractSizeInQuoteUnits ≠ some 0

instance : DecidableEq FuturesDeliveryRule := fun a b =>
  decidable_of_iff
    (a.originalTermMaxMonths = b.originalTermMaxMonths ∧ a.residualMinMonths = b.residualMinMonths ∧
      a.residualMaxMonths = b.residualMaxMonths ∧ a.deliveryMonths = b.deliveryMonths ∧
      a.nominalCoupon = b.nominalCoupon ∧ a.faceQuoteBasis = b.faceQuoteBasis ∧
      a.accruedInterestDayCount = b.accruedInterestDayCount ∧
      a.conversionFactorRoundingPlaces = b.conversionFactorRoundingPlaces ∧
      a.accruedInterestRoundingPlaces = b.accruedInterestRoundingPlaces ∧
      a.annualDayBasis = b.annualDayBasis ∧ a.contractSizeInQuoteUnits = b.contractSizeInQuoteUnits)
    (by cases a; cases b; simp)

/-- `FuturesDeliveryRule::new`. -/
def FuturesDeliveryRule.new (originalTermMaxMonths residualMinMonths : UInt32)
    (residualMaxMonths : Option UInt32) (deliveryMonths : List UInt32)
    (nominalCoupon faceQuoteBasis : FixedDecimal)
    (accruedInterestDayCount conversionFactorRoundingPlaces accruedInterestRoundingPlaces
      annualDayBasis : UInt32) : Except DomainErrorCode FuturesDeliveryRule :=
  if h : originalTermMaxMonths ≠ 0 ∧ residualMinMonths ≠ 0 ∧
      (∀ value ∈ residualMaxMonths, residualMinMonths ≤ value) ∧
      (deliveryMonths ≠ [] ∧ (∀ month ∈ deliveryMonths, 1 ≤ month ∧ month ≤ 12) ∧
        ((deliveryMonths.zip deliveryMonths.tail).all fun pair => pair.1 < pair.2) = true) ∧
      0 < nominalCoupon.scaled ∧ 0 < faceQuoteBasis.scaled ∧ accruedInterestDayCount ≠ 0 ∧
      conversionFactorRoundingPlaces ≤ 12 ∧ accruedInterestRoundingPlaces ≤ 12 ∧
      annualDayBasis ≠ 0 then
    .ok ⟨originalTermMaxMonths, residualMinMonths, residualMaxMonths, deliveryMonths, nominalCoupon,
      faceQuoteBasis, accruedInterestDayCount, conversionFactorRoundingPlaces,
      accruedInterestRoundingPlaces, annualDayBasis, none, h.1, h.2.1, h.2.2.1, h.2.2.2.1.1,
      h.2.2.2.1.2.1, (all_zip_tail_iff_pairwise (· < ·)).mp h.2.2.2.1.2.2, h.2.2.2.2.1,
      h.2.2.2.2.2.1, h.2.2.2.2.2.2.1, h.2.2.2.2.2.2.2.1, h.2.2.2.2.2.2.2.2.1,
      h.2.2.2.2.2.2.2.2.2, by simp⟩
  else .error .invalidValue

/-- `with_contract_size_in_quote_units`. -/
def FuturesDeliveryRule.withContractSizeInQuoteUnits (rule : FuturesDeliveryRule) (value : UInt32) :
    Except DomainErrorCode FuturesDeliveryRule :=
  if h : value = 0 then .error .invalidValue
  else .ok { rule with
    contractSizeInQuoteUnits := some value
    contractSize_ne := by simpa using h }

/-- `checked_add_months` with `ok_or(InvalidValue)`. -/
def addMonthsOrInvalid (date : NaiveDate) (months : UInt32) : Except DomainErrorCode NaiveDate :=
  match date.checkedAddMonths months.toNat with
  | some shifted => .ok shifted
  | none => .error .invalidValue

/-- `is_deliverable_by_dates`. -/
def isDeliverableByDates (rule : FuturesDeliveryRule)
    (firstIssueDate maturityDate deliveryMonthFirst : NaiveDate) : Except DomainErrorCode Bool := do
  let originalLimit ← addMonthsOrInvalid firstIssueDate rule.originalTermMaxMonths
  let minimumMaturity ← addMonthsOrInvalid deliveryMonthFirst rule.residualMinMonths
  let maximumMaturity ← match rule.residualMaxMonths with
    | some months => some <$> addMonthsOrInvalid deliveryMonthFirst months
    | none => pure none
  return maturityDate ≤ originalLimit && minimumMaturity ≤ maturityDate &&
    maximumMaturity.all fun maximum => maturityDate ≤ maximum

theorem addMonthsOrInvalid_eq_ok {date shifted : NaiveDate} {months : UInt32} :
    addMonthsOrInvalid date months = .ok shifted ↔
      date.checkedAddMonths months.toNat = some shifted := by
  unfold addMonthsOrInvalid
  split
  · rename_i result hresult
    rw [hresult, Except.ok.injEq, Option.some.injEq]
  · rename_i hresult
    rw [hresult]
    simp

end Ficant.Futures
