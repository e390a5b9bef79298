import Ficant.Futures.DeliveryRule

namespace Ficant.Futures

open Lib Analytics

/-!
# Deliverable bonds

One candidate bond of a futures contract, with everything that its delivery is calculated from
(`ficant-domain/src/futures_delivery.rs`).

* `FuturesDeliverableInput` — with its constructor;
* `FuturesDeliveryMeasures`, `FuturesDeliveryResult` — what an engine calculates for it.
-/

/-- `CgbFuturesProduct`. -/
inductive CgbFuturesProduct
  | twoYear | fiveYear | tenYear | thirtyYear
  deriving DecidableEq, Repr

def CgbFuturesProduct.number : CgbFuturesProduct → ℕ
  | .twoYear => 1
  | .fiveYear => 2
  | .tenYear => 3
  | .thirtyYear => 4

/-- `FuturesDeliverableInput`. -/
structure FuturesDeliverableInput where
  owner : OwnerRef
  futuresContract : AnalyticsObjectRef
  bond : AnalyticsObjectRef
  rulePack : AnalyticsObjectRef
  snapshot : AnalyticsObjectRef
  valuationAt : MarketTime
  purchaseDate : NaiveDate
  deliveryMonthFirst : NaiveDate
  deliveryDate : NaiveDate
  product : CgbFuturesProduct
  rule : FuturesDeliveryRule
  terms : BondTerms
  spotCleanPrice : FixedDecimal
  futuresCleanPrice : FixedDecimal
  financingRate : FixedDecimal
  timezone : valuationAt.marketTimezone = Analytics.marketTimezone
  valued : valuationAt.localTradingDate ≤ purchaseDate
  purchased : terms.firstIssueDate ≤ purchaseDate ∧ purchaseDate < deliveryDate
  delivered : deliveryDate < terms.maturityDate
  first_day : deliveryMonthFirst.day = 1
  month_listed : ∃ month ∈ rule.deliveryMonths, month.toNat = deliveryMonthFirst.month
  same_month : deliveryDate.year = deliveryMonthFirst.year ∧
    deliveryDate.month = deliveryMonthFirst.month
  coupon_pos : 0 < terms.couponRate.scaled
  face_eq : terms.faceAmount = rule.faceQuoteBasis
  spot_pos : 0 < spotCleanPrice.scaled
  futures_pos : 0 < futuresCleanPrice.scaled
  financing_nonneg : 0 ≤ financingRate.scaled
  deliverable : isDeliverableByDates rule terms.firstIssueDate terms.maturityDate
    deliveryMonthFirst = .ok true

instance : DecidableEq FuturesDeliverableInput := fun a b =>
  decidable_of_iff
    (a.owner = b.owner ∧ a.futuresContract = b.futuresContract ∧ a.bond = b.bond ∧
      a.rulePack = b.rulePack ∧ a.snapshot = b.snapshot ∧ a.valuationAt = b.valuationAt ∧
      a.purchaseDate = b.purchaseDate ∧ a.deliveryMonthFirst = b.deliveryMonthFirst ∧
      a.deliveryDate = b.deliveryDate ∧ a.product = b.product ∧ a.rule = b.rule ∧
      a.terms = b.terms ∧ a.spotCleanPrice = b.spotCleanPrice ∧
      a.futuresCleanPrice = b.futuresCleanPrice ∧ a.financingRate = b.financingRate)
    (by cases a; cases b; simp)

/-- `FuturesDeliverableInput::new`. -/
def FuturesDeliverableInput.new (owner : OwnerRef)
    (futuresContract bond rulePack snapshot : AnalyticsObjectRef) (valuationAt : MarketTime)
    (purchaseDate deliveryMonthFirst deliveryDate : NaiveDate) (product : CgbFuturesProduct)
    (rule : FuturesDeliveryRule) (terms : BondTerms)
    (spotCleanPrice futuresCleanPrice financingRate : FixedDecimal) :
    Except DomainErrorCode FuturesDeliverableInput :=
  if h : (valuationAt.marketTimezone = Analytics.marketTimezone ∧
      valuationAt.localTradingDate ≤ purchaseDate ∧
      (terms.firstIssueDate ≤ purchaseDate ∧ purchaseDate < deliveryDate) ∧
      deliveryDate < terms.maturityDate ∧ deliveryMonthFirst.day = 1 ∧
      (∃ month ∈ rule.deliveryMonths, month.toNat = deliveryMonthFirst.month) ∧
      (deliveryDate.year = deliveryMonthFirst.year ∧ deliveryDate.month = deliveryMonthFirst.month)) ∧
      0 < terms.couponRate.scaled ∧ terms.faceAmount = rule.faceQuoteBasis ∧
      0 < spotCleanPrice.scaled ∧ 0 < futuresCleanPrice.scaled ∧ 0 ≤ financingRate.scaled then
    if hdeliverable : isDeliverableByDates rule terms.firstIssueDate terms.maturityDate
        deliveryMonthFirst = .ok true then
      .ok ⟨owner, futuresContract, bond, rulePack, snapshot, valuationAt, purchaseDate,
        deliveryMonthFirst, deliveryDate, product, rule, terms, spotCleanPrice, futuresCleanPrice,
        financingRate, h.1.1, h.1.2.1, h.1.2.2.1, h.1.2.2.2.1, h.1.2.2.2.2.1, h.1.2.2.2.2.2.1,
        h.1.2.2.2.2.2.2, h.2.1, h.2.2.1, h.2.2.2.1, h.2.2.2.2.1, h.2.2.2.2.2, hdeliverable⟩
    else .error .invalidValue
  else .error .invalidValue

/-! ### Results -/

/-- `FuturesDeliveryMeasures`. -/
structure FuturesDeliveryMeasures where
  monthsToNextCoupon : UInt32
  remainingCouponCount : UInt32
  conversionFactor : FixedDecimal
  purchaseAccruedInterest : FixedDecimal
  deliveryAccruedInterest : FixedDecimal
  interimCoupons : FixedDecimal
  invoicePrice : FixedDecimal
  purchaseDirtyPrice : FixedDecimal
  grossBasis : FixedDecimal
  financingCost : FixedDecimal
  holdingCarry : FixedDecimal
  netBasis : FixedDecimal
  impliedRepoRate : FixedDecimal
  deliveryProfit : FixedDecimal
  count_ne : remainingCouponCount ≠ 0
  factor_pos : 0 < conversionFactor.scaled
  purchaseInterest_nonneg : 0 ≤ purchaseAccruedInterest.scaled
  deliveryInterest_nonneg : 0 ≤ deliveryAccruedInterest.scaled
  coupons_nonneg : 0 ≤ interimCoupons.scaled
  invoice_pos : 0 < invoicePrice.scaled
  dirty_pos : 0 < purchaseDirtyPrice.scaled
  cost_nonneg : 0 ≤ financingCost.scaled
  basis_eq : netBasis.scaled = grossBasis.scaled - holdingCarry.scaled
  profit_eq : deliveryProfit.scaled = -netBasis.scaled

instance : DecidableEq FuturesDeliveryMeasures := fun a b =>
  decidable_of_iff
    (a.monthsToNextCoupon = b.monthsToNextCoupon ∧ a.remainingCouponCount = b.remainingCouponCount ∧
      a.conversionFactor = b.conversionFactor ∧
      a.purchaseAccruedInterest = b.purchaseAccruedInterest ∧
      a.deliveryAccruedInterest = b.deliveryAccruedInterest ∧ a.interimCoupons = b.interimCoupons ∧
      a.invoicePrice = b.invoicePrice ∧ a.purchaseDirtyPrice = b.purchaseDirtyPrice ∧
      a.grossBasis = b.grossBasis ∧ a.financingCost = b.financingCost ∧
      a.holdingCarry = b.holdingCarry ∧ a.netBasis = b.netBasis ∧
      a.impliedRepoRate = b.impliedRepoRate ∧ a.deliveryProfit = b.deliveryProfit)
    (by cases a; cases b; simp)

/-- `FuturesDeliveryMeasures::new`. -/
def FuturesDeliveryMeasures.new (monthsToNextCoupon remainingCouponCount : UInt32)
    (conversionFactor purchaseAccruedInterest deliveryAccruedInterest interimCoupons invoicePrice
      purchaseDirtyPrice grossBasis financingCost holdingCarry netBasis impliedRepoRate
      deliveryProfit : FixedDecimal) : Except DomainErrorCode FuturesDeliveryMeasures :=
  if h : remainingCouponCount ≠ 0 ∧ 0 < conversionFactor.scaled ∧
      0 ≤ purchaseAccruedInterest.scaled ∧ 0 ≤ deliveryAccruedInterest.scaled ∧
      0 ≤ interimCoupons.scaled ∧ 0 < invoicePrice.scaled ∧ 0 < purchaseDirtyPrice.scaled ∧
      0 ≤ financingCost.scaled ∧ netBasis.scaled = grossBasis.scaled - holdingCarry.scaled ∧
      deliveryProfit.scaled = -netBasis.scaled then
    .ok ⟨monthsToNextCoupon, remainingCouponCount, conversionFactor, purchaseAccruedInterest,
      deliveryAccruedInterest, interimCoupons, invoicePrice, purchaseDirtyPrice, grossBasis,
      financingCost, holdingCarry, netBasis, impliedRepoRate, deliveryProfit, h.1, h.2.1, h.2.2.1,
      h.2.2.2.1, h.2.2.2.2.1, h.2.2.2.2.2.1, h.2.2.2.2.2.2.1, h.2.2.2.2.2.2.2.1,
      h.2.2.2.2.2.2.2.2.1, h.2.2.2.2.2.2.2.2.2⟩
  else .error .invalidValue

/-- `FuturesDeliveryResult`. -/
structure FuturesDeliveryResult where
  input : FuturesDeliverableInput
  measures : FuturesDeliveryMeasures
  deriving DecidableEq

/-- `validate_against`. -/
def FuturesDeliveryResult.validateAgainst (self : FuturesDeliveryResult)
    (input : FuturesDeliverableInput) : Except DomainErrorCode Unit :=
  rejectIf (self.input ≠ input) .brokenLineage

end Ficant.Futures
