import Ficant.Overview.Decimals

namespace Ficant.Overview

open Lib

/-!
# The weighted averages of a portfolio

Five averages over the bond positions of a portfolio, weighted with market values, with notionals and
with market values times durations (`portfolio_aggregation.rs`).

* `RawWeightedAverage.foldlM_add_eq_ok` — the sums of one average are exact;
* `commonPositiveDivisor_eq_ok` — the divisor of the weights is their greatest common one;
* `foldlM_add_eq_ok` — the loop over the positions is five loops, one for each average.
-/

/-! ### Positions -/

/-- `PortfolioWeightedMetricUnits`. -/
structure PortfolioWeightedMetricUnits where
  ytm : UnitRef
  duration : UnitRef
  convexity : UnitRef
  couponRate : UnitRef
  remainingYears : UnitRef
  deriving DecidableEq

/-- `PortfolioBondMetricFacts`: every measure is positive, except that a coupon rate may be zero. -/
structure PortfolioBondMetricFacts where
  yieldToMaturity : FixedDecimal
  modifiedDuration : FixedDecimal
  convexity : FixedDecimal
  couponRate : FixedDecimal
  remainingYears : FixedDecimal
  units : PortfolioWeightedMetricUnits
  positive : 0 < yieldToMaturity.scaled ∧ 0 < modifiedDuration.scaled ∧ 0 < convexity.scaled ∧
    0 ≤ couponRate.scaled ∧ 0 < remainingYears.scaled
  deriving DecidableEq

/-- `PortfolioBondMetricFacts::new`. -/
def PortfolioBondMetricFacts.new (yieldToMaturity modifiedDuration convexity couponRate
    remainingYears : FixedDecimal) (units : PortfolioWeightedMetricUnits) :
    Except ApplicationError PortfolioBondMetricFacts :=
  if h : 0 < yieldToMaturity.scaled ∧ 0 < modifiedDuration.scaled ∧ 0 < convexity.scaled ∧
      0 ≤ couponRate.scaled ∧ 0 < remainingYears.scaled then
    .ok ⟨yieldToMaturity, modifiedDuration, convexity, couponRate, remainingYears, units, h⟩
  else .error validation

/-- `PortfolioWeightedMetricEligibility`. -/
inductive PortfolioWeightedMetricEligibility
  | bond (metrics : PortfolioBondMetricFacts)
  | nonBond
  | missingBondMetric
  deriving DecidableEq

/-- `PortfolioMetricPosition`: two amounts of one unit, which fixed decimals can represent. -/
structure PortfolioMetricPosition where
  positionId : Ulid
  marketValue : StoredDecimal
  economicPnl : StoredDecimal
  signedNotional : FixedDecimal
  weightedMetricEligibility : PortfolioWeightedMetricEligibility
  sameUnit : marketValue.unit = economicPnl.unit
  fixedMarketValue : (decimalToFixed marketValue).toOption.isSome
  fixedEconomicPnl : (decimalToFixed economicPnl).toOption.isSome

instance : DecidableEq PortfolioMetricPosition := fun a b =>
  decidable_of_iff
    (a.positionId = b.positionId ∧ a.marketValue = b.marketValue ∧ a.economicPnl = b.economicPnl ∧
      a.signedNotional = b.signedNotional ∧
      a.weightedMetricEligibility = b.weightedMetricEligibility)
    (by cases a; cases b; simp)

/-- `PortfolioMetricPosition::from_totals`. -/
def PortfolioMetricPosition.fromTotals (positionId : Ulid) (marketValue economicPnl : StoredDecimal)
    (signedNotional : FixedDecimal) (weightedMetricEligibility : PortfolioWeightedMetricEligibility) :
    Except ApplicationError PortfolioMetricPosition :=
  if h : marketValue.unit = economicPnl.unit ∧ (decimalToFixed marketValue).toOption.isSome ∧
      (decimalToFixed economicPnl).toOption.isSome then
    .ok ⟨positionId, marketValue, economicPnl, signedNotional, weightedMetricEligibility, h.1,
      h.2.1, h.2.2⟩
  else .error validation

/-- `PortfolioMetricOutputScales`. -/
structure PortfolioMetricOutputScales where
  money : ℕ
  rate : ℕ
  years : ℕ
  yearsSquared : ℕ
  dv01 : ℕ
  bounded : money ≤ maxDecimalScale ∧ rate ≤ maxDecimalScale ∧ years ≤ maxDecimalScale ∧
    yearsSquared ≤ maxDecimalScale ∧ dv01 ≤ maxDecimalScale
  deriving DecidableEq

/-- `PortfolioMetricOutputScales::new`. -/
def PortfolioMetricOutputScales.new (money rate years yearsSquared dv01 : ℕ) :
    Except ApplicationError PortfolioMetricOutputScales :=
  if h : money ≤ maxDecimalScale ∧ rate ≤ maxDecimalScale ∧ years ≤ maxDecimalScale ∧
      yearsSquared ≤ maxDecimalScale ∧ dv01 ≤ maxDecimalScale then
    .ok ⟨money, rate, years, yearsSquared, dv01, h⟩
  else .error validation

/-- The market value of a position as a fixed decimal. -/
def PortfolioMetricPosition.market (position : PortfolioMetricPosition) : FixedDecimal :=
  (decimalToFixed position.marketValue).toOption.get position.fixedMarketValue

/-- The market value of a position converts to its fixed form. -/
theorem PortfolioMetricPosition.decimalToFixed_marketValue (position : PortfolioMetricPosition) :
    decimalToFixed position.marketValue = .ok position.market := eq_ok_get position.fixedMarketValue

/-! ### One average -/

/-- `RawWeightedAverage`. -/
structure RawWeightedAverage where
  numerator : ℤ
  denominator : ℤ
  deriving DecidableEq

namespace RawWeightedAverage

/-- `RawWeightedAverage::add`. -/
def add (self : RawWeightedAverage) (rawWeight : ℤ) (value : FixedDecimal) :
    Except ApplicationError RawWeightedAverage := do
  rejectIf (rawWeight ≤ 0 ∨ value.scaled < 0) validation
  let weightedValue ← checkedI128 (rawWeight * value.scaled)
  let numerator ← checkedI128 (self.numerator + weightedValue)
  let denominator ← checkedI128 (self.denominator + rawWeight)
  return ⟨numerator, denominator⟩

/-- `RawWeightedAverage::new`. -/
def new (rawWeight : ℤ) (value : FixedDecimal) : Except ApplicationError RawWeightedAverage :=
  add ⟨0, 0⟩ rawWeight value

/-- `RawWeightedAverage::into_decimal`. -/
def intoDecimal (self : RawWeightedAverage) (outputScale : ℕ) (unit : UnitRef) :
    Except ApplicationError StoredDecimal :=
  rationalWeightedAverageToDecimal self.numerator self.denominator outputScale unit

end RawWeightedAverage

/-! ### Common divisors -/

/-- `positive_greatest_common_divisor`. -/
def positiveGreatestCommonDivisor (left right : ℤ) : ℤ :=
  if right = 0 then left else positiveGreatestCommonDivisor right (left.tmod right)
termination_by right.natAbs
decreasing_by
  rename_i h
  rw [Int.natAbs_tmod]
  exact Nat.mod_lt _ (Int.natAbs_pos.mpr h)

/-- `common_positive_divisor`. -/
def commonPositiveDivisor : List ℤ → Except ApplicationError ℤ
  | [] => .error validation
  | first :: rest => do
    rejectIf (first ≤ 0) validation
    rest.foldlM (fun divisor value => do
      rejectIf (value ≤ 0) validation
      return positiveGreatestCommonDivisor divisor value) first

/-- `checked_raw_product`. -/
def checkedRawProduct (left right : ℤ) : Except ApplicationError ℤ := do
  rejectIf (left ≤ 0 ∨ right ≤ 0) validation
  checkedI128 (left * right)

/-! ### Five averages -/

/-- A participating position and its measures. -/
abbrev Participant := PortfolioMetricPosition × PortfolioBondMetricFacts

/-- `RawWeightedPosition`. -/
structure RawWeightedPosition where
  marketValue : ℤ
  notional : ℤ
  ytmWeight : ℤ
  metrics : PortfolioBondMetricFacts
  deriving DecidableEq

/-- The raw weights of one position. -/
def rawWeightedPosition (units : PortfolioWeightedMetricUnits) (participant : Participant) :
    Except ApplicationError RawWeightedPosition := do
  rejectIf (participant.2.units ≠ units) validation
  let marketValue ← decimalToFixed participant.1.marketValue
  let ytmWeight ← checkedRawProduct marketValue.scaled participant.2.modifiedDuration.scaled
  return ⟨marketValue.scaled, participant.1.signedNotional.scaled, ytmWeight, participant.2⟩

/-- The three divisors of `weighted_averages`. -/
structure WeightDivisors where
  marketValue : ℤ
  notional : ℤ
  ytmWeight : ℤ

/-- The five sums of `weighted_averages`. -/
structure RawWeightedAverages where
  ytm : RawWeightedAverage
  duration : RawWeightedAverage
  convexity : RawWeightedAverage
  coupon : RawWeightedAverage
  remaining : RawWeightedAverage

/-- The sums of the first position. -/
def RawWeightedAverages.new (divisors : WeightDivisors) (first : RawWeightedPosition) :
    Except ApplicationError RawWeightedAverages := do
  let ytm ← RawWeightedAverage.new (first.ytmWeight.tdiv divisors.ytmWeight)
    first.metrics.yieldToMaturity
  let duration ← RawWeightedAverage.new (first.marketValue.tdiv divisors.marketValue)
    first.metrics.modifiedDuration
  let convexity ← RawWeightedAverage.new (first.marketValue.tdiv divisors.marketValue)
    first.metrics.convexity
  let coupon ← RawWeightedAverage.new (first.notional.tdiv divisors.notional) first.metrics.couponRate
  let remaining ← RawWeightedAverage.new (first.notional.tdiv divisors.notional)
    first.metrics.remainingYears
  return ⟨ytm, duration, convexity, coupon, remaining⟩

/-- The sums with one more position. -/
def RawWeightedAverages.add (units : PortfolioWeightedMetricUnits) (divisors : WeightDivisors)
    (sums : RawWeightedAverages) (position : RawWeightedPosition) :
    Except ApplicationError RawWeightedAverages := do
  rejectIf (position.metrics.units ≠ units) validation
  let ytm ← sums.ytm.add (position.ytmWeight.tdiv divisors.ytmWeight) position.metrics.yieldToMaturity
  let duration ← sums.duration.add (position.marketValue.tdiv divisors.marketValue)
    position.metrics.modifiedDuration
  let convexity ← sums.convexity.add (position.marketValue.tdiv divisors.marketValue)
    position.metrics.convexity
  let coupon ← sums.coupon.add (position.notional.tdiv divisors.notional) position.metrics.couponRate
  let remaining ← sums.remaining.add (position.notional.tdiv divisors.notional)
    position.metrics.remainingYears
  return ⟨ytm, duration, convexity, coupon, remaining⟩

/-- `WeightedAverages`. -/
structure WeightedAverages where
  ytm : StoredDecimal
  duration : StoredDecimal
  convexity : StoredDecimal
  coupon : StoredDecimal
  remaining : StoredDecimal
  deriving DecidableEq

/-- The five results of the sums. -/
def RawWeightedAverages.intoDecimals (sums : RawWeightedAverages)
    (outputScales : PortfolioMetricOutputScales)
    (units : PortfolioWeightedMetricUnits) : Except ApplicationError WeightedAverages := do
  let ytm ← sums.ytm.intoDecimal outputScales.rate units.ytm
  let duration ← sums.duration.intoDecimal outputScales.years units.duration
  let convexity ← sums.convexity.intoDecimal outputScales.yearsSquared units.convexity
  let coupon ← sums.coupon.intoDecimal outputScales.rate units.couponRate
  let remaining ← sums.remaining.intoDecimal outputScales.years units.remainingYears
  return ⟨ytm, duration, convexity, coupon, remaining⟩

/-- `weighted_averages`. -/
def weightedAverages (participating : List Participant) (outputScales : PortfolioMetricOutputScales) :
    Except ApplicationError WeightedAverages :=
  match participating with
  | [] => .error validation
  | (_, firstMetrics) :: _ => do
    let units := firstMetrics.units
    let weightedPositions ← participating.mapM (rawWeightedPosition units)
    let marketValue ← commonPositiveDivisor (weightedPositions.map (·.marketValue))
    let notional ← commonPositiveDivisor (weightedPositions.map (·.notional))
    let ytmWeight ← commonPositiveDivisor (weightedPositions.map (·.ytmWeight))
    match weightedPositions with
    | [] => .error validation
    | first :: rest => do
      let sums ← RawWeightedAverages.new ⟨marketValue, notional, ytmWeight⟩ first
      let sums ← rest.foldlM (RawWeightedAverages.add units ⟨marketValue, notional, ytmWeight⟩) sums
      sums.intoDecimals outputScales units

/-! ### What one sum is -/

namespace RawWeightedAverage

/-- A sum with one more value. -/
theorem add_eq_ok {self result : RawWeightedAverage} {rawWeight : ℤ} {value : FixedDecimal} :
    self.add rawWeight value = .ok result ↔ (0 < rawWeight ∧ 0 ≤ value.scaled) ∧
      InI128 (rawWeight * value.scaled) ∧ InI128 (self.numerator + rawWeight * value.scaled) ∧
      InI128 (self.denominator + rawWeight) ∧
      result = ⟨self.numerator + rawWeight * value.scaled, self.denominator + rawWeight⟩ := by
  unfold add
  constructor
  · intro h
    obtain ⟨⟨⟩, hcheck, h⟩ := bind_eq_ok.mp h
    obtain ⟨weighted, hweighted, h⟩ := bind_eq_ok.mp h
    obtain ⟨numerator, hnumerator, h⟩ := bind_eq_ok.mp h
    obtain ⟨denominator, hdenominator, h⟩ := bind_eq_ok.mp h
    rw [rejectIf_eq_ok] at hcheck
    rw [checkedI128_eq_ok] at hweighted hnumerator hdenominator
    obtain ⟨hw, rfl⟩ := hweighted
    obtain ⟨hn, rfl⟩ := hnumerator
    obtain ⟨hd, rfl⟩ := hdenominator
    exact ⟨by omega, hw, hn, hd, (Except.ok.inj h).symm⟩
  · rintro ⟨hcheck, hw, hn, hd, rfl⟩
    rw [rejectIf_of_not (by omega), ok_bind, checkedI128_of_inI128 hw, ok_bind,
      checkedI128_of_inI128 hn, ok_bind, checkedI128_of_inI128 hd]
    rfl

/-- The products of weights and values. -/
def products (l : List (ℤ × FixedDecimal)) : ℤ := (l.map fun p => p.1 * p.2.scaled).sum

/-- The weights. -/
def weights (l : List (ℤ × FixedDecimal)) : ℤ := (l.map Prod.fst).sum

/-- **The sums of a list** are exact: without negative numbers no sum on the way is larger than the
    last. -/
theorem foldlM_add_eq_ok {l : List (ℤ × FixedDecimal)} (hvalues : ∀ p ∈ l, 0 ≤ p.2.scaled)
    {self result : RawWeightedAverage} (hnumerator : InI128 self.numerator ∧ 0 ≤ self.numerator)
    (hdenominator : InI128 self.denominator ∧ 0 ≤ self.denominator) :
    l.foldlM (fun sum p => sum.add p.1 p.2) self = .ok result ↔ (∀ p ∈ l, 0 < p.1) ∧
      InI128 (self.numerator + products l) ∧ InI128 (self.denominator + weights l) ∧
      result = ⟨self.numerator + products l, self.denominator + weights l⟩ := by
  unfold products weights
  induction l generalizing self with
  | nil =>
    rw [List.foldlM_nil, List.map_nil, List.map_nil, List.sum_nil, add_zero, add_zero]
    constructor
    · intro h
      obtain rfl := Except.ok.inj h
      exact ⟨(fun p hp => nomatch hp), hnumerator.1, hdenominator.1, rfl⟩
    · rintro ⟨-, -, -, rfl⟩
      rfl
  | cons p l ih =>
    have hvalue := hvalues p List.mem_cons_self
    have hrest : ∀ q ∈ l, 0 ≤ q.2.scaled := fun q hq => hvalues q (List.mem_cons_of_mem _ hq)
    rw [List.foldlM_cons, bind_eq_ok, List.forall_mem_cons, List.map_cons, List.map_cons,
      List.sum_cons, List.sum_cons, ← add_assoc, ← add_assoc]
    constructor
    · rintro ⟨next, hnext, h⟩
      obtain ⟨⟨hw, -⟩, -, hn, hd, rfl⟩ := add_eq_ok.mp hnext
      have hproduct : 0 ≤ p.1 * p.2.scaled := mul_nonneg hw.le hvalue
      obtain ⟨hpos, hn', hd', rfl⟩ := (ih hrest ⟨hn, by show 0 ≤ self.numerator + _; omega⟩
        ⟨hd, by show 0 ≤ self.denominator + _; omega⟩).mp h
      exact ⟨⟨hw, hpos⟩, hn', hd', rfl⟩
    · rintro ⟨⟨hw, hpos⟩, hn, hd, rfl⟩
      have hproduct : 0 ≤ p.1 * p.2.scaled := mul_nonneg hw.le hvalue
      have hproducts : 0 ≤ (l.map fun q => q.1 * q.2.scaled).sum := by
        apply List.sum_nonneg
        intro x hx
        obtain ⟨q, hq, rfl⟩ := List.mem_map.mp hx
        exact mul_nonneg (hpos q hq).le (hrest q hq)
      have hweights : 0 ≤ (l.map Prod.fst).sum := by
        apply List.sum_nonneg
        intro x hx
        obtain ⟨q, hq, rfl⟩ := List.mem_map.mp hx
        exact (hpos q hq).le
      obtain ⟨-, hnmax⟩ := hn
      obtain ⟨-, hdmax⟩ := hd
      have hn1 : InI128 (self.numerator + p.1 * p.2.scaled) := ⟨by omega, by omega⟩
      have hd1 : InI128 (self.denominator + p.1) := ⟨by omega, by omega⟩
      refine ⟨_, add_eq_ok.mpr ⟨⟨hw, hvalue⟩, ⟨by omega, by omega⟩, hn1, hd1, rfl⟩, ?_⟩
      refine (ih hrest ⟨hn1, by show 0 ≤ self.numerator + _; omega⟩
        ⟨hd1, by show 0 ≤ self.denominator + _; omega⟩).mpr ⟨hpos, ⟨?_, hnmax⟩, ⟨?_, hdmax⟩, rfl⟩
      · show -2 ^ 127 ≤ self.numerator + p.1 * p.2.scaled + _
        omega
      · show -2 ^ 127 ≤ self.denominator + p.1 + _
        omega

end RawWeightedAverage

/-! ### What the divisors are -/

/-- Euclid's loop finds the common divisor. -/
theorem positiveGreatestCommonDivisor_eq {left right : ℤ} (hleft : 0 ≤ left) (hright : 0 ≤ right) :
    positiveGreatestCommonDivisor left right = (Int.gcd left right : ℤ) := by
  induction left, right using positiveGreatestCommonDivisor.induct with
  | case1 left =>
    rw [positiveGreatestCommonDivisor, if_pos rfl, Int.gcd_zero_right]
    omega
  | case2 left right hne ih =>
    rw [positiveGreatestCommonDivisor, if_neg hne, ih hright (Int.tmod_nonneg _ hleft),
      Int.tmod_eq_emod_of_nonneg hleft, Int.gcd_comm right, Int.gcd_emod]

/-- The divisor of some weights: all are positive. -/
theorem commonPositiveDivisor_eq_ok {l : List ℤ} {divisor : ℤ} :
    commonPositiveDivisor l = .ok divisor ↔ l ≠ [] ∧ (∀ v ∈ l, 0 < v) ∧
      divisor = Multiset.gcd (l : Multiset ℤ) := by
  cases l with
  | nil => exact iff_of_false (fun h => nomatch h) (fun h => h.1 rfl)
  | cons first rest =>
    -- the loop keeps a positive divisor and follows the common divisor
    have hloop : ∀ {a : ℤ}, 0 < a → (rest.foldlM (fun divisor value => do
        rejectIf (value ≤ 0) validation
        return positiveGreatestCommonDivisor divisor value) a = .ok divisor ↔
        (∀ v ∈ rest, 0 < v) ∧ divisor = rest.foldl (fun d v => (Int.gcd d v : ℤ)) a) := by
      induction rest with
      | nil =>
        intro a _
        rw [List.foldlM_nil, List.foldl_nil]
        constructor
        · intro h
          exact ⟨(fun v hv => nomatch hv), (Except.ok.inj h).symm⟩
        · rintro ⟨-, rfl⟩
          rfl
      | cons v rest ih =>
        intro a ha
        rw [List.foldlM_cons, bind_eq_ok, List.forall_mem_cons, List.foldl_cons]
        constructor
        · rintro ⟨next, hnext, h⟩
          obtain ⟨⟨⟩, hv, hnext⟩ := bind_eq_ok.mp hnext
          rw [rejectIf_eq_ok, not_le] at hv
          obtain rfl := Except.ok.inj hnext
          rw [positiveGreatestCommonDivisor_eq ha.le hv.le] at h
          obtain ⟨hrest, hd⟩ := (ih (by exact_mod_cast Int.gcd_pos_of_ne_zero_left v ha.ne')).mp h
          exact ⟨⟨hv, hrest⟩, hd⟩
        · rintro ⟨⟨hv, hrest⟩, hd⟩
          refine ⟨positiveGreatestCommonDivisor a v, ?_, ?_⟩
          · rw [rejectIf_of_not (not_le.mpr hv)]
            rfl
          · rw [positiveGreatestCommonDivisor_eq ha.le hv.le]
            exact (ih (by exact_mod_cast Int.gcd_pos_of_ne_zero_left v ha.ne')).mpr ⟨hrest, hd⟩
    unfold commonPositiveDivisor
    rw [List.forall_mem_cons]
    constructor
    · intro h
      obtain ⟨⟨⟩, hfirst, h⟩ := bind_eq_ok.mp h
      rw [rejectIf_eq_ok, not_le] at hfirst
      obtain ⟨hrest, hd⟩ := (hloop hfirst).mp h
      exact ⟨List.cons_ne_nil _ _, ⟨hfirst, hrest⟩, hd.trans (foldl_gcd rest hfirst.le)⟩
    · rintro ⟨-, ⟨hfirst, hrest⟩, hd⟩
      show (rejectIf (first ≤ 0) validation >>= fun _ => rest.foldlM _ first) = _
      rw [rejectIf_of_not (not_le.mpr hfirst), ok_bind]
      exact (hloop hfirst).mpr ⟨hrest, hd.trans (foldl_gcd rest hfirst.le).symm⟩

/-! ### The five averages -/

/-- The averages of `weighted_averages`. -/
inductive WeightedMetric
  | ytm | duration | convexity | couponRate | remainingYears
  deriving DecidableEq, Repr

namespace WeightedMetric

/-- What a position weighs in an average. -/
def rawWeight (metric : WeightedMetric) (p : Participant) : ℤ :=
  match metric with
  | ytm => p.1.market.scaled * p.2.modifiedDuration.scaled
  | duration | convexity => p.1.market.scaled
  | couponRate | remainingYears => p.1.signedNotional.scaled

/-- What an average is of. -/
def value (metric : WeightedMetric) (metrics : PortfolioBondMetricFacts) : FixedDecimal :=
  match metric with
  | ytm => metrics.yieldToMaturity
  | duration => metrics.modifiedDuration
  | convexity => metrics.convexity
  | couponRate => metrics.couponRate
  | remainingYears => metrics.remainingYears

/-- The output scale of an average. -/
def outputScale (metric : WeightedMetric) (outputScales : PortfolioMetricOutputScales) : ℕ :=
  match metric with
  | ytm | couponRate => outputScales.rate
  | duration | remainingYears => outputScales.years
  | convexity => outputScales.yearsSquared

/-- The unit of an average. -/
def unit (metric : WeightedMetric) (units : PortfolioWeightedMetricUnits) : UnitRef :=
  match metric with
  | ytm => units.ytm
  | duration => units.duration
  | convexity => units.convexity
  | couponRate => units.couponRate
  | remainingYears => units.remainingYears

/-- No metric of a bond is negative. -/
theorem value_nonneg (metric : WeightedMetric) (metrics : PortfolioBondMetricFacts) :
    0 ≤ (metric.value metrics).scaled := by
  obtain ⟨hytm, hduration, hconvexity, hcoupon, hremaining⟩ := metrics.positive
  cases metric with
  | ytm => exact hytm.le
  | duration => exact hduration.le
  | convexity => exact hconvexity.le
  | couponRate => exact hcoupon
  | remainingYears => exact hremaining.le

/-- No output has more than 28 places. -/
theorem outputScale_le (metric : WeightedMetric) (outputScales : PortfolioMetricOutputScales) :
    metric.outputScale outputScales ≤ 28 := by
  obtain ⟨-, hrate, hyears, hsquared, -⟩ := outputScales.bounded
  cases metric with
  | ytm => exact hrate
  | duration => exact hyears
  | convexity => exact hsquared
  | couponRate => exact hrate
  | remainingYears => exact hyears

/-- The weight of a position among its raw weights. -/
def ofRaw (metric : WeightedMetric) (position : RawWeightedPosition) : ℤ :=
  match metric with
  | ytm => position.ytmWeight
  | duration | convexity => position.marketValue
  | couponRate | remainingYears => position.notional

/-- The divisor of an average. -/
def divisorOf (metric : WeightedMetric) (divisors : WeightDivisors) : ℤ :=
  match metric with
  | ytm => divisors.ytmWeight
  | duration | convexity => divisors.marketValue
  | couponRate | remainingYears => divisors.notional

/-- The weight and the value that a position adds to an average. -/
def term (metric : WeightedMetric) (divisors : WeightDivisors) (position : RawWeightedPosition) :
    ℤ × FixedDecimal :=
  ((metric.ofRaw position).tdiv (metric.divisorOf divisors), metric.value position.metrics)

end WeightedMetric

/-- One of the sums. -/
def RawWeightedAverages.get (sums : RawWeightedAverages) : WeightedMetric → RawWeightedAverage
  | .ytm => sums.ytm
  | .duration => sums.duration
  | .convexity => sums.convexity
  | .couponRate => sums.coupon
  | .remainingYears => sums.remaining

/-- The sums of a family. -/
def RawWeightedAverages.ofGet (f : WeightedMetric → RawWeightedAverage) : RawWeightedAverages :=
  ⟨f .ytm, f .duration, f .convexity, f .couponRate, f .remainingYears⟩

/-- Averages made from a function give it back. -/
theorem RawWeightedAverages.get_ofGet (f : WeightedMetric → RawWeightedAverage) :
    (RawWeightedAverages.ofGet f).get = f := by
  funext metric
  cases metric <;> rfl

/-- Averages are determined by their value for each metric. -/
theorem RawWeightedAverages.ext_get {a b : RawWeightedAverages} (h : a.get = b.get) : a = b :=
  congrArg RawWeightedAverages.ofGet h

/-- One of the results. -/
def WeightedAverages.get (result : WeightedAverages) : WeightedMetric → StoredDecimal
  | .ytm => result.ytm
  | .duration => result.duration
  | .convexity => result.convexity
  | .couponRate => result.coupon
  | .remainingYears => result.remaining

/-- The stored averages made from a function give it back. -/
theorem WeightedAverages.get_ofGet (f : WeightedMetric → StoredDecimal) :
    (WeightedAverages.mk (f .ytm) (f .duration) (f .convexity) (f .couponRate)
      (f .remainingYears)).get = f := by
  funext metric
  cases metric <;> rfl

/-- Five computations one after the other, which make one value. -/
theorem five_eq_ok {β γ : Type} (run : WeightedMetric → Except ApplicationError β)
    (mk : β → β → β → β → β → γ) (get : γ → WeightedMetric → β)
    (hmk : ∀ result, mk (get result .ytm) (get result .duration) (get result .convexity)
      (get result .couponRate) (get result .remainingYears) = result)
    (hget : ∀ f : WeightedMetric → β,
      get (mk (f .ytm) (f .duration) (f .convexity) (f .couponRate) (f .remainingYears)) = f)
    (result : γ) :
    (run .ytm >>= fun ytm => run .duration >>= fun duration => run .convexity >>= fun convexity =>
      run .couponRate >>= fun coupon => run .remainingYears >>= fun remaining =>
        .ok (mk ytm duration convexity coupon remaining)) = .ok result ↔
      ∀ metric, run metric = .ok (get result metric) := by
  constructor
  · intro h
    obtain ⟨ytm, hytm, h⟩ := bind_eq_ok.mp h
    obtain ⟨duration, hduration, h⟩ := bind_eq_ok.mp h
    obtain ⟨convexity, hconvexity, h⟩ := bind_eq_ok.mp h
    obtain ⟨coupon, hcoupon, h⟩ := bind_eq_ok.mp h
    obtain ⟨remaining, hremaining, h⟩ := bind_eq_ok.mp h
    obtain rfl := Except.ok.inj h
    -- The five results are one function of the metric.
    have hparts := hget fun
      | .ytm => ytm
      | .duration => duration
      | .convexity => convexity
      | .couponRate => coupon
      | .remainingYears => remaining
    intro metric
    rw [hparts]
    cases metric with
    | ytm => exact hytm
    | duration => exact hduration
    | convexity => exact hconvexity
    | couponRate => exact hcoupon
    | remainingYears => exact hremaining
  · intro h
    rw [h .ytm, ok_bind, h .duration, ok_bind, h .convexity, ok_bind, h .couponRate, ok_bind,
      h .remainingYears, ok_bind, hmk]

/-- The first sums are the sums of one term each. -/
theorem RawWeightedAverages.new_eq_ok {divisors : WeightDivisors} {first : RawWeightedPosition}
    {sums : RawWeightedAverages} :
    RawWeightedAverages.new divisors first = .ok sums ↔
      ∀ metric : WeightedMetric, RawWeightedAverage.add ⟨0, 0⟩ (metric.term divisors first).1
        (metric.term divisors first).2 = .ok (sums.get metric) := by
  exact five_eq_ok (fun metric => RawWeightedAverage.add ⟨0, 0⟩ (metric.term divisors first).1
    (metric.term divisors first).2) RawWeightedAverages.mk RawWeightedAverages.get (fun _ => rfl)
    RawWeightedAverages.get_ofGet sums

/-- One more position adds a term to each sum. -/
theorem RawWeightedAverages.add_eq_ok {units : PortfolioWeightedMetricUnits}
    {divisors : WeightDivisors}
    {sums result : RawWeightedAverages} {position : RawWeightedPosition} :
    sums.add units divisors position = .ok result ↔ position.metrics.units = units ∧
      ∀ metric : WeightedMetric, (sums.get metric).add (metric.term divisors position).1
        (metric.term divisors position).2 = .ok (result.get metric) := by
  have hfive := five_eq_ok (fun metric => (sums.get metric).add (metric.term divisors position).1
    (metric.term divisors position).2) RawWeightedAverages.mk RawWeightedAverages.get (fun _ => rfl)
    RawWeightedAverages.get_ofGet result
  rw [← hfive]
  unfold RawWeightedAverages.add
  constructor
  · intro h
    obtain ⟨⟨⟩, hunits, h⟩ := bind_eq_ok.mp h
    rw [rejectIf_eq_ok, not_not] at hunits
    exact ⟨hunits, h⟩
  · rintro ⟨hunits, h⟩
    rw [rejectIf_of_not (not_not.mpr hunits), ok_bind]
    exact h

/-- **The loop over the positions** is five loops, one for each average. -/
theorem foldlM_add_eq_ok {units : PortfolioWeightedMetricUnits} {divisors : WeightDivisors}
    {l : List RawWeightedPosition} {sums result : RawWeightedAverages} :
    l.foldlM (RawWeightedAverages.add units divisors) sums = .ok result ↔
      (∀ position ∈ l, position.metrics.units = units) ∧ ∀ metric : WeightedMetric,
        (l.map (metric.term divisors)).foldlM (fun sum p => sum.add p.1 p.2) (sums.get metric) =
          .ok (result.get metric) := by
  induction l generalizing sums with
  | nil =>
    constructor
    · intro h
      rw [List.foldlM_nil] at h
      obtain rfl := Except.ok.inj h
      exact ⟨(fun position hposition => nomatch hposition), fun metric => rfl⟩
    · rintro ⟨-, h⟩
      rw [List.foldlM_nil]
      exact congrArg Except.ok (RawWeightedAverages.ext_get
        (funext fun metric => Except.ok.inj (h metric)))
  | cons position l ih =>
    rw [List.foldlM_cons, bind_eq_ok, List.forall_mem_cons]
    constructor
    · rintro ⟨next, hnext, h⟩
      obtain ⟨hunits, hterms⟩ := RawWeightedAverages.add_eq_ok.mp hnext
      obtain ⟨hrest, hloops⟩ := ih.mp h
      refine ⟨⟨hunits, hrest⟩, fun metric => ?_⟩
      rw [List.map_cons, List.foldlM_cons, hterms metric, ok_bind]
      exact hloops metric
    · rintro ⟨⟨hunits, hrest⟩, hloops⟩
      have hterms : ∀ metric : WeightedMetric, ∃ next,
          (sums.get metric).add (metric.term divisors position).1 (metric.term divisors position).2 =
            .ok next ∧
          (l.map (metric.term divisors)).foldlM (fun sum p => sum.add p.1 p.2) next =
            .ok (result.get metric) := by
        intro metric
        have hloop := hloops metric
        rw [List.map_cons, List.foldlM_cons] at hloop
        exact bind_eq_ok.mp hloop
      choose next hnext hafter using hterms
      refine ⟨RawWeightedAverages.ofGet next,
        RawWeightedAverages.add_eq_ok.mpr ⟨hunits, fun metric => ?_⟩,
        ih.mpr ⟨hrest, fun metric => ?_⟩⟩
      · rw [RawWeightedAverages.get_ofGet]
        exact hnext metric
      · rw [RawWeightedAverages.get_ofGet]
        exact hafter metric

/-- The results are the five averages. -/
theorem intoDecimals_eq_ok {sums : RawWeightedAverages} {outputScales : PortfolioMetricOutputScales}
    {units : PortfolioWeightedMetricUnits} {result : WeightedAverages} :
    sums.intoDecimals outputScales units = .ok result ↔ ∀ metric : WeightedMetric,
      (sums.get metric).intoDecimal (metric.outputScale outputScales) (metric.unit units) =
        .ok (result.get metric) := by
  exact five_eq_ok (fun metric => (sums.get metric).intoDecimal (metric.outputScale outputScales)
    (metric.unit units)) WeightedAverages.mk WeightedAverages.get (fun _ => rfl)
    WeightedAverages.get_ofGet
    result

end Ficant.Overview
