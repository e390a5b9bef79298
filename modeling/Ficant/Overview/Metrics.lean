import Ficant.Overview.ExactAverages
import Ficant.Research.DecimalAddition

namespace Ficant.Overview

open Lib RustDecimal

/-!
# The metrics of a portfolio

`aggregate_portfolio_metrics` of `portfolio_aggregation.rs`: the money totals, the key rate totals
and the weighted averages of some positions, and which positions took no part.

* `sumMoney`, `krdSummary`, `aggregatePortfolioMetrics` — the functions of the source;
* `runningTotal_exact_iff` — running totals are exact as long as every sum that is reached can be
  represented;
* `money_totals_exact` — then so are the money totals, in any order of the positions.

`rust_decimal` is third-party code: its `checked_add` is the parameter `add`.
-/

/-! ### Results -/

/-- `PortfolioBasicMetrics`. -/
structure PortfolioBasicMetrics where
  marketValue : StoredDecimal
  economicPnl : StoredDecimal
  weightedYtm : Option StoredDecimal
  modifiedDuration : Option StoredDecimal
  convexity : Option StoredDecimal
  weightedCouponRate : Option StoredDecimal
  weightedRemainingYears : Option StoredDecimal
  dv01 : StoredDecimal
  deriving DecidableEq

/-- `PortfolioKrdSummary`. -/
structure PortfolioKrdSummary where
  totals : List FactorDv01
  parallelDv01 : StoredDecimal
  deriving DecidableEq

/-- `PortfolioMetricDataMode`. -/
inductive PortfolioMetricDataMode
  | real | partialData | stale
  deriving DecidableEq, Repr

/-- `PortfolioCoverageReason`. -/
inductive PortfolioCoverageReason
  | shortPositionExcludedFromWeightedAverages
  | nonBondExcludedFromWeightedAverages
  | missingBondMetricExcludedFromWeightedAverages
  | positionExcludedFromPortfolioRisk
  | benchmarkPositionExcludedFromPortfolioRisk
  deriving DecidableEq, Repr

instance : LinearOrder PortfolioCoverageReason :=
  LinearOrder.lift' PortfolioCoverageReason.ctorIdx fun a b h => by
    cases a <;> cases b <;> first | rfl | exact absurd h (by decide)

/-- `PortfolioMetricCoverage`. -/
structure PortfolioMetricCoverage where
  importedPositionCount : UInt64
  weightedAverageParticipatingPositionCount : UInt64
  missingReasons : List PortfolioCoverageReason
  deriving DecidableEq

/-- `PortfolioMetricAggregation`. -/
structure PortfolioMetricAggregation where
  dataMode : PortfolioMetricDataMode
  basicMetrics : PortfolioBasicMetrics
  krdSummary : PortfolioKrdSummary
  coverage : PortfolioMetricCoverage
  deriving DecidableEq

/-- The error `lineage`. -/
def lineage : ApplicationError := ⟨.lineageIncomplete, false⟩

/-! ### The functions -/

/-- `validate_positions`. -/
def validatePositions (positions : List PortfolioMetricPosition) : Except ApplicationError Unit :=
  match positions with
  | [] => .error validation
  | first :: rest => do
    rejectIf (∃ pair ∈ positions.zip rest, pair.2.positionId ≤ pair.1.positionId) validation
    rejectIf (∃ position ∈ positions, position.marketValue.unit ≠ first.marketValue.unit ∨
      position.economicPnl.unit ≠ first.marketValue.unit) validation

/-- The running total of `sum_money`. -/
def runningTotal (add : DecimalAdd) : List StoredDecimal → Except ApplicationError StoredDecimal
  | [] => .error validation
  | first :: rest =>
    rest.foldlM (fun total value => (total.checkedAdd add value).mapError mapDomainError) first

/-- `sum_money`. -/
def sumMoney (add : DecimalAdd) (values : List StoredDecimal) (outputScale : ℕ) (unit : UnitRef) :
    Except ApplicationError StoredDecimal := do
  let total ← runningTotal add values
  let fixed ← decimalToFixed total
  fixedToDecimal fixed outputScale unit

/-- `krd_summary`. -/
def krdSummary (totals : List FactorDv01) (outputScale : ℕ) :
    Except ApplicationError (PortfolioKrdSummary × StoredDecimal) :=
  match totals with
  | [] => .error validation
  | first :: rest => do
    rejectIf ((∃ factor ∈ totals, factor.unit ≠ first.unit) ∨ ¬ (totals.map (·.factorId)).Nodup)
      lineage
    let parallel ← rest.foldlM
      (fun sum factor => (sum.checkedAdd factor.value).mapError mapDomainError) first.value
    let parallelDv01 ← fixedToDecimal parallel outputScale first.unit
    return (⟨totals, parallelDv01⟩, parallelDv01)

/-- What the loop of `aggregate_portfolio_metrics` does with one position. -/
def acceptPosition (state : List PortfolioCoverageReason × List Participant)
    (position : PortfolioMetricPosition) :
    Except ApplicationError (List PortfolioCoverageReason × List Participant) :=
  if !position.signedNotional.isPositive then
    .ok (.shortPositionExcludedFromWeightedAverages :: state.1, state.2)
  else match position.weightedMetricEligibility with
    | .bond metrics => do
      let marketValue ← decimalToFixed position.marketValue
      rejectIf (!marketValue.isPositive) validation
      return (state.1, state.2 ++ [(position, metrics)])
    | .nonBond => .ok (.nonBondExcludedFromWeightedAverages :: state.1, state.2)
    | .missingBondMetric => .ok (.missingBondMetricExcludedFromWeightedAverages :: state.1, state.2)

/-- The basic metrics with the averages, where there are any. -/
def basicMetrics (marketValue economicPnl dv01 : StoredDecimal) (averages : Option WeightedAverages) :
    PortfolioBasicMetrics :=
  ⟨marketValue, economicPnl, averages.map (·.ytm), averages.map (·.duration),
    averages.map (·.convexity), averages.map (·.coupon), averages.map (·.remaining), dv01⟩

/-- The averages of `aggregate_portfolio_metrics`: none where a position is left out. -/
def averagesOf (reasons : List PortfolioCoverageReason) (participating : List Participant)
    (outputScales : PortfolioMetricOutputScales) : Except ApplicationError (Option WeightedAverages) :=
  if reasons = [] then some <$> weightedAverages participating outputScales else .ok none

/-- `aggregate_portfolio_metrics`. -/
def aggregatePortfolioMetrics (add : DecimalAdd) (positions : List PortfolioMetricPosition)
    (krdTotals : List FactorDv01) (outputScales : PortfolioMetricOutputScales) :
    Except ApplicationError PortfolioMetricAggregation := do
  validatePositions positions
  match positions with
  | [] => .error validation
  | first :: _ => do
    let moneyUnit := first.marketValue.unit
    let marketValue ← sumMoney add (positions.map (·.marketValue)) outputScales.money moneyUnit
    let economicPnl ← sumMoney add (positions.map (·.economicPnl)) outputScales.money moneyUnit
    let (krd, dv01) ← krdSummary krdTotals outputScales.dv01
    let (reasons, participating) ← positions.foldlM acceptPosition ([], [])
    let averages ← averagesOf reasons participating outputScales
    let imported ← (lengthU64 positions.length).mapError mapDomainError
    let participants ← (lengthU64 participating.length).mapError mapDomainError
    return {
      dataMode := if reasons = [] then .real else .partialData
      basicMetrics := basicMetrics marketValue economicPnl dv01 averages
      krdSummary := krd
      coverage := ⟨imported, participants, SortedMap.sortedSet reasons⟩ }

/-! ### Running totals -/

theorem valid_asDecimal (v : StoredDecimal) : v.asDecimal.Valid :=
  ⟨lt_trans v.normal.digits (by norm_num), v.normal.scale⟩

/-- A decimal value is one that can be represented. -/
theorem fits_rational (v : StoredDecimal) : Fits (rational v) := ⟨v.asDecimal, valid_asDecimal v, rfl⟩

/-- A sum that can be represented is exact. -/
theorem checkedAdd_exact {add : DecimalAdd} (hadd : DocumentedAdd add) {a b v : StoredDecimal}
    (h : a.checkedAdd add b = .ok v) (hfits : Fits (rational a + rational b)) :
    rational v = rational a + rational b := by
  obtain ⟨sum, hsum, hrat⟩ := hadd.exact (valid_asDecimal a) (valid_asDecimal b) hfits
  unfold StoredDecimal.checkedAdd at h
  split at h
  · cases h
  · rw [hsum] at h
    obtain ⟨-, -, -, hvalue⟩ := of_newDecimal (mapError_eq_ok.mpr h)
    rw [hvalue]
    exact hrat

/-- A running total with one more value. -/
theorem runningTotal_concat {add : DecimalAdd} {done : List StoredDecimal} (hne : done ≠ [])
    (value : StoredDecimal) : runningTotal add (done ++ [value]) =
      runningTotal add done >>= fun total => (total.checkedAdd add value).mapError mapDomainError := by
  obtain ⟨first, rest, rfl⟩ := List.exists_cons_of_ne_nil hne
  show (rest ++ [value]).foldlM _ first = rest.foldlM _ first >>= _
  rw [List.foldlM_append]
  congr 1
  funext total
  rw [List.foldlM_cons]
  exact bind_pure _

/-- Every sum of the first values whose running total is not refused can be represented. -/
def ReachedSumsFit (add : DecimalAdd) (values : List StoredDecimal) : Prop :=
  ∀ done, done <+: values → (∃ total, runningTotal add done = .ok total) → Fits (done.map rational).sum

/-- A running total is exact if the sums before it, and it, can be represented. -/
theorem runningTotal_of_fits {add : DecimalAdd} (hadd : DocumentedAdd add)
    {values : List StoredDecimal}
    (hfits : ReachedSumsFit add values) {total : StoredDecimal}
    (h : runningTotal add values = .ok total) : rational total = (values.map rational).sum := by
  induction values using List.reverseRecOn generalizing total with
  | nil => cases h
  | append_singleton done value ih =>
    by_cases hne : done = []
    · subst hne
      obtain rfl := Except.ok.inj h
      simp
    · have hall := hfits _ List.prefix_rfl ⟨total, h⟩
      rw [runningTotal_concat hne] at h
      obtain ⟨before, hbefore, hstep⟩ := bind_eq_ok.mp h
      have hexact := ih (fun d hd => hfits d (hd.trans (List.prefix_append _ _))) hbefore
      rw [List.map_append, List.sum_append, List.map_singleton, List.sum_singleton, ← hexact] at hall ⊢
      exact checkedAdd_exact hadd (mapError_eq_ok.mp hstep) hall

/-- **Running totals are exact** exactly as long as the sums that are reached can be represented. -/
theorem runningTotal_exact_iff {add : DecimalAdd} (hadd : DocumentedAdd add)
    {values : List StoredDecimal} :
    (∀ done total, done <+: values → runningTotal add done = .ok total →
      rational total = (done.map rational).sum) ↔ ReachedSumsFit add values := by
  constructor
  · rintro hexact done hdone ⟨total, htotal⟩
    rw [← hexact done total hdone htotal]
    exact fits_rational total
  · intro hfits done total hdone htotal
    exact runningTotal_of_fits hadd (fun d hd => hfits d (hd.trans hdone)) htotal

/-! ### Money totals -/

/-- No addition of the two money totals is rounded: the sums that are reached can be represented, of
    the market values and, unless their total is refused, of the results. -/
structure AdditionsExact (add : DecimalAdd) (positions : List PortfolioMetricPosition)
    (outputScales : PortfolioMetricOutputScales) : Prop where
  marketValue : ReachedSumsFit add (positions.map (·.marketValue))
  economicPnl : ∀ unit total,
    sumMoney add (positions.map (·.marketValue)) outputScales.money unit = .ok total →
    ReachedSumsFit add (positions.map (·.economicPnl))

/-- A money total is the exact sum, rounded once. -/
theorem sumMoney_eq_ok {add : DecimalAdd} (hadd : DocumentedAdd add) {values : List StoredDecimal}
    (hfits : ReachedSumsFit add values) {outputScale : ℕ} {unit : UnitRef} {result : StoredDecimal}
    (h : sumMoney add values outputScale unit = .ok result) :
    newDecimal (Decimal.nearestEven ((values.map rational).sum * 10 ^ outputScale)) outputScale unit =
      .ok result := by
  unfold sumMoney at h
  obtain ⟨total, htotal, h⟩ := bind_eq_ok.mp h
  obtain ⟨fixed, hfixed, h⟩ := bind_eq_ok.mp h
  rw [decimalToFixed_eq_ok, runningTotal_of_fits hadd hfits htotal] at hfixed
  rw [fixedToDecimal_eq_ok, hfixed] at h
  exact h

/-- The units of accepted positions. -/
theorem validatePositions_units {first : PortfolioMetricPosition} {rest : List PortfolioMetricPosition}
    (h : validatePositions (first :: rest) = .ok ()) :
    ∀ position ∈ first :: rest, position.marketValue.unit = first.marketValue.unit := by
  obtain ⟨⟨⟩, -, h⟩ := bind_eq_ok.mp h
  rw [rejectIf_eq_ok] at h
  intro position hposition
  by_contra hdiff
  exact h ⟨position, hposition, .inl hdiff⟩

/-- The money totals of a result. -/
theorem money_of_aggregate {add : DecimalAdd} {positions : List PortfolioMetricPosition}
    {krdTotals : List FactorDv01} {outputScales : PortfolioMetricOutputScales}
    {result : PortfolioMetricAggregation}
    (h : aggregatePortfolioMetrics add positions krdTotals outputScales = .ok result) :
    ∃ unit, positions ≠ [] ∧ (∀ position ∈ positions, position.marketValue.unit = unit) ∧
      sumMoney add (positions.map (·.marketValue)) outputScales.money unit =
        .ok result.basicMetrics.marketValue ∧
      sumMoney add (positions.map (·.economicPnl)) outputScales.money unit =
        .ok result.basicMetrics.economicPnl := by
  unfold aggregatePortfolioMetrics at h
  obtain ⟨⟨⟩, hvalid, h⟩ := bind_eq_ok.mp h
  cases positions with
  | nil => cases h
  | cons first rest =>
    obtain ⟨marketValue, hmarket, h⟩ := bind_eq_ok.mp h
    obtain ⟨economicPnl, hpnl, h⟩ := bind_eq_ok.mp h
    obtain ⟨⟨krd, dv01⟩, -, h⟩ := bind_eq_ok.mp h
    obtain ⟨⟨reasons, participating⟩, -, h⟩ := bind_eq_ok.mp h
    obtain ⟨averages, -, h⟩ := bind_eq_ok.mp h
    obtain ⟨imported, -, h⟩ := bind_eq_ok.mp h
    obtain ⟨participants, -, h⟩ := bind_eq_ok.mp h
    obtain rfl := Except.ok.inj h
    exact ⟨first.marketValue.unit, List.cons_ne_nil _ _, validatePositions_units hvalid, hmarket, hpnl⟩

/-- **Money totals.** If every sum that is reached before the first refusal can be represented by a
    decimal of 96 bits and 28 places, then the totals are the exact sums, rounded once, half to
    even, at the output scale; and positions with the same amounts in another order have the same
    totals.  Without the condition that is not so: the running totals that are not refused are
    exact, for all first values, exactly when all these sums can be represented. -/
theorem money_totals_exact {add : DecimalAdd} (hadd : DocumentedAdd add)
    {positions : List PortfolioMetricPosition} {outputScales : PortfolioMetricOutputScales} :
    (AdditionsExact add positions outputScales →
      ∀ krdTotals result,
        aggregatePortfolioMetrics add positions krdTotals outputScales = .ok result →
        rational result.basicMetrics.marketValue = Decimal.roundTiesEven outputScales.money
          (positions.map fun position => rational position.marketValue).sum ∧
        rational result.basicMetrics.economicPnl = Decimal.roundTiesEven outputScales.money
          (positions.map fun position => rational position.economicPnl).sum ∧
        ∀ (positions' : List PortfolioMetricPosition) krdTotals' result',
          (positions'.map (·.marketValue)).Perm (positions.map (·.marketValue)) →
          (positions'.map (·.economicPnl)).Perm (positions.map (·.economicPnl)) →
          AdditionsExact add positions' outputScales →
          aggregatePortfolioMetrics add positions' krdTotals' outputScales = .ok result' →
          result'.basicMetrics.marketValue = result.basicMetrics.marketValue ∧
          result'.basicMetrics.economicPnl = result.basicMetrics.economicPnl) ∧
    ∀ values : List StoredDecimal,
      (∀ done total, done <+: values → runningTotal add done = .ok total →
        rational total = (done.map rational).sum) ↔ ReachedSumsFit add values := by
  refine ⟨fun hexact krdTotals result h => ?_, fun values => runningTotal_exact_iff hadd⟩
  obtain ⟨unit, hne, hunits, hmarket, hpnl⟩ := money_of_aggregate h
  have hmarketNew := sumMoney_eq_ok hadd hexact.marketValue hmarket
  -- the results are added only because the market values have a total
  have hpnlNew := sumMoney_eq_ok hadd (hexact.economicPnl _ _ hmarket) hpnl
  refine ⟨?_, ?_, ?_⟩
  · rw [(of_newDecimal hmarketNew).2.2.2, List.map_map]
    rfl
  · rw [(of_newDecimal hpnlNew).2.2.2, List.map_map]
    rfl
  · intro positions' krdTotals' result' hmarketPerm hpnlPerm hexact' h'
    obtain ⟨unit', hne', hunits', hmarket', hpnl'⟩ := money_of_aggregate h'
    have hmarketNew' := sumMoney_eq_ok hadd hexact'.marketValue hmarket'
    have hpnlNew' := sumMoney_eq_ok hadd (hexact'.economicPnl _ _ hmarket') hpnl'
    -- the unit is that of any of the amounts
    have hunit : unit' = unit := by
      obtain ⟨position, hposition⟩ := List.exists_mem_of_ne_nil positions' hne'
      have hmem := hmarketPerm.mem_iff.mp (List.mem_map_of_mem hposition)
      obtain ⟨other, hother, hsame⟩ := List.mem_map.mp hmem
      rw [← hunits' position hposition, ← hunits other hother, hsame]
    rw [hunit, (hmarketPerm.map rational).sum_eq, hmarketNew] at hmarketNew'
    rw [hunit, (hpnlPerm.map rational).sum_eq, hpnlNew] at hpnlNew'
    exact ⟨(Except.ok.inj hmarketNew').symm, (Except.ok.inj hpnlNew').symm⟩

/-! ### A rounded total -/

/-- A position without averages. -/
def amountPosition (id : Fin (2 ^ 128)) (marketValue : StoredDecimal)
    (unit : marketValue.unit = DecimalValue.sampleUnit)
    (fixed : (decimalToFixed marketValue).toOption.isSome) : PortfolioMetricPosition where
  positionId := ⟨id⟩
  marketValue := marketValue
  economicPnl := zeroAmount
  signedNotional := FixedDecimal.one
  weightedMetricEligibility := .nonBond
  sameUnit := unit
  fixedMarketValue := fixed
  fixedEconomicPnl := zeroAmount_fixed

/-- `80000000000000000000000000.01`. -/
def largeAmount : StoredDecimal :=
  ⟨⟨8000000000000000000000000001, 2, DecimalValue.sampleUnit⟩, ⟨by decide, by decide, by decide⟩⟩

/-- `0.005`. -/
def smallAmount : StoredDecimal :=
  ⟨⟨5, 3, DecimalValue.sampleUnit⟩, ⟨by decide, by decide, by decide⟩⟩

/-- `-80000000000000000000000000`. -/
def oppositeAmount : StoredDecimal := sampleAmount (-80000000000000000000000000) (by decide)

/-- The three amounts in an order in which they are rounded. -/
def roundedPositions : List PortfolioMetricPosition :=
  [amountPosition 0 largeAmount rfl (by decide +kernel),
    amountPosition 1 smallAmount rfl (by decide +kernel),
    amountPosition 2 oppositeAmount rfl (by decide +kernel)]

/-- The three amounts in an order in which they are not. -/
def exactPositions : List PortfolioMetricPosition :=
  [amountPosition 0 largeAmount rfl (by decide +kernel),
    amountPosition 1 oppositeAmount rfl (by decide +kernel),
    amountPosition 2 smallAmount rfl (by decide +kernel)]

/-- One factor. -/
def sampleFactor (hash : ContentHash) : FactorDv01 :=
  ⟨"1Y", hash, FixedDecimal.one, DecimalValue.sampleUnit, by decide⟩

/-- The totals of the samples, at three decimal places. -/
def sampleTotals (positions : List PortfolioMetricPosition) :
    Except ApplicationError PortfolioMetricAggregation :=
  aggregatePortfolioMetrics roundingAdd positions [sampleFactor (.filled 0)]
    ⟨3, 0, 0, 0, 0, by decide⟩

theorem sampleTotals_value (positions : List PortfolioMetricPosition) {coefficient : ℤ} {scale : ℕ}
    (h : (sampleTotals positions).toOption.any (fun result =>
      result.basicMetrics.marketValue.coefficient = coefficient ∧
      result.basicMetrics.marketValue.scale = scale) = true) :
    ∃ result, sampleTotals positions = .ok result ∧
      rational result.basicMetrics.marketValue = coefficient / 10 ^ scale := by
  obtain ⟨result, hresult, hvalue⟩ := exists_ok_of_any h
  obtain ⟨hcoefficient, hscale⟩ := of_decide_eq_true hvalue
  refine ⟨result, hresult, ?_⟩
  unfold rational
  rw [hcoefficient, hscale]

theorem rational_samples : rational largeAmount = 8000000000000000000000000001 / 100 ∧
    rational smallAmount = 5 / 1000 ∧ rational oppositeAmount = -80000000000000000000000000 := by
  refine ⟨?_, ?_, ?_⟩
  · unfold rational largeAmount
    norm_num
  · unfold rational smallAmount
    norm_num
  · unfold rational oppositeAmount sampleAmount
    norm_num

/-- **A rounded total.** The half cent is rounded on the way to a sum of 29 digits, and the rounding
    stays when the large amount is gone: the total is `0.02` and not `0.015`.  In another order it
    is exact. -/
theorem money_total_rounded :
    ∃ add, DocumentedAdd add ∧ ∃ positions positions' krdTotals outputScales result result',
      aggregatePortfolioMetrics add positions krdTotals outputScales = .ok result ∧
      aggregatePortfolioMetrics add positions' krdTotals outputScales = .ok result' ∧
      (positions'.map (·.marketValue)).Perm (positions.map (·.marketValue)) ∧
      rational result.basicMetrics.marketValue ≠ Decimal.roundTiesEven outputScales.money
        (positions.map fun position => rational position.marketValue).sum ∧
      result'.basicMetrics.marketValue ≠ result.basicMetrics.marketValue := by
  obtain ⟨result, hresult, hvalue⟩ := sampleTotals_value roundedPositions
    (show _ = true from by decide +kernel : (sampleTotals roundedPositions).toOption.any (fun result =>
      result.basicMetrics.marketValue.coefficient = 2 ∧ result.basicMetrics.marketValue.scale = 2) =
      true)
  obtain ⟨result', hresult', hvalue'⟩ := sampleTotals_value exactPositions
    (show _ = true from by decide +kernel : (sampleTotals exactPositions).toOption.any (fun result =>
      result.basicMetrics.marketValue.coefficient = 15 ∧
      result.basicMetrics.marketValue.scale = 3) = true)
  obtain ⟨hlarge, hsmall, hopposite⟩ := rational_samples
  refine ⟨roundingAdd, documentedAdd_roundingAdd, roundedPositions, exactPositions, _, _, result,
    result',
    hresult, hresult', (List.Perm.swap smallAmount oppositeAmount []).symm.cons largeAmount |>.symm,
    ?_, ?_⟩
  -- The exact total is 0.015, whatever the order.
  · have hsum : (roundedPositions.map fun position => rational position.marketValue).sum =
      15 / 1000 := by
      show rational largeAmount + (rational smallAmount + (rational oppositeAmount + 0)) = 15 / 1000
      rw [hlarge, hsmall, hopposite]
      norm_num
    have hround : Decimal.nearestEven (15 / 1000 * 10 ^ 3) = 15 := by
      rw [Decimal.nearestEven_eq_iff]
      norm_num
    rw [hsum, roundTiesEven_coe, hround, hvalue]
    norm_num
  · intro hsame
    rw [hsame, hvalue] at hvalue'
    norm_num at hvalue'

/-- The amounts in the other order have sums that can be represented. -/
theorem reachedSumsFit_exactPositions (add : DecimalAdd) :
    ReachedSumsFit add (exactPositions.map (·.marketValue)) := by
  obtain ⟨hlarge, hsmall, hopposite⟩ := rational_samples
  intro done hdone _
  change done <+: [largeAmount, oppositeAmount, smallAmount] at hdone
  -- The four sums that the loop reaches, one after the other.
  obtain rfl | ⟨one, rfl, hone⟩ := List.prefix_cons_iff.mp hdone
  · exact ⟨⟨0, 0⟩, ⟨by decide, by decide⟩, by norm_num [RustDecimal.rat]⟩
  obtain rfl | ⟨two, rfl, htwo⟩ := List.prefix_cons_iff.mp hone
  · exact ⟨largeAmount.asDecimal, valid_asDecimal _, by simp; rfl⟩
  obtain rfl | ⟨three, rfl, hthree⟩ := List.prefix_cons_iff.mp htwo
  · refine ⟨⟨1, 2⟩, ⟨by decide, by decide⟩, ?_⟩
    show (1 : ℤ) / (10 : ℚ) ^ 2 = rational largeAmount + (rational oppositeAmount + 0)
    rw [hlarge, hopposite]
    norm_num
  · obtain rfl := List.prefix_nil.mp hthree
    refine ⟨⟨15, 3⟩, ⟨by decide, by decide⟩, ?_⟩
    show (15 : ℤ) / (10 : ℚ) ^ 3 =
      rational largeAmount + (rational oppositeAmount + (rational smallAmount + 0))
    rw [hlarge, hopposite, hsmall]
    norm_num

/-- The totals of no result. -/
theorem reachedSumsFit_zero (add : DecimalAdd) {values : List StoredDecimal}
    (h : ∀ v ∈ values, v.coefficient = 0) : ReachedSumsFit add values := by
  intro done hdone _
  have hzero : (done.map rational).sum = 0 := by
    apply List.sum_eq_zero
    intro x hx
    obtain ⟨v, hv, rfl⟩ := List.mem_map.mp hx
    unfold rational
    rw [h v (hdone.subset hv), Int.cast_zero, zero_div]
  exact ⟨⟨0, 0⟩, ⟨by decide, by decide⟩, by rw [hzero]; norm_num [RustDecimal.rat]⟩

theorem money_totals_exact_sample :
    DocumentedAdd roundingAdd ∧ ∃ outputScales,
    AdditionsExact roundingAdd exactPositions outputScales ∧
    ∃ result, sampleTotals exactPositions = .ok result ∧
      rational result.basicMetrics.marketValue = Decimal.roundTiesEven 3
        (exactPositions.map fun position => rational position.marketValue).sum := by
  have hpnl : ReachedSumsFit roundingAdd (exactPositions.map (·.economicPnl)) := by
    apply reachedSumsFit_zero
    decide +kernel
  have hexact : AdditionsExact roundingAdd exactPositions ⟨3, 0, 0, 0, 0, by decide⟩ :=
    ⟨reachedSumsFit_exactPositions _, fun _ _ _ => hpnl⟩
  obtain ⟨result, hresult, -⟩ := sampleTotals_value exactPositions
    (show _ = true from by decide +kernel : (sampleTotals exactPositions).toOption.any (fun result =>
      result.basicMetrics.marketValue.coefficient = 15 ∧
      result.basicMetrics.marketValue.scale = 3) = true)
  exact ⟨documentedAdd_roundingAdd, _, hexact, result, hresult,
    ((money_totals_exact documentedAdd_roundingAdd).1 hexact _ result hresult).1⟩

end Ficant.Overview
