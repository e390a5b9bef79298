import Ficant.Analytics.Errors
import Ficant.Market.Definition
import Ficant.Overview.Decimals
import Ficant.Research.Artifact
import Ficant.Research.Exposure
import Ficant.Research.KeyRateAxis
import Ficant.Runtime.NativeExecution

namespace Ficant

open Lib Analytics

/-!
# Exposures of a bond to the points of a curve

A bond position is priced on a curve and on each bumped one
(`ficant-application/src/use_cases/portfolio_risk.rs`).

* `price` — the dirty price at the yield of the curve at maturity;
* `calculatePosition` — one exposure for each point of the axis;
* `key_rate_bumps_local` — a bump moves one node, the yields between its neighbours and the exposures
  of the bonds that mature there; equal bumps of all points add up to one bump.

The calculation for a bond, the conversion of the kernel's numbers and the hash of a unit are
parameters.
-/

/-! ### The operations -/

/-- `PreparedPosition`. -/
structure PreparedPosition where
  positionId : Ulid
  instrument : VersionRef
  quantity : StoredDecimal
  owner : OwnerRef
  bondRef : AnalyticsObjectRef
  rulePackRef : AnalyticsObjectRef
  snapshotRef : AnalyticsObjectRef
  curveRef : AnalyticsObjectRef
  valuationAt : MarketTime
  settlementDate : NaiveDate
  calendarBinding : CalendarBinding
  terms : BondTerms
  maturityDate : NaiveDate
  boundFactors : String → Option ContentHash
  lineage : List LineageRef

/-- `BondAnalyticsResult`, as far as a price is read from it. -/
structure BondAnalyticsResult where
  input : BondAnalyticsInput
  dirtyPrice : FixedDecimal
  deriving DecidableEq

/-- `BondAnalyticsResult::validate_against`. -/
def BondAnalyticsResult.validateAgainst (self : BondAnalyticsResult) (input : BondAnalyticsInput) :
    Except DomainErrorCode Unit :=
  rejectIf (self.input ≠ input) .brokenLineage

/-- `decimal_to_fixed`, which takes no more than twelve places. -/
def exactFixed (value : StoredDecimal) : Except ApplicationError FixedDecimal := do
  rejectIf (12 < value.scale) axisValidation
  (FixedDecimal.tryFrom (value.coefficient * 10 ^ (12 - value.scale))).mapError fun _ => axisValidation

/-- `validate_fixed_output`. -/
def validateFixedOutput (value : FixedDecimal) (output : Market.MarketUnit) :
    Except ApplicationError Unit :=
  rejectIf (output.input.scale < 12 ∨
    output.input.precision < (Nat.toDigits 10 value.scaled.natAbs).length) axisValidation

section Engines

variable (decimalFromF64 : ℚ → Except AnalyticsError FixedDecimal)
  (calculate : BondAnalyticsInput → Except AnalyticsError BondAnalyticsResult)
  (definitionContentHash : Market.MarketUnit → ContentHash)

/-- The end of `price`: the price at a yield. -/
def priceAtYield (position : PreparedPosition) (yieldToMaturity : FixedDecimal) :
    Except ApplicationError FixedDecimal := do
  let input ← (BondAnalyticsInput.new position.owner position.bondRef position.rulePackRef
    position.snapshotRef position.valuationAt position.settlementDate .exactMarket
    position.calendarBinding position.terms .yieldIn yieldToMaturity).mapError mapDomainError
  let result ← (calculate input).mapError mapAnalyticsError
  (result.validateAgainst input).mapError mapDomainError
  return result.dirtyPrice

/-- `price`. -/
def price (position : PreparedPosition) (curve : YieldCurveBinding) :
    Except ApplicationError FixedDecimal := do
  let query ← (YieldCurveQuery.new curve position.maturityDate).mapError mapDomainError
  let point ← (interpolateCurve decimalFromF64 query).mapError mapAnalyticsError
  (point.validateAgainst query).mapError mapDomainError
  priceAtYield calculate position point.yieldToMaturity

/-- `axis_price`. -/
def axisPrice (position : PreparedPosition) (axis : List AxisPoint) (bump : Option (ℕ × Bool)) :
    Except ApplicationError FixedDecimal := do
  let curve ← yieldCurveBinding position.curveRef position.valuationAt.localTradingDate axis bump
  price decimalFromF64 calculate position curve

/-- The prices after a bump up and after a bump down, as far as the direction needs them. -/
def directionalPrices (position : PreparedPosition) (axis : List AxisPoint) (basePrice : FixedDecimal)
    (index : ℕ) : SensitivityDirection → Except ApplicationError (FixedDecimal × FixedDecimal)
  | .central => do
    let upPrice ← axisPrice decimalFromF64 calculate position axis (some (index, true))
    let downPrice ← axisPrice decimalFromF64 calculate position axis (some (index, false))
    return (upPrice, downPrice)
  | .up => do
    let upPrice ← axisPrice decimalFromF64 calculate position axis (some (index, true))
    return (upPrice, basePrice)
  | .down => do
    let downPrice ← axisPrice decimalFromF64 calculate position axis (some (index, false))
    return (basePrice, downPrice)

/-- The hash of the binding of a factor to the position, for a value that is not zero. -/
def boundFactorHash (position : PreparedPosition) (factorId : String) (value : FixedDecimal) :
    Except ApplicationError (List ContentHash) :=
  if value = .zero then .ok []
  else match position.boundFactors factorId with
    | some hash => .ok [hash]
    | none => .error axisLineage

/-- One point in the loop of `calculate_position`: its exposure and the hashes behind it. -/
def factorExposure (position : PreparedPosition) (axis : List AxisPoint) (outputUnit : UnitRef)
    (output : Market.MarketUnit) (basePrice : FixedDecimal) (point : AxisPoint × ℕ) :
    Except ApplicationError (FactorDv01 × List ContentHash) := do
  let prices ← directionalPrices decimalFromF64 calculate position axis basePrice point.2
    point.1.direction
  let bumpBp ← (FixedDecimal.tryFrom (point.1.bumpYield.scaled * 10000)).mapError fun _ =>
    axisValidation
  let quantity ← exactFixed position.quantity
  let value ← (bondPositionKeyRateDv01 basePrice prices.1 prices.2 bumpBp point.1.direction quantity
    position.terms.faceAmount).mapError mapDomainError
  validateFixedOutput value output
  let bound ← boundFactorHash position point.1.factorId value
  let exposure ← (FactorDv01.new point.1.factorId point.1.factorContentHash value
    outputUnit).mapError mapDomainError
  return (exposure, [point.1.nodeContentHash, point.1.curveBindingHash] ++ bound)

/-- `calculate_position`. -/
def calculatePosition (position : PreparedPosition) (axis : List AxisPoint) (outputUnit : UnitRef)
    (output : Market.MarketUnit) : Except ApplicationError PositionKeyRateExposure := do
  let basePrice ← axisPrice decimalFromF64 calculate position axis none
  let factors ← axis.zipIdx.mapM
    (factorExposure decimalFromF64 calculate position axis outputUnit output basePrice)
  let reference ← (LineageRef.new outputUnit.unitId (some outputUnit.version)
    (some (definitionContentHash output))).mapError mapDomainError
  (PositionKeyRateExposure.new ⟨position.positionId, position.instrument, factors.map Prod.fst,
    distinctHashes (factors.flatMap Prod.snd), position.lineage ++ [reference]⟩).mapError
    mapDomainError

end Engines

/-! ### What a bump moves -/

section Curves

variable {reference : AnalyticsObjectRef} {valuationDate : NaiveDate} {axis : List AxisPoint}

/-- The other points keep their yields. -/
theorem pointYield_of_ne {i : ℕ} {up : Bool} {point : AxisPoint × ℕ} (h : i ≠ point.2) :
    pointYield (some (i, up)) point = pointYield none point := by
  unfold pointYield movement
  simp only [if_neg h]

/-- **A bump of a point changes the yields between its neighbours only.** -/
theorem yields_of_bump {base bumped : YieldCurveBinding} {i : ℕ} {up : Bool}
    (hbase : yieldCurveBinding reference valuationDate axis none = .ok base)
    (hbumped : yieldCurveBinding reference valuationDate axis (some (i, up)) = .ok bumped)
    (hi : i < axis.length) {queryDate : NaiveDate} (hcovers : base.covers queryDate = true) :
    ∃ y y', curveYield base queryDate = some y ∧ curveYield bumped queryDate = some y' ∧ (y' ≠ y →
      Brackets (axis.map AxisPoint.maturityDate) queryDate axis[i].maturityDate) := by
  obtain ⟨lo, hlo, hiPoint, hhi, hloBrackets, hhiBrackets, w, hw⟩ := exists_mean hbase hcovers
  refine ⟨_, _, hw none base hbase, hw _ bumped hbumped, fun hne => ?_⟩
  by_cases hloBumped : i = lo.2
  · rw [← (date_eq_iff (axis_nodup hbase) hlo hi).mpr hloBumped]
    exact hloBrackets
  by_cases hhiBumped : i = hiPoint.2
  · rw [← (date_eq_iff (axis_nodup hbase) hhi hi).mpr hhiBumped]
    exact hhiBrackets
  · -- neither of the two points is bumped
    rw [pointYield_of_ne hloBumped, pointYield_of_ne hhiBumped] at hne
    exact absurd rfl hne

/-- One point is moved by one of the bumps. -/
theorem sum_pointYield {up : Bool} {amount : FixedDecimal}
    (hequal : ∀ point ∈ axis, point.bumpYield = amount) {point : AxisPoint × ℕ}
    (hpoint : point ∈ axis.zipIdx) :
    ∑ i : Fin axis.length, (pointYield (some (i.val, up)) point - pointYield none point) =
      if up then amount.toRat else -amount.toRat := by
  have hlt : point.2 < axis.length := List.snd_lt_of_mem_zipIdx hpoint
  have hbump : point.1.bumpYield = amount := hequal _ (List.fst_mem_of_mem_zipIdx hpoint)
  -- Only the bump at the point itself moves it.
  have hterm : ∀ i : Fin axis.length, pointYield (some (i.val, up)) point - pointYield none point =
      if i = ⟨point.2, hlt⟩ then (if up then amount.toRat else -amount.toRat) else 0 := by
    intro i
    by_cases h : i.val = point.2
    · rw [if_pos (Fin.ext h)]
      unfold pointYield movement AxisPoint.signedBump FixedDecimal.toRat
      simp only [if_pos h, hbump]
      cases up
      · simp only [Bool.false_eq_true, if_false]
        push_cast
        ring
      · simp only [if_true]
        push_cast
        ring
    · rw [if_neg fun heq => h (congrArg Fin.val heq), pointYield_of_ne h, sub_self]
  rw [Finset.sum_congr rfl fun i _ => hterm i]
  simp

/-- **Equal bumps of all points add up to one bump.** -/
theorem sum_of_bumps {base : YieldCurveBinding} {up : Bool} {amount : FixedDecimal}
    (hbase : yieldCurveBinding reference valuationDate axis none = .ok base)
    (hequal : ∀ point ∈ axis, point.bumpYield = amount) {bumped : Fin axis.length → YieldCurveBinding}
    (hbumped : ∀ i, yieldCurveBinding reference valuationDate axis (some (i.val, up)) = .ok (bumped i))
    {queryDate : NaiveDate} (hcovers : base.covers queryDate = true) {y : ℚ}
    (hy : curveYield base queryDate = some y) {y' : Fin axis.length → ℚ}
    (hy' : ∀ i, curveYield (bumped i) queryDate = some (y' i)) :
    ∑ i, (y' i - y) = if up then amount.toRat else -amount.toRat := by
  obtain ⟨lo, hlo, hiPoint, hhi, -, -, w, hw⟩ := exists_mean hbase hcovers
  have hvalue := Option.some.inj (hy.symm.trans (hw none base hbase))
  have hvalue' : ∀ i, y' i = _ := fun i =>
    Option.some.inj ((hy' i).symm.trans (hw _ (bumped i) (hbumped i)))
  -- the mean of a sum is the sum of the means
  have hterm : ∀ i : Fin axis.length, y' i - y =
      (1 - w) * (pointYield (some (i.val, up)) lo - pointYield none lo) +
        w * (pointYield (some (i.val, up)) hiPoint - pointYield none hiPoint) := by
    intro i
    rw [hvalue, hvalue' i]
    ring
  rw [Finset.sum_congr rfl fun i _ => hterm i, Finset.sum_add_distrib, ← Finset.mul_sum,
    ← Finset.mul_sum, sum_pointYield hequal hlo, sum_pointYield hequal hhi]
  ring

/-! ### Exposures -/

section Engines

variable {decimalFromF64 : ℚ → Except AnalyticsError FixedDecimal}
  {calculate : BondAnalyticsInput → Except AnalyticsError BondAnalyticsResult}
  {definitionContentHash : Market.MarketUnit → ContentHash} {position : PreparedPosition}

/-- A price is read off the yield of the curve at maturity. -/
theorem of_price {curve : YieldCurveBinding} {value : FixedDecimal}
    (h : price decimalFromF64 calculate position curve = .ok value) :
    curve.covers position.maturityDate = true ∧ ∃ exact yieldToMaturity,
      curveYield curve position.maturityDate = some exact ∧
      decimalFromF64 exact = .ok yieldToMaturity ∧
      priceAtYield calculate position yieldToMaturity = .ok value := by
  obtain ⟨query, hquery, h⟩ := bind_eq_ok.mp h
  obtain ⟨point, hpoint, h⟩ := bind_eq_ok.mp h
  obtain ⟨-, -, hprice⟩ := bind_eq_ok.mp h
  rw [mapError_eq_ok] at hquery hpoint
  -- the query asks the curve for the yield at maturity
  unfold YieldCurveQuery.new at hquery
  split at hquery
  swap
  · cases hquery
  rename_i hvalid
  obtain rfl := Except.ok.inj hquery
  refine ⟨hvalid.2, ?_⟩
  obtain ⟨-, -, hpoint⟩ := bind_eq_ok.mp hpoint
  cases hyield : curveYield curve position.maturityDate with
  | none =>
    simp only [hyield] at hpoint
    cases hpoint
  | some exact =>
    simp only [hyield] at hpoint
    obtain ⟨yieldToMaturity, hdecimal, hnew⟩ := bind_eq_ok.mp hpoint
    rw [mapError_eq_ok] at hnew
    unfold YieldCurvePoint.new at hnew
    split at hnew
    · cases hnew
    · obtain rfl := Except.ok.inj hnew
      exact ⟨exact, yieldToMaturity, rfl, hdecimal, hprice⟩

/-- A bump of a point that does not bracket the maturity leaves the price as it is. -/
theorem axisPrice_of_bump {basePrice bumpedPrice : FixedDecimal} {i : ℕ} {up : Bool}
    (hbase : axisPrice decimalFromF64 calculate position axis none = .ok basePrice)
    (hbumped : axisPrice decimalFromF64 calculate position axis (some (i, up)) = .ok bumpedPrice)
    (hi : i < axis.length)
    (hfar : ¬Brackets (axis.map AxisPoint.maturityDate) position.maturityDate axis[i].maturityDate) :
    bumpedPrice = basePrice := by
  obtain ⟨base, hbaseCurve, hbase⟩ := bind_eq_ok.mp hbase
  obtain ⟨bumped, hbumpedCurve, hbumped⟩ := bind_eq_ok.mp hbumped
  obtain ⟨hcovers, exact, ytm, hexact, hytm, hprice⟩ := of_price hbase
  obtain ⟨-, exact', ytm', hexact', hytm', hprice'⟩ := of_price hbumped
  obtain ⟨y, y', hy, hy', hbrackets⟩ := yields_of_bump hbaseCurve hbumpedCurve hi hcovers
  have hsame : y' = y := by
    by_contra hne
    exact hfar (hbrackets hne)
  -- the same yield leads to the same price
  obtain rfl := Option.some.inj (hexact.symm.trans hy)
  obtain rfl := Option.some.inj (hexact'.symm.trans hy')
  rw [hsame, hytm] at hytm'
  obtain rfl := Except.ok.inj hytm'
  rw [hprice] at hprice'
  exact (Except.ok.inj hprice').symm

/-- Where both prices are the base price, a sensitivity is zero. -/
theorem dv01_of_same_prices {basePrice bumpBp quantity face value : FixedDecimal}
    {direction : SensitivityDirection}
    (h : bondPositionKeyRateDv01 basePrice basePrice basePrice bumpBp direction quantity face =
      .ok value) : value = .zero := by
  have hdifference : directionalDifference basePrice basePrice basePrice direction = .ok .zero := by
    have hzero : basePrice.checkedSub basePrice = .ok .zero := by
      rw [FixedDecimal.checkedSub_eq_ok, Int.sub_self]
      rfl
    cases direction <;> exact hzero
  unfold bondPositionKeyRateDv01 at h
  obtain ⟨-, -, h⟩ := bind_eq_ok.mp h
  rw [hdifference, ok_bind, if_pos (Or.inl rfl)] at h
  exact (Except.ok.inj h).symm

/-- The exposure of a point is one to its factor, and zero if the point does not bracket the
    maturity. -/
theorem of_factorExposure {outputUnit : UnitRef} {output : Market.MarketUnit}
    {basePrice : FixedDecimal} {point : AxisPoint × ℕ} {exposure : FactorDv01 × List ContentHash}
    (hbase : axisPrice decimalFromF64 calculate position axis none = .ok basePrice)
    (hpoint : point ∈ axis.zipIdx)
    (h : factorExposure decimalFromF64 calculate position axis outputUnit output basePrice point =
      .ok exposure) :
    exposure.1.factorId = point.1.factorId ∧ (exposure.1.value ≠ .zero →
      Brackets (axis.map AxisPoint.maturityDate) position.maturityDate point.1.maturityDate) := by
  obtain ⟨prices, hprices, h⟩ := bind_eq_ok.mp h
  obtain ⟨bumpBp, -, h⟩ := bind_eq_ok.mp h
  obtain ⟨quantity, -, h⟩ := bind_eq_ok.mp h
  obtain ⟨value, hvalue, h⟩ := bind_eq_ok.mp h
  obtain ⟨-, -, h⟩ := bind_eq_ok.mp h
  obtain ⟨bound, -, h⟩ := bind_eq_ok.mp h
  obtain ⟨factor, hfactor, h⟩ := bind_eq_ok.mp h
  obtain rfl := Except.ok.inj h
  rw [mapError_eq_ok] at hvalue hfactor
  unfold FactorDv01.new at hfactor
  split at hfactor
  swap
  · cases hfactor
  obtain rfl := Except.ok.inj hfactor
  refine ⟨rfl, fun hne => ?_⟩
  by_contra hfar
  -- the point stands at its number
  obtain ⟨axisPoint, i⟩ := point
  obtain ⟨hi, rfl⟩ := List.getElem?_eq_some_iff.mp (List.mk_mem_zipIdx_iff_getElem?.mp hpoint)
  have hsame : ∀ up bumpedPrice, axisPrice decimalFromF64 calculate position axis (some (i, up)) =
      .ok bumpedPrice → bumpedPrice = basePrice := fun _ _ hbumped =>
    axisPrice_of_bump hbase hbumped hi hfar
  have hpair : prices = (basePrice, basePrice) := by
    simp only at hprices
    cases hdirection : axis[i].direction with
    | central =>
      rw [hdirection] at hprices
      obtain ⟨upPrice, hup, hprices⟩ := bind_eq_ok.mp hprices
      obtain ⟨downPrice, hdown, hprices⟩ := bind_eq_ok.mp hprices
      rw [← Except.ok.inj hprices, hsame _ _ hup, hsame _ _ hdown]
    | up =>
      rw [hdirection] at hprices
      obtain ⟨upPrice, hup, hprices⟩ := bind_eq_ok.mp hprices
      rw [← Except.ok.inj hprices, hsame _ _ hup]
    | down =>
      rw [hdirection] at hprices
      obtain ⟨downPrice, hdown, hprices⟩ := bind_eq_ok.mp hprices
      rw [← Except.ok.inj hprices, hsame _ _ hdown]
  rw [hpair] at hvalue
  exact hne (dv01_of_same_prices hvalue)

/-- **The exposures of a position**: one to the factor of each point of the axis, and zero unless the
    point brackets the maturity. -/
theorem exposures_of_position {outputUnit : UnitRef} {output : Market.MarketUnit}
    {exposure : PositionKeyRateExposure}
    (h : calculatePosition decimalFromF64 calculate definitionContentHash position axis outputUnit
      output = .ok exposure) :
    (axis.map AxisPoint.maturityDate).Nodup ∧
      List.Forall₂ (fun (point : AxisPoint) (factor : FactorDv01) =>
        factor.factorId = point.factorId ∧ (factor.value ≠ .zero →
          Brackets (axis.map AxisPoint.maturityDate) position.maturityDate point.maturityDate))
        axis exposure.exposures := by
  obtain ⟨basePrice, hbase, h⟩ := bind_eq_ok.mp h
  obtain ⟨factors, hfactors, h⟩ := bind_eq_ok.mp h
  obtain ⟨reference, -, h⟩ := bind_eq_ok.mp h
  rw [mapError_eq_ok] at h
  rw [mapM_eq_ok] at hfactors
  obtain ⟨base, hcurve, -⟩ := bind_eq_ok.mp hbase
  refine ⟨axis_nodup hcurve, ?_⟩
  have hexposures : exposure.exposures = factors.map Prod.fst := by
    unfold PositionKeyRateExposure.new at h
    split at h
    · obtain rfl := Except.ok.inj h
      rfl
    · cases h
  rw [hexposures, List.forall₂_map_right_iff]
  have hlocal : List.Forall₂ (fun (point : AxisPoint × ℕ) (factor : FactorDv01 × List ContentHash) =>
      factor.1.factorId = point.1.factorId ∧ (factor.1.value ≠ .zero →
        Brackets (axis.map AxisPoint.maturityDate) position.maturityDate point.1.maturityDate))
      axis.zipIdx factors := by
    obtain ⟨hlength, hzip⟩ := List.forall₂_iff_zip.mp hfactors
    exact List.forall₂_iff_zip.mpr ⟨hlength, fun hmem =>
      of_factorExposure hbase (List.of_mem_zip hmem).1 (hzip hmem)⟩
  -- the points of the axis without their numbers
  have hpoints := (List.forall₂_map_left_iff (f := Prod.fst) (R := fun (point : AxisPoint)
    (factor : FactorDv01 × List ContentHash) => factor.1.factorId = point.factorId ∧
      (factor.1.value ≠ .zero →
        Brackets (axis.map AxisPoint.maturityDate) position.maturityDate point.maturityDate))).mpr
        hlocal
  rwa [List.zipIdx_map_fst] at hpoints

end Engines

end Curves

/-- **Key-rate bumps are local and add up.**  An axis with a curve has distinct dates, in any order,
    and:

    * a bump of a point gives the curve with the node at its date moved and nothing else;
    * the yield at a date inside the curve changes only if the point is one of the at most two that
      bracket the date;
    * when all bumps are equal, the changes add up to the bump;
    * a position has an exposure other than zero to at most two factors, those of the points that
      bracket its maturity. -/
theorem key_rate_bumps_local :
    (∀ points axis, orderAxis points = .ok axis → axis.Perm points ∧
      (axis.map AxisPoint.maturityDate).Nodup ∧ axis.Pairwise fun a b => a.factorId < b.factorId) ∧
    (∀ reference valuationDate (axis : List AxisPoint),
      ((∃ base, yieldCurveBinding reference valuationDate axis none = .ok base) ↔
        2 ≤ axis.length ∧ (axis.map AxisPoint.maturityDate).Nodup ∧ ∀ point ∈ axis,
          valuationDate < point.maturityDate ∧ negativeOneScaled < point.yieldToMaturity.scaled) ∧
      ∀ base, yieldCurveBinding reference valuationDate axis none = .ok base →
        (∀ i up (hi : i < axis.length),
          ((∃ bumped, yieldCurveBinding reference valuationDate axis (some (i, up)) = .ok bumped) ↔
            InI128 (axis[i].yieldToMaturity.scaled + axis[i].signedBump up) ∧
              negativeOneScaled < axis[i].yieldToMaturity.scaled + axis[i].signedBump up) ∧
          ∀ bumped, yieldCurveBinding reference valuationDate axis (some (i, up)) = .ok bumped →
            (bumped.curveSnapshot = base.curveSnapshot ∧ bumped.valuationDate = base.valuationDate ∧
              List.Forall₂ (MovedAt axis[i].maturityDate (axis[i].signedBump up)) base.nodes
                bumped.nodes) ∧
            ∀ queryDate, base.covers queryDate = true → ∃ y y',
              curveYield base queryDate = some y ∧ curveYield bumped queryDate = some y' ∧ (y' ≠ y →
                Brackets (axis.map AxisPoint.maturityDate) queryDate axis[i].maturityDate)) ∧
        (∀ queryDate, ((axis.map AxisPoint.maturityDate).filter fun date =>
          Brackets (axis.map AxisPoint.maturityDate) queryDate date).length ≤ 2) ∧
        ∀ up amount, (∀ point ∈ axis, point.bumpYield = amount) →
          ∀ bumped : Fin axis.length → YieldCurveBinding,
            (∀ i, yieldCurveBinding reference valuationDate axis (some (i.val, up)) = .ok (bumped i)) →
              ∀ queryDate, base.covers queryDate = true → ∀ y (y' : Fin axis.length → ℚ),
                curveYield base queryDate = some y →
                (∀ i, curveYield (bumped i) queryDate = some (y' i)) →
                  ∑ i, (y' i - y) = if up then amount.toRat else -amount.toRat) ∧
    ∀ decimalFromF64 calculate definitionContentHash position axis outputUnit output exposure,
      calculatePosition decimalFromF64 calculate definitionContentHash position axis outputUnit
      output = .ok exposure →
      List.Forall₂ (fun (point : AxisPoint) (factor : FactorDv01) =>
        factor.factorId = point.factorId ∧ (factor.value ≠ .zero →
          Brackets (axis.map AxisPoint.maturityDate) position.maturityDate point.maturityDate))
        axis exposure.exposures ∧
      (exposure.exposures.filter fun factor => factor.value ≠ .zero).length ≤ 2 := by
  refine ⟨fun _ _ => of_orderAxis, fun reference valuationDate axis =>
    ⟨?_, fun base hbase => ⟨?_, ?_, ?_⟩⟩, ?_⟩
  · -- a curve without a bump
    rw [exists_curve_iff]
    refine and_congr_right fun _ => and_congr_right fun _ => ?_
    simp only [movement, Int.add_zero]
    constructor
    · rintro ⟨hlater, hyields⟩ point hpoint
      obtain ⟨i, hi, rfl⟩ := List.getElem_of_mem hpoint
      have hmem : (axis[i], i) ∈ axis.zipIdx :=
        List.mk_mem_zipIdx_iff_getElem?.mpr (List.getElem?_eq_getElem hi)
      exact ⟨hlater _ hpoint, (hyields _ hmem).2⟩
    · intro h
      exact ⟨fun point hpoint => (h point hpoint).1, fun point hpoint =>
        ⟨point.1.yieldToMaturity.range, (h _ (List.fst_mem_of_mem_zipIdx hpoint)).2⟩⟩
  · intro i up hi
    refine ⟨?_, fun bumped hbumped => ⟨movedAt_of_bump hbase hbumped hi, fun queryDate hcovers =>
      yields_of_bump hbase hbumped hi hcovers⟩⟩
    obtain ⟨htwo, hnodup, hlater, hyields⟩ := exists_curve_iff.mp ⟨base, hbase⟩
    have hmem : (axis[i], i) ∈ axis.zipIdx :=
      List.mk_mem_zipIdx_iff_getElem?.mpr (List.getElem?_eq_getElem hi)
    rw [exists_curve_iff]
    constructor
    · rintro ⟨-, -, -, hmoved⟩
      have hpoint := hmoved _ hmem
      simpa only [movement, if_true] using hpoint
    · intro hpoint
      refine ⟨htwo, hnodup, hlater, fun point hmemPoint => ?_⟩
      by_cases h : i = point.2
      · obtain ⟨value, j⟩ := point
        obtain rfl : i = j := h
        obtain ⟨_, rfl⟩ := List.getElem?_eq_some_iff.mp (List.mk_mem_zipIdx_iff_getElem?.mp hmemPoint)
        simpa only [movement, if_true] using hpoint
      · -- the other points stand where they stood
        simpa only [movement, if_neg h] using hyields point hmemPoint
  · exact fun queryDate => brackets_le_two _ queryDate (axis_nodup hbase)
  · intro up amount hequal bumped hbumped queryDate hcovers y y' hy hy'
    exact sum_of_bumps hbase hequal hbumped hcovers hy hy'
  · intro decimalFromF64 calculate definitionContentHash position axis outputUnit output exposure h
    obtain ⟨hnodup, hexposures⟩ := exposures_of_position h
    refine ⟨hexposures, ?_⟩
    have hcount := length_filter_le_of_forall₂
      (p := fun point : AxisPoint => decide (Brackets (axis.map AxisPoint.maturityDate)
        position.maturityDate point.maturityDate))
      (q := fun factor : FactorDv01 => decide (factor.value ≠ .zero))
      (hexposures.imp fun _ _ hpair hne => decide_eq_true (hpair.2 (of_decide_eq_true hne)))
    have htwo := brackets_le_two _ position.maturityDate hnodup
    rw [List.filter_map, List.length_map] at htwo
    exact hcount.trans htwo

/-! ### An axis of three points -/

namespace ThreePoints

def owner : OwnerRef := ⟨⟨1⟩, ⟨2⟩⟩
def hash : ContentHash := .filled 0
def object : AnalyticsObjectRef := ⟨⟨⟨3⟩, .first⟩, hash⟩
def unit : UnitRef := ⟨⟨4⟩, .first⟩

/-- A point at 2.1 per cent that is moved by 1.2 basis points. -/
def point (factorId : String) (maturityDate : NaiveDate) : AxisPoint :=
  ⟨factorId, hash, .up, unit, maturityDate, ⟨21000000000, by decide⟩, ⟨120000000, by decide⟩, hash,
    hash⟩

/-- The order of the factors is not the order of the dates. -/
def points : List AxisPoint :=
  [point "10y" (.ymd 2036 7 20), point "2y" (.ymd 2028 7 20), point "5y" (.ymd 2031 7 20)]

/-- The second of the valuation is one that chrono holds. -/
theorem valuation_lower : -8334601228800 ≤ (1784606461 : ℤ) := by decide

theorem valuation_upper : (1784606461 : ℤ) ≤ 8210266876799 := by decide

def valuation : MarketTime :=
  ⟨.ofSeconds 1784606461 valuation_lower valuation_upper, Analytics.marketTimezone, .ymd 2026 7 21⟩

/-- The constructors accept the quantity, the calendar and the terms of the position. -/
theorem quantity_isSome : (StoredDecimal.new "230" 0 unit).toOption.isSome := by decide +kernel

theorem calendar_isSome : (CalendarBinding.new "holidays" .first hash (.ymd 2026 7 1)
    (.ymd 2026 9 30) [] []).toOption.isSome := by decide +kernel

theorem terms_isSome : (BondTerms.new (.ymd 2024 9 16) (.ymd 2029 9 17) .semiannual .actActBondIsma
    .following (.ofScaled 26000000000) (.ofScaled 50000000000000)).toOption.isSome := by
  decide +kernel

/-- A bond that matures between the dates of two points. -/
def position : PreparedPosition where
  positionId := ⟨5⟩
  instrument := ⟨⟨6⟩, .first⟩
  quantity := (StoredDecimal.new "230" 0 unit).toOption.get quantity_isSome
  owner := owner
  bondRef := object
  rulePackRef := object
  snapshotRef := object
  curveRef := object
  valuationAt := valuation
  settlementDate := .ymd 2026 7 22
  calendarBinding := (CalendarBinding.new "holidays" .first hash (.ymd 2026 7 1) (.ymd 2026 9 30) []
    []).toOption.get calendar_isSome
  terms := (BondTerms.new (.ymd 2024 9 16) (.ymd 2029 9 17) .semiannual .actActBondIsma .following
    (.ofScaled 26000000000) (.ofScaled 50000000000000)).toOption.get terms_isSome
  maturityDate := .ymd 2029 9 17
  boundFactors := fun _ => some hash
  lineage := [⟨⟨7⟩, none, some hash⟩]

/-- The unit of the exposures. -/
def output : Market.MarketUnit :=
  ⟨⟨⟨4⟩, .first, owner, "DV01", "amount", 12, 27⟩, by decide +kernel, by decide, by decide⟩

/-- The number of the kernel, cut to twelve places. -/
def fixedOf (value : ℚ) : Except AnalyticsError FixedDecimal :=
  (FixedDecimal.tryFrom (value * 10 ^ 12).floor).mapError fun _ => .nonFinite

/-- An engine for which a bond costs a hundred less its yield. -/
def engine (input : BondAnalyticsInput) : Except AnalyticsError BondAnalyticsResult :=
  (((FixedDecimal.ofScaled 100000000000000).checkedSub input.inputValue).map fun price =>
    ⟨input, price⟩).mapError fun _ => .internal

def axis : List AxisPoint :=
  (orderAxis points).toOption.get (by decide +kernel)

def exposure : PositionKeyRateExposure :=
  (calculatePosition fixedOf engine (fun _ => hash) position axis unit output).toOption.get
    (by decide +kernel)

end ThreePoints

/-- The bond costs the same when the point beyond its neighbours is bumped; three equal bumps add up to
    one; and it has an exposure to two factors at most. -/
theorem key_rate_bumps_local_three_points :
    ∃ (base : YieldCurveBinding) (bumped : Fin ThreePoints.axis.length → YieldCurveBinding) (y : ℚ)
      (y' : Fin ThreePoints.axis.length → ℚ),
      yieldCurveBinding ThreePoints.object (.ymd 2026 7 21) ThreePoints.axis none = .ok base ∧
      (∀ i, yieldCurveBinding ThreePoints.object (.ymd 2026 7 21) ThreePoints.axis
        (some (i.val, true)) = .ok (bumped i)) ∧
      curveYield base ThreePoints.position.maturityDate = some y ∧
      (∀ i, curveYield (bumped i) ThreePoints.position.maturityDate = some (y' i)) ∧
      y' ⟨0, by decide +kernel⟩ = y ∧ ∑ i, (y' i - y) = 12 / 100000 ∧
      (ThreePoints.exposure.exposures.filter fun factor => factor.value ≠ .zero).length ≤ 2 := by
  obtain ⟨-, hcurves, hexposures⟩ := key_rate_bumps_local
  obtain ⟨-, hcurves⟩ := hcurves ThreePoints.object (.ymd 2026 7 21) ThreePoints.axis
  obtain ⟨base, hbase, hcovers⟩ := exists_ok_of_any
    (x := yieldCurveBinding ThreePoints.object (.ymd 2026 7 21) ThreePoints.axis none)
    (p := fun curve => curve.covers ThreePoints.position.maturityDate) (by decide +kernel)
  obtain ⟨hbumps, -, hsum⟩ := hcurves base hbase
  -- Every point of the axis can be bumped.
  have hmoved : ∀ i : Fin ThreePoints.axis.length,
      InI128 (ThreePoints.axis[i].yieldToMaturity.scaled + ThreePoints.axis[i].signedBump true) ∧
        negativeOneScaled <
          ThreePoints.axis[i].yieldToMaturity.scaled + ThreePoints.axis[i].signedBump true := by
    decide +kernel
  have hexists : ∀ i : Fin ThreePoints.axis.length, ∃ bumped, yieldCurveBinding ThreePoints.object
      (.ymd 2026 7 21) ThreePoints.axis (some (i.val, true)) = .ok bumped :=
    fun i => (hbumps i true i.isLt).1.mpr (hmoved i)
  choose bumped hbumped using hexists
  have hyields := fun i : Fin ThreePoints.axis.length =>
    ((hbumps i true i.isLt).2 (bumped i) (hbumped i)).2 _ hcovers
  choose y y' hy hy' hbrackets using hyields
  have hfirst : 0 < ThreePoints.axis.length := by decide +kernel
  have hsame : ∀ i, y i = y ⟨0, hfirst⟩ := fun i => Option.some.inj ((hy i).symm.trans (hy _))
  refine ⟨base, bumped, y ⟨0, hfirst⟩, y', hbase, hbumped, hy _, hy', ?_, ?_, ?_⟩
  -- The first point does not bracket the maturity of the bond.
  · by_contra hne
    have hfar : ∀ h, ¬Brackets (ThreePoints.axis.map AxisPoint.maturityDate)
        ThreePoints.position.maturityDate (ThreePoints.axis.get ⟨0, h⟩).maturityDate := by
      decide +kernel
    exact hfar hfirst (hbrackets _ hne)
  · have hequal : ∀ point ∈ ThreePoints.axis, point.bumpYield = ⟨120000000, by decide⟩ := by
      decide +kernel
    rw [hsum true _ hequal bumped hbumped _ hcovers _ y' (hy _) hy', if_pos rfl]
    norm_num [FixedDecimal.toRat]
  · exact (hexposures ThreePoints.fixedOf ThreePoints.engine (fun _ => ThreePoints.hash)
      ThreePoints.position ThreePoints.axis ThreePoints.unit ThreePoints.output ThreePoints.exposure
      (eq_ok_get _)).2

end Ficant
