import Ficant.Analytics.CarryRoll
import Ficant.Analytics.Errors
import Ficant.Kernel.EpochDays
import Ficant.Lib.Interpolation

namespace Ficant.Analytics

open Lib Kernel

/-!
# Yields between the nodes of a curve

A query for the yield at a date (`ficant-domain/src/curves.rs`), and the linear interpolation of the
kernel in exact rational numbers (`cpp/fixed-income-kernel/src/curve_math.cpp`).

* `YieldCurveQuery`, `YieldCurvePoint` — a question to a curve and its answer;
* `linearYield` — the function of the kernel, on days since 1970;
* `curveYield_eq` — what it gives for a curve is `Lib.interpolate` on the dates of its nodes.
-/

/-- `YieldCurveQuery`. -/
structure YieldCurveQuery where
  curve : YieldCurveBinding
  queryDate : NaiveDate
  later : curve.valuationDate < queryDate
  covered : curve.covers queryDate = true
  deriving DecidableEq

/-- `YieldCurveQuery::new`. -/
def YieldCurveQuery.new (curve : YieldCurveBinding) (queryDate : NaiveDate) :
    Except DomainErrorCode YieldCurveQuery :=
  if h : curve.valuationDate < queryDate ∧ curve.covers queryDate = true then
    .ok ⟨curve, queryDate, h.1, h.2⟩
  else .error .invalidEffectiveTime

/-- `YieldCurvePoint`. -/
structure YieldCurvePoint where
  query : YieldCurveQuery
  yieldToMaturity : FixedDecimal
  yield_gt : negativeOneScaled < yieldToMaturity.scaled

instance : DecidableEq YieldCurvePoint := fun a b =>
  decidable_of_iff
    (a.query = b.query ∧ a.yieldToMaturity = b.yieldToMaturity)
    (by cases a; cases b; simp)

theorem yield_of_not_le {value : FixedDecimal} (h : ¬ value.scaled ≤ negativeOneScaled) :
    negativeOneScaled < value.scaled := not_le.mp h

/-- `YieldCurvePoint::new`. -/
def YieldCurvePoint.new (query : YieldCurveQuery) (yieldToMaturity : FixedDecimal) :
    Except DomainErrorCode YieldCurvePoint :=
  if h : yieldToMaturity.scaled ≤ negativeOneScaled then .error .invalidValue
  else .ok ⟨query, yieldToMaturity, yield_of_not_le h⟩

/-- `validate_against`. -/
def YieldCurvePoint.validateAgainst (self : YieldCurvePoint) (query : YieldCurveQuery) :
    Except DomainErrorCode Unit :=
  rejectIf (self.query ≠ query) .brokenLineage

/-! ### The kernel -/

/-- `YieldNode`. -/
structure YieldNode where
  maturityDate : Int32
  yieldToMaturity : ℚ

/-- The loop of `linear_yield`. -/
def linearYieldLoop (queryDate : Int32) (lower : YieldNode) : List YieldNode → Option ℚ
  | [] => none
  | upper :: rest =>
    if queryDate = upper.maturityDate then some upper.yieldToMaturity
    else if queryDate < upper.maturityDate then
      let numerator : ℚ := (queryDate - lower.maturityDate).toInt
      let denominator : ℚ := (upper.maturityDate - lower.maturityDate).toInt
      let weight := numerator / denominator
      some (lower.yieldToMaturity + weight * (upper.yieldToMaturity - lower.yieldToMaturity))
    else linearYieldLoop queryDate upper rest

/-- `linear_yield`, where `none` is not a number. -/
def linearYield (nodes : List YieldNode) (queryDate : Int32) : Option ℚ :=
  match nodes with
  | first :: second :: rest =>
    if queryDate < first.maturityDate ∨
        ((second :: rest).getLast (List.cons_ne_nil _ _)).maturityDate < queryDate then none
    else if queryDate = first.maturityDate then some first.yieldToMaturity
    else linearYieldLoop queryDate first (second :: rest)
  | _ => none

/-- The nodes as the kernel gets them. -/
def YieldCurveNode.toKernel (node : YieldCurveNode) : YieldNode :=
  ⟨epochDays node.maturityDate, node.yieldToMaturity.toRat⟩

/-- `linear_yield` of a curve at a date. -/
def curveYield (curve : YieldCurveBinding) (queryDate : NaiveDate) : Option ℚ :=
  linearYield (curve.nodes.map YieldCurveNode.toKernel) (epochDays queryDate)

/-- `MAX_CURVE_NODES`. -/
def maxCurveNodes : ℕ := 4096

/-- `NativeYieldCurveEngine::interpolate`, over a conversion from the kernel's numbers. -/
def interpolateCurve (decimalFromF64 : ℚ → Except AnalyticsError FixedDecimal)
    (query : YieldCurveQuery) : Except AnalyticsError YieldCurvePoint := do
  rejectIf (maxCurveNodes < query.curve.nodes.length) .invalidInput
  match curveYield query.curve query.queryDate with
  | none => .error .nonFinite
  | some value =>
    let yieldToMaturity ← decimalFromF64 value
    (YieldCurvePoint.new query yieldToMaturity).mapError fun _ => .internal

/-! ### What it interpolates -/

/-- The weight of the right neighbour: the share of the days between the two. -/
def dayWeight (lower query upper : NaiveDate) : ℚ :=
  ((epochDays query - epochDays lower).toInt : ℚ) / (epochDays upper - epochDays lower).toInt

theorem epochDays_eq_iff {a b : NaiveDate} : epochDays a = epochDays b ↔ a = b := by
  refine ⟨fun h => le_antisymm ?_ ?_, fun h => h ▸ rfl⟩
  · rw [← epochDays_le_iff, h]
    exact Int32.le_refl _
  · rw [← epochDays_le_iff, h]
    exact Int32.le_refl _

theorem linearYieldLoop_eq (queryDate : NaiveDate) (lower : YieldCurveNode)
    (rest : List YieldCurveNode) :
    linearYieldLoop (epochDays queryDate) lower.toKernel (rest.map YieldCurveNode.toKernel) =
      interpolateFrom dayWeight queryDate (lower.maturityDate, lower.yieldToMaturity.toRat)
        (rest.map fun node => (node.maturityDate, node.yieldToMaturity.toRat)) := by
  induction rest generalizing lower with
  | nil => rfl
  | cons upper rest ih =>
    rw [List.map_cons, List.map_cons, linearYieldLoop, interpolateFrom, ih]
    simp only [YieldCurveNode.toKernel, epochDays_eq_iff, epochDays_lt_iff]
    rfl

/-- **The kernel interpolates between the dates of the nodes.** -/
theorem curveYield_eq (curve : YieldCurveBinding) (queryDate : NaiveDate) :
    curveYield curve queryDate = interpolate dayWeight
      (curve.nodes.map fun node => (node.maturityDate, node.yieldToMaturity.toRat)) queryDate := by
  unfold curveYield
  match curve.nodes with
  | [] => rfl
  | [_] => rfl
  | first :: second :: rest =>
    -- The kernel's loop walks the same nodes; only the last date has to be carried across.
    have hloop := linearYieldLoop_eq queryDate first (second :: rest)
    have hlast : ∀ h h', ((second.toKernel :: rest.map YieldCurveNode.toKernel).getLast
      h).maturityDate =
        epochDays (((second.maturityDate, second.yieldToMaturity.toRat) :: rest.map fun node =>
          (node.maturityDate, node.yieldToMaturity.toRat)).getLast h').1 := by
      intro h h'
      have hkernel : second.toKernel :: rest.map YieldCurveNode.toKernel =
          (second :: rest).map YieldCurveNode.toKernel := rfl
      have hpairs : (second.maturityDate, second.yieldToMaturity.toRat) :: rest.map (fun node =>
          (node.maturityDate, node.yieldToMaturity.toRat)) =
            (second :: rest).map fun node => (node.maturityDate, node.yieldToMaturity.toRat) := rfl
      simp only [hkernel, hpairs, List.getLast_map]
      rfl
    simp only [List.map_cons, linearYield, interpolate] at hloop ⊢
    rw [hlast _ (List.cons_ne_nil _ _), hloop]
    simp only [YieldCurveNode.toKernel, epochDays_eq_iff, epochDays_lt_iff]

/-- A date is covered when it lies between two nodes. -/
theorem covers_iff {curve : YieldCurveBinding} {queryDate : NaiveDate} :
    curve.covers queryDate = true ↔ (∃ node ∈ curve.nodes, node.maturityDate ≤ queryDate) ∧
      ∃ node ∈ curve.nodes, queryDate ≤ node.maturityDate := by
  obtain ⟨snapshot, date, interpolation, nodes, htwo, hlater, hsorted⟩ := curve
  unfold YieldCurveBinding.covers
  simp only
  match nodes, htwo with
  | first :: second :: rest, _ =>
    have hne : first :: second :: rest ≠ [] := List.cons_ne_nil _ _
    rw [List.head?_cons, List.getLast?_eq_getLast_of_ne_nil hne, Option.any_some, Option.any_some,
      Bool.and_eq_true, decide_eq_true_eq, decide_eq_true_eq]
    constructor
    · rintro ⟨hfirst, hlast⟩
      exact ⟨⟨first, .head _, hfirst⟩, _, List.getLast_mem hne, hlast⟩
    · rintro ⟨⟨a, ha, hale⟩, b, hb, hble⟩
      refine ⟨?_, hble.trans ?_⟩
      · rcases List.mem_cons.mp ha with rfl | ha
        · exact hale
        · exact ((List.pairwise_cons.mp hsorted).1 a ha).le.trans hale
      · exact (hsorted.imp le_of_lt).rel_getLast_of_rel_getLast_getLast hb (le_refl _)

end Ficant.Analytics
