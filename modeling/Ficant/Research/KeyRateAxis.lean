import Ficant.Analytics.YieldCurve
import Ficant.Application.Governance
import Ficant.Research.KeyRateDv01

namespace Ficant

open Lib Analytics

/-!
# Key-rate axes

The points of a curve with the factors that bump them
(`ficant-application/src/use_cases/portfolio_risk.rs`).  An axis stands in the order of its factors,
and the nodes of its curve in the order of their dates.

* `yieldCurveBinding` — the curve of an axis, with one point bumped or none;
* `yieldCurveBinding_eq_ok`, `exists_curve_iff` — the nodes of a curve, and when there is one;
* `movedAt_of_bump` — a bumped curve is the curve with one node moved;
* `exists_mean` — a yield between the nodes is a mean of two points, however the points are bumped.
-/

/-- `AxisPoint`, as far as a calculation reads it. -/
structure AxisPoint where
  factorId : String
  factorContentHash : ContentHash
  direction : SensitivityDirection
  factorUnit : UnitRef
  maturityDate : NaiveDate
  yieldToMaturity : FixedDecimal
  bumpYield : FixedDecimal
  nodeContentHash : ContentHash
  curveBindingHash : ContentHash
  deriving DecidableEq

/-- The errors `validation` and `lineage`. -/
def axisValidation : ApplicationError := ⟨.validationFailed, false⟩

def axisLineage : ApplicationError := ⟨.lineageIncomplete, false⟩

/-- The end of `materialize_axis`: one unit, distinct dates, and distinct factors in order. -/
def orderAxis (axis : List AxisPoint) : Except ApplicationError (List AxisPoint) :=
  match axis with
  | [] => .error axisValidation
  | first :: _ => do
    rejectIf (∃ point ∈ axis, point.factorUnit ≠ first.factorUnit) axisLineage
    rejectIf (¬(axis.map AxisPoint.maturityDate).Nodup) axisValidation
    let ordered := axis.insertionSort fun a b => a.factorId ≤ b.factorId
    rejectIf (¬(ordered.map AxisPoint.factorId).Nodup) axisLineage
    return ordered

/-- An axis has distinct dates, and distinct factors in order. -/
theorem of_orderAxis {points axis : List AxisPoint} (h : orderAxis points = .ok axis) :
    axis.Perm points ∧ (axis.map AxisPoint.maturityDate).Nodup ∧
      axis.Pairwise fun a b => a.factorId < b.factorId := by
  unfold orderAxis at h
  match points with
  | [] => cases h
  | first :: rest =>
    obtain ⟨⟨⟩, -, h⟩ := bind_eq_ok.mp h
    obtain ⟨⟨⟩, hdates, h⟩ := bind_eq_ok.mp h
    obtain ⟨⟨⟩, hfactors, h⟩ := bind_eq_ok.mp h
    rw [rejectIf_eq_ok, not_not] at hdates hfactors
    obtain rfl := Except.ok.inj h
    have hperm := List.perm_insertionSort (fun a b : AxisPoint => a.factorId ≤ b.factorId)
      (first :: rest)
    refine ⟨hperm, (hperm.map _).nodup_iff.mpr hdates, ?_⟩
    have : Std.Total fun a b : AxisPoint => a.factorId ≤ b.factorId := ⟨fun a b => le_total _ _⟩
    have : IsTrans AxisPoint fun a b => a.factorId ≤ b.factorId := ⟨fun _ _ _ => le_trans⟩
    rw [List.nodup_iff_pairwise_ne, List.pairwise_map] at hfactors
    exact (List.pairwise_insertionSort (fun a b : AxisPoint => a.factorId ≤ b.factorId) _).imp₂
      (fun _ _ hle hne => lt_of_le_of_ne hle hne) hfactors

/-! ### Curves -/

/-- The yield of a point on a curve with a bump. -/
def movedYield (bump : Option (ℕ × Bool)) (point : AxisPoint × ℕ) :
    Except ApplicationError FixedDecimal :=
  match bump with
  | some (target, true) =>
    if target = point.2 then
      (point.1.yieldToMaturity.checkedAdd point.1.bumpYield).mapError mapDomainError
    else .ok point.1.yieldToMaturity
  | some (target, false) =>
    if target = point.2 then
      (point.1.yieldToMaturity.checkedSub point.1.bumpYield).mapError mapDomainError
    else .ok point.1.yieldToMaturity
  | none => .ok point.1.yieldToMaturity

/-- `yield_curve_binding`: the points are numbered in the order of the axis, and its nodes put into the
    order of their dates. -/
def yieldCurveBinding (reference : AnalyticsObjectRef) (valuationDate : NaiveDate)
    (axis : List AxisPoint) (bump : Option (ℕ × Bool)) :
    Except ApplicationError YieldCurveBinding := do
  let nodes ← axis.zipIdx.mapM fun point => do
    let yieldToMaturity ← movedYield bump point
    (YieldCurveNode.new point.1.maturityDate yieldToMaturity).mapError mapDomainError
  (YieldCurveBinding.new reference valuationDate .linearYield
    (nodes.insertionSort fun a b => a.maturityDate ≤ b.maturityDate)).mapError mapDomainError

/-- The bump of a point, up or down. -/
def AxisPoint.signedBump (point : AxisPoint) (up : Bool) : ℤ :=
  if up then point.bumpYield.scaled else -point.bumpYield.scaled

/-- How far a bump moves a point. -/
def movement (bump : Option (ℕ × Bool)) (point : AxisPoint × ℕ) : ℤ :=
  match bump with
  | some (target, up) => if target = point.2 then point.1.signedBump up else 0
  | none => 0

/-- A node is a point of the axis, moved by the bump. -/
def Moved (bump : Option (ℕ × Bool)) (point : AxisPoint × ℕ) (node : YieldCurveNode) : Prop :=
  node.maturityDate = point.1.maturityDate ∧
    node.yieldToMaturity.scaled = point.1.yieldToMaturity.scaled + movement bump point

/-- The points with their numbers, in the order of their dates. -/
def pointsByDate (axis : List AxisPoint) : List (AxisPoint × ℕ) :=
  axis.zipIdx.insertionSort fun a b => a.1.maturityDate ≤ b.1.maturityDate

theorem movedYield_eq_ok {bump : Option (ℕ × Bool)} {point : AxisPoint × ℕ} {value : FixedDecimal} :
    movedYield bump point = .ok value ↔
      value.scaled = point.1.yieldToMaturity.scaled + movement bump point := by
  -- A point that is not bumped keeps its yield.
  have hsame : (Except.ok point.1.yieldToMaturity : Except ApplicationError _) = .ok value ↔
      value.scaled = point.1.yieldToMaturity.scaled + 0 := by
    rw [Except.ok.injEq, Int.add_zero, eq_comm, FixedDecimal.ext_iff]
  unfold movedYield movement AxisPoint.signedBump
  match bump with
  | none => exact hsame
  | some (target, true) =>
    by_cases h : target = point.2
    · simp only [if_pos h, if_true]
      rw [mapError_eq_ok, FixedDecimal.checkedAdd_eq_ok]
    · simp only [if_neg h]
      exact hsame
  | some (target, false) =>
    by_cases h : target = point.2
    · simp only [if_pos h]
      rw [mapError_eq_ok, FixedDecimal.checkedSub_eq_ok]
      simp [Int.sub_eq_add_neg]
    · simp only [if_neg h]
      exact hsame

/-- One node of a curve. -/
theorem node_eq_ok {bump : Option (ℕ × Bool)} {point : AxisPoint × ℕ} {node : YieldCurveNode} :
    (do
      let yieldToMaturity ← movedYield bump point
      (YieldCurveNode.new point.1.maturityDate yieldToMaturity).mapError mapDomainError) = .ok node ↔
      Moved bump point node := by
  rw [bind_eq_ok]
  unfold Moved
  simp only [movedYield_eq_ok, mapError_eq_ok]
  constructor
  · rintro ⟨value, hvalue, h⟩
    unfold YieldCurveNode.new at h
    split at h
    · cases h
    · obtain rfl := Except.ok.inj h
      exact ⟨rfl, hvalue⟩
  · rintro ⟨hdate, hvalue⟩
    refine ⟨node.yieldToMaturity, hvalue, ?_⟩
    unfold YieldCurveNode.new
    rw [dif_neg (not_le.mpr node.yield_gt), ← hdate]

/-- The nodes in the order of their dates are the points in that order. -/
theorem forall₂_sorted {bump : Option (ℕ × Bool)} {axis : List AxisPoint} {nodes : List YieldCurveNode}
    (h : List.Forall₂ (Moved bump) axis.zipIdx nodes) :
    List.Forall₂ (Moved bump) (pointsByDate axis)
      (nodes.insertionSort fun a b => a.maturityDate ≤ b.maturityDate) := by
  refine forall₂_insertionSort (fun a b : AxisPoint × ℕ => a.1.maturityDate ≤ b.1.maturityDate) ?_ h
  intro a b a' b' ha hb
  rw [ha.1, hb.1]

variable {reference : AnalyticsObjectRef} {valuationDate : NaiveDate} {axis : List AxisPoint}

/-- **What a curve consists of**: the points in the order of their dates, one of them bumped. -/
theorem yieldCurveBinding_eq_ok {bump : Option (ℕ × Bool)} {curve : YieldCurveBinding}
    (h : yieldCurveBinding reference valuationDate axis bump = .ok curve) :
    curve.curveSnapshot = reference ∧ curve.valuationDate = valuationDate ∧
      List.Forall₂ (Moved bump) (pointsByDate axis) curve.nodes := by
  obtain ⟨nodes, hnodes, h⟩ := bind_eq_ok.mp h
  rw [mapM_eq_ok] at hnodes
  simp only [node_eq_ok] at hnodes
  rw [mapError_eq_ok] at h
  unfold YieldCurveBinding.new at h
  split at h
  · obtain rfl := Except.ok.inj h
    exact ⟨rfl, rfl, forall₂_sorted hnodes⟩
  · cases h

/-- The dates of an axis in order. -/
theorem pointsByDate_sorted (axis : List AxisPoint) :
    (pointsByDate axis).Pairwise fun a b => a.1.maturityDate ≤ b.1.maturityDate := by
  have : Std.Total fun a b : AxisPoint × ℕ => a.1.maturityDate ≤ b.1.maturityDate :=
    ⟨fun a b => le_total _ _⟩
  have : IsTrans (AxisPoint × ℕ) fun a b => a.1.maturityDate ≤ b.1.maturityDate :=
    ⟨fun _ _ _ => le_trans⟩
  exact List.pairwise_insertionSort _ _

theorem mem_pointsByDate {point : AxisPoint × ℕ} : point ∈ pointsByDate axis ↔ point ∈ axis.zipIdx :=
  (List.perm_insertionSort _ _).mem_iff

/-- The dates of the points are those of the axis. -/
theorem pointsByDate_dates_perm (axis : List AxisPoint) :
    ((pointsByDate axis).map fun point => point.1.maturityDate).Perm
      (axis.map AxisPoint.maturityDate) := by
  refine ((List.perm_insertionSort _ _).map _).trans ?_
  have hmap : axis.zipIdx.map (fun point => point.1.maturityDate) =
      (axis.zipIdx.map Prod.fst).map AxisPoint.maturityDate := by
    rw [List.map_map]
    rfl
  rw [hmap, List.zipIdx_map_fst]

theorem length_pointsByDate (axis : List AxisPoint) : (pointsByDate axis).length = axis.length := by
  unfold pointsByDate
  rw [(List.perm_insertionSort _ axis.zipIdx).length_eq, List.length_zipIdx]

/-- The nodes have the dates of their points. -/
theorem dates_eq_of_moved {bump : Option (ℕ × Bool)} {points : List (AxisPoint × ℕ)}
    {nodes : List YieldCurveNode} (h : List.Forall₂ (Moved bump) points nodes) :
    points.map (fun point => point.1.maturityDate) = nodes.map YieldCurveNode.maturityDate := by
  induction h with
  | nil => rfl
  | cons hmoved _ ih => rw [List.map_cons, List.map_cons, ih, hmoved.1]

/-- **When there is a curve**: two points or more, distinct dates after the valuation, and every yield,
    moved or not, in range and above minus one. -/
theorem exists_curve_iff {bump : Option (ℕ × Bool)} :
    (∃ curve, yieldCurveBinding reference valuationDate axis bump = .ok curve) ↔
      2 ≤ axis.length ∧ (axis.map AxisPoint.maturityDate).Nodup ∧
        (∀ point ∈ axis, valuationDate < point.maturityDate) ∧
        ∀ point ∈ axis.zipIdx, InI128 (point.1.yieldToMaturity.scaled + movement bump point) ∧
          negativeOneScaled < point.1.yieldToMaturity.scaled + movement bump point := by
  constructor
  · rintro ⟨curve, h⟩
    obtain ⟨-, hdate, hnodes⟩ := yieldCurveBinding_eq_ok h
    refine ⟨?_, ?_, fun point hpoint => ?_, fun point hpoint => ?_⟩
    · rw [← length_pointsByDate axis, hnodes.length_eq]
      exact curve.two_nodes
    · rw [← (pointsByDate_dates_perm axis).nodup_iff]
      rw [dates_eq_of_moved hnodes, List.nodup_iff_pairwise_ne, List.pairwise_map]
      exact curve.sorted.imp fun hlt => hlt.ne
    · obtain ⟨i, hi, rfl⟩ := List.getElem_of_mem hpoint
      have hmem : (axis[i], i) ∈ pointsByDate axis :=
        mem_pointsByDate.mpr (List.mk_mem_zipIdx_iff_getElem?.mpr (List.getElem?_eq_getElem hi))
      obtain ⟨node, hnode, hmoved⟩ := exists_right_of_forall₂ hnodes hmem
      rw [← hmoved.1, ← hdate]
      exact curve.later node hnode
    · obtain ⟨node, -, hmoved⟩ := exists_right_of_forall₂ hnodes (mem_pointsByDate.mpr hpoint)
      rw [← hmoved.2]
      exact ⟨node.yieldToMaturity.range, node.yield_gt⟩
  · rintro ⟨htwo, hdistinct, hlater, hmoved⟩
    obtain ⟨nodes, hmapM, hnodes⟩ := exists_mapM_ok (l := axis.zipIdx)
      (f := fun point => do
        let yieldToMaturity ← movedYield bump point
        (YieldCurveNode.new point.1.maturityDate yieldToMaturity).mapError mapDomainError)
      (P := Moved bump) (by
        intro point hpoint
        obtain ⟨hrange, hgt⟩ := hmoved point hpoint
        exact ⟨⟨point.1.maturityDate, ⟨_, hrange⟩, hgt⟩, node_eq_ok.mpr ⟨rfl, rfl⟩, rfl, rfl⟩)
    have hsorted := forall₂_sorted hnodes
    -- the sorted nodes make a curve
    have htwoNodes : 2 ≤ (nodes.insertionSort fun a b => a.maturityDate ≤ b.maturityDate).length := by
      rw [← hsorted.length_eq, length_pointsByDate]
      exact htwo
    have hlaterNodes : ∀ node ∈ nodes.insertionSort fun a b => a.maturityDate ≤ b.maturityDate,
        valuationDate < node.maturityDate := by
      intro node hnode
      obtain ⟨point, hpoint, hmoved⟩ := exists_left_of_forall₂ hsorted hnode
      rw [hmoved.1]
      exact hlater _ (List.fst_mem_of_mem_zipIdx (mem_pointsByDate.mp hpoint))
    have hstrict : (pointsByDate axis).Pairwise fun a b => a.1.maturityDate < b.1.maturityDate := by
      have hne : ((pointsByDate axis).map fun point => point.1.maturityDate).Nodup :=
        (pointsByDate_dates_perm axis).nodup_iff.mpr hdistinct
      rw [List.nodup_iff_pairwise_ne, List.pairwise_map] at hne
      exact (pointsByDate_sorted axis).imp₂ (fun _ _ hle hne => lt_of_le_of_ne hle hne) hne
    have hsortedNodes : (nodes.insertionSort fun a b => a.maturityDate ≤ b.maturityDate).Pairwise
        fun a b => a.maturityDate < b.maturityDate := by
      refine (forall₂_pairwise (fun a b a' b' ha hb => ?_) hsorted).mp hstrict
      rw [ha.1, hb.1]
    have hchecked := (all_zip_tail_iff_pairwise fun a b : YieldCurveNode =>
      a.maturityDate < b.maturityDate).mpr hsortedNodes
    exact ⟨⟨reference, valuationDate, .linearYield,
        nodes.insertionSort fun a b => a.maturityDate ≤ b.maturityDate, htwoNodes, hlaterNodes,
        hsortedNodes⟩, bind_eq_ok.mpr ⟨nodes, hmapM, mapError_eq_ok.mpr
          (dif_pos ⟨htwoNodes, hlaterNodes, hchecked⟩)⟩⟩

/-! ### A bumped curve and the curve -/

/-- A node that has been moved when it stands at a date, and else kept. -/
def MovedAt (date : NaiveDate) (amount : ℤ) (node moved : YieldCurveNode) : Prop :=
  moved.maturityDate = node.maturityDate ∧ moved.yieldToMaturity.scaled =
    node.yieldToMaturity.scaled + if node.maturityDate = date then amount else 0

/-- The dates of the axis are distinct when it has a curve. -/
theorem axis_nodup {bump : Option (ℕ × Bool)} {curve : YieldCurveBinding}
    (h : yieldCurveBinding reference valuationDate axis bump = .ok curve) :
    (axis.map AxisPoint.maturityDate).Nodup := (exists_curve_iff.mp ⟨curve, h⟩).2.1

/-- Of the numbered points, the one at the date of a point has its number. -/
theorem date_eq_iff (hnodup : (axis.map AxisPoint.maturityDate).Nodup) {point : AxisPoint × ℕ}
    (hpoint : point ∈ axis.zipIdx) {i : ℕ} (hi : i < axis.length) :
    point.1.maturityDate = axis[i].maturityDate ↔ i = point.2 := by
  obtain ⟨value, j⟩ := point
  obtain ⟨hj, hvalue⟩ := List.getElem?_eq_some_iff.mp (List.mk_mem_zipIdx_iff_getElem?.mp hpoint)
  subst hvalue
  have hget : ∀ k (_ : k < axis.length) (_ : k < (axis.map AxisPoint.maturityDate).length),
      axis[k].maturityDate = (axis.map AxisPoint.maturityDate)[k] := by
    intro k _ _
    rw [List.getElem_map]
  have hlength : (axis.map AxisPoint.maturityDate).length = axis.length := List.length_map _
  simp only
  rw [hget j hj (hlength ▸ hj), hget i hi (hlength ▸ hi), hnodup.getElem_inj_iff]
  exact eq_comm

/-- **A bumped curve is the curve with the node of the point moved** and nothing else. -/
theorem movedAt_of_bump {base bumped : YieldCurveBinding} {i : ℕ} {up : Bool}
    (hbase : yieldCurveBinding reference valuationDate axis none = .ok base)
    (hbumped : yieldCurveBinding reference valuationDate axis (some (i, up)) = .ok bumped)
    (hi : i < axis.length) :
    bumped.curveSnapshot = base.curveSnapshot ∧ bumped.valuationDate = base.valuationDate ∧
      List.Forall₂ (MovedAt axis[i].maturityDate (axis[i].signedBump up)) base.nodes bumped.nodes := by
  obtain ⟨hsnapshot, hdate, hnodes⟩ := yieldCurveBinding_eq_ok hbase
  obtain ⟨hsnapshot', hdate', hnodes'⟩ := yieldCurveBinding_eq_ok hbumped
  refine ⟨hsnapshot'.trans hsnapshot.symm, hdate'.trans hdate.symm, ?_⟩
  rw [forall₂_iff_of_forall₂ hnodes]
  · exact hnodes'
  · intro point hpoint node hnode moved
    have hsame := date_eq_iff (axis_nodup hbase) (mem_pointsByDate.mp hpoint) hi
    unfold MovedAt Moved
    rw [hnode.1, hnode.2]
    by_cases h : i = point.2
    · -- this is the point that is bumped
      have hpoint : point.1 = axis[i] := by
        obtain ⟨_, hvalue⟩ := List.getElem?_eq_some_iff.mp
          (List.mk_mem_zipIdx_iff_getElem?.mp (mem_pointsByDate.mp hpoint))
        rw [← hvalue]
        simp only [h]
      rw [if_pos (hsame.mpr h)]
      simp only [movement, if_pos h, Int.add_zero, hpoint]
    · simp only [movement, if_neg h, if_neg (fun heq => h (hsame.mp heq)), Int.add_zero]

/-! ### Yields between the nodes -/

/-- The yield of a point with a bump. -/
def pointYield (bump : Option (ℕ × Bool)) (point : AxisPoint × ℕ) : ℚ :=
  ((point.1.yieldToMaturity.scaled + movement bump point : ℤ) : ℚ) / 10 ^ 12

/-- A curve interpolates between its points. -/
theorem curveYield_of_axis {bump : Option (ℕ × Bool)} {curve : YieldCurveBinding}
    (h : yieldCurveBinding reference valuationDate axis bump = .ok curve) (queryDate : NaiveDate) :
    curveYield curve queryDate = interpolate dayWeight ((pointsByDate axis).map fun point =>
      (point.1.maturityDate, pointYield bump point)) queryDate := by
  obtain ⟨-, -, hnodes⟩ := yieldCurveBinding_eq_ok h
  rw [curveYield_eq]
  congr 1
  generalize pointsByDate axis = points at hnodes
  generalize curve.nodes = nodes at hnodes
  induction hnodes with
  | nil => rfl
  | cons hmoved _ ih =>
    rw [List.map_cons, List.map_cons, ih, hmoved.1]
    congr 2
    unfold FixedDecimal.toRat pointYield
    rw [hmoved.2]

/-- **A yield between the nodes is a mean of the yields of two points that bracket the date**: the same
    two, with the same weight, however the points are bumped. -/
theorem exists_mean {base : YieldCurveBinding}
    (hbase : yieldCurveBinding reference valuationDate axis none = .ok base) {queryDate : NaiveDate}
    (hcovers : base.covers queryDate = true) :
    ∃ lo ∈ axis.zipIdx, ∃ hi ∈ axis.zipIdx,
      Brackets (axis.map AxisPoint.maturityDate) queryDate lo.1.maturityDate ∧
      Brackets (axis.map AxisPoint.maturityDate) queryDate hi.1.maturityDate ∧ ∃ w : ℚ,
        ∀ bump curve, yieldCurveBinding reference valuationDate axis bump = .ok curve →
          curveYield curve queryDate =
            some (pointYield bump lo + w * (pointYield bump hi - pointYield bump lo)) := by
  obtain ⟨-, -, hnodes⟩ := yieldCurveBinding_eq_ok hbase
  have hsorted : (pointsByDate axis).Pairwise fun a b => a.1.maturityDate < b.1.maturityDate :=
    (forall₂_pairwise (fun a b a' b' ha hb => by rw [ha.1, hb.1]) hnodes).mpr base.sorted
  have htwo : 2 ≤ (pointsByDate axis).length := hnodes.length_eq ▸ base.two_nodes
  -- a node on each side of the date is a point on each side of it
  obtain ⟨⟨first, hfirst, hfirstLe⟩, last, hlast, hlastLe⟩ := covers_iff.mp hcovers
  obtain ⟨firstPoint, hfirstPoint, hfirstMoved⟩ := exists_left_of_forall₂ hnodes hfirst
  obtain ⟨lastPoint, hlastPoint, hlastMoved⟩ := exists_left_of_forall₂ hnodes hlast
  rw [hfirstMoved.1] at hfirstLe
  rw [hlastMoved.1] at hlastLe
  obtain ⟨lo, hlo, hi, hhi, hloBrackets, hhiBrackets, w, hw⟩ :=
    interpolate_eq dayWeight (fun point : AxisPoint × ℕ => point.1.maturityDate) hsorted htwo
      ⟨firstPoint, hfirstPoint, hfirstLe⟩ ⟨lastPoint, hlastPoint, hlastLe⟩
  have hdates : ∀ date, date ∈ (pointsByDate axis).map (fun point => point.1.maturityDate) ↔
      date ∈ axis.map AxisPoint.maturityDate := fun _ => (pointsByDate_dates_perm axis).mem_iff
  refine ⟨lo, mem_pointsByDate.mp hlo, hi, mem_pointsByDate.mp hhi,
    (brackets_congr hdates).mp hloBrackets,
    (brackets_congr hdates).mp hhiBrackets, w, fun bump curve hcurve => ?_⟩
  rw [curveYield_of_axis hcurve]
  exact hw (pointYield bump)

end Ficant
