import Ficant.Replay.Ledger

namespace Ficant

open Lib

/-!
# Policies, calibration records and replay inputs

The data of `ficant-domain/src/replay/mod.rs` and `replay/calibration.rs`: policy artifacts and
how they were calibrated, the view a policy decides on, its evaluators, and what identifies the
inputs of a replay.

* `PointInTimeView` carries the guarantee of its constructor: every bar in it was visible.
* `PolicyArtifact` keeps its universe strictly sorted, so that the source's binary search is
  membership.
* `CalibrationRecord` carries that its windows do not overlap and that the selected candidate is
  the first one with the best training objective.
-/

/-! ### Calibration -/

/-- `MAX_CALIBRATION_CANDIDATES`. -/
def maxCalibrationCandidates : ℕ := 1024

/-- `CalibrationObjective`. -/
inductive CalibrationObjective
  | totalPnl
  deriving DecidableEq, Repr

/-- `CalibrationObjective::code`. -/
def CalibrationObjective.code : CalibrationObjective → String
  | totalPnl => "ficant.objective.total-pnl"

/-- `CalibrationObjective::from_code`. -/
def CalibrationObjective.fromCode (code : String) : Option CalibrationObjective :=
  if code = CalibrationObjective.totalPnl.code then some .totalPnl else none

/-- The loop of `ParameterGrid::new`: the number of combinations, or `none` on a bad axis. -/
def gridCombinations : List (String × List Decimal) → ℕ → Option ℕ
  | [], combinations => some combinations
  | (name, values) :: rest, combinations =>
    if ¬ properName name ∨ values = [] ∨ ¬ values.Nodup then none
    else if combinations * values.length ≤ maxCalibrationCandidates then
      gridCombinations rest (combinations * values.length)
    else none

/-- `ParameterGrid`: candidate values per parameter name, checked by `ParameterGrid::new`. -/
structure ParameterGrid where
  axes : SortedMap String (List Decimal)
  checked : (gridCombinations axes.entries 1).isSome ∧ axes.entries ≠ []
  deriving DecidableEq

/-- `ParameterGrid::candidates`: `base` overlaid with every combination, in grid order. -/
def ParameterGrid.candidates (grid : ParameterGrid) (base : SortedMap String Decimal) :
    List (SortedMap String Decimal) :=
  grid.axes.entries.foldl
    (fun candidates axis =>
      candidates.flatMap fun candidate => axis.2.map fun value => candidate.insert axis.1 value)
    [base]

/-- `WindowResult`: one replay of one candidate over one window. -/
structure WindowResult where
  resultId : ContentHash
  objective : Decimal
  deriving DecidableEq

/-- `CandidateResult`. -/
structure CandidateResult where
  parameters : SortedMap String Decimal
  training : WindowResult
  validation : WindowResult
  deriving DecidableEq

/-- `check_windows`: non-empty windows, the validation window after the training window. -/
def checkWindows (training validation : EffectivePeriod) : Except DomainErrorCode Unit :=
  if training.from_.instant ≥ training.to_.instant ∨
      validation.from_.instant ≥ validation.to_.instant ∨
      training.to_.instant > validation.from_.instant then .error .invalidEffectiveTime
  else .ok ()

/-- `best_training_candidate`: the first candidate with the highest training objective. -/
def bestTrainingCandidate (candidates : List CandidateResult) : Option ℕ :=
  (candidates.zipIdx.foldl
    (fun (best : Option (ℕ × Decimal)) entry =>
      match best with
      | some (_, value) =>
        if value ≥ entry.1.training.objective then best
        else some (entry.2, entry.1.training.objective)
      | none => some (entry.2, entry.1.training.objective)) none).map Prod.fst

/-- `CalibrationRecord`: how a policy artifact was calibrated. -/
structure CalibrationRecord where
  basePolicy : ContentHash
  training : EffectivePeriod
  validation : EffectivePeriod
  objective : CalibrationObjective
  grid : ParameterGrid
  candidates : List CandidateResult
  selected : ℕ
  windows_checked : (checkWindows training validation).isOk
  selected_best : bestTrainingCandidate candidates = some selected
  deriving DecidableEq

/-- `CalibrationRecord::new`. -/
def CalibrationRecord.new (basePolicy : ContentHash) (training validation : EffectivePeriod)
    (objective : CalibrationObjective) (grid : ParameterGrid) (candidates : List CandidateResult)
    (selected : ℕ) : Except DomainErrorCode CalibrationRecord :=
  if hw : (checkWindows training validation).isOk then
    if hs : bestTrainingCandidate candidates = some selected then
      .ok ⟨basePolicy, training, validation, objective, grid, candidates, selected, hw, hs⟩
    else .error .invalidValue
  else .error .invalidEffectiveTime

theorem CalibrationRecord.new_ok {basePolicy : ContentHash} {training validation : EffectivePeriod}
    {objective : CalibrationObjective} {grid : ParameterGrid} {candidates : List CandidateResult}
    {selected : ℕ} {record : CalibrationRecord}
    (h : CalibrationRecord.new basePolicy training validation objective grid candidates selected =
      .ok record) : record.selected = selected ∧ record.candidates = candidates := by
  unfold CalibrationRecord.new at h
  split at h
  · split at h
    · cases h; exact ⟨rfl, rfl⟩
    · cases h
  · cases h

/-! ### Policy artifacts -/

/-- `PolicyArtifactInput`. -/
structure PolicyArtifactInput where
  policyArtifactId : Ulid
  owner : OwnerRef
  family : String
  familyVersion : UInt32
  parameters : SortedMap String Decimal
  universe_ : List VersionRef
  frequency : BarFrequency
  settlement : BarSettlement
  valid : EffectivePeriod
  execution : ExecutionRules
  constraints : SortedMap String ConstraintHandling
  calibration : Option CalibrationRecord
  deriving DecidableEq

/-- `PolicyArtifact`: a checked input and the hash of its canonical bytes. -/
structure PolicyArtifact where
  input : PolicyArtifactInput
  contentHash : ContentHash
  universe_sorted : input.universe_.Pairwise (· < ·)
  deriving DecidableEq

namespace PolicyArtifact

/-- `PolicyArtifact::parameter`. -/
def parameter (policy : PolicyArtifact) (name : String) : Option Decimal :=
  policy.input.parameters.get? name

/-- `PolicyArtifact::covers`: the bar is of the policy's universe, frequency and settlement. -/
def covers (policy : PolicyArtifact) (bar : Bar) : Bool :=
  bar.frequency = policy.input.frequency ∧ bar.settlement = policy.input.settlement ∧
    bar.instrument ∈ policy.input.universe_

/-- `policy_period_contains`. -/
def periodContains (policy : PolicyArtifact) (instant : DateTime) : Bool :=
  policy.input.valid.from_.instant ≤ instant ∧ instant < policy.input.valid.to_.instant

end PolicyArtifact

/-! ### What a policy sees, and how it decides -/

/-- `PointInTimeView`: everything a policy may see at one decision time. -/
structure PointInTimeView where
  decisionTime : DateTime
  bars : List Bar
  visible : ∀ bar ∈ bars, bar.visibleAt ≤ decisionTime

namespace PointInTimeView

/-- `PointInTimeView::new`. -/
def new (decisionTime : DateTime) (bars : List Bar) : Except DomainErrorCode PointInTimeView :=
  if h : ∀ bar ∈ bars, bar.visibleAt ≤ decisionTime then .ok ⟨decisionTime, bars, h⟩
  else .error .invalidEffectiveTime

/-- `PointInTimeView::latest_with_yield`: the latest visible bar with a close yield. -/
def latestWithYield (view : PointInTimeView) (instrument : VersionRef) (frequency : BarFrequency)
    (settlement : BarSettlement) : Option Bar :=
  (view.bars.filter fun bar =>
    bar.instrument = instrument ∧ bar.frequency = frequency ∧ bar.settlement = settlement ∧
      bar.closeYield.isSome).foldl
    (fun best bar =>
      -- `max_by_key` returns the last of several greatest bars.
      match best with
      | none => some bar
      | some top =>
        if toLex (bar.barEnd, bar.sourceRecordId) < toLex (top.barEnd, top.sourceRecordId) then best
        else some bar) none

end PointInTimeView

/-- `PolicyError`. -/
inductive PolicyError
  | missingParameter (name : String)
  | unsupportedFamily
  deriving DecidableEq

/-- `PolicyEvaluator`: the code that decides for one family and version. -/
structure PolicyEvaluator where
  family : String
  familyVersion : UInt32
  decide : PolicyArtifact → PointInTimeView → SimulatedBook → Except PolicyError TargetExposure

/-- `YIELD_THRESHOLD_FAMILY`. -/
def yieldThresholdFamily : String := "ficant.policy.yield-threshold"

/-- The parameter a policy needs. -/
def requiredParameter (policy : PolicyArtifact) (name : String) : Except PolicyError Decimal :=
  match policy.parameter name with
  | some value => .ok value
  | none => .error (.missingParameter name)

/-- The target face of one instrument under the yield-threshold family. -/
def yieldThresholdFace (policy : PolicyArtifact) (view : PointInTimeView) (book : SimulatedBook)
    (entry exit targetFace : Decimal) (instrument : VersionRef) : Decimal :=
  let current := book.position instrument
  match view.latestWithYield instrument policy.input.frequency policy.input.settlement with
  | none => current
  | some bar =>
    let yieldNow := (bar.closeYield.map DecimalValue.value).getD 0
    if yieldNow ≥ entry then targetFace else if yieldNow ≤ exit then 0 else current

/-- `YieldThresholdPolicy`, version 1 of its family. -/
def yieldThresholdPolicy : PolicyEvaluator where
  family := yieldThresholdFamily
  familyVersion := 1
  decide policy view book :=
    if policy.input.family ≠ yieldThresholdFamily ∨ policy.input.familyVersion ≠ 1 then
      .error .unsupportedFamily
    else do
      let entry ← requiredParameter policy "entry_yield"
      let exit ← requiredParameter policy "exit_yield"
      let targetFace ← requiredParameter policy "target_face"
      .ok ⟨.ofList (policy.input.universe_.map fun instrument =>
        (instrument, yieldThresholdFace policy view book entry exit targetFace instrument))⟩

/-! ### Decisions and the identity of a replay -/

/-- `ReplayDecision`: when a decision was made, the newest visibility time among its inputs, how
    many there were, and the target. -/
structure ReplayDecision where
  decisionTime : DateTime
  inputsVisibleThrough : Option DateTime
  inputBarCount : ℕ
  target : TargetExposure
  deriving DecidableEq

/-- `ReplayIdentity`: everything that identifies a replay's inputs. -/
structure ReplayIdentity where
  policyId : Ulid
  policy : ContentHash
  dataSnapshot : Ulid
  dataSnapshotContent : ContentHash
  subject : VersionRef
  subjectState : Ulid
  subjectStateContent : ContentHash
  constraintSet : Option VersionRef
  constraints : List ReplayConstraint
  funding : ReplayFunding
  carrySource : VersionRef
  carry : ContentHash
  costModel : String
  costParameters : SortedMap String Decimal
  seed : UInt64
  code : ContentHash
  runtime : ContentHash
  deriving DecidableEq

end Ficant
