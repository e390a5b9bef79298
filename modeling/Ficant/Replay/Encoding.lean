import Ficant.Lib.Bytes
import Ficant.Replay.Policy

namespace Ficant

open Lib

/-!
# Canonical bytes and content identities

`Canonical`, `policy_bytes`, `result_bytes` and the hashes over them
(`ficant-domain/src/replay/mod.rs`).  SHA-256 is a third-party package and enters as a function
`digest` from bytes to `ContentHash`.

* `policyBytes`, `resultBytes` — the encoders, field by field as the source writes them;
* `PolicyArtifact.new`, `SimulationResult.new` — the constructors that hash them;
* `SimulationResult.through` — the part of a result that is fixed by a time.
-/

/-! ### Primitive writers -/

namespace Canonical

/-- `Canonical::text`. -/
def text (value : String) : List UInt8 := prefixedText value

/-- `Canonical::number`. -/
def number (value : ℕ) : List UInt8 := bigEndian 8 value

/-- `Canonical::time`: the microseconds as a 64-bit two's-complement number. -/
def time (value : DateTime) : List UInt8 := bigEndian 8 (value.timestampMicros % 2 ^ 64).toNat

/-- `Canonical::version_ref`. -/
def versionRef (value : VersionRef) : List UInt8 :=
  text value.id.text ++ number value.version.value

/-- `Canonical::hash`. -/
def hash (value : ContentHash) : List UInt8 := value.bytes

/-- `Canonical::amount`. -/
def amount (value : Decimal) : List UInt8 := text value.canonical

/-- `Canonical::optional`. -/
def optional {α : Type} (write : α → List UInt8) (value : Option α) : List UInt8 :=
  writeOptional write value

/-- The count of a map's entries, then each key and value in key order. -/
def map {κ ν : Type} [LinearOrder κ] (writeKey : κ → List UInt8) (writeValue : ν → List UInt8)
    (m : SortedMap κ ν) : List UInt8 :=
  writeList (fun e => writeKey e.1 ++ writeValue e.2) m.entries

end Canonical

open Canonical

/-! ### Policies -/

/-- The instants of a period, as the encoders write them. -/
def periodBytes (period : EffectivePeriod) : List UInt8 :=
  time period.from_.instant ++ time period.to_.instant

/-- One window of a candidate. -/
def windowBytes (window : WindowResult) : List UInt8 :=
  hash window.resultId ++ amount window.objective

/-- One candidate of a calibration. -/
def candidateBytes (candidate : CandidateResult) : List UInt8 :=
  map text amount candidate.parameters ++ windowBytes candidate.training ++
    windowBytes candidate.validation

/-- `calibration_bytes`. -/
def calibrationBytes (record : CalibrationRecord) : List UInt8 :=
  hash record.basePolicy ++ periodBytes record.training ++ periodBytes record.validation ++
    text record.objective.code ++ map text (writeList amount) record.grid.axes ++
    writeList candidateBytes record.candidates ++ number record.selected

/-- `policy_bytes`. -/
def policyBytes (input : PolicyArtifactInput) : List UInt8 :=
  text "ficant-policy-artifact/v4" ++ text input.policyArtifactId.text ++
    text input.owner.tenantId.text ++ text input.owner.ownerId.text ++ text input.family ++
    number input.familyVersion.toNat ++ map text amount input.parameters ++
    writeList versionRef input.universe_ ++ text input.frequency.code ++
    text input.settlement.code ++ periodBytes input.valid ++
    amount input.execution.participationCap ++ text input.execution.remainder.code ++
    map text (fun handling => text (ConstraintHandling.code handling)) input.constraints ++
    optional calibrationBytes input.calibration

/-- The universe as `PolicyArtifact::new` keeps it: sorted, without repetitions. -/
def normalizeUniverse (universe_ : List VersionRef) : List VersionRef :=
  (universe_.insertionSort (· ≤ ·)).dedup

theorem normalizeUniverse_sorted (u : List VersionRef) :
    (normalizeUniverse u).Pairwise (· < ·) := by
  have hle : (normalizeUniverse u).Pairwise (· ≤ ·) :=
    (List.pairwise_insertionSort (· ≤ ·) u).sublist (List.dedup_sublist _)
  exact hle.imp₂ (fun _ _ h hne => lt_of_le_of_ne h hne) (List.nodup_dedup _)

/-- `PolicyArtifact::new`. -/
def PolicyArtifact.new (digest : List UInt8 → ContentHash) (input : PolicyArtifactInput) :
    Except DomainErrorCode PolicyArtifact :=
  let input := { input with universe_ := normalizeUniverse input.universe_ }
  if ¬ properName input.family ∨ input.familyVersion = 0 ∨ input.universe_ = [] ∨
      (input.parameters.keys ++ input.constraints.keys).any fun key => ¬ properName key then
    .error .invalidValue
  else if input.calibration.any fun record =>
      (record.candidates[record.selected]?).map (·.parameters) ≠ some input.parameters then
    .error .invalidValue
  else .ok ⟨input, digest (policyBytes input), normalizeUniverse_sorted _⟩

/-- A policy keeps its input, with the universe in order, and its hash is that of its bytes. -/
theorem PolicyArtifact.new_ok {digest : List UInt8 → ContentHash} {input : PolicyArtifactInput}
    {policy : PolicyArtifact} (h : PolicyArtifact.new digest input = .ok policy) :
    policy.input = { input with universe_ := normalizeUniverse input.universe_ } ∧
      policy.contentHash = digest (policyBytes policy.input) := by
  unfold PolicyArtifact.new at h
  dsimp only at h
  split at h
  · cases h
  · split at h
    · cases h
    · obtain rfl := Except.ok.inj h
      exact ⟨rfl, rfl⟩

/-! ### Results -/

/-- One enforced constraint. -/
def constraintBytes (constraint : ReplayConstraint) : List UInt8 :=
  text constraint.limitCode ++ text constraint.measure.code ++ amount constraint.ceiling ++
    text constraint.handling.code

/-- The text of a funding tier. -/
def FundingTier.code : FundingTier → String
  | drAvailable => "DR_AVAILABLE" | rOnly => "R_ONLY"

/-- `price_source_code`. -/
def PriceSourceType.code : PriceSourceType → String
  | realTrade => "REAL_TRADE"
  | activeQuote => "ACTIVE_QUOTE"
  | modelValuation => "MODEL_VALUATION"
  | curveInterpolation => "CURVE_INTERPOLATION"

/-- Funding terms. -/
def fundingBytes (funding : ReplayFunding) : List UInt8 :=
  versionRef funding.rulePack ++ text funding.tier.code ++ amount funding.annualRate ++
    number funding.dayBasis

/-- `identity_bytes`. -/
def identityBytes (identity : ReplayIdentity) : List UInt8 :=
  text identity.policyId.text ++ hash identity.policy ++ text identity.dataSnapshot.text ++
    hash identity.dataSnapshotContent ++ versionRef identity.subject ++
    text identity.subjectState.text ++ hash identity.subjectStateContent ++
    optional versionRef identity.constraintSet ++ writeList constraintBytes identity.constraints ++
    fundingBytes identity.funding ++ versionRef identity.carrySource ++ hash identity.carry ++
    text identity.costModel ++ map text amount identity.costParameters ++
    number identity.seed.toNat ++ hash identity.code ++ hash identity.runtime

/-- One decision. -/
def decisionBytes (decision : ReplayDecision) : List UInt8 :=
  time decision.decisionTime ++ optional time decision.inputsVisibleThrough ++
    number decision.inputBarCount ++ map versionRef amount decision.target.targets

/-- A remainder. -/
def remainderBytes (remainder : Remainder) : List UInt8 :=
  amount remainder.quantity ++ text remainder.reason.code ++ text remainder.outcome.code

/-- A constraint outcome. -/
def outcomeBytes (outcome : ConstraintOutcome) : List UInt8 :=
  amount outcome.unconstrained ++ writeList text outcome.triggered ++ text outcome.action.code

/-- `fill_bytes`. -/
def fillBytes (fill : SimulatedFill) : List UInt8 :=
  time fill.decisionTime ++ versionRef fill.instrument ++ amount fill.requested ++
    amount fill.quantity ++ optional amount fill.limit ++ time fill.effectiveAt ++
    optional text fill.executionBar ++ optional amount fill.price ++
    optional (fun basis => text (FillPriceBasis.code basis)) fill.basis ++
    text fill.priceSource.code ++
    optional (fun reason => text (NoFillReason.code reason)) fill.noFill ++
    optional remainderBytes fill.remainder ++ optional outcomeBytes fill.constraint

/-- The amounts of one instrument's row. -/
def instrumentBytes (item : InstrumentPnl) : List UInt8 :=
  amount item.positionStart ++ amount item.positionEnd ++ amount item.mark ++
    amount item.accruedInterest ++ amount item.price ++ amount item.coupon ++
    amount item.transactionCost

/-- `pnl_bytes`. -/
def pnlBytes (row : BarPnl) : List UInt8 :=
  time row.barStart ++ time row.barEnd ++ time row.knownAt ++ text row.tradingDate.text ++
    map versionRef instrumentBytes row.instruments ++ amount row.funding ++ amount row.total ++
    amount row.cash ++ amount row.equity

/-- The inputs and outputs of a replay that its identity binds. -/
structure ResultContent where
  identity : ReplayIdentity
  decisions : List ReplayDecision
  fills : List SimulatedFill
  pnl : List BarPnl
  book : SimulatedBook
  deriving DecidableEq

/-- `result_bytes`. -/
def resultBytes (content : ResultContent) : List UInt8 :=
  text "ficant-simulation-result/v3" ++ identityBytes content.identity ++
    writeList decisionBytes content.decisions ++ writeList fillBytes content.fills ++
    writeList pnlBytes content.pnl ++ map versionRef amount content.book.positions ++
    amount content.book.cash

/-- Whether consecutive elements of a list are related (`windows(2).all`). -/
def consecutive {α : Type} (related : α → α → Bool) (l : List α) : Bool :=
  (l.zip l.tail).all fun pair => related pair.1 pair.2

/-- The checks of `SimulationResult::new`: everything is in time order and no decision used an
    input from its future. -/
def ResultContent.ordered (content : ResultContent) : Bool :=
  consecutive (fun a b => a.decisionTime < b.decisionTime) content.decisions ∧
    consecutive (fun a b => toLex (a.effectiveAt, a.instrument) ≤ toLex (b.effectiveAt, b.instrument))
      content.fills ∧
    consecutive (fun a b => a.barEnd < b.barEnd) content.pnl ∧
    content.decisions.all fun decision =>
      decision.inputsVisibleThrough.all fun time => time ≤ decision.decisionTime

/-- `SimulationResult`: the outcome of one replay. -/
structure SimulationResult where
  resultId : ContentHash
  content : ResultContent
  in_order : content.ordered = true
  deriving DecidableEq

namespace SimulationResult

/-- `SimulationResult::new`. -/
def new (digest : List UInt8 → ContentHash) (content : ResultContent) :
    Except DomainErrorCode SimulationResult :=
  if h : content.ordered = true then .ok ⟨digest (resultBytes content), content, h⟩
  else .error .invalidValue

theorem new_ok {digest : List UInt8 → ContentHash} {content : ResultContent}
    {r : SimulationResult} (h : new digest content = .ok r) :
    r.content = content ∧ r.resultId = digest (resultBytes content) := by
  unfold new at h
  split at h
  · cases h; exact ⟨rfl, rfl⟩
  · cases h

/-- `SimulationResult::through`: decisions made, fills effective and P&L rows known by `t`. -/
def through (result : SimulationResult) (t : DateTime) :
    List ReplayDecision × List SimulatedFill × List BarPnl :=
  (result.content.decisions.filter fun decision => decision.decisionTime ≤ t,
    result.content.fills.filter fun fill => fill.effectiveAt ≤ t,
    result.content.pnl.filter fun row => row.knownAt ≤ t)

end SimulationResult

/-! ### Subject states -/

/-- One limit ceiling of a Subject state: its code, and the coefficient as text. -/
def ceilingBytes (ceiling : LimitCeiling) : List UInt8 :=
  text ceiling.limitCode ++ text (toString ceiling.ceiling.coefficient) ++
    number ceiling.ceiling.scale

/-- The bytes `subject_state_hash` digests. -/
def subjectStateBytes (state : SubjectStateSnapshot) : List UInt8 :=
  text "ficant-subject-state-snapshot/v1" ++ text state.snapshotId.text ++
    versionRef state.subjectRef ++ text (toString state.netCapital.coefficient) ++
    number state.netCapital.scale ++
    writeList ceilingBytes
      (state.limitCeilings.insertionSort fun a b => a.limitCode ≤ b.limitCode) ++
    time state.observedAt ++ time state.visibleAt ++ text state.marketTimezone

/-- `subject_state_hash`. -/
def subjectStateHash (digest : List UInt8 → ContentHash) (state : SubjectStateSnapshot) :
    ContentHash :=
  digest (subjectStateBytes state)

end Ficant
