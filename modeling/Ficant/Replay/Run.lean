import Ficant.Lib.Except
import Ficant.Replay.Encoding

namespace Ficant

open Lib DecimalArithmetic

/-!
# The replay loop

`ficant-application/src/use_cases/bar_replay.rs`: the loop decides at the visibility time of every
covered bar, registers the trades a decision asks for, and executes them bar by bar while it closes
the steps of the bar grid.

* `Replay` — the loop's state: ledger, steps still open, trades still executing, fills;
* `Replay.register`, `executeDue`, `runStep`, `Replay.advance`, `decideAt` — its operations;
* `replayRun` — one whole replay; `replayBars` is its result.

The state also keeps a `log` of what happened: the books handed to the policy, the trades
registered, and every settlement with the ledgers before and after it.  Nothing reads the log; it
lets statements about a run speak of its moments.
-/

/-! ### Data -/

/-- `PointInTimeBars`: read access to one bar snapshot. -/
structure PointInTimeBars where
  snapshot : Ulid × ContentHash
  priceSourceType : PriceSourceType
  allBars : List Bar
  visibleAt : DateTime → Except ApplicationError (List Bar)

/-- The error of a request that fails validation. -/
def invalid : ApplicationError := ⟨.validationFailed, false⟩

/-- `VerifiedBarSnapshot`: bars in canonical order and the visibility cutoff of the snapshot. -/
structure VerifiedBarSnapshot where
  id : Ulid
  contentHash : ContentHash
  priceSourceType : PriceSourceType
  cutoff : DateTime
  bars : List Bar

/-- The snapshot as a data port (`SnapshotBars`). -/
def VerifiedBarSnapshot.port (s : VerifiedBarSnapshot) : PointInTimeBars where
  snapshot := (s.id, s.contentHash)
  priceSourceType := s.priceSourceType
  allBars := s.bars
  visibleAt decisionTime :=
    if decisionTime > s.cutoff then .error invalid
    else .ok (s.bars.filter fun bar => bar.visibleAt ≤ decisionTime)

/-- `BarReplayRequest`. -/
structure BarReplayRequest where
  policy : PolicyArtifact
  evaluator : PolicyEvaluator
  data : PointInTimeBars
  subject : SubjectVersion
  subjectState : SubjectStateSnapshot
  constraints : Option ConstraintSet
  funding : ReplayFunding
  carry : BondCarry
  costModel : String
  costParameters : SortedMap String Decimal
  seed : UInt64
  code : ContentHash
  runtime : ContentHash

/-! ### State -/

/-- `PendingTrade`: a trade still executing.  `intent` is what the policy counts on. -/
structure PendingTrade where
  decisionTime : DateTime
  instrument : VersionRef
  intent : Decimal
  remaining : Decimal
  bars : List Bar

/-- What happened in a run. -/
inductive ReplayEvent
  | decided (time : DateTime) (projected : SimulatedBook)
  | registered (time : DateTime) (instrument : VersionRef) (delta : Decimal)
  | settled (before : ReplayLedger) (fill : SimulatedFill) (after : ReplayLedger)

/-- What a replay keeps fixed: the ledger's terms, the constraints, the execution rules and the
    price source. -/
structure ReplayTerms where
  ledger : LedgerTerms
  constraints : List ReplayConstraint
  rules : ExecutionRules
  priceSource : PriceSourceType

/-- One step of the bar grid: the bars that end at one time. -/
abbrev Step := DateTime × List Bar

/-- `Replay`: the state of the loop. -/
structure Replay where
  ledger : ReplayLedger
  steps : List Step
  pending : List PendingTrade
  fills : List SimulatedFill
  log : List ReplayEvent

/-- The bars a policy covers inside its validity period. -/
def coveredBars (policy : PolicyArtifact) (bars : List Bar) : List Bar :=
  bars.filter fun bar => policy.covers bar ∧ policy.periodContains bar.barStart

/-- The steps of the bar grid, in time order. -/
def stepsOf (covered : List Bar) : List Step := (SortedMap.groupBy Bar.barEnd covered).entries

/-- The decision times, in order. -/
def decisionTimes (covered : List Bar) : List DateTime :=
  SortedMap.sortedSet (covered.map Bar.visibleAt)

/-- The order in which a trade goes through its bars. -/
def Bar.scheduleKey (bar : Bar) : DateTime ×ₗ String := toLex (bar.barStart, bar.sourceRecordId)

/-- The bars a trade decided at `decisionTime` may execute in. -/
def eligibleBars (covered : List Bar) (decisionTime : DateTime) (instrument : VersionRef) :
    List Bar :=
  (covered.filter fun bar => bar.instrument = instrument ∧ bar.barStart ≥ decisionTime).insertionSort
    fun a b => a.scheduleKey ≤ b.scheduleKey

/-! ### Operations -/

variable [DecimalArithmetic]

namespace Replay

/-- The state a replay starts from. -/
def start (covered : List Bar) : Replay := ⟨.new, stepsOf covered, [], [], []⟩

/-- `Replay::register`: with no bar left to execute in, the trade is recorded at once. -/
def register (terms : ReplayTerms) (decisionTime : DateTime) (r : Replay) (instrument : VersionRef)
    (quantity : Decimal) (bars : List Bar) : Replay :=
  let log := r.log ++ [.registered decisionTime instrument quantity]
  if bars = [] then
    { r with
      fills := r.fills ++
        [noLaterBar decisionTime instrument quantity decisionTime terms.priceSource]
      log }
  else
    { r with
      pending := r.pending ++ [⟨decisionTime, instrument, quantity, quantity, bars⟩]
      log }

end Replay

/-- What the attempts of one step share: the ledger, the face already used per bar, the fills. -/
structure StepState where
  ledger : ReplayLedger
  used : SortedMap String Decimal
  fills : List SimulatedFill
  log : List ReplayEvent

/-- The face already executed in a bar of the step. -/
def StepState.usedIn (s : StepState) (bar : Bar) : Decimal :=
  (s.used.get? bar.sourceRecordId).getD 0

/-- The attempt of a trade in a bar: participation cap first, then the constraints on the current
    book. -/
def checkedAttempt (terms : ReplayTerms) (s : StepState) (trade : PendingTrade) (bar : Bar) :
    Except DomainErrorCode SimulatedFill :=
  let attempt := attemptInBar trade.decisionTime trade.instrument trade.remaining bar (s.usedIn bar)
    terms.rules terms.priceSource
  match attempt.price with
  | none => .ok attempt
  | some price =>
    if attempt.quantity = 0 then .ok attempt
    else do
      let context ← s.ledger.executionContext terms.ledger trade.instrument price
      let checked := checkExecution terms.constraints context attempt.quantity
      match checked.2 with
      | some outcome => .ok (attempt.constrain checked.1 outcome)
      | none => .ok attempt

/-- The trade after an attempt: it goes on only while a remainder is carried to a later bar. -/
def PendingTrade.afterAttempt (trade : PendingTrade) (attempt : SimulatedFill) (rest : List Bar) :
    PendingTrade :=
  if attempt.carried ∧ rest ≠ [] then
    { trade with
      intent := minus trade.remaining attempt.quantity
      remaining := minus trade.remaining attempt.quantity
      bars := rest }
  else { trade with intent := 0, remaining := 0, bars := [] }

/-- The records an attempt leaves: a carried remainder without a later bar is recorded too. -/
def attemptRecords (terms : ReplayTerms) (trade : PendingTrade) (attempt : SimulatedFill)
    (rest : List Bar) : List SimulatedFill :=
  if attempt.carried ∧ rest = [] then
    [attempt, noLaterBar trade.decisionTime trade.instrument (minus trade.remaining attempt.quantity)
      attempt.effectiveAt terms.priceSource]
  else [attempt]

/-- The step after an attempt has settled. -/
def StepState.afterAttempt (terms : ReplayTerms) (s : StepState) (trade : PendingTrade) (bar : Bar)
    (rest : List Bar) (attempt : SimulatedFill) (ledger : ReplayLedger) : StepState where
  ledger
  used := s.used.insert bar.sourceRecordId (plus (s.usedIn bar) |attempt.quantity|)
  fills := s.fills ++ attemptRecords terms trade attempt rest
  log := s.log ++ [.settled s.ledger attempt ledger]

/-- `Replay::execute_due`: the trade's attempt in the bar ending at `stepEnd`, if it has one. -/
def executeDue (terms : ReplayTerms) (stepEnd : DateTime) (s : StepState) (trade : PendingTrade) :
    Except ApplicationError (StepState × PendingTrade) :=
  match trade.bars with
  | [] => .ok (s, trade)
  | bar :: rest =>
    if bar.barEnd ≠ stepEnd ∨ trade.remaining = 0 then .ok (s, trade)
    else do
      let attempt ← (checkedAttempt terms s trade bar).mapError fun _ => invalid
      let ledger ← (s.ledger.settle terms.ledger attempt).mapError fun _ => invalid
      .ok (s.afterAttempt terms trade bar rest attempt ledger, trade.afterAttempt attempt rest)

/-- The loop over the pending trades of one step. -/
def executeAll (terms : ReplayTerms) (stepEnd : DateTime) :
    List PendingTrade → StepState → Except ApplicationError (StepState × List PendingTrade)
  | [], s => .ok (s, [])
  | trade :: rest, s => do
    let (s, trade) ← executeDue terms stepEnd s trade
    let (s, rest) ← executeAll terms stepEnd rest s
    .ok (s, trade :: rest)

/-- One turn of the loop of `Replay::advance`: closes one step. -/
def runStep (terms : ReplayTerms) (r : Replay) (step : Step) : Except ApplicationError Replay := do
  let opened ← (r.ledger.openStep terms.ledger step.2).mapError fun _ => invalid
  let (s, pending) ← executeAll terms step.1 r.pending ⟨opened, ∅, r.fills, r.log⟩
  let finished ← s.ledger.finishStep.mapError fun _ => invalid
  .ok { r with
    ledger := finished
    pending := pending.filter fun trade => trade.remaining ≠ 0
    fills := s.fills
    log := s.log }

/-- The loop of `Replay::advance` over the steps still open. -/
def advanceSteps (terms : ReplayTerms) (limit : Option DateTime) :
    List Step → Replay → Except ApplicationError Replay
  | [], r => .ok r
  | step :: rest, r =>
    if limit.any fun time => step.1 > time then .ok r
    else do
      let r ← runStep terms { r with steps := rest } step
      advanceSteps terms limit rest r

namespace Replay

/-- `Replay::advance`: closes every step ending at or before `limit`, all of them without one. -/
def advance (terms : ReplayTerms) (limit : Option DateTime) (r : Replay) :
    Except ApplicationError Replay :=
  advanceSteps terms limit r.steps r

/-- The book a policy decides on: settled positions plus what pending trades still intend. -/
def projected (r : Replay) : SimulatedBook :=
  r.ledger.book.withPending (r.pending.map fun trade => (trade.instrument, trade.intent))

/-- Registers the trades a decision asks for. -/
def registerAll (terms : ReplayTerms) (covered : List Bar) (decisionTime : DateTime) (r : Replay)
    (deltas : List (VersionRef × Decimal)) : Replay :=
  deltas.foldl
    (fun r delta => r.register terms decisionTime delta.1 delta.2
      (eligibleBars covered decisionTime delta.1)) r

/-- The order of the fills in a result. -/
def fillKey (fill : SimulatedFill) : DateTime ×ₗ VersionRef ×ₗ DateTime :=
  toLex (fill.effectiveAt, toLex (fill.instrument, fill.decisionTime))

/-- `Replay::finish`: the fills in time order. -/
def sortedFills (r : Replay) : List SimulatedFill :=
  r.fills.insertionSort fun a b => fillKey a ≤ fillKey b

end Replay

/-! ### Decisions -/

section Loop

variable (request : BarReplayRequest) (terms : ReplayTerms) (covered : List Bar)

/-- One turn of the decision loop of `replay_bars`. -/
def decideAt (r : Replay) (decisionTime : DateTime) :
    Except ApplicationError (Replay × ReplayDecision) := do
  let r ← r.advance terms (some decisionTime)
  let visible ← request.data.visibleAt decisionTime
  let inputs := visible.filter request.policy.covers
  let view ← (PointInTimeView.new decisionTime inputs).mapError fun _ => invalid
  let target ← (request.evaluator.decide request.policy view r.projected).mapError fun _ => invalid
  let seen := { r with log := r.log ++ [ReplayEvent.decided decisionTime r.projected] }
  .ok (seen.registerAll terms covered decisionTime (r.projected.deltasToward target),
    { decisionTime
      inputsVisibleThrough := (inputs.map Bar.visibleAt).max?
      inputBarCount := inputs.length
      target })

/-- The decision loop. -/
def decideAll : List DateTime → Replay → Except ApplicationError (Replay × List ReplayDecision)
  | [], r => .ok (r, [])
  | decisionTime :: rest, r => do
    let (r, decision) ← decideAt request terms covered r decisionTime
    let (r, decisions) ← decideAll rest r
    .ok (r, decision :: decisions)

end Loop

/-- `enforced_constraints`. -/
def enforcedConstraints (request : BarReplayRequest) (firstDecision : DateTime) :
    Except ApplicationError (List ReplayConstraint) :=
  let state := request.subjectState
  if state.subjectRef ≠ request.subject.reference ∨ state.visibleAt > firstDecision ∨
      request.subject.constraintSetRef ≠ request.constraints.map (·.rulePack) then .error invalid
  else
    match request.constraints with
    | none => .ok []
    | some set =>
      (bindConstraints set request.subject.reference state request.policy.input.constraints).mapError
        fun _ => invalid

/-- `replay_identity`. -/
def replayIdentity (digest : List UInt8 → ContentHash) (request : BarReplayRequest)
    (constraints : List ReplayConstraint) : ReplayIdentity where
  policyId := request.policy.input.policyArtifactId
  policy := request.policy.contentHash
  dataSnapshot := request.data.snapshot.1
  dataSnapshotContent := request.data.snapshot.2
  subject := request.subject.reference
  subjectState := request.subjectState.snapshotId
  subjectStateContent := subjectStateHash digest request.subjectState
  constraintSet := request.constraints.map (·.rulePack)
  constraints
  funding := request.funding
  carrySource := request.carry.source
  carry := request.carry.identity
  costModel := request.costModel
  costParameters := request.costParameters
  seed := request.seed
  code := request.code
  runtime := request.runtime

/-- The terms of a replay. -/
def replayTerms (request : BarReplayRequest) (costs : CostModel)
    (constraints : List ReplayConstraint) : ReplayTerms where
  ledger := ⟨request.carry, request.funding, costs, request.policy.input.settlement⟩
  constraints
  rules := request.policy.input.execution
  priceSource := request.data.priceSourceType

/-- `replay_bars`, with the state the loop ends in. -/
def replayRun (digest : List UInt8 → ContentHash) (request : BarReplayRequest) :
    Except ApplicationError (SimulationResult × Replay) :=
  let policy := request.policy
  if request.evaluator.family ≠ policy.input.family ∨
      request.evaluator.familyVersion ≠ policy.input.familyVersion ∨
      request.funding.tier ≠ request.subject.fundingTier then .error invalid
  else do
    let costs ← (CostModel.fromDeclaration request.costModel request.costParameters).mapError
      fun _ => invalid
    let covered := coveredBars policy request.data.allBars
    match decisionTimes covered with
    | [] => .error invalid
    | firstDecision :: _ =>
      let constraints ← enforcedConstraints request firstDecision
      let terms := replayTerms request costs constraints
      let (decided, decisions) ←
        decideAll request terms covered (decisionTimes covered) (Replay.start covered)
      let closed ← decided.advance terms none
      let result ← (SimulationResult.new digest
        ⟨replayIdentity digest request constraints, decisions, closed.sortedFills,
          closed.ledger.rows, closed.ledger.book⟩).mapError fun _ => invalid
      .ok (result, closed)

/-- `replay_bars`: one deterministic replay. -/
def replayBars (digest : List UInt8 → ContentHash) (request : BarReplayRequest) :
    Except ApplicationError SimulationResult :=
  Prod.fst <$> replayRun digest request

/-! ### A small market

One bond, one-minute bars and the yield-threshold policy: the inputs of the examples and
counterexamples in the modules that follow. -/

namespace SmallMarket

instance neZeroThousand : NeZero 1000 := ⟨by decide⟩

/-- The `n`th minute after 2026-07-20 01:30 UTC. -/
def minute (n : Fin 1000) : DateTime :=
  .ofSeconds (1784511000 + 60 * (n : ℕ)) (by omega) (by have := n.isLt; omega)

/-- The trading date of every bar. -/
def date : NaiveDate :=
  .ymd 2026 7 20

/-- The only bond. -/
def bond : VersionRef := ⟨⟨4⟩, .first⟩

/-- A whole number of the only unit. -/
def whole (n : ℤ) : DecimalValue := ⟨n, 0, ⟨⟨10⟩, .first⟩⟩

/-- A one-minute bar that starts at minute `start`; without a volume it has no prices either. -/
def barInput (id : String) (start finish visible : Fin 1000) (volume closeYield : ℤ) : BarInput where
  sourceRecordId := id
  instrument := bond
  frequency := .m1
  settlement := .t1
  marketTimezone := "Asia/Shanghai"
  localTradingDate := date
  barStart := minute start
  barEnd := minute finish
  visibleAt := minute visible
  prices := if volume = 0 then none else some ⟨whole 100, whole 100, whole 100, whole 100⟩
  volume := whole volume
  turnover := none
  tradeCount := none
  vwap := none
  closeYield := if volume = 0 then none else some (whole closeYield)

/-- Decides on the bond while its yield is at least 2, sells at 1 or below. -/
def policyInput (remainder : RemainderHandling) : PolicyArtifactInput where
  policyArtifactId := ⟨1⟩
  owner := ⟨⟨2⟩, ⟨3⟩⟩
  family := yieldThresholdFamily
  familyVersion := 1
  parameters := .ofList [("entry_yield", 2), ("exit_yield", 1), ("target_face", 10)]
  universe_ := [bond]
  frequency := .m1
  settlement := .t1
  valid := ⟨⟨minute 0, "Asia/Shanghai", date⟩, ⟨minute 900, "Asia/Shanghai", date⟩, by decide⟩
  execution := .uncapped remainder
  constraints := ∅
  calibration := none

/-- A digest for the examples: the length and the sum of the bytes. -/
def digest (bytes : List UInt8) : ContentHash :=
  ⟨UInt8.ofNat bytes.length :: List.replicate 31 (bytes.foldl (· + ·) 0), by simp⟩

/-- The policy. -/
def policy (remainder : RemainderHandling) : PolicyArtifact :=
  ⟨policyInput remainder, digest (policyBytes (policyInput remainder)), by simp [policyInput]⟩

/-- A snapshot of the given bars, complete up to minute 900. -/
def snapshot (bars : List Bar) : VerifiedBarSnapshot where
  id := ⟨5⟩
  contentHash := .filled 2
  priceSourceType := .realTrade
  cutoff := minute 900
  bars := bars

/-- A bond without coupons. -/
def carry : BondCarry where
  source := ⟨⟨9⟩, .first⟩
  identity := .filled 4
  accruedInterest := fun _ _ _ => some 0
  couponPaid := fun _ _ _ _ => some 0

/-- A replay of the policy over the given bars, without constraints and costs. -/
def request (remainder : RemainderHandling) (bars : List Bar) : BarReplayRequest where
  policy := policy remainder
  evaluator := yieldThresholdPolicy
  data := (snapshot bars).port
  subject := ⟨⟨⟨6⟩, .first⟩, .rOnly, none⟩
  subjectState := ⟨⟨7⟩, ⟨⟨6⟩, .first⟩, whole 0, [], minute 0, minute 0,
    "Asia/Shanghai", none⟩
  constraints := none
  funding := .free ⟨⟨8⟩, .first⟩ .rOnly
  carry := carry
  costModel := "ficant.cost.none"
  costParameters := ∅
  seed := 0
  code := .filled 5
  runtime := .filled 6

/-- The same replay for a Subject that may hold at most 4 of the bond, with reduction. -/
def limited (remainder : RemainderHandling) (bars : List Bar) : BarReplayRequest :=
  let pack : VersionRef := ⟨⟨11⟩, .first⟩
  let base := request remainder bars
  let input := { policyInput remainder with constraints := .ofList [("FACE", .reduce)] }
  { base with
    policy := ⟨input, digest (policyBytes input), by simp [input, policyInput]⟩
    subject := { base.subject with constraintSetRef := some pack }
    subjectState := { base.subjectState with limitCeilings := [⟨"FACE", whole 4⟩] }
    constraints := some ⟨pack, [⟨"FACE", .instrumentFace⟩]⟩ }

/-- The policy that wants a face of 10^9 and may take a third of the volume of a bar, to 28 places. -/
def thirdsInput : PolicyArtifactInput :=
  { policyInput .cancel with
    parameters := .ofList [("entry_yield", 2), ("exit_yield", 1), ("target_face", .scaled (10 ^ 9) 0)]
    execution := ⟨.scaled 3333333333333333333333333333 28, .cancel, by decide +kernel,
      by decide +kernel⟩ }

/-- A replay of that policy. -/
def thirds (bars : List Bar) : BarReplayRequest :=
  { request .cancel bars with
    policy := ⟨thirdsInput, digest (policyBytes thirdsInput), by simp [thirdsInput, policyInput]⟩ }

/-- A bar with a yield that makes the policy buy. -/
def cheap : Bar := ⟨barInput "b0" 0 1 1 10 2, by decide +kernel⟩

/-- The bar after it, published on time. -/
def next : Bar := ⟨barInput "b1" 1 2 2 10 2, by decide +kernel⟩

/-- The same bar with a volume of which a third has no end. -/
def large : Bar := ⟨barInput "b1" 1 2 2 100000003 2, by decide +kernel⟩

end SmallMarket

end Ficant
