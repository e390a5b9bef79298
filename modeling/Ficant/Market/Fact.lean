import Ficant.Primitives.DecimalText
import Ficant.Research.ExperimentRun

namespace Ficant

open Lib

/-!
# Market facts

Cash flows, quotes, trades and valuations, and the curve snapshots beside them
(`ficant-domain/src/market`).  Each fact is its input with the checks of its constructor, so that a
fact that the constructor refuses cannot be written down.

* `StoredDecimal` — a decimal as `DecimalValue::new` makes it;
* `FactSource` — where a fact comes from, and from which registered source;
* `MarketFact` — the four kinds of facts (`ficant-application/src/ports/facts.rs`).
-/

/-! ### Texts and decimals -/

/-- `require_text`. -/
def requireText (value : String) : Except DomainErrorCode Unit :=
  if properName value then .ok () else .error .invalidValue

/-- A decimal that has passed through `DecimalValue::new`. -/
structure StoredDecimal extends DecimalValue where
  normal : toDecimalValue.Normal
  deriving DecidableEq

namespace StoredDecimal

/-- `DecimalValue::new`. -/
def new (coefficient : String) (scale : ℕ) (unit : UnitRef) :
    Except DomainErrorCode StoredDecimal :=
  match h : DecimalValue.new coefficient scale unit with
  | .ok value => .ok ⟨value, DecimalValue.normal_of_new h⟩
  | .error error => .error error

/-- `DecimalValue::is_positive`. -/
def isPositive (v : StoredDecimal) : Bool := 0 < v.coefficient

theorem scale_lt (v : StoredDecimal) : v.scale < 2 ^ 64 := by
  have := v.normal.scale
  omega

theorem ext_value {a b : StoredDecimal} (h : a.toDecimalValue = b.toDecimalValue) : a = b := by
  cases a
  cases b
  simpa using h

end StoredDecimal

/-! ### Sources -/

/-- `FactSource`. -/
structure FactSource where
  sourceId : String
  externalId : String
  sourceRevision : ℕ
  dataSource : Option VersionRef
  source_proper : properName sourceId = true
  external_proper : properName externalId = true
  revised : 0 < sourceRevision
  fits : sourceRevision < 2 ^ 64

instance : DecidableEq FactSource := fun a b =>
  decidable_of_iff
    (a.sourceId = b.sourceId ∧ a.externalId = b.externalId ∧ a.sourceRevision = b.sourceRevision ∧
      a.dataSource = b.dataSource)
    (by cases a; cases b; simp)

/-- `FactSource::new`, on a 64-bit revision. -/
def FactSource.new (sourceId externalId : String) (sourceRevision : ℕ) :
    Except DomainErrorCode FactSource :=
  if h : properName sourceId = true ∧ properName externalId = true ∧ 0 < sourceRevision ∧
      sourceRevision < 2 ^ 64 then
    .ok ⟨sourceId, externalId, sourceRevision, none, h.1, h.2.1, h.2.2.1, h.2.2.2⟩
  else .error .invalidValue

/-- `FactSource::with_data_source`. -/
def FactSource.withDataSource (source : FactSource) (dataSource : VersionRef) :
    Except DomainErrorCode FactSource :=
  if source.dataSource.isSome then .error .versionConflict
  else .ok { source with dataSource := some dataSource }

/-! ### Facts -/

/-- `CashflowType`. -/
inductive CashflowType
  | coupon | principal | fee | other
  deriving DecidableEq, Repr

/-- `CashflowInput`. -/
structure CashflowInput where
  cashflowId : Ulid
  bond : VersionRef
  paymentTime : MarketTime
  amount : StoredDecimal
  owner : OwnerRef
  source : FactSource
  supersedesId : Option Ulid
  cashflowType : CashflowType
  scheduleId : String
  sequence : ℕ
  deriving DecidableEq

/-- The checks of `Cashflow::new`. -/
def CashflowInput.check (i : CashflowInput) : Except DomainErrorCode Unit :=
  if properName i.scheduleId ∧ 0 < i.sequence then .ok () else .error .invalidValue

/-- `Cashflow`, with a 64-bit sequence. -/
structure Cashflow where
  input : CashflowInput
  valid : input.check = .ok ()
  fits : input.sequence < 2 ^ 64
  deriving DecidableEq

/-- `QuoteInput`. -/
structure QuoteInput where
  quoteId : Ulid
  instrument : VersionRef
  owner : OwnerRef
  source : FactSource
  observedAt : MarketTime
  receivedAt : MarketTime
  bid : Option StoredDecimal
  ask : Option StoredDecimal
  supersedesId : Option Ulid
  deriving DecidableEq

/-- The comparison of a bid with an ask: one unit, and the bid not above the ask. -/
def checkSpread (bid ask : StoredDecimal) : Except DomainErrorCode Unit :=
  if bid.unit ≠ ask.unit then .error .invalidUnit
  else if ask.value < bid.value then .error .invalidValue
  else .ok ()

/-- The checks of `Quote::new`. -/
def QuoteInput.check (i : QuoteInput) : Except DomainErrorCode Unit :=
  if i.receivedAt.instant < i.observedAt.instant ∨ (i.bid = none ∧ i.ask = none) then
    .error .invalidValue
  else
    match i.bid, i.ask with
    | some bid, some ask => checkSpread bid ask
    | _, _ => .ok ()

/-- `Quote`. -/
structure Quote where
  input : QuoteInput
  valid : input.check = .ok ()
  deriving DecidableEq

/-- `TradeInput`. -/
structure TradeInput where
  tradeId : Ulid
  instrument : VersionRef
  owner : OwnerRef
  source : FactSource
  executedAt : MarketTime
  price : StoredDecimal
  quantity : StoredDecimal
  supersedesId : Option Ulid
  deriving DecidableEq

/-- The checks of `Trade::new`. -/
def TradeInput.check (i : TradeInput) : Except DomainErrorCode Unit :=
  if i.price.isPositive ∧ i.quantity.isPositive then .ok () else .error .invalidValue

/-- `Trade`. -/
structure Trade where
  input : TradeInput
  valid : input.check = .ok ()
  deriving DecidableEq

/-- `ValuationValueRole`. -/
inductive ValuationValueRole
  | price | yield | remainingYears
  deriving DecidableEq, Repr

/-- `ValuationInput`. -/
structure ValuationInput where
  valuationId : Ulid
  instrument : VersionRef
  owner : OwnerRef
  source : FactSource
  valuationAt : MarketTime
  method : String
  rulePack : VersionRef
  values : List StoredDecimal
  supersedesId : Option Ulid
  deriving DecidableEq

/-- `Valuation`: one role for every value. -/
structure Valuation where
  input : ValuationInput
  valueRoles : List ValuationValueRole
  proper : properName input.method = true
  nonempty : input.values ≠ []
  roles : valueRoles.length = input.values.length
  deriving DecidableEq

/-- `Valuation::new_with_value_roles`: no roles stand for prices. -/
def Valuation.newWithValueRoles (input : ValuationInput) (valueRoles : List ValuationValueRole) :
    Except DomainErrorCode Valuation :=
  if h : properName input.method = true ∧ input.values ≠ [] then
    if valueRoles = [] then
      .ok ⟨input, List.replicate input.values.length .price, h.1, h.2, List.length_replicate⟩
    else if hroles : valueRoles.length = input.values.length then
      .ok ⟨input, valueRoles, h.1, h.2, hroles⟩
    else .error .invalidValue
  else .error .invalidValue

/-- `Valuation::has_typed_value_roles`. -/
def Valuation.hasTypedValueRoles (v : Valuation) : Bool := v.valueRoles.any (· ≠ .price)

/-- Without a typed role, all roles are prices. -/
theorem Valuation.valueRoles_of_untyped {v : Valuation} (h : v.hasTypedValueRoles = false) :
    v.valueRoles = List.replicate v.input.values.length .price := by
  rw [List.eq_replicate_iff]
  refine ⟨v.roles, fun role hmem => ?_⟩
  have hnone := List.any_eq_false.mp h role hmem
  simpa using hnone

/-- `Cashflow::new`, on a 64-bit sequence. -/
def Cashflow.new (input : CashflowInput) : Except DomainErrorCode Cashflow :=
  if h : input.check = .ok () ∧ input.sequence < 2 ^ 64 then .ok ⟨input, h.1, h.2⟩
  else .error .invalidValue

/-- `Quote::new`. -/
def Quote.new (input : QuoteInput) : Except DomainErrorCode Quote :=
  match h : input.check with
  | .ok () => .ok ⟨input, h⟩
  | .error error => .error error

/-- `Trade::new`. -/
def Trade.new (input : TradeInput) : Except DomainErrorCode Trade :=
  match h : input.check with
  | .ok () => .ok ⟨input, h⟩
  | .error error => .error error

/-- `MarketFact`. -/
inductive MarketFact
  | cashflow (value : Cashflow)
  | quote (value : Quote)
  | trade (value : Trade)
  | valuation (value : Valuation)
  deriving DecidableEq

namespace MarketFact

/-- `MarketFact::id`. -/
def id : MarketFact → Ulid
  | cashflow value => value.input.cashflowId
  | quote value => value.input.quoteId
  | trade value => value.input.tradeId
  | valuation value => value.input.valuationId

/-- `MarketFact::owner`. -/
def owner : MarketFact → OwnerRef
  | cashflow value => value.input.owner
  | quote value => value.input.owner
  | trade value => value.input.owner
  | valuation value => value.input.owner

/-- `MarketFact::supersedes_id`. -/
def supersedesId : MarketFact → Option Ulid
  | cashflow value => value.input.supersedesId
  | quote value => value.input.supersedesId
  | trade value => value.input.supersedesId
  | valuation value => value.input.supersedesId

end MarketFact

/-! ### Curve snapshots -/

/-- `ArtifactInputKind`. -/
inductive ArtifactInputKind
  | externalFixture
  deriving DecidableEq, Repr

/-- `CurveSnapshotInput`. -/
structure CurveSnapshotInput where
  curveSnapshotId : Ulid
  owner : OwnerRef
  asOf : MarketTime
  currency : UnitRef
  curveKind : String
  calendar : VersionRef
  rulePack : VersionRef
  pointSchema : String
  contentHash : ContentHash
  lineage : List LineageRef
  inputKind : ArtifactInputKind
  deriving DecidableEq

/-- The checks of `CurveSnapshot::new`. -/
def CurveSnapshotInput.check (i : CurveSnapshotInput) : Except DomainErrorCode Unit := do
  requireText i.curveKind
  requireText i.pointSchema
  if i.lineage = [] then .error .brokenLineage else .ok ()

/-- The time from which a curve is known, and its family. -/
structure KnowledgeTime where
  visibleAt : MarketTime
  curveFamilyId : String
  proper : properName curveFamilyId = true

instance : DecidableEq KnowledgeTime := fun a b =>
  decidable_of_iff
    (a.visibleAt = b.visibleAt ∧ a.curveFamilyId = b.curveFamilyId)
    (by cases a; cases b; simp)

/-- `CurveSnapshot`: the time of knowledge and the family come together. -/
structure CurveSnapshot where
  input : CurveSnapshotInput
  knowledge : Option KnowledgeTime
  valid : input.check = .ok ()
  ordered : ∀ k ∈ knowledge, input.asOf.instant ≤ k.visibleAt.instant

instance : DecidableEq CurveSnapshot := fun a b =>
  decidable_of_iff (a.input = b.input ∧ a.knowledge = b.knowledge) <| by
    cases a
    cases b
    simp

namespace CurveSnapshot

/-- `CurveSnapshot::new`. -/
def new (input : CurveSnapshotInput) : Except DomainErrorCode CurveSnapshot :=
  match h : input.check with
  | .ok () => .ok ⟨input, none, h, by simp⟩
  | .error error => .error error

/-- `CurveSnapshot::with_knowledge_time`. -/
def withKnowledgeTime (curve : CurveSnapshot) (visibleAt : MarketTime) (curveFamilyId : String) :
    Except DomainErrorCode CurveSnapshot :=
  if hname : properName curveFamilyId = true then
    if curve.knowledge.isSome then .error .invalidStateTransition
    else if h : curve.input.asOf.instant ≤ visibleAt.instant then
      .ok ⟨curve.input, some ⟨visibleAt, curveFamilyId, hname⟩, curve.valid, by simpa using h⟩
    else .error .invalidEffectiveTime
  else .error .invalidValue

/-- `CurveSnapshot::visible_at`. -/
def visibleAt (curve : CurveSnapshot) : Option MarketTime := curve.knowledge.map (·.visibleAt)

end CurveSnapshot

end Ficant
