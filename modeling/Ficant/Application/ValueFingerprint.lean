import Ficant.Application.Fingerprint
import Ficant.Market.Definition
import Ficant.Research.Artifact

namespace Ficant

namespace Fingerprint

open Lib

/-!
# Fingerprints of whole values

The encoders of definitions, market facts, curves, runs, artifacts and signal sets
(`ficant-application/src/ports/fingerprint.rs`).

* `definitionBytes`, `factBytes`, `curveSnapshotBytes`, `runBytes`, `artifactBytes`, `signalBytes` —
  one schema for each kind of value, and further ones for its later shapes;
* lineage, rule packs and input artifacts are written in a fixed order.
-/

/-! ### Encoders -/

/-- `source_bytes`. -/
def sourceBytes (source : FactSource) : List UInt8 :=
  fingerprintBytes "fact-source/v1"
    ((2, utf8 source.sourceId) :: (3, utf8 source.externalId) ::
      (4, bigEndian 8 source.sourceRevision) ::
      match source.dataSource with
      | some reference => [(5, versionRefBytes reference)]
      | none => [])

/-- `instrument_kind_code`. -/
def instrumentKindCode : InstrumentKind → UInt8
  | .bond => 1 | .futures => 2 | .other => 3

/-- `instrument_bytes`. -/
def instrumentBytes (i : Instrument) : List UInt8 :=
  fingerprintBytes "definition/instrument/v1"
    [(2, utf8 i.instrumentId.text), (3, bigEndian 8 i.version.value), (4, ownerRefBytes i.owner),
      (5, [instrumentKindCode i.kind]), (6, utf8 i.market), (7, utf8 i.symbol),
      (8, unitRefBytes i.currency), (9, versionRefBytes i.calendar)]

/-- `bond_tax_attributes_bytes`. -/
def bondTaxAttributesBytes (attributes : BondTaxAttributes) : List UInt8 :=
  [match attributes.valueAddedTaxStatus with | .exempt => 1 | .taxable => 2,
    match attributes.incomeTaxStatus with | .exempt => 1 | .taxable => 2]

/-- The code of a coupon frequency. -/
def frequencyCode : BondCouponFrequency → UInt8
  | .annual => 1 | .semiannual => 2

/-- The fields of a bond with an issuance. -/
def issuedFields (bond : Bond) (attributes : BondTaxAttributes) : List (UInt8 × List UInt8) :=
  [(2, versionRefBytes bond.instrument), (3, utf8 bond.firstIssueDate.text),
    (4, utf8 bond.currentIssueDate.text), (5, utf8 bond.maturityDate.text),
    (6, decimalBytes bond.cumulativeIssuedAmount.toDecimalValue),
    (7, bondTaxAttributesBytes attributes), (8, decimalBytes bond.faceValue.toDecimalValue)]

/-- The fields of the pricing terms. -/
def pricingFields (pricing : BondPricingTerms) : List (UInt8 × List UInt8) :=
  [(9, decimalBytes pricing.couponRate.toDecimalValue), (10, [frequencyCode pricing.frequency]),
    (11, [match pricing.dayCount with | .actActBondIsma => 1]),
    (12, [match pricing.businessDay with | .following => 1])]

/-- `bond_bytes`: three shapes with a schema each. Pricing terms come with tax attributes only. -/
def bondBytes (bond : Bond) : List UInt8 :=
  match bond.taxAttributes, bond.pricingTerms with
  | some attributes, some pricing =>
    fingerprintBytes "definition/bond/v3" (issuedFields bond attributes ++ pricingFields pricing)
  | some attributes, none => fingerprintBytes "definition/bond/v2" (issuedFields bond attributes)
  | none, _ =>
    fingerprintBytes "definition/bond/v1"
      [(2, versionRefBytes bond.instrument), (3, utf8 bond.firstIssueDate.text),
        (4, utf8 bond.maturityDate.text), (5, decimalBytes bond.faceValue.toDecimalValue)]

/-- `futures_bytes`. -/
def futuresBytes (contract : FuturesContract) : List UInt8 :=
  fingerprintBytes "definition/futures/v1"
    ((2, versionRefBytes contract.instrument) :: (3, marketTimeBytes contract.lastTradeTime) ::
      (4, marketTimeBytes contract.expiryTime) :: (5, marketTimeBytes contract.settlementTime) ::
      (6, decimalBytes contract.multiplier.toDecimalValue) ::
      (7, versionRefBytes contract.rulePack) ::
      match contract.riskTerms with
      | some terms => [(8, utf8 terms.productCode), (9, unitRefBytes terms.priceUnit)]
      | none => [])

/-- The fields of the terms of an instrument. -/
def subtypeFields : Option InstrumentSubtype → List (UInt8 × List UInt8)
  | none => [(3, [0])]
  | some (.bond bond) => [(3, [1]), (4, bondBytes bond)]
  | some (.futuresContract contract) => [(3, [2]), (4, futuresBytes contract)]

/-- `instrument_definition_bytes`. -/
def instrumentDefinitionBytes (definition : InstrumentDefinition) : List UInt8 :=
  fingerprintBytes "definition/instrument-aggregate/v1"
    ((2, instrumentBytes definition.instrument) :: subtypeFields definition.subtype)

/-- A time of a session, or a dash. -/
def sessionTimeText (time : Option NaiveTime) : String := time.elim "-" NaiveTime.text

/-- One session of `calendar_bytes`. -/
def sessionBytes (session : Market.CalendarSession) : List UInt8 :=
  fingerprintBytes "calendar-session/v1"
    [(2, utf8 session.localDate.text),
      (3, utf8 (sessionTimeText (session.hours.map (·.openLocalTime)))),
      (4, utf8 (sessionTimeText (session.hours.map (·.closeLocalTime))))]

/-- `calendar_bytes`. -/
def calendarBytes (calendar : Market.Calendar) : List UInt8 :=
  fingerprintBytes "definition/calendar/v1"
    ([(2, utf8 calendar.calendarId.text), (3, bigEndian 8 calendar.version.value),
      (4, ownerRefBytes calendar.owner), (5, utf8 calendar.market),
      (6, utf8 calendar.marketTimezone), (7, periodBytes calendar.effective),
      (8, bigEndian 8 calendar.sessions.length)] ++
      calendar.sessions.map fun session => (9, sessionBytes session))

/-- `unit_bytes`. -/
def unitBytes (unit : Market.MarketUnit) : List UInt8 :=
  fingerprintBytes "definition/unit/v1"
    [(2, utf8 unit.input.unitId.text), (3, bigEndian 8 unit.input.version.value),
      (4, ownerRefBytes unit.input.owner), (5, utf8 unit.input.code), (6, utf8 unit.input.dimension),
      (7, bigEndian 8 unit.input.scale), (8, bigEndian 8 unit.input.precision)]

/-- `verification_status_code`. -/
def verificationStatusCode : VerificationStatus → UInt8
  | .unverified => 1 | .verified => 2 | .rejected => 3

/-- `rule_pack_bytes`: of the content, only its hash. -/
def rulePackBytes {digest : List UInt8 → ContentHash} (rule : MarketRulePack digest) : List UInt8 :=
  fingerprintBytes "definition/rule-pack/v1"
    [(2, utf8 rule.input.rulePackId.text), (3, bigEndian 8 rule.input.version.value),
      (4, ownerRefBytes rule.input.owner), (5, utf8 rule.input.market), (6, utf8 rule.input.ruleType),
      (7, utf8 rule.input.source), (8, periodBytes rule.input.effective),
      (9, [verificationStatusCode rule.input.verificationStatus]), (10, rule.input.contentHash.bytes)]

/-- `definition_bytes`. -/
def definitionBytes {digest : List UInt8 → ContentHash} : DefinitionValue digest → List UInt8
  | .instrument value => instrumentDefinitionBytes value
  | .calendar value => calendarBytes value
  | .unit value => unitBytes value
  | .marketRulePack value => rulePackBytes value

/-- The last fields of a curve that says when it was known. -/
def knowledgeFields : Option KnowledgeTime → List (UInt8 × List UInt8)
  | some knowledge => [(13, marketTimeBytes knowledge.visibleAt), (14, utf8 knowledge.curveFamilyId)]
  | none => []

/-- `artifact_input_kind_code`. -/
def artifactInputKindCode : ArtifactInputKind → UInt8
  | .externalFixture => 1

/-- The fields that every curve has. -/
def curveFields (curve : CurveSnapshot) : List (UInt8 × List UInt8) :=
  [(2, utf8 curve.input.curveSnapshotId.text), (3, ownerRefBytes curve.input.owner),
    (4, marketTimeBytes curve.input.asOf), (5, unitRefBytes curve.input.currency),
    (6, utf8 curve.input.curveKind), (7, versionRefBytes curve.input.calendar),
    (8, versionRefBytes curve.input.rulePack), (9, utf8 curve.input.pointSchema),
    (10, curve.input.contentHash.bytes), (11, lineageBytes curve.input.lineage),
    (12, [artifactInputKindCode curve.input.inputKind])]

/-- `curve_snapshot_bytes`. -/
def curveSnapshotBytes (curve : CurveSnapshot) : List UInt8 :=
  fingerprintBytes (if curve.visibleAt.isSome then "curve-snapshot/v2" else "curve-snapshot/v1")
    (curveFields curve ++ knowledgeFields curve.knowledge)

/-- `cashflow_type_code`. -/
def cashflowTypeCode : CashflowType → UInt8
  | .coupon => 1 | .principal => 2 | .fee => 3 | .other => 4

/-- `cashflow_bytes`. -/
def cashflowBytes (fact : Cashflow) : List UInt8 :=
  fingerprintBytes "fact/cashflow/v1"
    [(2, utf8 fact.input.cashflowId.text), (3, versionRefBytes fact.input.bond),
      (4, marketTimeBytes fact.input.paymentTime), (5, decimalBytes fact.input.amount.toDecimalValue),
      (6, ownerRefBytes fact.input.owner), (7, sourceBytes fact.input.source),
      (8, optionalIdBytes fact.input.supersedesId), (9, [cashflowTypeCode fact.input.cashflowType]),
      (10, utf8 fact.input.scheduleId), (11, bigEndian 8 fact.input.sequence)]

/-- An optional price. -/
def optionalDecimalBytes : Option StoredDecimal → List UInt8
  | some decimal => 1 :: decimalBytes decimal.toDecimalValue
  | none => [0]

/-- `quote_bytes`. -/
def quoteBytes (fact : Quote) : List UInt8 :=
  fingerprintBytes "fact/quote/v1"
    [(2, utf8 fact.input.quoteId.text), (3, versionRefBytes fact.input.instrument),
      (4, ownerRefBytes fact.input.owner), (5, sourceBytes fact.input.source),
      (6, marketTimeBytes fact.input.observedAt), (7, marketTimeBytes fact.input.receivedAt),
      (8, optionalDecimalBytes fact.input.bid), (9, optionalDecimalBytes fact.input.ask),
      (10, optionalIdBytes fact.input.supersedesId)]

/-- `trade_bytes`. -/
def tradeBytes (fact : Trade) : List UInt8 :=
  fingerprintBytes "fact/trade/v1"
    [(2, utf8 fact.input.tradeId.text), (3, versionRefBytes fact.input.instrument),
      (4, ownerRefBytes fact.input.owner), (5, sourceBytes fact.input.source),
      (6, marketTimeBytes fact.input.executedAt), (7, decimalBytes fact.input.price.toDecimalValue),
      (8, decimalBytes fact.input.quantity.toDecimalValue),
      (9, optionalIdBytes fact.input.supersedesId)]

/-- `valuation_value_role_code`. -/
def valuationValueRoleCode : ValuationValueRole → UInt8
  | .price => 1 | .yield => 2 | .remainingYears => 3

/-- The roles of a valuation, when they are not all prices. -/
def roleFields (fact : Valuation) : List (UInt8 × List UInt8) :=
  if fact.hasTypedValueRoles then
    fact.valueRoles.map fun role => (12, [valuationValueRoleCode role])
  else []

/-- `valuation_bytes`. -/
def valuationBytes (fact : Valuation) : List UInt8 :=
  fingerprintBytes (if fact.hasTypedValueRoles then "fact/valuation/v2" else "fact/valuation/v1")
    ([(2, utf8 fact.input.valuationId.text), (3, versionRefBytes fact.input.instrument),
      (4, ownerRefBytes fact.input.owner), (5, sourceBytes fact.input.source),
      (6, marketTimeBytes fact.input.valuationAt), (7, utf8 fact.input.method),
      (8, versionRefBytes fact.input.rulePack), (9, bigEndian 8 fact.input.values.length)] ++
      ((fact.input.values.map fun decimal => (10, decimalBytes decimal.toDecimalValue)) ++
        (11, optionalIdBytes fact.input.supersedesId) :: roleFields fact))

/-- `fact_bytes`. -/
def factBytes : MarketFact → List UInt8
  | .cashflow value => cashflowBytes value
  | .quote value => quoteBytes value
  | .trade value => tradeBytes value
  | .valuation value => valuationBytes value

/-- `run_state_code`. -/
def runStateCode : RunState → UInt8
  | .created => 1 | .running => 2 | .succeeded => 3 | .failed => 4 | .cancelled => 5

/-- `run_bytes`. -/
def runBytes (run : ExperimentRun) : List UInt8 :=
  fingerprintBytes "experiment-run/v1"
    ([(2, utf8 run.experimentRunId.text), (3, ownerRefBytes run.owner),
      (4, lineageRefBytes run.dataSnapshot), (5, lineageRefBytes run.universeSnapshot),
      (6, bigEndian 8 run.rulePacks.length)] ++
      (((run.rulePacks.insertionSort (· ≤ ·)).map fun reference => (7, versionRefBytes reference)) ++
        [(8, run.runtimeImageDigest.bytes), (9, run.parametersHash.bytes),
          (10, bigEndian 8 run.seed), (11, [runStateCode run.state]), (12, bigEndian 8 run.revision)]))

/-- `artifact_kind_code`. -/
def artifactKindCode : ArtifactKind → UInt8
  | .generic => 1 | .signalSet => 5

/-- `artifact_bytes`. -/
def artifactBytes (artifact : Artifact) : List UInt8 :=
  fingerprintBytes "artifact/v1"
    [(2, utf8 artifact.artifactId.text), (3, ownerRefBytes artifact.owner),
      (4, [artifactKindCode artifact.kind]), (5, utf8 artifact.mediaType),
      (6, artifact.contentHash.bytes), (7, bigEndian 8 artifact.blobSize),
      (8, lineageBytes artifact.lineage)]

/-- `signal_bytes`. -/
def signalBytes (signal : SignalSet) : List UInt8 :=
  fingerprintBytes "signal-set/v1"
    ([(2, utf8 signal.input.signalSetId.text), (3, ownerRefBytes signal.input.owner),
      (4, lineageRefBytes signal.input.artifact), (5, utf8 signal.input.experimentRunId.text),
      (6, lineageRefBytes signal.input.dataSnapshot),
      (7, lineageRefBytes signal.input.universeSnapshot)] ++
      (((signal.input.rulePacks.insertionSort (· ≤ ·)).map fun reference =>
          (8, versionRefBytes reference)) ++
        (((signal.input.inputArtifacts.insertionSort compareLineage).map fun reference =>
            (9, lineageRefBytes reference)) ++
          [(10, periodBytes signal.input.valid), (11, signal.contentHash.bytes)])))

end Fingerprint

end Ficant
