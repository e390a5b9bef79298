import Ficant.Lib.SortedMap
import Ficant.Market.BarRules
import Ficant.Primitives.DecimalText

namespace Ficant

open Lib

/-!
# Canonical bar ingestion

The rows of a source become canonical bars (`ficant-data/src/bar_canonical.rs`).

* `validateRow` — one source row: a bar, a row outside the point-in-time window, or a rejection;
* `rejectDuplicates` — rows that share a bar key or a record identifier are all rejected;
* `encodeBatch` — the accepted bars as the columns of `ficant.market.bar.canonical.v1`;
* `CanonicalBarIngestor.ingest` — the whole import.

A record batch is the list of its rows; a column is one field of `BarRecord`, and a decimal has two
columns.  chrono panics when an addition of times leaves its range, and when a local date does; here
both are the error `overflow`.
-/

/-- `MARKET_TIMEZONE`. -/
def marketTimezone : String := "Asia/Shanghai"

/-- `CANONICAL_BAR_SCHEMA_ID`. -/
def canonicalBarSchemaId : String := "ficant.market.bar.canonical.v1"

/-- `BAR_QUALITY_RULE_SET_ID`. -/
def barQualityRuleSetId : String := "ficant.market.bar.quality.v1"

/-! ### Rejections -/

/-- `BarRejectionReason`. -/
inductive BarRejectionReason
  | missingRequiredField | invalidValue | outsideTradingSession | observedAfterVisible
  | unmappedInstrument | misalignedInterval | inconsistentOhlc | negativeVolume | duplicateBar
  | precisionExceeded
  deriving DecidableEq, Repr

namespace BarRejectionReason

/-- `BarRejectionReason::ALL`, in the order of declaration. -/
def all : List BarRejectionReason :=
  [missingRequiredField, invalidValue, outsideTradingSession, observedAfterVisible,
    unmappedInstrument, misalignedInterval, inconsistentOhlc, negativeVolume, duplicateBar,
    precisionExceeded]

/-- The place in the order of declaration, by which the derived `Ord` compares. -/
def rank : BarRejectionReason → ℕ
  | missingRequiredField => 0
  | invalidValue => 1
  | outsideTradingSession => 2
  | observedAfterVisible => 3
  | unmappedInstrument => 4
  | misalignedInterval => 5
  | inconsistentOhlc => 6
  | negativeVolume => 7
  | duplicateBar => 8
  | precisionExceeded => 9

/-- `BarRejectionReason::code`. -/
def code : BarRejectionReason → String
  | missingRequiredField => "MISSING_REQUIRED_FIELD"
  | invalidValue => "INVALID_VALUE"
  | outsideTradingSession => "OUTSIDE_TRADING_SESSION"
  | observedAfterVisible => "OBSERVED_AFTER_VISIBLE"
  | unmappedInstrument => "UNMAPPED_INSTRUMENT"
  | misalignedInterval => "MISALIGNED_INTERVAL"
  | inconsistentOhlc => "INCONSISTENT_OHLC"
  | negativeVolume => "NEGATIVE_VOLUME"
  | duplicateBar => "DUPLICATE_BAR"
  | precisionExceeded => "PRECISION_EXCEEDED"

/-- `BarRejectionReason::from_code`. -/
def fromCode (code : String) : Option BarRejectionReason :=
  all.find? fun value => value.code = code

end BarRejectionReason

/-- `BarRejection`. -/
structure BarRejection where
  rowId : String
  reason : BarRejectionReason
  field : Option String
  deriving DecidableEq

/-- The derived `Ord` of `BarRejection`: row, reason in the order of declaration, field. -/
def BarRejection.key (r : BarRejection) : String ×ₗ ℕ ×ₗ WithBot String :=
  toLex (r.rowId, toLex (r.reason.rank, r.field))

/-- `DataError`, as far as bars raise it. -/
inductive DataError
  | invalidConfiguration | pointInTimeViolation | schemaMismatch | snapshotIntegrityFailed
  | sourceUnavailable
  | noAcceptedBars (rejections : List BarRejection)
  | overflow
  deriving DecidableEq

/-! ### Sources and requests -/

/-- `RawDecimal`. -/
structure RawDecimal where
  coefficient : String
  scale : ℕ
  deriving DecidableEq

/-- `RawBarRow`: one source row after field mapping. -/
structure RawBarRow where
  rowOrdinal : ℕ
  sourceRecordId : Option String
  instrumentKey : Option String
  frequency : Option BarFrequency
  settlement : Option BarSettlement
  barStart : Option DateTime
  tradingDate : Option NaiveDate
  visibleAt : Option DateTime
  open_ : Option RawDecimal
  high : Option RawDecimal
  low : Option RawDecimal
  close : Option RawDecimal
  volume : Option RawDecimal
  turnover : Option RawDecimal
  tradeCount : Option ℕ
  vwap : Option RawDecimal
  closeYield : Option RawDecimal
  invalidField : Option String

/-- `BarVisibilityRule`; a delay is in nanoseconds. -/
inductive BarVisibilityRule
  | sourceField
  | fixedDelay (delay : ℤ)
  deriving DecidableEq

/-- `BarVisibilityRule::describe`. -/
def BarVisibilityRule.describe : BarVisibilityRule → String
  | .sourceField => "source-field"
  | .fixedDelay delay => "fixed-delay:" ++ toString (delay.tdiv 1000000000) ++ "s"

/-- `Unit` of the domain, without its code. -/
structure MarketUnit where
  unitId : Ulid
  version : Version
  owner : OwnerRef
  dimension : String
  scale : ℕ
  precision : ℕ
  deriving DecidableEq

/-- The reference to a unit. -/
def MarketUnit.ref (unit : MarketUnit) : UnitRef := ⟨unit.unitId, unit.version⟩

/-- `CalendarSession`. -/
structure CalendarSession where
  localDate : NaiveDate
  openLocalTime : Option NaiveTime
  closeLocalTime : Option NaiveTime
  deriving DecidableEq

/-- `Calendar`. -/
structure Calendar where
  calendarId : Ulid
  version : Version
  owner : OwnerRef
  marketTimezone : String
  effective : EffectivePeriod
  sessions : List CalendarSession

/-- `DataSource`, as far as ingestion reads it. -/
structure DataSource where
  dataSourceId : Ulid
  version : Version
  owner : OwnerRef
  canonicalSchemaId : String
  canonicalSchemaHash : ContentHash
  priceSourceType : Option PriceSourceType

/-- `InstrumentMappingEntry`. -/
structure InstrumentMappingEntry where
  sourceInstrumentKey : String
  effective : EffectivePeriod
  instrument : VersionRef

/-- `InstrumentMapping`. -/
structure InstrumentMapping where
  mappingId : Ulid
  owner : OwnerRef
  source : VersionRef
  entries : List InstrumentMappingEntry
  contentHash : ContentHash

/-- `InstrumentMapping::resolve`: the one entry of that key in force at that time. -/
def InstrumentMapping.resolve (mapping : InstrumentMapping) (key : String) (observedAt : DateTime) :
    Option VersionRef :=
  match mapping.entries.filter fun entry => entry.sourceInstrumentKey = key ∧
      entry.effective.from_.instant ≤ observedAt ∧ observedAt < entry.effective.to_.instant with
  | [entry] => some entry.instrument
  | _ => none

/-- `PointInTimeWindow`. -/
structure PointInTimeWindow where
  asOf : MarketTime
  visibleAtCutoff : MarketTime
  ordered : asOf.instant ≤ visibleAtCutoff.instant
  sameZone : asOf.marketTimezone = visibleAtCutoff.marketTimezone

/-- `CanonicalBarIngestRequest`. -/
structure CanonicalBarIngestRequest where
  source : DataSource
  mapping : InstrumentMapping
  calendar : Calendar
  priceUnit : MarketUnit
  amountUnit : MarketUnit
  yieldUnit : Option MarketUnit
  window : PointInTimeWindow

/-- `CanonicalBarIngestRequest::new`; `schemaHash` is `canonical_bar_schema_hash()`. -/
def CanonicalBarIngestRequest.new (schemaHash : ContentHash) (source : DataSource)
    (mapping : InstrumentMapping) (calendar : Calendar) (priceUnit amountUnit : MarketUnit)
    (yieldUnit : Option MarketUnit) (window : PointInTimeWindow) :
    Except DataError CanonicalBarIngestRequest :=
  let owner := source.owner
  if owner ≠ mapping.owner ∨ owner ≠ calendar.owner ∨ owner ≠ priceUnit.owner ∨
      owner ≠ amountUnit.owner ∨ yieldUnit.any (fun unit => unit.owner ≠ owner) ∨
      mapping.source ≠ ⟨source.dataSourceId, source.version⟩ ∨
      source.canonicalSchemaId ≠ canonicalBarSchemaId ∨
      source.canonicalSchemaHash ≠ schemaHash ∨ source.priceSourceType = none ∨
      priceUnit.dimension ≠ "price" ∨ amountUnit.dimension ≠ "amount" ∨
      yieldUnit.any (fun unit => unit.dimension ≠ "yield") ∨
      calendar.marketTimezone ≠ Ficant.marketTimezone ∨
      window.asOf.marketTimezone ≠ Ficant.marketTimezone ∨
      window.visibleAtCutoff.marketTimezone ≠ Ficant.marketTimezone then
    .error .invalidConfiguration
  else .ok ⟨source, mapping, calendar, priceUnit, amountUnit, yieldUnit, window⟩

/-! ### One row -/

/-- Why a row gives no bar: it is rejected, or chrono panics. -/
inductive RowError
  | rejected (rejection : BarRejection)
  | overflow
  deriving DecidableEq

/-- `row_identity`. -/
def rowIdentity (raw : RawBarRow) : String :=
  let plain (c : Char) : Bool := c.isAlphanum || c = '-' || c = '_' || c = '.'
  match raw.sourceRecordId with
  | some id =>
    if id ≠ "" ∧ id.length ≤ 128 ∧ id.toList.all plain then id
    else "row:" ++ toString raw.rowOrdinal
  | none => "row:" ++ toString raw.rowOrdinal

/-- The rejection of a row. -/
def reject (raw : RawBarRow) (reason : BarRejectionReason) (field : Option String) : RowError :=
  .rejected ⟨rowIdentity raw, reason, field⟩

/-- `required`. -/
def required {α : Type} (raw : RawBarRow) (value : Option α) (field : String) : Except RowError α :=
  match value with
  | some value => .ok value
  | none => .error (reject raw .missingRequiredField (some field))

/-- The market's zone in the time-zone database. -/
def rowZone (clock : MarketClock) (raw : RawBarRow) : Except RowError String :=
  match clock.name marketTimezone with
  | some zone => .ok zone
  | none => .error (reject raw .invalidValue none)

/-- The bounds of the session of a date, within the calendar's effective period. -/
def sessionBounds (clock : MarketClock) (zone : String) (calendar : Calendar) (date : NaiveDate) :
    Option (DateTime × DateTime) := do
  let session ← calendar.sessions.find? fun session => session.localDate = date
  let openTime ← session.openLocalTime
  let opens ← clock.localInstant zone date openTime
  let closeTime ← session.closeLocalTime
  let closes ← clock.localInstant zone date closeTime
  if calendar.effective.from_.instant ≤ opens ∧ closes ≤ calendar.effective.to_.instant then
    some (opens, closes)
  else none

/-- `interval`: intraday bars from their start, daily bars from the session. -/
def interval (clock : MarketClock) (zone : String) (request : CanonicalBarIngestRequest)
    (frequency : BarFrequency) (raw : RawBarRow) :
    Except RowError (DateTime × DateTime × NaiveDate) :=
  let outside : RowError := reject raw .outsideTradingSession none
  match frequency.intervalMinutes with
  | some minutes => do
    let start ← required raw raw.barStart "bar_start"
    match start.add? (60000000000 * minutes), clock.localDate zone start with
    | some barEnd, some date =>
      match sessionBounds clock zone request.calendar date with
      | none => .error outside
      | some (opens, closes) =>
        if start < opens ∨ closes < barEnd then .error outside else .ok (start, barEnd, date)
    | _, _ => .error .overflow
  | none => do
    let date ← required raw raw.tradingDate "trading_date"
    match sessionBounds clock zone request.calendar date with
    | none => .error outside
    | some (opens, closes) => .ok (opens, closes, date)

/-- `decimal` of the ingestion: a value of the unit within its scale and precision. -/
def ingestDecimal (raw : RawDecimal) (unit : MarketUnit) :
    Except BarRejectionReason DecimalValue :=
  match DecimalValue.new raw.coefficient raw.scale unit.ref with
  | .error _ => .error .invalidValue
  | .ok value =>
    if unit.scale < value.scale ∨
        unit.precision < (Nat.toDigits 10 value.coefficient.natAbs).length then
      .error .precisionExceeded
    else .ok value

/-- A decimal field of a row. -/
def decimalField (row : RawBarRow) (unit : MarketUnit) (field : String) (raw : RawDecimal) :
    Except RowError DecimalValue :=
  (ingestDecimal raw unit).mapError fun reason => reject row reason (some field)

/-- An optional decimal field of a row. -/
def optionalField (row : RawBarRow) (unit : MarketUnit) (field : String) :
    Option RawDecimal → Except RowError (Option DecimalValue)
  | none => .ok none
  | some raw => some <$> decimalField row unit field raw

/-- The prices of a row: all four, or none. -/
def rowPrices (request : CanonicalBarIngestRequest) (raw : RawBarRow) :
    Except RowError (Option BarPrices) :=
  match raw.open_, raw.high, raw.low, raw.close with
  | some opens, some high, some low, some close => do
    let opens ← decimalField raw request.priceUnit "open" opens
    let high ← decimalField raw request.priceUnit "high" high
    let low ← decimalField raw request.priceUnit "low" low
    let close ← decimalField raw request.priceUnit "close" close
    pure (some ⟨opens, high, low, close⟩)
  | none, none, none, none => .ok none
  | _, _, _, _ => .error (reject raw .inconsistentOhlc none)

/-- The yield of a row, which needs a yield unit. -/
def rowYield (request : CanonicalBarIngestRequest) (raw : RawBarRow) :
    Except RowError (Option DecimalValue) :=
  match raw.closeYield, request.yieldUnit with
  | none, _ => .ok none
  | some value, some unit => some <$> decimalField raw unit "close_yield" value
  | some _, none => .error (reject raw .invalidValue (some "close_yield"))

/-- The reason for a rule that a bar violates. -/
def BarRuleViolation.reason : BarRuleViolation → BarRejectionReason
  | misalignedInterval => .misalignedInterval
  | inconsistentOhlc => .inconsistentOhlc
  | negativeVolume => .negativeVolume
  | observedAfterVisible => .observedAfterVisible
  | invalidValue => .invalidValue

/-- When the bar of a row became known: its own field, or a delay after its end. -/
def rowVisibility (rule : BarVisibilityRule) (raw : RawBarRow) (barEnd : DateTime) :
    Except RowError DateTime :=
  match rule with
  | .sourceField => required raw raw.visibleAt "visible_at"
  | .fixedDelay delay =>
    match barEnd.add? delay with
    | some visibleAt => .ok visibleAt
    | none => .error .overflow

/-- The bar of a row whose times and instrument are settled. -/
def rowBar (clock : MarketClock) (request : CanonicalBarIngestRequest) (raw : RawBarRow)
    (instrument : VersionRef) (frequency : BarFrequency) (settlement : BarSettlement)
    (volume : RawDecimal) (barStart barEnd visibleAt : DateTime) (tradingDate : NaiveDate) :
    Except RowError Bar := do
  let prices ← rowPrices request raw
  let closeYield ← rowYield request raw
  let volume ← decimalField raw request.amountUnit "volume" volume
  let turnover ← optionalField raw request.amountUnit "turnover" raw.turnover
  let vwap ← optionalField raw request.priceUnit "vwap" raw.vwap
  let input : BarInput :=
    { sourceRecordId := raw.sourceRecordId.getD "", instrument, frequency, settlement
      marketTimezone, localTradingDate := tradingDate, barStart, barEnd, visibleAt, prices, volume
      turnover, tradeCount := raw.tradeCount, vwap, closeYield }
  answered .overflow (fun violation => reject raw violation.reason none) (Bar.new clock input)

/-- The market time of the end of a bar, with its local date. -/
def observedTime (clock : MarketClock) (zone : String) (raw : RawBarRow) (barEnd : DateTime) :
    Except RowError MarketTime :=
  match clock.localDate zone barEnd with
  | none => .error .overflow
  | some date =>
    answered .overflow (fun _ => reject raw .invalidValue none)
      (MarketTime.new clock.toZoneTable barEnd marketTimezone date)

/-- `validate_row`: `none` for a valid row outside the window. -/
def validateRow (clock : MarketClock) (request : CanonicalBarIngestRequest)
    (rule : BarVisibilityRule) (raw : RawBarRow) : Except RowError (Option Bar) :=
  match raw.invalidField with
  | some field => .error (reject raw .invalidValue (some field))
  | none => do
    let _ ← required raw raw.sourceRecordId "source_record_id"
    let instrumentKey ← required raw raw.instrumentKey "instrument_key"
    let frequency ← required raw raw.frequency "frequency"
    let settlement ← required raw raw.settlement "settlement"
    let volume ← required raw raw.volume "volume"
    let zone ← rowZone clock raw
    let (barStart, barEnd, tradingDate) ← interval clock zone request frequency raw
    let visibleAt ← rowVisibility rule raw barEnd
    if visibleAt < barEnd then .error (reject raw .observedAfterVisible none)
    else if request.window.asOf.instant < barEnd ∨
        request.window.visibleAtCutoff.instant < visibleAt then .ok none
    else do
      let observed ← observedTime clock zone raw barEnd
      match request.mapping.resolve instrumentKey observed.instant with
      | none => .error (reject raw .unmappedInstrument (some "instrument_key"))
      | some instrument =>
        some <$> rowBar clock request raw instrument frequency settlement volume barStart barEnd
          visibleAt tradingDate

/-! ### Duplicates and order -/

/-- The key of a bar: instrument, frequency, settlement and start. -/
def Bar.duplicateKey (bar : Bar) : VersionRef × BarFrequency × BarSettlement × DateTime :=
  (bar.instrument, bar.frequency, bar.settlement, bar.barStart)

/-- A bar whose key or record identifier occurs more than once. -/
def isDuplicate (accepted : List Bar) (bar : Bar) : Bool :=
  1 < accepted.countP (fun other => other.duplicateKey = bar.duplicateKey) ∨
    1 < accepted.countP (fun other => other.sourceRecordId = bar.sourceRecordId)

/-- The place of a frequency in the order of declaration. -/
def BarFrequency.rank : BarFrequency → ℕ
  | m1 => 0 | m5 => 1 | m15 => 2 | m30 => 3 | h1 => 4 | d1 => 5

/-- The place of a settlement type in the order of declaration. -/
def BarSettlement.rank : BarSettlement → ℕ
  | t0 => 0 | t1 => 1 | unspecified => 2

/-- The canonical order of bars. -/
def Bar.sortKey (bar : Bar) : DateTime ×ₗ String ×ₗ ℕ ×ₗ ℕ ×ₗ String :=
  toLex (bar.barStart, toLex (bar.instrument.id.text, toLex (bar.frequency.rank,
    toLex (bar.settlement.rank, bar.sourceRecordId))))

/-- `reject_duplicates`: the bars that are kept, in canonical order, and the rejections. -/
def rejectDuplicates (accepted : List Bar) : List Bar × List BarRejection :=
  ((accepted.filter fun bar => !isDuplicate accepted bar).insertionSort fun a b =>
      a.sortKey ≤ b.sortKey,
    (accepted.filter (isDuplicate accepted)).map fun bar =>
      ⟨bar.sourceRecordId, .duplicateBar, none⟩)

/-! ### The batch -/

/-- The coefficient and the scale of a decimal, in a column each. -/
structure DecimalCells where
  coefficient : Option String
  scale : Option ℕ
  deriving DecidableEq

/-- One row of `ficant.market.bar.canonical.v1`: times in microseconds and dates in days since
    1970. -/
structure BarRecord where
  tenantId : String
  ownerId : String
  dataSourceId : String
  dataSourceVersion : ℕ
  priceSourceType : String
  sourceRecordId : String
  instrumentId : String
  instrumentVersion : ℕ
  frequency : String
  settlement : String
  barStart : ℤ
  barEnd : ℤ
  observedAt : ℤ
  visibleAt : ℤ
  localTradingDate : ℤ
  open_ : DecimalCells
  high : DecimalCells
  low : DecimalCells
  close : DecimalCells
  priceUnitId : String
  priceUnitVersion : ℕ
  volume : DecimalCells
  turnover : DecimalCells
  amountUnitId : String
  amountUnitVersion : ℕ
  tradeCount : Option ℕ
  vwap : DecimalCells
  closeYield : DecimalCells
  yieldUnitId : Option String
  yieldUnitVersion : Option ℕ
  deriving DecidableEq

/-- `price_source_code`. -/
def priceSourceCode : PriceSourceType → String
  | .realTrade => "REAL_TRADE"
  | .activeQuote => "ACTIVE_QUOTE"
  | .modelValuation => "MODEL_VALUATION"
  | .curveInterpolation => "CURVE_INTERPOLATION"

/-- `price_source_from_code`. -/
def priceSourceFromCode (code : String) : Option PriceSourceType :=
  [.realTrade, .activeQuote, .modelValuation, .curveInterpolation].find? fun value =>
    priceSourceCode value = code

/-- The two cells of an optional decimal. -/
def decimalCells (value : Option DecimalValue) : DecimalCells :=
  ⟨value.map DecimalValue.coefficientText, value.map DecimalValue.scale⟩

/-- Days since 1970, as a 32-bit number. -/
def daysSinceEpoch (date : NaiveDate) : Except DataError ℤ :=
  let days := date.dayNumber - epochDay
  if -2 ^ 31 ≤ days ∧ days < 2 ^ 31 then .ok days else .error .invalidConfiguration

/-- One row of the batch. -/
def encodeRecord (request : CanonicalBarIngestRequest) (priceSource : PriceSourceType) (bar : Bar) :
    Except DataError BarRecord := do
  let localTradingDate ← daysSinceEpoch bar.localTradingDate
  pure
    { tenantId := request.source.owner.tenantId.text
      ownerId := request.source.owner.ownerId.text
      dataSourceId := request.source.dataSourceId.text
      dataSourceVersion := request.source.version.value
      priceSourceType := priceSourceCode priceSource
      sourceRecordId := bar.sourceRecordId
      instrumentId := bar.instrument.id.text
      instrumentVersion := bar.instrument.version.value
      frequency := bar.frequency.code
      settlement := bar.settlement.code
      barStart := bar.barStart.timestampMicros
      barEnd := bar.barEnd.timestampMicros
      observedAt := bar.barEnd.timestampMicros
      visibleAt := bar.visibleAt.timestampMicros
      localTradingDate
      open_ := decimalCells (bar.prices.map BarPrices.open_)
      high := decimalCells (bar.prices.map BarPrices.high)
      low := decimalCells (bar.prices.map BarPrices.low)
      close := decimalCells (bar.prices.map BarPrices.close)
      priceUnitId := request.priceUnit.unitId.text
      priceUnitVersion := request.priceUnit.version.value
      volume := decimalCells (some bar.volume)
      turnover := decimalCells bar.input.turnover
      amountUnitId := request.amountUnit.unitId.text
      amountUnitVersion := request.amountUnit.version.value
      tradeCount := bar.input.tradeCount
      vwap := decimalCells bar.vwap
      closeYield := decimalCells bar.closeYield
      yieldUnitId := bar.closeYield.bind fun _ => request.yieldUnit.map fun unit => unit.unitId.text
      yieldUnitVersion := bar.closeYield.bind fun _ =>
        request.yieldUnit.map fun unit => unit.version.value }

/-- `encode_batch`. -/
def encodeBatch (request : CanonicalBarIngestRequest) (bars : List Bar) :
    Except DataError (List BarRecord) :=
  match request.source.priceSourceType with
  | none => .error .invalidConfiguration
  | some priceSource => bars.mapM (encodeRecord request priceSource)

/-! ### The import -/

/-- `BarIngestReport`. -/
structure BarIngestReport where
  ruleSetId : String
  visibilityRule : String
  readRows : ℕ
  outsideWindowRows : ℕ
  emittedRows : ℕ
  rejections : List BarRejection
  deriving DecidableEq

/-- `CanonicalBarBatch`. -/
structure CanonicalBarBatch where
  batch : List BarRecord
  schemaHash : ContentHash
  report : BarIngestReport

/-- The rows of a source, sorted into buckets. -/
structure BarSelection where
  accepted : List Bar
  outsideWindowRows : ℕ
  rejections : List BarRejection

/-- One row goes to its bucket. -/
def BarSelection.add (clock : MarketClock) (request : CanonicalBarIngestRequest)
    (rule : BarVisibilityRule) (selection : BarSelection) (raw : RawBarRow) :
    Except DataError BarSelection :=
  match validateRow clock request rule raw with
  | .ok (some bar) => .ok { selection with accepted := selection.accepted ++ [bar] }
  | .ok none => .ok { selection with outsideWindowRows := selection.outsideWindowRows + 1 }
  | .error (.rejected rejection) =>
    .ok { selection with rejections := selection.rejections ++ [rejection] }
  | .error .overflow => .error .overflow

/-- The bars that an import accepts, in canonical order, and its report. -/
def acceptBars (clock : MarketClock) (request : CanonicalBarIngestRequest)
    (rule : BarVisibilityRule) (rows : List RawBarRow) :
    Except DataError (List Bar × BarIngestReport) := do
  let selection ← rows.foldlM (BarSelection.add clock request rule) ⟨[], 0, []⟩
  let (accepted, duplicates) := rejectDuplicates selection.accepted
  let rejections := (selection.rejections ++ duplicates).insertionSort fun a b => a.key ≤ b.key
  pure (accepted,
    { ruleSetId := barQualityRuleSetId, visibilityRule := rule.describe
      readRows := rows.length, outsideWindowRows := selection.outsideWindowRows
      emittedRows := accepted.length, rejections })

/-- `CanonicalBarIngestor::ingest`, on the rows that the adapter reads. -/
def CanonicalBarIngestor.ingest (clock : MarketClock) (schemaHash : ContentHash)
    (request : CanonicalBarIngestRequest) (rule : BarVisibilityRule) (rows : List RawBarRow) :
    Except DataError CanonicalBarBatch := do
  let (accepted, report) ← acceptBars clock request rule rows
  if accepted.isEmpty then .error (.noAcceptedBars report.rejections)
  else
    let batch ← encodeBatch request accepted
    pure ⟨batch, schemaHash, report⟩

end Ficant
