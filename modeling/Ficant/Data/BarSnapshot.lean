import Ficant.Data.BarIngest
import Ficant.Primitives.EpochDate
import Ficant.Primitives.HashText
import Ficant.Research.ExperimentRun

namespace Ficant

open Lib

/-!
# Bar snapshots

A data snapshot of bars: a Parquet payload, a manifest that binds it, and the domain snapshot with
the hashes of both (`ficant-data/src/bar_snapshot.rs`).

* `BarSnapshotCodec.build` — from an imported batch to the three parts;
* `decodeBars` — every row is rebuilt as a domain bar and checked against the manifest;
* `BarSnapshotCodec.decodeVerified` — the three parts are verified against each other and decoded;
* `VerifiedBarSnapshot.visibleAt` — the bars known at a decision time.

Parquet, JSON, SHA-256 and chrono's texts are third-party code: they are the fields of
`SnapshotFormat`.
-/

/-! ### The manifest -/

/-- `ExactVersion`. -/
structure ExactVersion where
  id : String
  version : ℕ
  deriving DecidableEq

/-- The derived `Ord` of `ExactVersion`. -/
def ExactVersion.key (v : ExactVersion) : String ×ₗ ℕ := toLex (v.id, v.version)

/-- `BarParquetPayload`. -/
structure BarParquetPayload where
  contentHash : String
  size : ℕ
  rowCount : ℕ
  deriving DecidableEq

/-- `BarPointInTime`. -/
structure BarPointInTime where
  asOf : String
  visibleAtCutoff : String
  marketTimezone : String
  deriving DecidableEq

/-- `ManifestRejection`. -/
structure ManifestRejection where
  rowId : String
  reason : String
  field : Option String
  deriving DecidableEq

/-- The derived `Ord` of `ManifestRejection`: the reason is compared as text. -/
def ManifestRejection.key (r : ManifestRejection) : String ×ₗ String ×ₗ WithBot String :=
  toLex (r.rowId, toLex (r.reason, r.field))

/-- `BarQualityBinding`. -/
structure BarQualityBinding where
  ruleSetId : String
  visibilityRule : String
  readRows : ℕ
  outsideWindowRows : ℕ
  emittedRows : ℕ
  rejections : List ManifestRejection
  deriving DecidableEq

/-- `BarUnits`. -/
structure BarUnits where
  price : ExactVersion
  amount : ExactVersion
  yieldUnit : Option ExactVersion
  deriving DecidableEq

/-- `ParquetWriterBinding`. -/
structure ParquetWriterBinding where
  library : String
  version : String
  createdBy : String
  compression : String
  dictionary : Bool
  writerVersion : String
  dataPageVersion : String
  rowGroups : ℕ
  writeBatchSize : ℕ
  dataPageRowLimit : ℕ
  deriving DecidableEq

/-- `BarSnapshotManifest`. -/
structure BarSnapshotManifest where
  manifestSchema : String
  snapshotId : String
  tenantId : String
  ownerId : String
  canonicalSchemaId : String
  canonicalSchemaHash : String
  parquet : BarParquetPayload
  pointInTime : BarPointInTime
  dataSource : ExactVersion
  instrumentMappingId : String
  instrumentMappingDigest : String
  calendar : ExactVersion
  units : BarUnits
  instruments : List ExactVersion
  quality : BarQualityBinding
  writer : ParquetWriterBinding
  deriving DecidableEq

/-- `writer_binding`. -/
def writerBinding : ParquetWriterBinding :=
  { library := "apache-arrow-rs-parquet", version := "59.1.0", createdBy := "ficant-parquet/59.1.0"
    compression := "UNCOMPRESSED", dictionary := false, writerVersion := "PARQUET_2_0"
    dataPageVersion := "DATA_PAGE_V2", rowGroups := 1, writeBatchSize := 1024
    dataPageRowLimit := 20000 }

/-- `BAR_SNAPSHOT_MANIFEST_SCHEMA_ID`. -/
def barSnapshotManifestSchemaId : String := "ficant.data.bar-snapshot-manifest.v1"

/-- The third-party formats that a snapshot rests on. -/
structure SnapshotFormat where
  clock : MarketClock
  digest : List UInt8 → ContentHash
  /-- `canonical_bar_schema_hash()`. -/
  schemaHash : ContentHash
  /-- chrono's RFC 3339 text with microseconds. -/
  timestamp : DateTime → String
  encodeParquet : List BarRecord → List UInt8
  /-- `decode_parquet_with_schema` for the bar schema and a number of rows. -/
  decodeParquet : List UInt8 → ℕ → Option (List BarRecord)
  toJson : BarSnapshotManifest → List UInt8
  fromJson : List UInt8 → Option BarSnapshotManifest

/-- `manifest_bytes`. -/
def SnapshotFormat.manifestBytes (format : SnapshotFormat) (manifest : BarSnapshotManifest) :
    List UInt8 :=
  format.toJson manifest ++ [10]

/-- The formats return what was written. -/
structure SnapshotFormat.Faithful (format : SnapshotFormat) : Prop where
  parquet : ∀ batch, batch ≠ [] →
    format.decodeParquet (format.encodeParquet batch) batch.length = some batch
  json : ∀ manifest, format.fromJson (format.manifestBytes manifest) = some manifest

/-! ### The domain snapshot -/

/-- `DataSnapshot`. -/
structure DataSnapshot where
  dataSnapshotId : Ulid
  owner : OwnerRef
  visibleAt : MarketTime
  asOf : MarketTime
  schemaHash : ContentHash
  manifestHash : ContentHash
  blobContentHash : ContentHash
  lineage : List LineageRef
  deriving DecidableEq

/-- `DataSnapshot::new`. -/
def DataSnapshot.new (input : DataSnapshot) : Except DomainErrorCode DataSnapshot :=
  if input.visibleAt.instant < input.asOf.instant then .error .invalidEffectiveTime
  else if input.lineage.isEmpty then .error .brokenLineage
  else .ok input

/-- `CanonicalSnapshotPackage`. -/
structure CanonicalSnapshotPackage where
  snapshot : DataSnapshot
  parquet : List UInt8
  manifest : List UInt8

/-- The error of a snapshot whose parts do not fit. -/
def integrity {α : Type} (value : Option α) : Except DataError α :=
  match value with
  | some value => .ok value
  | none => .error .snapshotIntegrityFailed

theorem integrity_eq_ok {α : Type} {value : Option α} {a : α} :
    integrity value = .ok a ↔ value = some a := by
  cases value <;> simp [integrity]

/-- `version_ref`. -/
def versionRef (value : ExactVersion) : Except DataError VersionRef := do
  let id ← integrity (Ulid.new value.id).toOption
  let version ← integrity (Version.new value.version).toOption
  pure ⟨id, version⟩

/-- `unit_ref`. -/
def unitRef (value : ExactVersion) : Except DataError UnitRef := do
  let reference ← versionRef value
  pure ⟨reference.id, reference.version⟩

/-- A versioned lineage reference. -/
def versionedLineage (value : ExactVersion) : Except DataError LineageRef := do
  let reference ← versionRef value
  pure ⟨reference.id, some reference.version, none⟩

/-- Neighbours in a list are strictly increasing. -/
def strictlyIncreasing (values : List ExactVersion) : Bool :=
  (values.zip values.tail).all fun pair => pair.1.key < pair.2.key

/-- `manifest_lineage`. -/
def manifestLineage (manifest : BarSnapshotManifest) : Except DataError (List LineageRef) := do
  let source ← versionedLineage manifest.dataSource
  let mappingId ← integrity (Ulid.new manifest.instrumentMappingId).toOption
  let mappingHash ← integrity (parseHash manifest.instrumentMappingDigest)
  let calendar ← versionedLineage manifest.calendar
  let price ← versionedLineage manifest.units.price
  let amount ← versionedLineage manifest.units.amount
  let yieldUnit ← manifest.units.yieldUnit.toList.mapM versionedLineage
  if !strictlyIncreasing manifest.instruments then .error .snapshotIntegrityFailed
  else
    let instruments ← manifest.instruments.mapM versionedLineage
    if manifest.instruments.isEmpty then .error .snapshotIntegrityFailed
    else pure ([source, ⟨mappingId, none, some mappingHash⟩, calendar, price, amount] ++ yieldUnit ++
      instruments)

/-! ### Quality -/

/-- `validate_quality`: every source row lands in exactly one bucket. -/
def validateQuality (manifest : BarSnapshotManifest) : Except DataError Unit :=
  let quality := manifest.quality
  if quality.ruleSetId ≠ barQualityRuleSetId ∨ quality.emittedRows ≠ manifest.parquet.rowCount ∨
      manifest.parquet.rowCount = 0 ∨
      quality.emittedRows + quality.outsideWindowRows + quality.rejections.length ≠
        quality.readRows ∨
      !((quality.rejections.zip quality.rejections.tail).all fun pair =>
        pair.1.key ≤ pair.2.key) ∨
      quality.rejections.any (fun item => BarRejectionReason.fromCode item.reason = none) ∨
      ¬(quality.visibilityRule = "source-field" ∨
        "fixed-delay:".toList <+: quality.visibilityRule.toList) then
    .error .snapshotIntegrityFailed
  else .ok ()

/-! ### Bars from rows -/

/-- `batch_instruments`. -/
def batchInstruments (batch : List BarRecord) : List ExactVersion :=
  (SortedMap.sortedSet (batch.map fun row =>
    toLex (row.instrumentId, row.instrumentVersion))).map fun key => ⟨(ofLex key).1, (ofLex key).2⟩

/-- `decimal_column`. -/
def decimalColumn (cells : DecimalCells) (unit : UnitRef) : Except DataError (Option DecimalValue) :=
  match cells.coefficient, cells.scale with
  | none, none => .ok none
  | some coefficient, some scale =>
    match DecimalValue.new coefficient scale unit with
    | .ok value => .ok (some value)
    | .error _ => .error .snapshotIntegrityFailed
  | _, _ => .error .snapshotIntegrityFailed

/-- `DateTime::from_timestamp_micros`. -/
def DateTime.fromTimestampMicros (micros : ℤ) : Option DateTime :=
  fromTimestamp (micros / 1000000) ((micros % 1000000).toNat * 1000)

/-- `epoch_date`. -/
def epochDate (days : ℤ) : Option NaiveDate := NaiveDate.ofDayNumber (days + epochDay)

/-- The identifiers and versions of a row are those of the manifest. -/
def BarRecord.bound (row : BarRecord) (manifest : BarSnapshotManifest) : Bool :=
  row.tenantId = manifest.tenantId ∧ row.ownerId = manifest.ownerId ∧
    row.dataSourceId = manifest.dataSource.id ∧
    row.dataSourceVersion = manifest.dataSource.version ∧
    row.priceUnitId = manifest.units.price.id ∧
    row.priceUnitVersion = manifest.units.price.version ∧
    row.amountUnitId = manifest.units.amount.id ∧
    row.amountUnitVersion = manifest.units.amount.version

/-- The yield of a row, where the manifest has a yield unit. -/
def yieldColumn (yieldUnit : Option UnitRef) (row : BarRecord) :
    Except DataError (Option DecimalValue) :=
  match yieldUnit with
  | some unit => decimalColumn row.closeYield unit
  | none => .ok none

/-- The yield unit of a row is that of the manifest, or there is neither yield nor unit. -/
def BarRecord.yieldBound (row : BarRecord) (closeYield : Option DecimalValue)
    (yieldUnit : Option ExactVersion) : Bool :=
  match closeYield, yieldUnit with
  | some _, some unit =>
    row.yieldUnitId.getD "" = unit.id ∧ row.yieldUnitVersion.getD 0 = unit.version
  | none, _ => row.yieldUnitId = none ∧ row.yieldUnitVersion = none
  | some _, none => false

/-- The yield of a row and the unit beside it. -/
def decodeYield (manifest : BarSnapshotManifest) (yieldUnit : Option UnitRef) (row : BarRecord) :
    Except DataError (Option DecimalValue) := do
  let closeYield ← yieldColumn yieldUnit row
  if !row.yieldBound closeYield manifest.units.yieldUnit ∨
      (yieldUnit = none ∧ row.closeYield.coefficient.isSome) then
    .error .snapshotIntegrityFailed
  else pure closeYield

/-- The prices of a row: all four, or none. -/
def decodePrices (priceUnit : UnitRef) (row : BarRecord) : Except DataError (Option BarPrices) := do
  let opens ← decimalColumn row.open_ priceUnit
  let high ← decimalColumn row.high priceUnit
  let low ← decimalColumn row.low priceUnit
  let close ← decimalColumn row.close priceUnit
  match opens, high, low, close with
  | some opens, some high, some low, some close => pure (some ⟨opens, high, low, close⟩)
  | none, none, none, none => pure none
  | _, _, _, _ => .error .snapshotIntegrityFailed

/-- The units of a manifest, as references. -/
structure BoundUnits where
  price : UnitRef
  amount : UnitRef
  yieldUnit : Option UnitRef

/-- The reference of an optional unit. -/
def optionalUnitRef : Option ExactVersion → Except DataError (Option UnitRef)
  | some value => some <$> unitRef value
  | none => .ok none

/-- The unit references of a manifest. -/
def boundUnits (manifest : BarSnapshotManifest) : Except DataError BoundUnits := do
  let price ← unitRef manifest.units.price
  let amount ← unitRef manifest.units.amount
  let yieldUnit ← optionalUnitRef manifest.units.yieldUnit
  pure ⟨price, amount, yieldUnit⟩

/-- The `instants` of a row: start, end, observed at and visible at. -/
def rowInstants (row : BarRecord) :
    Except DataError (DateTime × DateTime × DateTime × DateTime) := do
  let barStart ← integrity (DateTime.fromTimestampMicros row.barStart)
  let barEnd ← integrity (DateTime.fromTimestampMicros row.barEnd)
  let observedAt ← integrity (DateTime.fromTimestampMicros row.observedAt)
  let visibleAt ← integrity (DateTime.fromTimestampMicros row.visibleAt)
  pure (barStart, barEnd, observedAt, visibleAt)

theorem rowInstants_eq_ok {row : BarRecord} {barStart barEnd observedAt visibleAt : DateTime} :
    rowInstants row = .ok (barStart, barEnd, observedAt, visibleAt) ↔
      DateTime.fromTimestampMicros row.barStart = some barStart ∧
        DateTime.fromTimestampMicros row.barEnd = some barEnd ∧
        DateTime.fromTimestampMicros row.observedAt = some observedAt ∧
        DateTime.fromTimestampMicros row.visibleAt = some visibleAt := by
  simp only [rowInstants, bind_eq_ok, integrity_eq_ok, pure, Except.pure, Except.ok.injEq,
    Prod.mk.injEq]
  constructor
  · rintro ⟨start, hstart, ends, hend, observed, hobserved, visible, hvisible, rfl, rfl, rfl, rfl⟩
    exact ⟨hstart, hend, hobserved, hvisible⟩
  · rintro ⟨hstart, hend, hobserved, hvisible⟩
    exact ⟨_, hstart, _, hend, _, hobserved, _, hvisible, rfl, rfl, rfl, rfl⟩

/-- One row of `decode_bars`; a local date that leaves chrono's range is the error `overflow`. -/
def decodeRow (clock : MarketClock) (manifest : BarSnapshotManifest) (units : BoundUnits)
    (asOf visibleCutoff : DateTime) (row : BarRecord) : Except DataError Bar := do
  let (barStart, barEnd, observedAt, visibleAt) ← rowInstants row
  if !row.bound manifest ∨ observedAt ≠ barEnd ∨ asOf < barEnd ∨ visibleCutoff < visibleAt then
    .error .snapshotIntegrityFailed
  else do
    let closeYield ← decodeYield manifest units.yieldUnit row
    let prices ← decodePrices units.price row
    let instrument ← versionRef ⟨row.instrumentId, row.instrumentVersion⟩
    let frequency ← integrity (BarFrequency.fromCode row.frequency)
    let settlement ← integrity (BarSettlement.fromCode row.settlement)
    let localTradingDate ← integrity (epochDate row.localTradingDate)
    let volume ← decimalColumn row.volume units.amount
    let volume ← integrity volume
    let turnover ← decimalColumn row.turnover units.amount
    let vwap ← decimalColumn row.vwap units.price
    let input : BarInput :=
      { sourceRecordId := row.sourceRecordId, instrument, frequency, settlement, marketTimezone
        localTradingDate, barStart, barEnd, visibleAt, prices, volume, turnover
        tradeCount := row.tradeCount, vwap, closeYield }
    answered .overflow (fun _ => .snapshotIntegrityFailed) (Bar.new clock input)

/-- `decode_bars`. -/
def decodeBars (clock : MarketClock) (manifest : BarSnapshotManifest) (batch : List BarRecord)
    (asOf visibleCutoff : DateTime) : Except DataError (List Bar) :=
  if batch.length ≠ manifest.parquet.rowCount then .error .schemaMismatch
  else if batchInstruments batch ≠ manifest.instruments then .error .snapshotIntegrityFailed
  else do
    let units ← boundUnits manifest
    -- the columns of instants are read whole, before the first row is rebuilt
    let _ ← batch.mapM rowInstants
    batch.mapM (decodeRow clock manifest units asOf visibleCutoff)

/-- One row of `single_price_source`: it agrees with the rows before it. -/
def agreeOnSource (found : Option PriceSourceType) (row : BarRecord) :
    Except DataError (Option PriceSourceType) := do
  let value ← integrity (priceSourceFromCode row.priceSourceType)
  if found.any (· ≠ value) then .error .snapshotIntegrityFailed else pure (some value)

/-- `single_price_source`: the one price source of all rows. -/
def singlePriceSource (batch : List BarRecord) : Except DataError PriceSourceType := do
  let found ← batch.foldlM agreeOnSource none
  integrity found

/-! ### Build and decode -/

/-- The exact version of a unit. -/
def MarketUnit.exact (unit : MarketUnit) : ExactVersion := ⟨unit.unitId.text, unit.version.value⟩

/-- `request_units`. -/
def requestUnits (request : CanonicalBarIngestRequest) : BarUnits :=
  ⟨request.priceUnit.exact, request.amountUnit.exact, request.yieldUnit.map MarketUnit.exact⟩

/-- The manifest of a batch, before its payload is encoded. -/
def snapshotManifest (format : SnapshotFormat) (snapshotId : Ulid)
    (request : CanonicalBarIngestRequest) (canonical : CanonicalBarBatch) : BarSnapshotManifest :=
  let report := canonical.report
  { manifestSchema := barSnapshotManifestSchemaId
    snapshotId := snapshotId.text
    tenantId := request.source.owner.tenantId.text
    ownerId := request.source.owner.ownerId.text
    canonicalSchemaId := canonicalBarSchemaId
    canonicalSchemaHash := hashHex format.schemaHash
    parquet := ⟨"", 0, canonical.batch.length⟩
    pointInTime := ⟨format.timestamp request.window.asOf.instant,
      format.timestamp request.window.visibleAtCutoff.instant, request.window.asOf.marketTimezone⟩
    dataSource := ⟨request.source.dataSourceId.text, request.source.version.value⟩
    instrumentMappingId := request.mapping.mappingId.text
    instrumentMappingDigest := hashHex request.mapping.contentHash
    calendar := ⟨request.calendar.calendarId.text, request.calendar.version.value⟩
    units := requestUnits request
    instruments := batchInstruments canonical.batch
    quality := ⟨report.ruleSetId, report.visibilityRule, report.readRows, report.outsideWindowRows,
      report.emittedRows, report.rejections.map fun item =>
        ⟨item.rowId, item.reason.code, item.field⟩⟩
    writer := writerBinding }

/-- The manifest with its payload. -/
def BarSnapshotManifest.withPayload (format : SnapshotFormat) (manifest : BarSnapshotManifest)
    (parquet : List UInt8) : BarSnapshotManifest :=
  { manifest with
    parquet := ⟨hashHex (format.digest parquet), parquet.length, manifest.parquet.rowCount⟩ }

namespace BarSnapshotCodec

/-- `BarSnapshotCodec::build`. -/
def build (format : SnapshotFormat) (snapshotId : Ulid) (request : CanonicalBarIngestRequest)
    (canonical : CanonicalBarBatch) : Except DataError CanonicalSnapshotPackage :=
  if canonical.batch.isEmpty ∨ canonical.schemaHash ≠ format.schemaHash then .error .schemaMismatch
  else do
    let bare := snapshotManifest format snapshotId request canonical
    let _ ← decodeBars format.clock bare canonical.batch request.window.asOf.instant
      request.window.visibleAtCutoff.instant
    let parquet := format.encodeParquet canonical.batch
    let manifest := bare.withPayload format parquet
    validateQuality manifest
    let lineage ← manifestLineage manifest
    let snapshot ← (DataSnapshot.new
      { dataSnapshotId := snapshotId
        owner := request.source.owner
        visibleAt := request.window.visibleAtCutoff
        asOf := request.window.asOf
        schemaHash := format.schemaHash
        manifestHash := format.digest (format.manifestBytes manifest)
        blobContentHash := format.digest parquet
        lineage }).mapError fun _ => .snapshotIntegrityFailed
    pure ⟨snapshot, parquet, format.manifestBytes manifest⟩

end BarSnapshotCodec

/-- A verified snapshot with its bars, in the order of its rows; the manifest's texts are left out. -/
structure DecodedBarSnapshot where
  snapshot : DataSnapshot
  manifest : BarSnapshotManifest
  bars : List Bar
  priceSourceType : PriceSourceType

/-- `VerifiedBarSnapshot::visible_at`. -/
def DecodedBarSnapshot.visibleAt (verified : DecodedBarSnapshot) (decisionTime : DateTime) :
    Except DataError (List Bar) :=
  if verified.snapshot.visibleAt.instant < decisionTime then .error .pointInTimeViolation
  else .ok (verified.bars.filter fun bar => bar.visibleAt ≤ decisionTime)

/-- The manifest is that of the snapshot and its payload. -/
def BarSnapshotManifest.binds (format : SnapshotFormat) (manifest : BarSnapshotManifest)
    (snapshot : DataSnapshot) (parquet : List UInt8) : Bool :=
  manifest.manifestSchema = barSnapshotManifestSchemaId ∧
    manifest.snapshotId = snapshot.dataSnapshotId.text ∧
    manifest.tenantId = snapshot.owner.tenantId.text ∧
    manifest.ownerId = snapshot.owner.ownerId.text ∧
    manifest.canonicalSchemaId = canonicalBarSchemaId ∧
    manifest.canonicalSchemaHash = hashHex format.schemaHash ∧
    snapshot.schemaHash = format.schemaHash ∧
    manifest.parquet.contentHash = hashHex snapshot.blobContentHash ∧
    manifest.parquet.size = parquet.length ∧
    manifest.pointInTime.asOf = format.timestamp snapshot.asOf.instant ∧
    manifest.pointInTime.visibleAtCutoff = format.timestamp snapshot.visibleAt.instant ∧
    manifest.pointInTime.marketTimezone = marketTimezone ∧
    snapshot.asOf.marketTimezone = marketTimezone ∧ manifest.writer = writerBinding

/-- `BarSnapshotCodec::decode_verified`. -/
def BarSnapshotCodec.decodeVerified (format : SnapshotFormat) (snapshot : DataSnapshot)
    (parquet manifestBytes : List UInt8) : Except DataError DecodedBarSnapshot :=
  if format.digest parquet ≠ snapshot.blobContentHash ∨
      format.digest manifestBytes ≠ snapshot.manifestHash then .error .snapshotIntegrityFailed
  else do
    let manifest ← integrity (format.fromJson manifestBytes)
    if format.manifestBytes manifest ≠ manifestBytes ∨ !manifest.binds format snapshot parquet then
      .error .snapshotIntegrityFailed
    else do
      let lineage ← manifestLineage manifest
      if snapshot.lineage ≠ lineage then .error .snapshotIntegrityFailed
      else do
        validateQuality manifest
        let _ ← integrity (parseHash manifest.instrumentMappingDigest)
        let batch ← integrity (format.decodeParquet parquet manifest.parquet.rowCount)
        let bars ← decodeBars format.clock manifest batch snapshot.asOf.instant
          snapshot.visibleAt.instant
        let priceSourceType ← singlePriceSource batch
        pure ⟨snapshot, manifest, bars, priceSourceType⟩

end Ficant
