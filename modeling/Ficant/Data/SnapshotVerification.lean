import Ficant.Data.BarRoundTrip
import Ficant.Lib.StableSort

namespace Ficant

open Lib

/-!
# Verified snapshots

What the reader of a bar snapshot establishes, and what it leaves to the writer.

* `decodeVerified_eq_ok` — every check of the reader, in one statement;
* `DecodedFrom` — the fields of a decoded bar are the columns of its row;
* `canonicalBars_iff_canonicalRows` — the reader rebuilds rows one by one: the decoded bars are
  distinct and in canonical order exactly when the rows of the payload are.
-/

/-! ### The reader -/

/-- What it takes for the reader to accept a payload and a manifest. -/
structure Verifies (format : SnapshotFormat) (snapshot : DataSnapshot)
    (parquet manifestBytes : List UInt8) (verified : DecodedBarSnapshot) (batch : List BarRecord) :
    Prop where
  payload : format.digest parquet = snapshot.blobContentHash
  manifestHash : format.digest manifestBytes = snapshot.manifestHash
  parsed : format.fromJson manifestBytes = some verified.manifest
  canonical : format.manifestBytes verified.manifest = manifestBytes
  binds : verified.manifest.binds format snapshot parquet = true
  lineage : manifestLineage verified.manifest = .ok snapshot.lineage
  quality : validateQuality verified.manifest = .ok ()
  mapping : (parseHash verified.manifest.instrumentMappingDigest).isSome
  rows : format.decodeParquet parquet verified.manifest.parquet.rowCount = some batch
  bars : decodeBars format.clock verified.manifest batch snapshot.asOf.instant
    snapshot.visibleAt.instant = .ok verified.bars
  priceSource : singlePriceSource batch = .ok verified.priceSourceType
  ofSnapshot : verified.snapshot = snapshot

/-- **The reader.** It accepts exactly when every check passes. -/
theorem decodeVerified_eq_ok {format : SnapshotFormat} {snapshot : DataSnapshot}
    {parquet manifestBytes : List UInt8} {verified : DecodedBarSnapshot} :
    BarSnapshotCodec.decodeVerified format snapshot parquet manifestBytes = .ok verified ↔
      ∃ batch, Verifies format snapshot parquet manifestBytes verified batch := by
  unfold BarSnapshotCodec.decodeVerified
  constructor
  · intro h
    split at h
    · cases h
    rename_i hhashes
    push Not at hhashes
    -- The checks in the order in which the decoder makes them.
    obtain ⟨manifest, hmanifest, h⟩ := bind_eq_ok.mp h
    split at h
    · cases h
    rename_i hbinds
    push Not at hbinds
    obtain ⟨lineage, hlineage, h⟩ := bind_eq_ok.mp h
    split at h
    · cases h
    rename_i hsame
    rw [not_not] at hsame
    obtain ⟨⟨⟩, hquality, h⟩ := bind_eq_ok.mp h
    obtain ⟨mapping, hmapping, h⟩ := bind_eq_ok.mp h
    obtain ⟨batch, hbatch, h⟩ := bind_eq_ok.mp h
    obtain ⟨bars, hbars, h⟩ := bind_eq_ok.mp h
    obtain ⟨priceSource, hsource, h⟩ := bind_eq_ok.mp h
    obtain rfl := Except.ok.inj h
    refine ⟨batch, hhashes.1, hhashes.2, integrity_eq_ok.mp hmanifest, hbinds.1,
      by simpa using hbinds.2,
      hsame ▸ hlineage, hquality, ?_, integrity_eq_ok.mp hbatch, hbars, hsource, rfl⟩
    rw [integrity_eq_ok.mp hmapping]
    rfl
  -- Each check of the record answers the check of the same place.
  · rintro ⟨batch, h⟩
    obtain ⟨mapping, hmapping⟩ := Option.isSome_iff_exists.mp h.mapping
    rw [if_neg (by simp [h.payload, h.manifestHash]), integrity_eq_ok.mpr h.parsed, ok_bind,
      if_neg (by simp [h.canonical, h.binds]), h.lineage, ok_bind, if_neg (by simp), h.quality,
      ok_bind, integrity_eq_ok.mpr hmapping, ok_bind, integrity_eq_ok.mpr h.rows, ok_bind, h.bars,
      ok_bind, h.priceSource, ok_bind, ← h.ofSnapshot]
    rfl

/-! ### The writer -/

/-- The manifest of a package. -/
def packageManifest (format : SnapshotFormat) (snapshotId : Ulid)
    (request : CanonicalBarIngestRequest) (canonical : CanonicalBarBatch) : BarSnapshotManifest :=
  (snapshotManifest format snapshotId request canonical).withPayload format
    (format.encodeParquet canonical.batch)

/-- What it takes for a batch to be written; `bars` are what the writer decodes to check it. -/
structure Builds (format : SnapshotFormat) (snapshotId : Ulid) (request : CanonicalBarIngestRequest)
    (canonical : CanonicalBarBatch) (bars : List Bar) (lineage : List LineageRef) : Prop where
  rows : canonical.batch ≠ []
  schema : canonical.schemaHash = format.schemaHash
  bars : decodeBars format.clock (packageManifest format snapshotId request canonical)
    canonical.batch request.window.asOf.instant request.window.visibleAtCutoff.instant = .ok bars
  quality : validateQuality (packageManifest format snapshotId request canonical) = .ok ()
  lineage : manifestLineage (packageManifest format snapshotId request canonical) = .ok lineage

/-- The package of a batch. -/
def packageOf (format : SnapshotFormat) (snapshotId : Ulid) (request : CanonicalBarIngestRequest)
    (canonical : CanonicalBarBatch) (lineage : List LineageRef) : CanonicalSnapshotPackage :=
  let manifest := format.manifestBytes (packageManifest format snapshotId request canonical)
  let parquet := format.encodeParquet canonical.batch
  { snapshot :=
      { dataSnapshotId := snapshotId, owner := request.source.owner
        visibleAt := request.window.visibleAtCutoff, asOf := request.window.asOf
        schemaHash := format.schemaHash, manifestHash := format.digest manifest
        blobContentHash := format.digest parquet, lineage }
    parquet, manifest }

/-- A manifest traces to something. -/
theorem manifestLineage_ne_nil {manifest : BarSnapshotManifest} {lineage : List LineageRef}
    (h : manifestLineage manifest = .ok lineage) : lineage.isEmpty = false := by
  obtain ⟨source, -, h⟩ := bind_eq_ok.mp h
  obtain ⟨mappingId, -, h⟩ := bind_eq_ok.mp h
  obtain ⟨mappingHash, -, h⟩ := bind_eq_ok.mp h
  obtain ⟨calendar, -, h⟩ := bind_eq_ok.mp h
  obtain ⟨price, -, h⟩ := bind_eq_ok.mp h
  obtain ⟨amount, -, h⟩ := bind_eq_ok.mp h
  obtain ⟨yieldUnit, -, h⟩ := bind_eq_ok.mp h
  split at h
  · cases h
  obtain ⟨instruments, -, h⟩ := bind_eq_ok.mp h
  split at h
  · cases h
  obtain rfl := Except.ok.inj h
  rfl

section Package

variable {format : SnapshotFormat} {snapshotId : Ulid} {request : CanonicalBarIngestRequest}
  {canonical : CanonicalBarBatch}

/-- **The writer.** It succeeds exactly when its checks pass, with this package. -/
theorem build_eq_ok {package : CanonicalSnapshotPackage} :
    BarSnapshotCodec.build format snapshotId request canonical = .ok package ↔
      ∃ bars lineage, Builds format snapshotId request canonical bars lineage ∧
        package = packageOf format snapshotId request canonical lineage := by
  have hsame : ∀ asOf cutoff,
      decodeBars format.clock (snapshotManifest format snapshotId request canonical) canonical.batch
        asOf cutoff =
      decodeBars format.clock (packageManifest format snapshotId request canonical) canonical.batch
        asOf cutoff := fun _ _ => rfl
  unfold BarSnapshotCodec.build
  constructor
  · intro h
    split at h
    · cases h
    rename_i hbatch
    push Not at hbatch
    obtain ⟨bars, hbars, h⟩ := bind_eq_ok.mp h
    obtain ⟨⟨⟩, hquality, h⟩ := bind_eq_ok.mp h
    obtain ⟨lineage, hlineage, h⟩ := bind_eq_ok.mp h
    obtain ⟨snapshot, hsnapshot, h⟩ := bind_eq_ok.mp h
    refine ⟨bars, lineage, ⟨by simpa using hbatch.1, hbatch.2, hbars, hquality, hlineage⟩, ?_⟩
    have hsnapshot := mapError_eq_ok.mp hsnapshot
    unfold DataSnapshot.new at hsnapshot
    split at hsnapshot
    · cases hsnapshot
    split at hsnapshot
    · cases hsnapshot
    obtain rfl := Except.ok.inj hsnapshot
    exact (Except.ok.inj h).symm
  · rintro ⟨bars, lineage, hbuilds, rfl⟩
    have hlineage := hbuilds.lineage
    have hquality := hbuilds.quality
    rw [packageManifest] at hlineage hquality
    rw [if_neg (by simp [hbuilds.rows, hbuilds.schema])]
    simp only [hsame, hbuilds.bars, hquality, hlineage, ok_bind]
    -- the window is ordered and the lineage is not empty, so the domain accepts the snapshot
    rw [DataSnapshot.new, if_neg (not_lt.mpr request.window.ordered),
      if_neg (by simp [manifestLineage_ne_nil hbuilds.lineage])]
    rfl

/-- A package is read back: the bars are those that the writer decoded. -/
theorem decodeVerified_of_builds (hformat : format.Faithful) {bars : List Bar}
    {lineage : List LineageRef} (h : Builds format snapshotId request canonical bars lineage)
    (hzone : request.window.asOf.marketTimezone = marketTimezone) {priceSource : PriceSourceType}
    (hsource : singlePriceSource canonical.batch = .ok priceSource) :
    let package := packageOf format snapshotId request canonical lineage
    BarSnapshotCodec.decodeVerified format package.snapshot package.parquet package.manifest =
      .ok ⟨package.snapshot, packageManifest format snapshotId request canonical, bars,
        priceSource⟩ := by
  refine decodeVerified_eq_ok.mpr ⟨canonical.batch, ?_⟩
  constructor
  · rfl
  · rfl
  · exact hformat.json _
  · rfl
  · refine decide_eq_true ⟨rfl, rfl, rfl, rfl, rfl, rfl, rfl, rfl, rfl, rfl, rfl, hzone, hzone, rfl⟩
  · exact h.lineage
  · exact h.quality
  · show (parseHash (hashHex _)).isSome = true
    rw [parseHash_hashHex]
    rfl
  · exact hformat.parquet _ h.rows
  · exact h.bars
  · exact hsource
  · rfl

end Package

/-! ### A decoded bar and its row -/

/-- The fields of a decoded bar that the columns of its row give directly. -/
structure DecodedFrom (row : BarRecord) (bar : Bar) : Prop where
  recordId : bar.sourceRecordId = row.sourceRecordId
  instrument : bar.instrument.id.text = row.instrumentId
  version : bar.instrument.version.value = row.instrumentVersion
  frequency : BarFrequency.fromCode row.frequency = some bar.frequency
  settlement : BarSettlement.fromCode row.settlement = some bar.settlement
  start : DateTime.fromTimestampMicros row.barStart = some bar.barStart
  visible : DateTime.fromTimestampMicros row.visibleAt = some bar.visibleAt

/-- The text of an identifier is the one that was given. -/
theorem Ulid.text_of_new {value : String} {id : Ulid} (h : Ulid.new value = .ok id) :
    id.text = value := by
  unfold Ulid.new at h
  split at h
  · cases h
  split at h
  · simp only at h
    split at h
    · cases h
    · obtain rfl := Except.ok.inj h
      rename_i htext
      exact not_not.mp htext
  · cases h

/-- A reference is read from its text and its number. -/
theorem versionRef_eq_ok {value : ExactVersion} {reference : VersionRef}
    (h : versionRef value = .ok reference) :
    reference.id.text = value.id ∧ reference.version.value = value.version := by
  obtain ⟨id, hid, h⟩ := bind_eq_ok.mp h
  obtain ⟨version, hversion, h⟩ := bind_eq_ok.mp h
  obtain rfl := Except.ok.inj h
  have hid := integrity_eq_ok.mp hid
  have hversion := integrity_eq_ok.mp hversion
  -- What the constructors accept, they keep as text and number.
  constructor
  · cases hnew : Ulid.new value.id with
    | error e => rw [hnew] at hid; cases hid
    | ok made =>
      rw [hnew] at hid
      obtain rfl := Option.some.inj hid
      exact Ulid.text_of_new hnew
  · cases hnew : Version.new value.version with
    | error e => rw [hnew] at hversion; cases hversion
    | ok made =>
      rw [hnew] at hversion
      obtain rfl := Option.some.inj hversion
      exact Version.value_of_new hnew

/-- **What the reader makes of a row**: a bar with the fields of the row. -/
theorem decodedFrom_of_decodeRow {clock : MarketClock} {manifest : BarSnapshotManifest}
    {units : BoundUnits} {asOf visibleCutoff : DateTime} {row : BarRecord} {bar : Bar}
    (h : decodeRow clock manifest units asOf visibleCutoff row = .ok bar) : DecodedFrom row bar := by
  obtain ⟨⟨barStart, barEnd, observedAt, visibleAt⟩, hinstants, h⟩ := bind_eq_ok.mp h
  obtain ⟨hstart, -, -, hvisible⟩ := rowInstants_eq_ok.mp hinstants
  dsimp only at h
  split at h
  · cases h
  obtain ⟨closeYield, -, h⟩ := bind_eq_ok.mp h
  obtain ⟨prices, -, h⟩ := bind_eq_ok.mp h
  obtain ⟨instrument, hinstrument, h⟩ := bind_eq_ok.mp h
  obtain ⟨frequency, hfrequency, h⟩ := bind_eq_ok.mp h
  obtain ⟨settlement, hsettlement, h⟩ := bind_eq_ok.mp h
  obtain ⟨date, -, h⟩ := bind_eq_ok.mp h
  obtain ⟨column, -, h⟩ := bind_eq_ok.mp h
  obtain ⟨volume, -, h⟩ := bind_eq_ok.mp h
  obtain ⟨turnover, -, h⟩ := bind_eq_ok.mp h
  obtain ⟨vwap, -, h⟩ := bind_eq_ok.mp h
  obtain ⟨-, hinput⟩ := Bar.new_eq_ok.mp (answered_eq_ok.mp h)
  -- The bar keeps what the cells said; only the dates and prices are made anew.
  have hreference := versionRef_eq_ok hinstrument
  constructor
  · rw [Bar.sourceRecordId, hinput]
  · rw [Bar.instrument, hinput]
    exact hreference.1
  · rw [Bar.instrument, hinput]
    exact hreference.2
  · rw [Bar.frequency, hinput]
    exact integrity_eq_ok.mp hfrequency
  · rw [Bar.settlement, hinput]
    exact integrity_eq_ok.mp hsettlement
  · rw [Bar.barStart, hinput]
    exact hstart
  · rw [Bar.visibleAt, hinput]
    exact hvisible

/-- Every decoded bar comes from the row at its place. -/
theorem decodedFrom_of_decodeBars {clock : MarketClock} {manifest : BarSnapshotManifest}
    {batch : List BarRecord} {asOf visibleCutoff : DateTime} {bars : List Bar}
    (h : decodeBars clock manifest batch asOf visibleCutoff = .ok bars) :
    List.Forall₂ DecodedFrom batch bars := by
  unfold decodeBars at h
  split at h
  · cases h
  split at h
  · cases h
  obtain ⟨units, -, h⟩ := bind_eq_ok.mp h
  obtain ⟨instants, -, h⟩ := bind_eq_ok.mp h
  exact (mapM_eq_ok.mp h).imp fun row bar hrow => decodedFrom_of_decodeRow hrow

/-! ### Distinct keys and canonical order -/

/-- The rules of an import that concern pairs of bars: distinct keys, distinct record identifiers,
    canonical order. -/
structure CanonicalBars (bars : List Bar) : Prop where
  keys : bars.Pairwise fun a b => a.duplicateKey ≠ b.duplicateKey
  records : bars.Pairwise fun a b => a.sourceRecordId ≠ b.sourceRecordId
  order : bars.Pairwise fun a b => a.sortKey ≤ b.sortKey

namespace BarRecord

/-- The columns that make up the key of a bar. -/
def duplicateKey (row : BarRecord) : String × ℕ × String × String × ℤ :=
  (row.instrumentId, row.instrumentVersion, row.frequency, row.settlement, row.barStart)

/-- The columns of the canonical order. -/
def sortKey (row : BarRecord) : ℤ ×ₗ String ×ₗ ℕ ×ₗ ℕ ×ₗ String :=
  toLex (row.barStart, toLex (row.instrumentId,
    toLex (((BarFrequency.fromCode row.frequency).map BarFrequency.rank).getD 0,
      toLex (((BarSettlement.fromCode row.settlement).map BarSettlement.rank).getD 0,
        row.sourceRecordId))))

end BarRecord

/-- The same rules, on the rows of a payload. -/
structure CanonicalRows (rows : List BarRecord) : Prop where
  keys : rows.Pairwise fun a b => a.duplicateKey ≠ b.duplicateKey
  records : rows.Pairwise fun a b => a.sourceRecordId ≠ b.sourceRecordId
  order : rows.Pairwise fun a b => a.sortKey ≤ b.sortKey

/-- A code is the code of what it is read as. -/
theorem BarFrequency.code_of_fromCode {code : String} {value : BarFrequency}
    (h : BarFrequency.fromCode code = some value) : value.code = code := by
  simpa using List.find?_some h

theorem BarSettlement.code_of_fromCode {code : String} {value : BarSettlement}
    (h : BarSettlement.fromCode code = some value) : value.code = code := by
  simpa using List.find?_some h

/-- Two references with one text and one number are the same. -/
theorem VersionRef.eq_of_text {a b : VersionRef} (hid : a.id.text = b.id.text)
    (hversion : a.version.value = b.version.value) : a = b := by
  obtain ⟨id, value, _, _⟩ := a
  obtain ⟨id', value', _, _⟩ := b
  obtain rfl := Ulid.text_injective hid
  simp only at hversion
  subst hversion
  rfl

namespace DecodedFrom

variable {row row' : BarRecord} {a b : Bar}

theorem frequencyCode (h : DecodedFrom row a) : a.frequency.code = row.frequency :=
  BarFrequency.code_of_fromCode h.frequency

theorem settlementCode (h : DecodedFrom row a) : a.settlement.code = row.settlement :=
  BarSettlement.code_of_fromCode h.settlement

/-- Two rows start at one time exactly when their bars do. -/
theorem barStart_eq_iff (ha : DecodedFrom row a) (hb : DecodedFrom row' b) :
    row.barStart = row'.barStart ↔ a.barStart = b.barStart := by
  have hstart := ha.start
  constructor
  · intro h
    rw [h, hb.start] at hstart
    exact (Option.some.inj hstart).symm
  · intro h
    rw [← (DateTime.fromTimestampMicros_eq_some.mp ha.start).1,
      ← (DateTime.fromTimestampMicros_eq_some.mp hb.start).1, h]

/-- Two rows have one key exactly when their bars do. -/
theorem duplicateKey_eq_iff (ha : DecodedFrom row a) (hb : DecodedFrom row' b) :
    row.duplicateKey = row'.duplicateKey ↔ a.duplicateKey = b.duplicateKey := by
  simp only [BarRecord.duplicateKey, Bar.duplicateKey, Prod.mk.injEq]
  constructor
  · rintro ⟨hid, hversion, hfrequency, hsettlement, hmicros⟩
    -- The cells of the key determine the fields of the key, the instant by its microseconds.
    refine ⟨?_, ?_, ?_, (ha.barStart_eq_iff hb).mp hmicros⟩
    · exact VersionRef.eq_of_text (by rw [ha.instrument, hb.instrument, hid])
        (by rw [ha.version, hb.version, hversion])
    · have hfrom := ha.frequency
      rw [hfrequency, hb.frequency] at hfrom
      exact (Option.some.inj hfrom).symm
    · have hfrom := ha.settlement
      rw [hsettlement, hb.settlement] at hfrom
      exact (Option.some.inj hfrom).symm
  · rintro ⟨hinstrument, hfrequency, hsettlement, hstart⟩
    refine ⟨?_, ?_, ?_, ?_, (ha.barStart_eq_iff hb).mpr hstart⟩
    · rw [← ha.instrument, ← hb.instrument, hinstrument]
    · rw [← ha.version, ← hb.version, hinstrument]
    · rw [← ha.frequencyCode, ← hb.frequencyCode, hfrequency]
    · rw [← ha.settlementCode, ← hb.settlementCode, hsettlement]

/-- Two rows are in order exactly when their bars are. -/
theorem sortKey_le_iff (ha : DecodedFrom row a) (hb : DecodedFrom row' b) :
    row.sortKey ≤ row'.sortKey ↔ a.sortKey ≤ b.sortKey := by
  have hlt : row.barStart < row'.barStart ↔ a.barStart < b.barStart := by
    obtain ⟨hmicros, hexact⟩ := DateTime.fromTimestampMicros_eq_some.mp ha.start
    obtain ⟨hmicros', hexact'⟩ := DateTime.fromTimestampMicros_eq_some.mp hb.start
    rw [← hmicros, ← hmicros', DateTime.timestampMicros_lt_iff hexact hexact']
  have heq := ha.barStart_eq_iff hb
  -- only the first column is scaled, the others are the same values
  simp only [BarRecord.sortKey, Bar.sortKey, ha.frequency, hb.frequency, ha.settlement,
    hb.settlement, Option.map_some, Option.getD_some, ← ha.instrument, ← hb.instrument,
    ← ha.recordId, ← hb.recordId]
  rw [Prod.Lex.toLex_le_toLex, @Prod.Lex.toLex_le_toLex DateTime, hlt, heq]

end DecodedFrom

/-- Decoded bars are distinct and in canonical order exactly when their rows are. -/
theorem canonicalBars_iff {rows : List BarRecord} {bars : List Bar}
    (h : List.Forall₂ DecodedFrom rows bars) : CanonicalBars bars ↔ CanonicalRows rows := by
  have hkeys : rows.Pairwise (fun a b => a.duplicateKey ≠ b.duplicateKey) ↔
      bars.Pairwise fun a b => a.duplicateKey ≠ b.duplicateKey :=
    forall₂_pairwise (fun a b a' b' ha hb => not_congr (ha.duplicateKey_eq_iff hb)) h
  have hrecords : rows.Pairwise (fun a b => a.sourceRecordId ≠ b.sourceRecordId) ↔
      bars.Pairwise fun a b => a.sourceRecordId ≠ b.sourceRecordId := by
    refine forall₂_pairwise (fun a b a' b' ha hb => ?_) h
    rw [ha.recordId, hb.recordId]
  have horder : rows.Pairwise (fun a b => a.sortKey ≤ b.sortKey) ↔
      bars.Pairwise fun a b => a.sortKey ≤ b.sortKey :=
    forall₂_pairwise (fun a b a' b' ha hb => ha.sortKey_le_iff hb) h
  constructor
  · rintro ⟨h1, h2, h3⟩
    exact ⟨hkeys.mpr h1, hrecords.mpr h2, horder.mpr h3⟩
  · rintro ⟨h1, h2, h3⟩
    exact ⟨hkeys.mp h1, hrecords.mp h2, horder.mp h3⟩

/-- **Pairs of rows.** For every payload and manifest that the reader accepts, the decoded bars are
    distinct and in canonical order exactly when the rows of the payload are: the reader itself
    compares no two rows. -/
theorem canonicalBars_iff_canonicalRows {format : SnapshotFormat} {snapshot : DataSnapshot}
    {parquet manifestBytes : List UInt8} {verified : DecodedBarSnapshot} {batch : List BarRecord}
    (h : BarSnapshotCodec.decodeVerified format snapshot parquet manifestBytes = .ok verified)
    (hrows : format.decodeParquet parquet verified.manifest.parquet.rowCount = some batch) :
    CanonicalBars verified.bars ↔ CanonicalRows batch := by
  obtain ⟨rows, hverifies⟩ := decodeVerified_eq_ok.mp h
  obtain rfl := Option.some.inj (hverifies.rows.symm.trans hrows)
  exact canonicalBars_iff (decodedFrom_of_decodeBars hverifies.bars)

/-! ### A payload with one row twice -/

instance countableChar : Countable Char := Function.Injective.countable fun _ _ => Char.toNat_inj.mp

instance countableString : Countable String := Function.Injective.countable fun _ _ =>
    String.toList_injective

deriving instance Countable for ExactVersion, BarParquetPayload, BarPointInTime, ManifestRejection,
  BarQualityBinding, BarUnits, ParquetWriterBinding, BarSnapshotManifest, DecimalCells, BarRecord

/-- The bytes of a value: as many zeros as its number. -/
noncomputable def numbered {α : Type} [Countable α] (a : α) : List UInt8 :=
  List.replicate ((exists_injective_nat α).choose a) 0

/-- Values are told apart by how many zeros they are written as. -/
theorem numbered_injective {α : Type} [Countable α] : Function.Injective (numbered (α := α)) := by
  intro a b h
  have hlength := congrArg List.length h
  simp only [numbered, List.length_replicate] at hlength
  exact (exists_injective_nat α).choose_spec hlength

namespace MorningBar

/-- 2026-01-05, a Monday. -/
def day : NaiveDate :=
  .ymd 2026 1 5

/-- The instant so many nanoseconds after 09:30 of that day in Shanghai, within a day. -/
def after (nanos : ℕ) : DateTime where
  timestamp := 1767576600 + (min nanos 86400000000000 / 1000000000 : ℕ)
  subsecNanos := min nanos 86400000000000 % 1000000000
  lower := by omega
  upper := by omega
  subsec_lt := by omega
  leap h := by omega

/-- Shanghai, eight hours ahead of UTC. -/
def clock : MarketClock := .fixedOffset marketTimezone 480

/-- A format that numbers batches and manifests. -/
noncomputable def format : SnapshotFormat where
  clock
  digest bytes := ⟨bigEndian 32 bytes.length, length_bigEndian _ _⟩
  schemaHash := .filled 7
  timestamp t := toString t.timestampMicros
  encodeParquet := numbered
  decodeParquet bytes count :=
    (Function.partialInv numbered bytes).filter fun batch => batch.length = count
  toJson := numbered
  fromJson := Function.partialInv fun manifest => numbered manifest ++ [10]

/-- This format reads back what it has written. -/
theorem format_faithful : format.Faithful where
  parquet batch _ := by
    show (Function.partialInv numbered (numbered batch)).filter _ = _
    rw [Function.partialInv_left numbered_injective]
    simp [Option.filter]
  json manifest := by
    have hinj : Function.Injective fun m : BarSnapshotManifest => numbered m ++ [10] :=
      fun a b h => numbered_injective (List.append_cancel_right h)
    exact Function.partialInv_left hinj manifest

def one : Version := .first

def owner : OwnerRef := ⟨⟨1⟩, ⟨2⟩⟩

/-- The whole day. -/
def period : EffectivePeriod :=
  ⟨⟨after 0, marketTimezone, day⟩, ⟨after 86400000000000, marketTimezone, day⟩, by
    decide +kernel⟩

/-- A source of traded prices, one instrument, a session from 09:30 to 15:00, known until 10:30. -/
def request : CanonicalBarIngestRequest where
  source := ⟨⟨3⟩, one, owner, canonicalBarSchemaId, .filled 7, some .realTrade⟩
  mapping := ⟨⟨4⟩, owner, ⟨⟨3⟩, one⟩, [⟨"bond", period, ⟨⟨5⟩, one⟩⟩], .filled 8⟩
  calendar := ⟨⟨6⟩, one, owner, marketTimezone, period,
    [⟨day, NaiveTime.fromHms 9 30 0, NaiveTime.fromHms 15 0 0⟩]⟩
  priceUnit := ⟨⟨7⟩, one, owner, "price", 4, 18⟩
  amountUnit := ⟨⟨8⟩, one, owner, "amount", 4, 18⟩
  yieldUnit := none
  window := ⟨⟨after 3600000000000, marketTimezone, day⟩, ⟨after 3600000000000, marketTimezone, day⟩,
    le_refl _, rfl⟩

/-- One minute from 09:30 at a price of 100, known so many nanoseconds after 09:30. -/
def row (visible : ℕ) : RawBarRow where
  rowOrdinal := 1
  sourceRecordId := some "r-1"
  instrumentKey := some "bond"
  frequency := some .m1
  settlement := some .t1
  barStart := some (after 0)
  tradingDate := none
  visibleAt := some (after visible)
  open_ := some ⟨"100", 0⟩
  high := some ⟨"100", 0⟩
  low := some ⟨"100", 0⟩
  close := some ⟨"100", 0⟩
  volume := some ⟨"5", 0⟩
  turnover := none
  tradeCount := some 1
  vwap := none
  closeYield := none
  invalidField := none

/-- The minute after it. -/
def nextRow : RawBarRow :=
  { row 120000000000 with
    rowOrdinal := 2
    sourceRecordId := some "r-2"
    barStart := some (after 60000000000) }

/-- The rows of an import, or none when it fails. -/
def imported (rows : List RawBarRow) : CanonicalBarBatch :=
  ((CanonicalBarIngestor.ingest clock (.filled 7) request .sourceField
    rows).toOption).getD ⟨[], .filled 7, ⟨"", "", 0, 0, 0, []⟩⟩

/-- The imported row, written once. -/
def once : CanonicalBarBatch := imported [row 60000000000]

/-- Two rows, imported in the other order. -/
def both : CanonicalBarBatch := imported [nextRow, row 60000000000]

/-- The imported row, written twice. -/
def twice : CanonicalBarBatch :=
  { once with
    batch := once.batch ++ once.batch
    report := { once.report with readRows := 2, emittedRows := 2 } }

/-- Both batches make a package. -/
theorem exists_builds {canonical : CanonicalBarBatch}
    (hcanonical : canonical = both ∨ canonical = twice) :
    ∃ bars lineage, Builds format ⟨9⟩ request canonical bars lineage := by
  have hbars : (decodeBars clock (packageManifest format ⟨9⟩ request canonical) canonical.batch
      (after 3600000000000) (after 3600000000000)).toOption.isSome = true := by
    rcases hcanonical with rfl | rfl <;> decide +kernel
  have hlineage : (manifestLineage
      (packageManifest format ⟨9⟩ request canonical)).toOption.isSome = true := by
    rcases hcanonical with rfl | rfl <;> decide +kernel
  refine ⟨_, _, ?_, ?_, eq_ok_get hbars, ?_, eq_ok_get hlineage⟩
  · rcases hcanonical with rfl | rfl <;> decide +kernel
  · rcases hcanonical with rfl | rfl <;> decide +kernel
  · rcases hcanonical with rfl | rfl <;> decide +kernel

end MorningBar

/-- An import of two rows is read back in canonical order. -/
theorem canonicalBars_iff_canonicalRows_both : ∃ snapshot parquet manifestBytes verified batch,
    BarSnapshotCodec.decodeVerified MorningBar.format snapshot parquet manifestBytes =
      .ok verified ∧
    MorningBar.format.decodeParquet parquet verified.manifest.parquet.rowCount = some batch ∧
    (CanonicalBars verified.bars ↔ CanonicalRows batch) ∧ CanonicalRows batch ∧
      batch.length = 2 := by
  obtain ⟨bars, lineage, hbuilds⟩ := MorningBar.exists_builds (.inl rfl)
  have hread := decodeVerified_of_builds MorningBar.format_faithful hbuilds rfl
    (show singlePriceSource MorningBar.both.batch = .ok .realTrade by decide +kernel)
  have hrows := MorningBar.format_faithful.parquet _ hbuilds.rows
  exact ⟨_, _, _, _, _, hread, hrows, canonicalBars_iff_canonicalRows hread hrows,
    ⟨by decide +kernel, by decide +kernel, by decide +kernel⟩, by decide +kernel⟩

/-- The reader accepts a payload with one row twice. -/
theorem canonicalBars_fails_twice :
    ¬ ∀ format : SnapshotFormat, format.Faithful → ∀ snapshot parquet manifestBytes verified,
      BarSnapshotCodec.decodeVerified format snapshot parquet manifestBytes = .ok verified →
        CanonicalBars verified.bars := by
  intro hall
  obtain ⟨bars, lineage, hbuilds⟩ := MorningBar.exists_builds (.inr rfl)
  have hread := decodeVerified_of_builds MorningBar.format_faithful hbuilds rfl
    (show singlePriceSource MorningBar.twice.batch = .ok .realTrade by decide +kernel)
  have hrows := (canonicalBars_iff (decodedFrom_of_decodeBars hbuilds.bars)).mp
    (hall _ MorningBar.format_faithful _ _ _ _ hread)
  exact absurd hrows.records (by decide +kernel)

end Ficant
