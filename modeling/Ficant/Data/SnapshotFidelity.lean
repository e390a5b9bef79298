import Ficant.Data.SnapshotVerification

namespace Ficant

open Lib

/-!
# What a snapshot keeps of an import

An import is written to a snapshot and read back.

* `canonicalBars_of_acceptBars` — an import emits distinct bars in canonical order;
* `accepted_survive_iff` — exactly when every accepted bar comes back as it was;
* `visibility_survives_iff` — exactly when a bar stays hidden until the instant its source gives.
-/

/-! ### The selection of rows -/

section Accept

variable {clock : MarketClock} {request : CanonicalBarIngestRequest} {rule : BarVisibilityRule}

/-- What the buckets hold after some rows. -/
structure BarSelection.Of (clock : MarketClock) (request : CanonicalBarIngestRequest)
    (rule : BarVisibilityRule) (rows : List RawBarRow) (selection : BarSelection) : Prop where
  accepted : ∀ bar ∈ selection.accepted,
    ∃ raw ∈ rows, validateRow clock request rule raw = .ok (some bar)
  counts : selection.accepted.length + selection.outsideWindowRows + selection.rejections.length =
    rows.length

/-- **One step.** The selection of one more row. -/
theorem BarSelection.Of.add {rows : List RawBarRow} {selection selection' : BarSelection}
    {raw : RawBarRow} (h : selection.Of clock request rule rows)
    (hadd : selection.add clock request rule raw = .ok selection') :
    selection'.Of clock request rule (rows ++ [raw]) := by
  -- What was accepted before still comes from one of the rows.
  have hold : ∀ bar ∈ selection.accepted,
      ∃ raw' ∈ rows ++ [raw], validateRow clock request rule raw' = .ok (some bar) := by
    intro bar hbar
    obtain ⟨raw', hraw', hrow⟩ := h.accepted bar hbar
    exact ⟨raw', List.mem_append_left _ hraw', hrow⟩
  -- Every row is counted once, whichever way it goes.
  have hcounts := h.counts
  unfold BarSelection.add at hadd
  split at hadd
  · rename_i bar hrow
    obtain rfl := Except.ok.inj hadd
    constructor
    · intro other hother
      rcases List.mem_append.mp hother with hother | hother
      · exact hold other hother
      · obtain rfl := List.mem_singleton.mp hother
        exact ⟨raw, by simp, hrow⟩
    · simp only [List.length_append, List.length_singleton]
      omega
  · obtain rfl := Except.ok.inj hadd
    refine ⟨hold, ?_⟩
    simp only [List.length_append, List.length_singleton]
    omega
  · obtain rfl := Except.ok.inj hadd
    refine ⟨hold, ?_⟩
    simp only [List.length_append, List.length_singleton]
    omega
  · cases hadd

/-- **All rows**, by induction from the end. -/
theorem selection_of_foldlM {rows : List RawBarRow} {selection : BarSelection}
    (h : rows.foldlM (BarSelection.add clock request rule) ⟨[], 0, []⟩ = .ok selection) :
    selection.Of clock request rule rows := by
  have hstart : BarSelection.Of clock request rule [] ⟨[], 0, []⟩ :=
    ⟨fun bar hbar => absurd hbar List.not_mem_nil, rfl⟩
  exact foldlM_induction (motive := fun done s => s.Of clock request rule done) hstart
    (fun done raw s s' hs hadd => hs.add hadd) h

/-- The bars that are kept differ from all others in key and record identifier. -/
theorem canonicalBars_rejectDuplicates (accepted : List Bar) :
    CanonicalBars (rejectDuplicates accepted).1 := by
  have hsorted := List.pairwise_insertionSort (fun a b : Bar => a.sortKey ≤ b.sortKey)
    (accepted.filter fun bar => !isDuplicate accepted bar)
  have hperm := List.perm_insertionSort (fun a b : Bar => a.sortKey ≤ b.sortKey)
    (accepted.filter fun bar => !isDuplicate accepted bar)
  refine ⟨pairwise_key_ne_of_countP_le_one hperm ?_, pairwise_key_ne_of_countP_le_one hperm ?_,
    hsorted⟩
  · intro bar _ hkept
    simp only [isDuplicate, Bool.not_eq_true', decide_eq_false_iff_not, not_or, not_lt] at hkept
    exact hkept.1
  · intro bar _ hkept
    simp only [isDuplicate, Bool.not_eq_true', decide_eq_false_iff_not, not_or, not_lt] at hkept
    exact hkept.2

/-- **The import.** Every accepted bar comes from one of the rows, every row is counted once, and the
    rejections are in order. -/
theorem acceptBars_spec {rows : List RawBarRow} {accepted : List Bar} {report : BarIngestReport}
    (h : acceptBars clock request rule rows = .ok (accepted, report)) :
    (∀ bar ∈ accepted, ∃ raw ∈ rows, validateRow clock request rule raw = .ok (some bar)) ∧
      report.emittedRows + report.outsideWindowRows + report.rejections.length = report.readRows ∧
      report.emittedRows = accepted.length ∧ report.ruleSetId = barQualityRuleSetId ∧
      report.visibilityRule = rule.describe ∧
      report.rejections.Pairwise (fun a b => a.key ≤ b.key) ∧ CanonicalBars accepted := by
  obtain ⟨selection, hselection, h⟩ := bind_eq_ok.mp h
  have hof := selection_of_foldlM hselection
  obtain ⟨rfl, rfl⟩ := Prod.mk.inj (Except.ok.inj h)
  refine ⟨?_, ?_, rfl, rfl, rfl, List.pairwise_insertionSort _ _, ?_⟩
  · intro bar hbar
    simp only [List.mem_insertionSort] at hbar
    exact hof.accepted bar (List.mem_filter.mp hbar).1
  · have hcounts := hof.counts
    have hsplit := List.length_eq_length_filter_add (l := selection.accepted)
      (isDuplicate selection.accepted)
    simp only [List.length_insertionSort, List.length_append, List.length_map]
    omega
  · exact canonicalBars_rejectDuplicates selection.accepted

end Accept

/-! ### The checks of the writer -/

/-- Rejections of one row are sorted by reason in the order of declaration; the manifest wants them
    sorted by the text of the reason.  This says that the two agree. -/
def ReasonsInTextOrder (rejections : List BarRejection) : Prop :=
  ∀ a ∈ rejections, ∀ b ∈ rejections, a.rowId = b.rowId → a.reason.rank < b.reason.rank →
    a.reason.code < b.reason.code

instance (rejections : List BarRejection) : Decidable (ReasonsInTextOrder rejections) :=
  inferInstanceAs (Decidable (∀ a ∈ rejections, ∀ b ∈ rejections, _ → _ → _))

/-- A rejection as the manifest has it. -/
def BarRejection.inManifest (item : BarRejection) : ManifestRejection :=
  ⟨item.rowId, item.reason.code, item.field⟩

theorem BarRejectionReason.rank_injective : Function.Injective BarRejectionReason.rank := by
  intro a b h
  cases a <;> cases b <;> first | rfl | cases h

theorem BarRejectionReason.code_injective : Function.Injective BarRejectionReason.code := by
  intro a b h
  cases a <;> cases b <;> first | rfl | exact absurd h (by decide)

/-- A reason comes back from its text. -/
theorem BarRejectionReason.fromCode_code (reason : BarRejectionReason) :
    BarRejectionReason.fromCode reason.code = some reason := by
  cases reason <;> decide

/-- Sorted rejections are sorted in the manifest exactly when the two orders of reasons agree. -/
theorem pairwise_inManifest_iff {rejections : List BarRejection}
    (h : rejections.Pairwise fun a b => a.key ≤ b.key) :
    ((rejections.map BarRejection.inManifest).Pairwise fun a b => a.key ≤ b.key) ↔
      ReasonsInTextOrder rejections := by
  have hpair : ∀ a b : BarRejection, a.key ≤ b.key → (a.inManifest.key ≤ b.inManifest.key ↔
      (a.rowId = b.rowId → a.reason.rank < b.reason.rank → a.reason.code < b.reason.code)) := by
    intro a b hab
    simp only [BarRejection.key, ManifestRejection.key, BarRejection.inManifest,
      Prod.Lex.toLex_le_toLex] at hab ⊢
    rcases hab with hlt | ⟨heq, hlt | ⟨hrank, hfield⟩⟩
    · simp [hlt, hlt.ne]
    · have hne : a.reason.code ≠ b.reason.code := fun h =>
        hlt.ne (congrArg BarRejectionReason.rank (BarRejectionReason.code_injective h))
      simp [heq, hlt, hne]
    · simp [heq, BarRejectionReason.rank_injective hrank, hfield]
  -- the condition is empty for a pair in the other order
  have hback : ∀ a b : BarRejection, a.key ≤ b.key → b.rowId = a.rowId →
      b.reason.rank < a.reason.rank → b.reason.code < a.reason.code := by
    intro a b hab hrow hrank
    simp only [BarRejection.key, Prod.Lex.toLex_le_toLex] at hab
    rcases hab with hlt | ⟨-, hlt | ⟨heq, -⟩⟩
    · exact absurd hrow hlt.ne'
    · omega
    · omega
  rw [List.pairwise_map]
  constructor
  · intro hsorted
    have hforth := (h.and hsorted).imp fun {a b} hab => (hpair a b hab.1).mp hab.2
    have hflip := h.imp fun {a b} hab => hback a b hab
    exact hforth.forall_of_forall_of_flip (fun _ _ _ hlt => absurd hlt (lt_irrefl _)) hflip
  · intro hagree
    refine h.imp_of_mem fun {a b} ha hb hab => ?_
    exact (hpair a b hab).mpr (hagree a ha b hb)

section Written

variable {format : SnapshotFormat} {snapshotId : Ulid} {request : CanonicalBarIngestRequest}
  {rule : BarVisibilityRule} {rows : List RawBarRow} {canonical : CanonicalBarBatch}
  {accepted : List Bar} {report : BarIngestReport}

/-- A batch that was imported from these rows. -/
structure ImportedBatch (format : SnapshotFormat) (request : CanonicalBarIngestRequest)
    (rule : BarVisibilityRule) (rows : List RawBarRow) (canonical : CanonicalBarBatch)
    (accepted : List Bar) : Prop where
  accept : acceptBars format.clock request rule rows = .ok (accepted, canonical.report)
  nonempty : accepted ≠ []
  encode : encodeBatch request accepted = .ok canonical.batch
  schema : canonical.schemaHash = format.schemaHash

/-- **What an import makes**, as the results below use it. -/
theorem importedBatch_of_ingest
    (haccept : acceptBars format.clock request rule rows = .ok (accepted, report))
    (h : CanonicalBarIngestor.ingest format.clock format.schemaHash request rule rows =
      .ok canonical) : ImportedBatch format request rule rows canonical accepted := by
  unfold CanonicalBarIngestor.ingest at h
  rw [haccept, ok_bind] at h
  simp only at h
  split at h
  · cases h
  rename_i hempty
  obtain ⟨batch, hbatch, h⟩ := bind_eq_ok.mp h
  obtain rfl := Except.ok.inj h
  exact ⟨haccept, by simpa using hempty, hbatch, rfl⟩

namespace ImportedBatch

/-- The rows of the batch, one for each bar. -/
theorem records (h : ImportedBatch format request rule rows canonical accepted) :
    ∃ priceSource, request.source.priceSourceType = some priceSource ∧
      List.Forall₂ (fun bar row => encodeRecord request priceSource bar = .ok row) accepted
        canonical.batch := by
  have hencode := h.encode
  unfold encodeBatch at hencode
  split at hencode
  · cases hencode
  · rename_i priceSource hsource
    exact ⟨priceSource, hsource, mapM_eq_ok.mp hencode⟩

/-- Every accepted bar is in the batch. -/
theorem length_batch (h : ImportedBatch format request rule rows canonical accepted) :
    canonical.batch.length = accepted.length := by
  obtain ⟨priceSource, -, hrecords⟩ := h.records
  exact hrecords.length_eq.symm

theorem batch_ne_nil (h : ImportedBatch format request rule rows canonical accepted) :
    canonical.batch ≠ [] := by
  have hlength := h.length_batch
  have hnonempty := List.length_pos_iff.mpr h.nonempty
  exact List.length_pos_iff.mp (by omega)

/-- Every accepted bar was imported from one of the rows. -/
theorem imported (h : ImportedBatch format request rule rows canonical accepted) {bar : Bar}
    (hbar : bar ∈ accepted) : Imported format.clock request bar := by
  obtain ⟨raw, -, hrow⟩ := (acceptBars_spec h.accept).1 bar hbar
  exact (imported_of_validateRow hrow).1

/-- The quality section is accepted exactly when the rejections are in text order. -/
theorem validateQuality_iff (h : ImportedBatch format request rule rows canonical accepted) :
    validateQuality (packageManifest format snapshotId request canonical) = .ok () ↔
      ReasonsInTextOrder canonical.report.rejections := by
  obtain ⟨-, hcounts, hemitted, hrules, hrule, hsorted, -⟩ := acceptBars_spec h.accept
  have hlength := h.length_batch
  have hnonempty := List.length_pos_iff.mpr h.nonempty
  have hvisibility : rule.describe = "source-field" ∨
      "fixed-delay:".toList <+: rule.describe.toList := by
    cases rule with
    | sourceField => exact .inl rfl
    | fixedDelay delay =>
      right
      simp only [BarVisibilityRule.describe, String.toList_append, List.append_assoc]
      exact List.prefix_append _ _
  -- Every reason in the report has a code, and the code is read back.
  have hcodes : ¬((canonical.report.rejections.map BarRejection.inManifest).any fun item =>
      BarRejectionReason.fromCode item.reason = none) = true := by
    simp [BarRejection.inManifest, BarRejectionReason.fromCode_code]
  rw [← pairwise_inManifest_iff hsorted,
    ← all_zip_tail_iff_pairwise fun a b : ManifestRejection => a.key ≤ b.key]
  have hquality : (packageManifest format snapshotId request canonical).quality =
      ⟨barQualityRuleSetId, rule.describe, canonical.report.readRows,
        canonical.report.outsideWindowRows, canonical.report.emittedRows,
        canonical.report.rejections.map BarRejection.inManifest⟩ := by
    rw [← hrules, ← hrule]
    rfl
  have hcount : (packageManifest format snapshotId request canonical).parquet.rowCount =
      canonical.batch.length := rfl
  unfold validateQuality
  simp only [hquality, hcount, List.length_map]
  constructor
  · intro hok
    split at hok
    · cases hok
    · rename_i hnone
      push Not at hnone
      simpa using hnone.2.2.2.2.1
  -- Of the seven checks only the order of the rejections is not met by construction.
  · intro hall
    rw [if_neg]
    rintro (hbad | hbad | hbad | hbad | hbad | hbad | hbad)
    · exact hbad rfl
    · omega
    · omega
    · exact hbad hcounts
    · rw [hall] at hbad
      cases hbad
    · exact hcodes hbad
    · exact hbad hvisibility

/-- The identifiers of the manifest are those of the request and of the bars, so the lineage is
    found. -/
theorem manifestLineage_ok (h : ImportedBatch format request rule rows canonical accepted)
    (snapshotId : Ulid) :
    ∃ lineage, manifestLineage (packageManifest format snapshotId request canonical) =
      .ok lineage := by
  obtain ⟨priceSource, -, hrecords⟩ := h.records
  -- Every reference of the manifest is written in its canonical text.
  have hversioned : ∀ (id : Ulid) (version : Version),
      versionedLineage ⟨id.text, version.value⟩ = .ok ⟨id, some version, none⟩ := by
    intro id version
    rw [versionedLineage, versionRef_text]
    rfl
  have hmapping : (Ulid.new request.mapping.mappingId.text).toOption =
      some request.mapping.mappingId := by
    rw [Ulid.new_text]
    rfl
  obtain ⟨yieldUnit, hyield, -⟩ := exists_mapM_ok (f := versionedLineage)
    (l := (request.yieldUnit.map MarketUnit.exact).toList) (P := fun _ _ => True) (by
      intro unit hunit
      obtain ⟨u, -, rfl⟩ := Option.map_eq_some_iff.mp (Option.mem_toList.mp hunit)
      exact ⟨_, hversioned u.unitId u.version, trivial⟩)
  obtain ⟨instruments, hinstruments, -⟩ := exists_mapM_ok (f := versionedLineage)
    (l := batchInstruments canonical.batch) (P := fun _ _ => True) (by
      intro value hvalue
      obtain ⟨key, hkey, rfl⟩ := List.mem_map.mp hvalue
      obtain ⟨row, hrow, rfl⟩ := List.mem_map.mp (SortedMap.mem_sortedSet.mp hkey)
      obtain ⟨bar, -, hbar⟩ := exists_left_of_forall₂ hrecords hrow
      obtain ⟨days, -, hbar⟩ := bind_eq_ok.mp hbar
      obtain rfl := Except.ok.inj hbar
      exact ⟨_, hversioned bar.instrument.id bar.instrument.version, trivial⟩)
  -- The instruments come from a sorted set, so they increase.
  have hincreasing : strictlyIncreasing (batchInstruments canonical.batch) = true := by
    rw [strictlyIncreasing, all_zip_tail_iff_pairwise fun a b : ExactVersion => a.key < b.key,
      batchInstruments, List.pairwise_map]
    exact SortedMap.sortedSet_sorted _
  have hnonempty : (batchInstruments canonical.batch).isEmpty = false := by
    obtain ⟨row, hrow⟩ := List.exists_mem_of_ne_nil _ h.batch_ne_nil
    have hmem := SortedMap.mem_sortedSet.mpr (List.mem_map_of_mem
      (f := fun row : BarRecord => toLex (row.instrumentId, row.instrumentVersion)) hrow)
    rw [List.isEmpty_eq_false_iff_exists_mem]
    exact ⟨_, List.mem_map_of_mem hmem⟩
  simp only [manifestLineage, packageManifest, BarSnapshotManifest.withPayload, snapshotManifest,
    requestUnits, MarketUnit.exact, hversioned, hmapping, parseHash_hashHex, integrity, ok_bind,
    hyield, hincreasing, hinstruments, hnonempty]
  exact ⟨_, rfl⟩

/-- The reader rebuilds every bar from its stored fields. -/
theorem decodeBars_iff (h : ImportedBatch format request rule rows canonical accepted)
    {bars : List Bar} :
    decodeBars format.clock (packageManifest format snapshotId request canonical) canonical.batch
        request.window.asOf.instant request.window.visibleAtCutoff.instant = .ok bars ↔
      List.Forall₂ (ReadBack format.clock request.window) accepted bars := by
  have hof : (packageManifest format snapshotId request canonical).Of request := ⟨rfl, rfl, rfl, rfl⟩
  obtain ⟨priceSource, -, hrecords⟩ := h.records
  have hrows : canonical.batch.mapM (decodeRow format.clock
        (packageManifest format snapshotId request canonical) request.boundUnits
        request.window.asOf.instant request.window.visibleAtCutoff.instant) = .ok bars ↔
      List.Forall₂ (ReadBack format.clock request.window) accepted bars := by
    rw [mapM_eq_ok]
    refine forall₂_iff_of_forall₂ hrecords fun bar hbar row hrow out => ?_
    rw [decodeRow_encodeRecord (h.imported hbar) hof hrow]
  rw [decodeBars, if_neg (fun hne => hne rfl), if_neg (fun hne => hne rfl), boundUnits_of hof,
    ok_bind, bind_eq_ok, ← hrows]
  constructor
  · rintro ⟨_, -, hdecode⟩
    exact hdecode
  · intro hdecode
    -- a row that is rebuilt had its instants read
    obtain ⟨instants, hinstants, -⟩ := exists_mapM_ok (f := rowInstants) (l := canonical.batch)
      (P := fun _ _ => True) (by
        intro row hrow
        obtain ⟨bar, -, hbar⟩ := exists_right_of_forall₂ (mapM_eq_ok.mp hdecode) hrow
        obtain ⟨read, hread, -⟩ := bind_eq_ok.mp hbar
        exact ⟨read, hread, trivial⟩)
    exact ⟨instants, hinstants, hdecode⟩

/-- All rows have the price source of the request. -/
theorem singlePriceSource_ok (h : ImportedBatch format request rule rows canonical accepted) :
    ∃ priceSource, singlePriceSource canonical.batch = .ok priceSource := by
  obtain ⟨priceSource, -, hrecords⟩ := h.records
  have hcode : priceSourceFromCode (priceSourceCode priceSource) = some priceSource := by
    cases priceSource <;> decide
  -- Every row carries the price source of the import.
  have hall : ∀ row ∈ canonical.batch, row.priceSourceType = priceSourceCode priceSource := by
    intro row hrow
    obtain ⟨bar, -, hbar⟩ := exists_left_of_forall₂ hrecords hrow
    obtain ⟨days, -, hbar⟩ := bind_eq_ok.mp hbar
    obtain rfl := Except.ok.inj hbar
    rfl
  have hstep : ∀ row ∈ canonical.batch, ∀ found : Option PriceSourceType,
      (found = none ∨ found = some priceSource) →
        agreeOnSource found row = .ok (some priceSource) := by
    intro row hrow found hfound
    rw [agreeOnSource, hall row hrow, hcode]
    rcases hfound with rfl | rfl
    · rfl
    · simp [integrity, pure, Except.pure]
  have hfold : ∀ rest : List BarRecord, (∀ row ∈ rest, row ∈ canonical.batch) →
      rest.foldlM agreeOnSource (some priceSource) = .ok (some priceSource) := by
    intro rest
    induction rest with
    | nil => exact fun _ => rfl
    | cons row rest ih =>
      intro hmem
      rw [List.foldlM_cons, hstep row (hmem row List.mem_cons_self) _ (.inr rfl), ok_bind]
      exact ih fun other hother => hmem other (List.mem_cons_of_mem _ hother)
  refine ⟨priceSource, ?_⟩
  obtain ⟨row, rest, hbatch⟩ := List.exists_cons_of_ne_nil h.batch_ne_nil
  rw [hbatch] at hstep hfold
  rw [singlePriceSource, hbatch, List.foldlM_cons, hstep row List.mem_cons_self _ (.inl rfl),
    ok_bind, hfold rest fun other hother => List.mem_cons_of_mem _ hother]
  rfl

/-- A batch is written exactly when every stored bar is one again and the rejections are in text
    order. -/
theorem builds_iff (h : ImportedBatch format request rule rows canonical accepted)
    (snapshotId : Ulid) {bars : List Bar} :
    (∃ lineage, Builds format snapshotId request canonical bars lineage) ↔
      List.Forall₂ (ReadBack format.clock request.window) accepted bars ∧
        ReasonsInTextOrder canonical.report.rejections := by
  constructor
  · rintro ⟨lineage, hbuilds⟩
    exact ⟨h.decodeBars_iff.mp hbuilds.bars, h.validateQuality_iff.mp hbuilds.quality⟩
  · rintro ⟨hbars, hreasons⟩
    obtain ⟨lineage, hlineage⟩ := h.manifestLineage_ok snapshotId
    exact ⟨lineage, h.batch_ne_nil, h.schema, h.decodeBars_iff.mpr hbars,
      h.validateQuality_iff.mpr hreasons, hlineage⟩

end ImportedBatch

/-- The request came from its constructor. -/
def CanonicalBarIngestRequest.Accepted (schemaHash : ContentHash)
    (request : CanonicalBarIngestRequest) : Prop :=
  CanonicalBarIngestRequest.new schemaHash request.source request.mapping request.calendar
    request.priceUnit request.amountUnit request.yieldUnit request.window = .ok request

/-- A request that is accepted is in the zone of the market. -/
theorem CanonicalBarIngestRequest.Accepted.zone {schemaHash : ContentHash}
    (h : request.Accepted schemaHash) : request.window.asOf.marketTimezone = marketTimezone := by
  unfold CanonicalBarIngestRequest.Accepted CanonicalBarIngestRequest.new at h
  simp only at h
  split at h
  · cases h
  · rename_i hchecks
    push Not at hchecks
    exact hchecks.2.2.2.2.2.2.2.2.2.2.2.2.2.1

/-- The bars come back: the batch is written, and what is read are the accepted bars, in their
    order. -/
def Survive (format : SnapshotFormat) (snapshotId : Ulid) (request : CanonicalBarIngestRequest)
    (canonical : CanonicalBarBatch) (accepted : List Bar) : Prop :=
  ∃ package verified,
    BarSnapshotCodec.build format snapshotId request canonical = .ok package ∧
    BarSnapshotCodec.decodeVerified format package.snapshot package.parquet package.manifest =
      .ok verified ∧ verified.bars = accepted

/-- What is read from a written batch are the stored bars. -/
theorem ImportedBatch.bars_of_decodeVerified (hformat : format.Faithful)
    (h : ImportedBatch format request rule rows canonical accepted)
    {package : CanonicalSnapshotPackage} {verified : DecodedBarSnapshot}
    (hbuild : BarSnapshotCodec.build format snapshotId request canonical = .ok package)
    (hread : BarSnapshotCodec.decodeVerified format package.snapshot package.parquet
      package.manifest = .ok verified) :
    List.Forall₂ (ReadBack format.clock request.window) accepted verified.bars ∧
      ReasonsInTextOrder canonical.report.rejections ∧
      verified.snapshot.visibleAt = request.window.visibleAtCutoff := by
  obtain ⟨bars, lineage, hbuilds, rfl⟩ := build_eq_ok.mp hbuild
  obtain ⟨batch, hverifies⟩ := decodeVerified_eq_ok.mp hread
  -- the manifest and the rows are those that were written
  have hmanifest := Option.some.inj (hverifies.parsed.symm.trans (hformat.json _))
  have hbatch := hverifies.rows
  rw [hmanifest] at hbatch
  obtain rfl := Option.some.inj (hbatch.symm.trans (hformat.parquet _ h.batch_ne_nil))
  have hbars := hverifies.bars
  rw [hmanifest] at hbars
  refine ⟨h.decodeBars_iff.mp hbars, ((h.builds_iff snapshotId).mp ⟨lineage, hbuilds⟩).2, ?_⟩
  rw [hverifies.ofSnapshot]
  rfl

/-- Bars that come back as they were lose nothing, and the manifest is in order. -/
theorem ImportedBatch.exact_of_survive (hformat : format.Faithful)
    (h : ImportedBatch format request rule rows canonical accepted)
    (hsurvive : Survive format snapshotId request canonical accepted) :
    (∀ bar ∈ accepted, bar.input.Exact) ∧ ReasonsInTextOrder canonical.report.rejections := by
  obtain ⟨package, verified, hbuild, hread, hbars⟩ := hsurvive
  obtain ⟨hstored, hreasons, -⟩ := h.bars_of_decodeVerified hformat hbuild hread
  rw [hbars] at hstored
  refine ⟨?_, hreasons⟩
  intro bar hbar
  rw [← BarInput.stored_eq_self_iff]
  exact (List.forall₂_same.mp hstored bar hbar).fields

/-- Bars that lose nothing come back, where the manifest is in order. -/
theorem ImportedBatch.survive_of_exact (hformat : format.Faithful)
    (hrequest : request.Accepted format.schemaHash)
    (h : ImportedBatch format request rule rows canonical accepted)
    (hexact : ∀ bar ∈ accepted, bar.input.Exact)
    (hreasons : ReasonsInTextOrder canonical.report.rejections) :
    Survive format snapshotId request canonical accepted := by
  have hstored : List.Forall₂ (ReadBack format.clock request.window) accepted accepted := by
    refine List.forall₂_same.mpr fun bar hbar => ?_
    have himported := h.imported hbar
    exact ⟨(BarInput.stored_eq_self_iff _).mpr (hexact bar hbar), himported.ended, himported.known,
      himported.made⟩
  obtain ⟨lineage, hbuilds⟩ := (h.builds_iff snapshotId).mpr ⟨hstored, hreasons⟩
  obtain ⟨priceSource, hsource⟩ := h.singlePriceSource_ok
  exact ⟨_, _, build_eq_ok.mpr ⟨_, _, hbuilds, rfl⟩,
    decodeVerified_of_builds hformat hbuilds hrequest.zone hsource, rfl⟩

/-- **What a snapshot keeps.** The accepted bars of an import come back as they were, in their order,
    exactly when every one of them is kept as it is and the rejections of each row are in the order
    that the manifest wants. -/
theorem accepted_survive_iff (hformat : format.Faithful)
    (hrequest : request.Accepted format.schemaHash)
    (haccept : acceptBars format.clock request rule rows = .ok (accepted, report))
    (hingest : CanonicalBarIngestor.ingest format.clock format.schemaHash request rule rows =
      .ok canonical) :
    Survive format snapshotId request canonical accepted ↔
      (∀ bar ∈ accepted, bar.input.Exact) ∧ ReasonsInTextOrder report.rejections := by
  have h := importedBatch_of_ingest haccept hingest
  have hreport : canonical.report = report :=
    (Prod.mk.inj (Except.ok.inj (h.accept.symm.trans haccept))).2
  rw [← hreport]
  constructor
  · intro hsurvive
    exact h.exact_of_survive hformat hsurvive
  · rintro ⟨hexact, hreasons⟩
    exact h.survive_of_exact hformat hrequest hexact hreasons

/-! ### Visibility -/

/-- A stored bar becomes visible at the instant that is read back, so at its own instant exactly when
    this one is read back as it was. -/
theorem visible_from_iff {v stored cutoff : DateTime} (h : v.cutMicros = some stored)
    (hv : v ≤ cutoff) (hstored : stored ≤ cutoff) :
    (∀ d, d ≤ cutoff → (stored ≤ d ↔ v ≤ d)) ↔ v.MicrosExact := by
  rw [← DateTime.cutMicros_eq_self_iff, h, Option.some.injEq]
  constructor
  · intro hsame
    exact le_antisymm ((hsame v hv).mpr le_rfl) ((hsame stored hstored).mp le_rfl)
  · rintro rfl d _
    exact Iff.rfl

/-- **`visible_at`** returns the bars that are visible by then, up to the cutoff of the snapshot. -/
theorem DecodedBarSnapshot.mem_visibleAt {verified : DecodedBarSnapshot} {d : DateTime}
    {out : List Bar} (h : verified.visibleAt d = .ok out) (bar : Bar) :
    d ≤ verified.snapshot.visibleAt.instant ∧
      (bar ∈ out ↔ bar ∈ verified.bars ∧ bar.visibleAt ≤ d) := by
  unfold DecodedBarSnapshot.visibleAt at h
  split at h
  · cases h
  · rename_i hcutoff
    obtain rfl := Except.ok.inj h
    exact ⟨not_lt.mp hcutoff, by simp⟩

/-- **Point-in-time visibility.** For every row of the import that was accepted, with the instant `v`
    that its source or the fixed delay gives: the snapshot holds its bar; and whenever the bars of a
    decision time are returned, the bar is among them if and only if it was known by then, exactly
    when `v` is a whole microsecond outside a leap second. -/
theorem visibility_survives_iff (hformat : format.Faithful)
    (haccept : acceptBars format.clock request rule rows = .ok (accepted, report))
    (hingest : CanonicalBarIngestor.ingest format.clock format.schemaHash request rule rows =
      .ok canonical) {package : CanonicalSnapshotPackage} {verified : DecodedBarSnapshot}
    (hbuild : BarSnapshotCodec.build format snapshotId request canonical = .ok package)
    (hread : BarSnapshotCodec.decodeVerified format package.snapshot package.parquet
      package.manifest = .ok verified)
    {raw : RawBarRow} {bar : Bar}
    (hrow : validateRow format.clock request rule raw = .ok (some bar)) (hbar : bar ∈ accepted)
    {v : DateTime} (hv : rowVisibility rule raw bar.barEnd = .ok v) :
    ∃ stored ∈ verified.bars, bar.input.stored = some stored.input ∧
      ((∀ d out, verified.visibleAt d = .ok out → (stored ∈ out ↔ v ≤ d)) ↔ v.MicrosExact) := by
  have h := importedBatch_of_ingest haccept hingest
  obtain ⟨hstored, -, hcutoff⟩ := h.bars_of_decodeVerified hformat hbuild hread
  obtain ⟨stored, hmem, hback⟩ := exists_right_of_forall₂ hstored hbar
  obtain rfl : bar.visibleAt = v :=
    Except.ok.inj ((imported_of_validateRow hrow).2.symm.trans hv)
  obtain ⟨_, _, visibleAt, -, -, hcut, hinput⟩ := BarInput.stored_eq_some.mp hback.fields
  obtain rfl : visibleAt = stored.visibleAt := congrArg BarInput.visibleAt hinput
  -- Both instants lie before the cutoff, so a decision up to the cutoff can tell them apart.
  have hknown := (h.imported hbar).known
  have hstoredKnown := hback.known
  rw [← hcutoff] at hknown hstoredKnown
  refine ⟨stored, hmem, hback.fields, ?_⟩
  have hiff := visible_from_iff (v := bar.visibleAt) hcut hknown hstoredKnown
  rw [← hiff]
  constructor
  · intro hshown d hd
    have hout : verified.visibleAt d =
        .ok (verified.bars.filter fun other => other.visibleAt ≤ d) := by
      rw [DecodedBarSnapshot.visibleAt, if_neg (not_lt.mpr hd)]
    rw [← hshown d _ hout, (DecodedBarSnapshot.mem_visibleAt hout stored).2]
    exact (and_iff_right hmem).symm
  -- Conversely, no decision is answered after the cutoff.
  · intro hsame d out hout
    obtain ⟨hd, hiff⟩ := DecodedBarSnapshot.mem_visibleAt hout stored
    rw [hiff, ← hsame d hd]
    exact and_iff_right hmem

end Written

/-! ### A bar known within a microsecond -/

namespace MorningBar

/-- The request of the samples is accepted. -/
theorem request_accepted : request.Accepted format.schemaHash := by
  rw [CanonicalBarIngestRequest.Accepted, CanonicalBarIngestRequest.new,
    if_neg (by decide +kernel)]

/-- The report of an import of one row. -/
def report : BarIngestReport := ⟨barQualityRuleSetId, "source-field", 1, 0, 1, []⟩

/-- The row is imported, whether or not its instant is a whole microsecond, and is read back as known
    at the microsecond. -/
theorem ingest_row {visible : ℕ} (h : visible = 60000000000 ∨ visible = 60000000001) :
    ∃ bar canonical,
      validateRow clock request .sourceField (row visible) = .ok (some bar) ∧
      acceptBars clock request .sourceField [row visible] = .ok ([bar], report) ∧
      CanonicalBarIngestor.ingest clock format.schemaHash request .sourceField [row visible] =
        .ok canonical ∧
      ∃ stored, ReadBack clock request.window bar stored ∧ stored.visibleAt = after 60000000000 := by
  -- The import of the one row, evaluated.
  have hrow : ((validateRow clock request .sourceField (row visible)).toOption.any fun out =>
      out.any fun bar =>
        (acceptBars clock request .sourceField [row visible]).toOption = some ([bar], report) ∧
          bar.input.stored.any fun input =>
            input.barEnd ≤ request.window.asOf.instant ∧ input.visibleAt = after 60000000000 ∧
              input.visibleAt ≤ request.window.visibleAtCutoff.instant ∧
              (Bar.new clock input).any fun made => made.toOption.isSome) = true := by
    rcases h with rfl | rfl <;> decide +kernel
  have hingest : (CanonicalBarIngestor.ingest clock format.schemaHash request .sourceField
      [row visible]).toOption.isSome = true := by
    rcases h with rfl | rfl <;> decide +kernel
  obtain ⟨out, hout, hany⟩ := exists_ok_of_any hrow
  cases out with
  | none => cases hany
  | some bar =>
    rw [Option.any_some, decide_eq_true_eq] at hany
    obtain ⟨haccept, hstored⟩ := hany
    obtain ⟨input, hinput, hstored⟩ := exists_some_of_any hstored
    rw [decide_eq_true_eq] at hstored
    obtain ⟨hended, hvisible, hknown, hnew⟩ := hstored
    obtain ⟨made, hmade, hnew⟩ := exists_some_of_any hnew
    obtain ⟨stored, hstored⟩ : ∃ stored, made = .ok stored := ⟨_, eq_ok_get hnew⟩
    rw [hstored] at hmade
    obtain rfl := (Bar.new_eq_ok.mp hmade).2
    exact ⟨bar, _, hout, eq_ok_of_toOption haccept, eq_ok_get hingest, stored,
      ⟨hinput, hended, hknown, hmade⟩, hvisible⟩

/-- The bar has the instant of its row. -/
theorem visibleAt_of_row {visible : ℕ} {bar : Bar}
    (hrow : validateRow clock request .sourceField (row visible) = .ok (some bar)) :
    bar.visibleAt = after visible :=
  (Except.ok.inj ((imported_of_validateRow hrow).2 :
    Except.ok (after visible) = Except.ok bar.visibleAt)).symm

/-- The import is written and read back. -/
theorem read_row {visible : ℕ} {bar stored : Bar} {canonical : CanonicalBarBatch}
    (haccept : acceptBars clock request .sourceField [row visible] = .ok ([bar], report))
    (hingest : CanonicalBarIngestor.ingest clock format.schemaHash request .sourceField
      [row visible] = .ok canonical)
    (hstored : ReadBack clock request.window bar stored) :
    ∃ package verified, BarSnapshotCodec.build format ⟨9⟩ request canonical = .ok package ∧
      BarSnapshotCodec.decodeVerified format package.snapshot package.parquet package.manifest =
        .ok verified := by
  have h : ImportedBatch format request .sourceField [row visible] canonical [bar] :=
    importedBatch_of_ingest haccept hingest
  have hreport : canonical.report = report :=
    (Prod.mk.inj (Except.ok.inj (h.accept.symm.trans haccept))).2
  have hreasons : ReasonsInTextOrder canonical.report.rejections := by
    rw [hreport]
    decide
  obtain ⟨lineage, hbuilds⟩ := (h.builds_iff ⟨9⟩).mpr ⟨.cons hstored .nil, hreasons⟩
  obtain ⟨priceSource, hsource⟩ := h.singlePriceSource_ok
  exact ⟨_, _, build_eq_ok.mpr ⟨_, _, hbuilds, rfl⟩,
    decodeVerified_of_builds format_faithful hbuilds request_accepted.zone hsource⟩

end MorningBar

/-- A bar known at a whole microsecond is read back as it was. -/
theorem accepted_survive_iff_whole : ∃ accepted report canonical,
    acceptBars MorningBar.clock MorningBar.request .sourceField [MorningBar.row 60000000000] =
      .ok (accepted, report) ∧
    CanonicalBarIngestor.ingest MorningBar.clock MorningBar.format.schemaHash MorningBar.request
      .sourceField [MorningBar.row 60000000000] = .ok canonical ∧
    (Survive MorningBar.format ⟨9⟩ MorningBar.request canonical accepted ↔
      (∀ bar ∈ accepted, bar.input.Exact) ∧ ReasonsInTextOrder report.rejections) := by
  obtain ⟨bar, canonical, hrow, haccept, hingest, -⟩ := MorningBar.ingest_row (.inl rfl)
  exact ⟨_, _, _, haccept, hingest, accepted_survive_iff MorningBar.format_faithful
    MorningBar.request_accepted haccept hingest⟩

/-- A bar known one nanosecond after a whole microsecond does not come back. -/
theorem accepted_survive_fails_nanosecond :
    ¬ ∀ (format : SnapshotFormat) (snapshotId : Ulid) (request : CanonicalBarIngestRequest)
      (rule : BarVisibilityRule) (rows : List RawBarRow) (accepted : List Bar)
      (report : BarIngestReport) (canonical : CanonicalBarBatch), format.Faithful →
      request.Accepted format.schemaHash →
      acceptBars format.clock request rule rows = .ok (accepted, report) →
      CanonicalBarIngestor.ingest format.clock format.schemaHash request rule rows =
        .ok canonical → Survive format snapshotId request canonical accepted := by
  intro hall
  obtain ⟨bar, canonical, hrow, haccept, hingest, -⟩ := MorningBar.ingest_row (.inr rfl)
  have hsurvive := hall MorningBar.format ⟨9⟩ MorningBar.request .sourceField _ _ _ canonical
    MorningBar.format_faithful MorningBar.request_accepted haccept hingest
  have h : ImportedBatch MorningBar.format _ _ _ canonical [bar] :=
    importedBatch_of_ingest haccept hingest
  have hexact := (h.exact_of_survive MorningBar.format_faithful hsurvive).1 bar List.mem_cons_self
  have hvisible : bar.visibleAt.MicrosExact := hexact.visible
  rw [MorningBar.visibleAt_of_row hrow] at hvisible
  exact absurd hvisible (by decide +kernel)

/-- The import of the row of a whole microsecond, with what its snapshot shows. -/
theorem visibility_survives_iff_whole : ∃ (package : CanonicalSnapshotPackage)
      (verified : DecodedBarSnapshot) (bar : Bar),
    BarSnapshotCodec.decodeVerified MorningBar.format package.snapshot package.parquet
      package.manifest = .ok verified ∧
    ∃ stored ∈ verified.bars, bar.input.stored = some stored.input ∧
      ((∀ d out, verified.visibleAt d = .ok out →
        (stored ∈ out ↔ MorningBar.after 60000000000 ≤ d)) ↔
          (MorningBar.after 60000000000).MicrosExact) := by
  obtain ⟨bar, canonical, hrow, haccept, hingest, stored, hstored, -⟩ :=
    MorningBar.ingest_row (.inl rfl)
  obtain ⟨package, verified, hbuild, hread⟩ := MorningBar.read_row haccept hingest hstored
  exact ⟨package, verified, bar, hread, visibility_survives_iff MorningBar.format_faithful haccept
    hingest hbuild hread hrow List.mem_cons_self rfl⟩

/-- A bar known one nanosecond after a whole microsecond is shown before it was known. -/
theorem visibility_fails_nanosecond :
    ¬ ∀ (format : SnapshotFormat) (snapshotId : Ulid) (request : CanonicalBarIngestRequest)
      (rule : BarVisibilityRule) (rows : List RawBarRow) (accepted : List Bar)
      (report : BarIngestReport) (canonical : CanonicalBarBatch)
      (package : CanonicalSnapshotPackage) (verified : DecodedBarSnapshot), format.Faithful →
      acceptBars format.clock request rule rows = .ok (accepted, report) →
      CanonicalBarIngestor.ingest format.clock format.schemaHash request rule rows =
        .ok canonical →
      BarSnapshotCodec.build format snapshotId request canonical = .ok package →
      BarSnapshotCodec.decodeVerified format package.snapshot package.parquet package.manifest =
        .ok verified →
      ∀ raw ∈ rows, ∀ bar ∈ accepted,
        validateRow format.clock request rule raw = .ok (some bar) →
        ∀ v, rowVisibility rule raw bar.barEnd = .ok v →
        ∀ stored ∈ verified.bars, stored.sourceRecordId = bar.sourceRecordId →
        ∀ d out, verified.visibleAt d = .ok out → stored ∈ out → v ≤ d := by
  intro hall
  obtain ⟨bar, canonical, hrow, haccept, hingest, stored, hstored, hvisible⟩ :=
    MorningBar.ingest_row (.inr rfl)
  obtain ⟨package, verified, hbuild, hread⟩ := MorningBar.read_row haccept hingest hstored
  have h : ImportedBatch MorningBar.format _ _ _ canonical [bar] :=
    importedBatch_of_ingest haccept hingest
  obtain ⟨hbars, -, hcutoff⟩ := h.bars_of_decodeVerified MorningBar.format_faithful hbuild hread
  obtain ⟨out, hmem, hback⟩ := exists_right_of_forall₂ hbars List.mem_cons_self
  have hinput : out.input = stored.input :=
    Option.some.inj (hback.fields.symm.trans hstored.fields)
  replace hvisible : out.visibleAt = MorningBar.after 60000000000 := by
    rw [Bar.visibleAt, hinput]
    exact hvisible
  -- at the whole microsecond the snapshot already shows the bar
  have hshown : verified.visibleAt (MorningBar.after 60000000000) = .ok
      (verified.bars.filter fun other => other.visibleAt ≤ MorningBar.after 60000000000) := by
    rw [DecodedBarSnapshot.visibleAt, hcutoff, if_neg (by decide +kernel)]
  have hle := hall MorningBar.format ⟨9⟩ MorningBar.request .sourceField _ _ _ canonical package
    verified MorningBar.format_faithful haccept hingest hbuild hread _ List.mem_cons_self bar
    List.mem_cons_self hrow (MorningBar.after 60000000001) rfl out hmem
    (by
      obtain ⟨_, _, _, -, -, -, hsame⟩ := BarInput.stored_eq_some.mp hback.fields
      rw [Bar.sourceRecordId, ← hsame]
      rfl) _ _ hshown
    (List.mem_filter.mpr ⟨hmem, by simp [hvisible]⟩)
  exact absurd hle (by decide +kernel)

end Ficant
