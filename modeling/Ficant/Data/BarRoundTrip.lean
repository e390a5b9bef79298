import Ficant.Data.BarSnapshot
import Ficant.Lib.Except

namespace Ficant

open Lib

/-!
# Bars through a snapshot

What a bar looks like after it was imported, written to a snapshot and read back.

* `BarInput.stored` — instants are cut to microseconds, a leap second becomes the second after it, and
  a zero loses one decimal place; `BarInput.Exact` says when that changes nothing;
* `Imported` — what ingestion establishes of every bar it accepts (`imported_of_validateRow`);
* `decodeRow_encodeRecord` — the reader rebuilds the stored fields, or finds them to be no bar.
-/

/-! ### Instants and decimals -/

namespace DateTime

/-- An instant that a number of microseconds says exactly. -/
def MicrosExact (t : DateTime) : Prop := t.WholeMicros ∧ ¬ t.InLeapSecond

instance (t : DateTime) : Decidable t.MicrosExact := inferInstanceAs (Decidable (_ ∧ _))

/-- The instant as it is read back from its microseconds. -/
def cutMicros (t : DateTime) : Option DateTime := fromTimestampMicros t.timestampMicros

/-- **What a cut instant is**: the second after a leap second, without what is below a
    microsecond. -/
theorem cutMicros_eq_some {t u : DateTime} :
    t.cutMicros = some u ↔ u.timestamp = t.timestamp + t.subsecNanos / 1000000000 ∧
      u.subsecNanos = t.subsecNanos % 1000000000 / 1000 * 1000 := by
  rw [cutMicros, fromTimestampMicros, fromTimestamp_eq_some, timestampMicros]
  have hsubsec := t.subsec_lt
  omega

/-- Exactly such an instant is read back as it was. -/
theorem cutMicros_eq_self_iff (t : DateTime) : t.cutMicros = some t ↔ t.MicrosExact := by
  rw [cutMicros_eq_some]
  unfold MicrosExact WholeMicros InLeapSecond
  have hsubsec := t.subsec_lt
  omega

/-- What is read from a number of microseconds is the instant that the number says exactly. -/
theorem fromTimestampMicros_eq_some {micros : ℤ} {t : DateTime} :
    fromTimestampMicros micros = some t ↔ t.timestampMicros = micros ∧ t.MicrosExact := by
  rw [fromTimestampMicros, fromTimestamp_eq_some]
  unfold timestampMicros MicrosExact WholeMicros InLeapSecond
  have hsubsec := t.subsec_lt
  omega

/-- Such instants lie in the order of their numbers. -/
theorem timestampMicros_lt_iff {t u : DateTime} (ht : t.MicrosExact) (hu : u.MicrosExact) :
    t.timestampMicros < u.timestampMicros ↔ t < u := by
  rw [lt_iff]
  unfold timestampMicros
  unfold MicrosExact WholeMicros InLeapSecond at ht hu
  omega

end DateTime

/-- A value as it is read back from its text: a zero loses one decimal place. -/
def DecimalValue.reread (v : DecimalValue) : DecimalValue :=
  if v.coefficient = 0 then { v with scale := v.scale - 1 } else v

/-- A decimal comes back as it was exactly when it is not a zero with a scale. -/
theorem DecimalValue.reread_eq_iff (v : DecimalValue) :
    v.reread = v ↔ (v.coefficient = 0 → v.scale = 0) := by
  obtain ⟨coefficient, scale, unit⟩ := v
  by_cases hzero : coefficient = 0
  · subst hzero
    simp only [reread, if_true, DecimalValue.mk.injEq, true_and, and_true, forall_const]
    omega
  · simp [reread, hzero]

/-- A normal value is read from its cells as the stored one. -/
theorem decimalColumn_decimalCells {value : Option DecimalValue} {unit : UnitRef}
    (h : ∀ v ∈ value, v.Normal ∧ v.unit = unit) :
    decimalColumn (decimalCells value) unit = .ok (value.map DecimalValue.reread) := by
  cases value with
  | none => rfl
  | some v =>
    obtain ⟨hnormal, rfl⟩ := h v rfl
    simp only [decimalCells, decimalColumn, Option.map_some]
    rw [DecimalValue.new_coefficientText hnormal]
    rfl

/-! ### Stored bars -/

/-- The prices as they are read back. -/
def BarPrices.stored (p : BarPrices) : BarPrices :=
  ⟨p.open_.reread, p.high.reread, p.low.reread, p.close.reread⟩

namespace BarInput

/-- The fields of a bar as they are read back, with these instants. -/
def storedAt (i : BarInput) (barStart barEnd visibleAt : DateTime) : BarInput :=
  { i with
    barStart, barEnd, visibleAt
    prices := i.prices.map BarPrices.stored
    volume := i.volume.reread
    turnover := i.turnover.map DecimalValue.reread
    vwap := i.vwap.map DecimalValue.reread
    closeYield := i.closeYield.map DecimalValue.reread }

/-- The fields of a bar as they are read back, where chrono can represent its instants. -/
def stored (i : BarInput) : Option BarInput := do
  let barStart ← i.barStart.cutMicros
  let barEnd ← i.barEnd.cutMicros
  let visibleAt ← i.visibleAt.cutMicros
  pure (i.storedAt barStart barEnd visibleAt)

/-- A stored bar has the cut instants and the reread decimals. -/
theorem stored_eq_some {i s : BarInput} : i.stored = some s ↔
    ∃ barStart barEnd visibleAt, i.barStart.cutMicros = some barStart ∧
      i.barEnd.cutMicros = some barEnd ∧ i.visibleAt.cutMicros = some visibleAt ∧
      i.storedAt barStart barEnd visibleAt = s := by
  simp only [stored, Option.bind_eq_bind, Option.bind_eq_some_iff, pure, Option.some.injEq]
  constructor
  · rintro ⟨barStart, hstart, barEnd, hend, visibleAt, hvisible, hs⟩
    exact ⟨barStart, barEnd, visibleAt, hstart, hend, hvisible, hs⟩
  · rintro ⟨barStart, barEnd, visibleAt, hstart, hend, hvisible, hs⟩
    exact ⟨barStart, hstart, barEnd, hend, visibleAt, hvisible, hs⟩

/-- The decimals of a bar. -/
def decimals (i : BarInput) : List DecimalValue :=
  (i.prices.toList.flatMap fun p => [p.open_, p.high, p.low, p.close]) ++ [i.volume] ++
    i.turnover.toList ++ i.vwap.toList ++ i.closeYield.toList

/-- A bar that a snapshot keeps as it is: its instants lie on whole microseconds and in no leap
    second, and its zeros have no decimal place. -/
structure Exact (i : BarInput) : Prop where
  start : i.barStart.MicrosExact
  ends : i.barEnd.MicrosExact
  visible : i.visibleAt.MicrosExact
  zeros : ∀ v ∈ i.decimals, v.coefficient = 0 → v.scale = 0

/-- So does a decimal that may be missing. -/
theorem map_reread_eq_iff {value : Option DecimalValue} :
    value.map DecimalValue.reread = value ↔ ∀ v ∈ value, v.coefficient = 0 → v.scale = 0 := by
  cases value with
  | none => simp
  | some v => simp [DecimalValue.reread_eq_iff]

/-- Exactly such a bar is stored as it is. -/
theorem stored_eq_self_iff (i : BarInput) : i.stored = some i ↔ i.Exact := by
  have hprices : i.prices.map BarPrices.stored = i.prices ↔
      ∀ v ∈ i.prices.toList.flatMap fun p => [p.open_, p.high, p.low, p.close],
        v.coefficient = 0 → v.scale = 0 := by
    cases i.prices with
    | none => simp
    | some p =>
      obtain ⟨opens, high, low, close⟩ := p
      simp [BarPrices.stored, DecimalValue.reread_eq_iff]
  -- with exact instants only the decimals remain to be compared
  have hdecimals : i.storedAt i.barStart i.barEnd i.visibleAt = i ↔
      ∀ v ∈ i.decimals, v.coefficient = 0 → v.scale = 0 := by
    obtain ⟨id, instrument, frequency, settlement, zone, date, start, ends, visible, prices, volume,
      turnover, count, vwap, closeYield⟩ := i
    simp only [storedAt, BarInput.mk.injEq, true_and, map_reread_eq_iff,
      DecimalValue.reread_eq_iff] at hprices ⊢
    rw [hprices]
    simp only [decimals, List.mem_append, List.mem_singleton, Option.mem_toList, or_imp,
      forall_and, forall_eq]
    constructor
    · rintro ⟨hp, hvolume, hturnover, hvwap, hyield⟩
      exact ⟨⟨⟨⟨hp, hvolume⟩, hturnover⟩, hvwap⟩, hyield⟩
    · rintro ⟨⟨⟨⟨hp, hvolume⟩, hturnover⟩, hvwap⟩, hyield⟩
      exact ⟨hp, hvolume, hturnover, hvwap, hyield⟩
  rw [stored_eq_some]
  constructor
  · rintro ⟨barStart, barEnd, visibleAt, hstart, hend, hvisible, hs⟩
    obtain rfl : barStart = i.barStart := congrArg BarInput.barStart hs
    obtain rfl : barEnd = i.barEnd := congrArg BarInput.barEnd hs
    obtain rfl : visibleAt = i.visibleAt := congrArg BarInput.visibleAt hs
    exact ⟨(DateTime.cutMicros_eq_self_iff _).mp hstart, (DateTime.cutMicros_eq_self_iff _).mp hend,
      (DateTime.cutMicros_eq_self_iff _).mp hvisible, hdecimals.mp hs⟩
  · intro h
    exact ⟨_, _, _, (DateTime.cutMicros_eq_self_iff _).mpr h.start,
      (DateTime.cutMicros_eq_self_iff _).mpr h.ends, (DateTime.cutMicros_eq_self_iff _).mpr h.visible,
      hdecimals.mpr h.zeros⟩

end BarInput

/-! ### Imported bars -/

/-- A decimal of the unit, as the constructor makes it. -/
def OfUnit (unit : MarketUnit) (v : DecimalValue) : Prop := v.Normal ∧ v.unit = unit.ref

/-- What ingestion establishes of a bar that it accepts. -/
structure Imported (clock : MarketClock) (request : CanonicalBarIngestRequest) (bar : Bar) :
    Prop where
  made : Bar.new clock bar.input = some (.ok bar)
  zone : bar.input.marketTimezone = marketTimezone
  ended : bar.barEnd ≤ request.window.asOf.instant
  known : bar.visibleAt ≤ request.window.visibleAtCutoff.instant
  prices : ∀ p ∈ bar.input.prices, OfUnit request.priceUnit p.open_ ∧
    OfUnit request.priceUnit p.high ∧ OfUnit request.priceUnit p.low ∧
    OfUnit request.priceUnit p.close
  volume : OfUnit request.amountUnit bar.input.volume
  turnover : ∀ v ∈ bar.input.turnover, OfUnit request.amountUnit v
  vwap : ∀ v ∈ bar.input.vwap, OfUnit request.priceUnit v
  closeYield : ∀ v ∈ bar.input.closeYield, ∃ unit, request.yieldUnit = some unit ∧ OfUnit unit v

section Import

variable {clock : MarketClock} {request : CanonicalBarIngestRequest} {rule : BarVisibilityRule}
  {raw : RawBarRow} {unit : MarketUnit} {field : String}

/-- A number of a row becomes a decimal of the unit of its field. -/
theorem ofUnit_of_decimalField {value : RawDecimal} {v : DecimalValue}
    (h : decimalField raw unit field value = .ok v) : OfUnit unit v := by
  have h := mapError_eq_ok.mp h
  unfold ingestDecimal at h
  split at h
  · cases h
  rename_i made hmade
  split at h
  · cases h
  obtain rfl := Except.ok.inj h
  exact ⟨DecimalValue.normal_of_new hmade, DecimalValue.unit_of_new hmade⟩

/-- So does one that may be missing. -/
theorem ofUnit_of_optionalField {value : Option RawDecimal} {out : Option DecimalValue}
    (h : optionalField raw unit field value = .ok out) : ∀ v ∈ out, OfUnit unit v := by
  intro v hv
  rw [Option.mem_def] at hv
  subst hv
  cases value with
  | none => cases h
  | some value =>
    obtain ⟨made, hmade, hsome⟩ := map_eq_ok.mp h
    obtain rfl := Option.some.inj hsome
    exact ofUnit_of_decimalField hmade

/-- All four prices have the unit of the request. -/
theorem ofUnit_of_rowPrices {out : Option BarPrices} (h : rowPrices request raw = .ok out) :
    ∀ p ∈ out, OfUnit request.priceUnit p.open_ ∧ OfUnit request.priceUnit p.high ∧
      OfUnit request.priceUnit p.low ∧ OfUnit request.priceUnit p.close := by
  intro p hp
  rw [Option.mem_def] at hp
  subst hp
  unfold rowPrices at h
  split at h
  · obtain ⟨opens, hopen, h⟩ := bind_eq_ok.mp h
    obtain ⟨high, hhigh, h⟩ := bind_eq_ok.mp h
    obtain ⟨low, hlow, h⟩ := bind_eq_ok.mp h
    obtain ⟨close, hclose, h⟩ := bind_eq_ok.mp h
    obtain rfl := Option.some.inj (Except.ok.inj h)
    exact ⟨ofUnit_of_decimalField hopen, ofUnit_of_decimalField hhigh, ofUnit_of_decimalField hlow,
      ofUnit_of_decimalField hclose⟩
  · cases h
  · cases h

/-- A yield has the unit of the request, which then has one. -/
theorem ofUnit_of_rowYield {out : Option DecimalValue} (h : rowYield request raw = .ok out) :
    ∀ v ∈ out, ∃ unit, request.yieldUnit = some unit ∧ OfUnit unit v := by
  intro v hv
  rw [Option.mem_def] at hv
  subst hv
  unfold rowYield at h
  split at h
  · cases h
  · rename_i value unit _ hunit
    obtain ⟨made, hmade, hsome⟩ := map_eq_ok.mp h
    obtain rfl := Option.some.inj hsome
    exact ⟨unit, hunit, ofUnit_of_decimalField hmade⟩
  · cases h

/-- **One row.** An accepted row gives an imported bar, with the row's own visibility. -/
theorem imported_of_validateRow {bar : Bar}
    (h : validateRow clock request rule raw = .ok (some bar)) :
    Imported clock request bar ∧ rowVisibility rule raw bar.barEnd = .ok bar.visibleAt := by
  unfold validateRow at h
  split at h
  · cases h
  -- the required fields and the times
  obtain ⟨_, -, h⟩ := bind_eq_ok.mp h
  obtain ⟨instrumentKey, -, h⟩ := bind_eq_ok.mp h
  obtain ⟨frequency, -, h⟩ := bind_eq_ok.mp h
  obtain ⟨settlement, -, h⟩ := bind_eq_ok.mp h
  obtain ⟨volume, -, h⟩ := bind_eq_ok.mp h
  obtain ⟨zone, -, h⟩ := bind_eq_ok.mp h
  obtain ⟨⟨barStart, barEnd, tradingDate⟩, -, h⟩ := bind_eq_ok.mp h
  obtain ⟨visibleAt, hvisibility, h⟩ := bind_eq_ok.mp h
  split at h
  · cases h
  split at h
  · cases h
  rename_i hwindow
  push Not at hwindow
  obtain ⟨observed, -, h⟩ := bind_eq_ok.mp h
  split at h
  · cases h
  -- the bar itself
  obtain ⟨made, hmade, hsome⟩ := map_eq_ok.mp h
  obtain rfl := Option.some.inj hsome
  obtain ⟨prices, hprices, hmade⟩ := bind_eq_ok.mp hmade
  obtain ⟨closeYield, hyield, hmade⟩ := bind_eq_ok.mp hmade
  obtain ⟨amount, hamount, hmade⟩ := bind_eq_ok.mp hmade
  obtain ⟨turnover, hturnover, hmade⟩ := bind_eq_ok.mp hmade
  obtain ⟨vwap, hvwap, hmade⟩ := bind_eq_ok.mp hmade
  have hnew := answered_eq_ok.mp hmade
  have hinput := (Bar.new_eq_ok.mp hnew).2
  have hself := Bar.new_input hnew
  obtain ⟨input, hvalid⟩ := made
  simp only at hinput
  subst hinput
  refine ⟨⟨hself, rfl, hwindow.1, hwindow.2, ofUnit_of_rowPrices hprices,
    ofUnit_of_decimalField hamount, ofUnit_of_optionalField hturnover, ofUnit_of_optionalField hvwap,
    ofUnit_of_rowYield hyield⟩, hvisibility⟩

end Import

/-! ### One row through a snapshot -/

/-- A reference comes back from its text and its number. -/
theorem versionRef_text (id : Ulid) (version : Version) :
    versionRef ⟨id.text, version.value⟩ = .ok ⟨id, version⟩ := by
  rw [versionRef, Ulid.new_text, Version.new_value]
  rfl

theorem unitRef_exact (unit : MarketUnit) : unitRef unit.exact = .ok unit.ref := by
  rw [unitRef, MarketUnit.exact, versionRef_text]
  rfl

/-- The manifest has the identifiers and the units of the request. -/
structure BarSnapshotManifest.Of (manifest : BarSnapshotManifest)
    (request : CanonicalBarIngestRequest) : Prop where
  tenant : manifest.tenantId = request.source.owner.tenantId.text
  owner : manifest.ownerId = request.source.owner.ownerId.text
  source : manifest.dataSource = ⟨request.source.dataSourceId.text, request.source.version.value⟩
  units : manifest.units = requestUnits request

/-- The units of a request, as references. -/
def CanonicalBarIngestRequest.boundUnits (request : CanonicalBarIngestRequest) : BoundUnits :=
  ⟨request.priceUnit.ref, request.amountUnit.ref, request.yieldUnit.map MarketUnit.ref⟩

section Row

variable {clock : MarketClock} {request : CanonicalBarIngestRequest} {bar : Bar}
  {manifest : BarSnapshotManifest} {priceSource : PriceSourceType} {row : BarRecord}

/-- The manifest has the units of the request. -/
theorem boundUnits_of (h : manifest.Of request) : boundUnits manifest = .ok request.boundUnits := by
  have hyield : optionalUnitRef (request.yieldUnit.map MarketUnit.exact) =
      .ok (request.yieldUnit.map MarketUnit.ref) := by
    cases request.yieldUnit with
    | none => rfl
    | some unit =>
      simp only [Option.map_some, optionalUnitRef, unitRef_exact]
      rfl
  rw [boundUnits, h.units, requestUnits, unitRef_exact, unitRef_exact, hyield]
  rfl

/-- A date comes back from the days since the epoch. -/
theorem daysSinceEpoch_eq_ok {date : NaiveDate} {days : ℤ} (h : daysSinceEpoch date = .ok days) :
    epochDate days = some date := by
  unfold daysSinceEpoch at h
  simp only at h
  split at h
  · obtain rfl := Except.ok.inj h
    rw [epochDate, Int.sub_add_cancel, NaiveDate.ofDayNumber_dayNumber]
  · cases h

/-- The prices come back reread, or are missing as they were. -/
theorem decodePrices_of (h : Imported clock request bar) {row : BarRecord}
    (hopen : row.open_ = decimalCells (bar.prices.map BarPrices.open_))
    (hhigh : row.high = decimalCells (bar.prices.map BarPrices.high))
    (hlow : row.low = decimalCells (bar.prices.map BarPrices.low))
    (hclose : row.close = decimalCells (bar.prices.map BarPrices.close)) :
    decodePrices request.priceUnit.ref row = .ok (bar.input.prices.map BarPrices.stored) := by
  have hcell : ∀ select : BarPrices → DecimalValue,
      (∀ p ∈ bar.input.prices, OfUnit request.priceUnit (select p)) →
      decimalColumn (decimalCells (bar.prices.map select)) request.priceUnit.ref =
        .ok ((bar.prices.map select).map DecimalValue.reread) := by
    intro select hselect
    refine decimalColumn_decimalCells fun v hv => ?_
    obtain ⟨p, hp, rfl⟩ := Option.map_eq_some_iff.mp hv
    exact hselect p hp
  rw [decodePrices, hopen, hhigh, hlow, hclose, hcell _ fun p hp => (h.prices p hp).1,
    hcell _ fun p hp => (h.prices p hp).2.1, hcell _ fun p hp => (h.prices p hp).2.2.1,
    hcell _ fun p hp => (h.prices p hp).2.2.2]
  show _ = Except.ok (bar.prices.map BarPrices.stored)
  cases bar.prices with
  | none => rfl
  | some p => rfl

/-- The yield comes back reread with its unit, or is missing as it was. -/
theorem decodeYield_of (h : Imported clock request bar) (hm : manifest.Of request)
    {row : BarRecord} (hcells : row.closeYield = decimalCells bar.closeYield)
    (hid : row.yieldUnitId = bar.closeYield.bind fun _ =>
      request.yieldUnit.map fun unit => unit.unitId.text)
    (hversion : row.yieldUnitVersion = bar.closeYield.bind fun _ =>
      request.yieldUnit.map fun unit => unit.version.value) :
    decodeYield manifest (request.yieldUnit.map MarketUnit.ref) row =
      .ok (bar.input.closeYield.map DecimalValue.reread) := by
  have hunits : manifest.units.yieldUnit = request.yieldUnit.map MarketUnit.exact := by
    rw [hm.units]
    rfl
  have hyields := h.closeYield
  change ∀ v ∈ bar.closeYield, _ at hyields
  show _ = Except.ok (bar.closeYield.map DecimalValue.reread)
  cases hyield : bar.closeYield with
  | none =>
    -- no yield: all four columns are null
    rw [hyield] at hcells hid hversion
    have hcolumn : yieldColumn (request.yieldUnit.map MarketUnit.ref) row = .ok none := by
      cases request.yieldUnit with
      | none => rfl
      | some unit =>
        show decimalColumn row.closeYield unit.ref = _
        rw [hcells]
        rfl
    rw [decodeYield, hcolumn]
    show (if _ then _ else _) = _
    rw [if_neg]
    · rfl
    · simp [BarRecord.yieldBound, hid, hversion, hcells, decimalCells]
  | some v =>
    rw [hyield] at hcells hid hversion hyields
    obtain ⟨unit, hunit, hof⟩ := hyields v rfl
    have hcolumn : yieldColumn (request.yieldUnit.map MarketUnit.ref) row = .ok (some v.reread) := by
      rw [hunit]
      show decimalColumn row.closeYield unit.ref = _
      rw [hcells]
      apply decimalColumn_decimalCells
      intro w hw
      obtain rfl := Option.some.inj hw
      exact hof
    rw [decodeYield, hcolumn]
    show (if _ then _ else _) = _
    rw [if_neg]
    · rfl
    · simp [BarRecord.yieldBound, hunits, hunit, hid, hversion, MarketUnit.exact]

/-- The instants of the row of a bar are those of the bar, cut to microseconds. -/
theorem rowInstants_encodeRecord (hrow : encodeRecord request priceSource bar = .ok row)
    {barStart barEnd observedAt visibleAt : DateTime} :
    rowInstants row = .ok (barStart, barEnd, observedAt, visibleAt) ↔
      bar.barStart.cutMicros = some barStart ∧ bar.barEnd.cutMicros = some barEnd ∧
        observedAt = barEnd ∧ bar.visibleAt.cutMicros = some visibleAt := by
  obtain ⟨days, -, hrow⟩ := bind_eq_ok.mp hrow
  obtain rfl := Except.ok.inj hrow
  rw [rowInstants_eq_ok]
  constructor
  · rintro ⟨hstart, hend, hobserved, hvisible⟩
    exact ⟨hstart, hend, Option.some.inj (hobserved.symm.trans hend), hvisible⟩
  · rintro ⟨hstart, hend, rfl, hvisible⟩
    exact ⟨hstart, hend, hend, hvisible⟩

/-- The row of an imported bar, once its instants are read: they have to lie within the window, and the
    stored fields have to pass the rules of a bar again. -/
theorem decodeRow_of_instants (h : Imported clock request bar) (hm : manifest.Of request)
    (hrow : encodeRecord request priceSource bar = .ok row) {barStart barEnd visibleAt : DateTime}
    (hinstants : rowInstants row = .ok (barStart, barEnd, barEnd, visibleAt)) {out : Bar} :
    decodeRow clock manifest request.boundUnits request.window.asOf.instant
        request.window.visibleAtCutoff.instant row = .ok out ↔
      (barEnd ≤ request.window.asOf.instant ∧ visibleAt ≤ request.window.visibleAtCutoff.instant) ∧
        Bar.new clock (bar.input.storedAt barStart barEnd visibleAt) = some (.ok out) := by
  obtain ⟨days, hdays, hrow⟩ := bind_eq_ok.mp hrow
  have hdate := daysSinceEpoch_eq_ok hdays
  replace hrow := Except.ok.inj hrow
  -- The cells that do not depend on the instants are read back as they were written.
  have hvolume : decimalColumn (decimalCells (some bar.volume)) request.amountUnit.ref =
      .ok (some bar.input.volume.reread) := by
    apply decimalColumn_decimalCells
    intro v hv
    obtain rfl := Option.some.inj hv
    exact h.volume
  have hturnover := decimalColumn_decimalCells h.turnover
  have hvwap := decimalColumn_decimalCells h.vwap
  have hyield : decodeYield manifest (request.yieldUnit.map MarketUnit.ref) row = _ :=
    decodeYield_of h hm (by rw [← hrow]) (by rw [← hrow]) (by rw [← hrow])
  have hprices : decodePrices request.priceUnit.ref row = _ :=
    decodePrices_of h (by rw [← hrow]) (by rw [← hrow]) (by rw [← hrow]) (by rw [← hrow])
  rw [decodeRow, hinstants, ok_bind]
  dsimp only
  subst hrow
  -- The row is read under the window of the manifest, which cuts on the stored instants.
  by_cases hwindow : barEnd ≤ request.window.asOf.instant ∧
      visibleAt ≤ request.window.visibleAtCutoff.instant
  · rw [if_neg]
    · simp only [CanonicalBarIngestRequest.boundUnits]
      rw [hyield, ok_bind, hprices, ok_bind, versionRef_text, ok_bind, BarFrequency.fromCode_code,
        BarSettlement.fromCode_code, hdate, hvolume]
      simp only [integrity, ok_bind]
      rw [hturnover, ok_bind, show decimalColumn (decimalCells bar.vwap) request.priceUnit.ref = _ from
        hvwap, ok_bind, answered_eq_ok, ← h.zone]
      exact (and_iff_right hwindow).symm
    · simp [BarRecord.bound, hm.tenant, hm.owner, hm.source, hm.units, requestUnits,
        MarketUnit.exact, hwindow]
  · rw [if_pos]
    · simp [hwindow]
    · rw [not_and_or, not_le, not_le] at hwindow
      exact .inr (.inr hwindow)

/-- What a snapshot of this window reads back of a bar: the bar of its stored fields, when these still
    lie within the window. -/
structure ReadBack (clock : MarketClock) (window : PointInTimeWindow) (bar out : Bar) : Prop where
  fields : bar.input.stored = some out.input
  ended : out.barEnd ≤ window.asOf.instant
  known : out.visibleAt ≤ window.visibleAtCutoff.instant
  made : Bar.new clock out.input = some (.ok out)

/-- **One row.** What is read back from the row of an imported bar is the bar of its stored fields. -/
theorem decodeRow_encodeRecord (h : Imported clock request bar) (hm : manifest.Of request)
    (hrow : encodeRecord request priceSource bar = .ok row) {out : Bar} :
    decodeRow clock manifest request.boundUnits request.window.asOf.instant
        request.window.visibleAtCutoff.instant row = .ok out ↔
      ReadBack clock request.window bar out := by
  constructor
  · intro hdecode
    obtain ⟨⟨barStart, barEnd, observedAt, visibleAt⟩, hinstants, -⟩ := bind_eq_ok.mp hdecode
    obtain ⟨hstart, hend, rfl, hvisible⟩ := (rowInstants_encodeRecord hrow).mp hinstants
    obtain ⟨⟨hended, hknown⟩, hnew⟩ := (decodeRow_of_instants h hm hrow hinstants).mp hdecode
    -- The bar that is built from the cells holds the stored instants and nothing else new.
    have hinput := (Bar.new_eq_ok.mp hnew).2
    refine ⟨?_, ?_, ?_, Bar.new_input hnew⟩
    · rw [BarInput.stored_eq_some]
      exact ⟨_, _, _, hstart, hend, hvisible, hinput.symm⟩
    · rwa [Bar.barEnd, hinput]
    · rwa [Bar.visibleAt, hinput]
  · intro hback
    obtain ⟨barStart, barEnd, visibleAt, hstart, hend, hvisible, hinput⟩ :=
      BarInput.stored_eq_some.mp hback.fields
    have hended := hback.ended
    have hknown := hback.known
    rw [Bar.barEnd, ← hinput] at hended
    rw [Bar.visibleAt, ← hinput] at hknown
    have hinstants := (rowInstants_encodeRecord hrow).mpr ⟨hstart, hend, rfl, hvisible⟩
    refine (decodeRow_of_instants h hm hrow hinstants).mpr ⟨⟨hended, hknown⟩, ?_⟩
    rw [hinput]
    exact hback.made

end Row

end Ficant
