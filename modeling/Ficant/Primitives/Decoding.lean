import Ficant.Lib.Reader
import Ficant.Primitives.EpochDate

namespace Ficant

open Lib

/-!
# Identities and times in a byte format

The inputs of the native nodes and the payloads of the store carry the same identities, references
and times.  They differ in how a text, a number and a hash are laid out and in the error of their
codec, not in what is made of them.

* `Codec` — what a format brings along;
* `Codec.ulid`, `Codec.version`, … , `Codec.marketTime` — the readers that every format has;
* `Codec.Safe` — the readers of the format keep to what there is, and so do these;
* `Codec.Faithful` — they read what the format writes, and so do these.
-/

/-- A byte format: its readers of a text, of a number of eight bytes and of the bytes of a hash, its
    error for what it cannot read, and what it makes of an error of the domain. -/
structure Codec (ε : Type) where
  malformed : ε
  refuse : DomainErrorCode → ε
  text : Reader (Failure ε) String
  number : Reader (Failure ε) ℕ
  hashBytes : Reader (Failure ε) (List UInt8)

namespace Codec

variable {ε α : Type} (codec : Codec ε)

/-! ### The readers -/

/-- A constructor of the domain, with its error mapped. -/
def construct (result : Except DomainErrorCode α) : Reader (Failure ε) α :=
  Reader.lift (result.mapError fun error => .refused (codec.refuse error))

/-- A value parsed from a text. -/
def parsed (parse : String → Option α) : Reader (Failure ε) α := do
  let text ← codec.text
  Reader.require codec.malformed (parse text)

/-- A ULID. -/
def ulid : Reader (Failure ε) Ulid := do
  let text ← codec.text
  codec.construct (Ulid.new text)

/-- A version. -/
def version : Reader (Failure ε) Version := do
  let value ← codec.number
  codec.construct (Version.new value)

/-- A content hash. -/
def hash : Reader (Failure ε) ContentHash := do
  let bytes ← codec.hashBytes
  codec.construct (ContentHash.fromBytes bytes)

/-- An owner. -/
def owner : Reader (Failure ε) OwnerRef := do
  let tenantId ← codec.ulid
  let ownerId ← codec.ulid
  pure ⟨tenantId, ownerId⟩

/-- A reference to one version of an object. -/
def versionRef : Reader (Failure ε) VersionRef := do
  let id ← codec.ulid
  let version ← codec.version
  pure ⟨id, version⟩

/-- A market time behind its instant.  The constructor looks up the local date, which may panic. -/
def marketTime (zones : ZoneTable) (parseDate : String → Option NaiveDate) (instant : DateTime) :
    Reader (Failure ε) MarketTime := do
  let marketTimezone ← codec.text
  let localTradingDate ← codec.parsed parseDate
  Reader.attempt codec.refuse (MarketTime.new zones instant marketTimezone localTradingDate)

/-! ### They keep to what there is -/

/-- The readers of the format keep to what there is. -/
structure Safe : Prop where
  text : Reader.Safe codec.text
  number : Reader.Safe codec.number
  hashBytes : Reader.Safe codec.hashBytes

open Reader

variable {codec}

/-- A constructor reads nothing, so it is safe; and so are the readers made of it. -/
theorem safe_construct (result : Except DomainErrorCode α) : Reader.Safe (codec.construct result) :=
  safe_lift _

namespace Safe

variable (h : codec.Safe)

include h

theorem parsed (parse : String → Option α) : Reader.Safe (codec.parsed parse) :=
  h.text.bind fun _ => safe_require _ _

theorem ulid : Reader.Safe codec.ulid := h.text.bind fun _ => safe_construct _

theorem version : Reader.Safe codec.version := h.number.bind fun _ => safe_construct _

theorem hash : Reader.Safe codec.hash := h.hashBytes.bind fun _ => safe_construct _

theorem owner : Reader.Safe codec.owner := h.ulid.bind fun _ => h.ulid.bind fun _ => safe_pure _

theorem versionRef : Reader.Safe codec.versionRef :=
  h.ulid.bind fun _ => h.version.bind fun _ => safe_pure _

theorem marketTime (zones : ZoneTable) (parseDate : String → Option NaiveDate) (instant : DateTime) :
    Reader.Safe (codec.marketTime zones parseDate instant) :=
  h.text.bind fun _ => (h.parsed _).bind fun _ => safe_attempt _ _

end Safe

/-! ### They read what was written -/

/-- The readers of the format read its texts, its numbers and its hashes, whatever follows. -/
structure Faithful (codec : Codec ε) (writeHash : ContentHash → List UInt8) : Prop where
  text : ∀ text, Reads codec.text (prefixedText text) text
  number : ∀ n, n < 2 ^ 64 → Reads codec.number (bigEndian 8 n) n
  hashBytes : ∀ hash, Reads codec.hashBytes (writeHash hash) hash.bytes

/-- A constructor that succeeds is read from no bytes. -/
theorem reads_construct {result : Except DomainErrorCode α} {a : α} (h : result = .ok a) :
    Reads (codec.construct result) [] a :=
  reads_lift (mapError_eq_ok.mpr h)

namespace Faithful

variable {writeHash : ContentHash → List UInt8} (h : codec.Faithful writeHash)

include h

theorem parsed {parse : String → Option α} {text : String} {a : α} (hparse : parse text = some a) :
    Reads (codec.parsed parse) (prefixedText text) a :=
  (h.text text).thenPure (reads_require hparse)

/-- The text of an identifier is its own canonical text. -/
theorem ulid (id : Ulid) : Reads codec.ulid (prefixedText id.text) id :=
  (h.text id.text).thenPure (reads_construct (Ulid.new_text id))

theorem version (version : Version) : Reads codec.version (bigEndian 8 version.value) version :=
  (h.number _ version.fits).thenPure (reads_construct (Version.new_value version))

theorem hash (hash : ContentHash) : Reads codec.hash (writeHash hash) hash :=
  (h.hashBytes hash).thenPure (reads_construct (dif_pos hash.length_eq))

theorem owner (owner : OwnerRef) :
    Reads codec.owner (prefixedText owner.tenantId.text ++ prefixedText owner.ownerId.text) owner :=
  (h.ulid _).bind ((h.ulid _).thenPure (reads_pure _))

theorem versionRef (value : VersionRef) :
    Reads codec.versionRef (prefixedText value.id.text ++ bigEndian 8 value.version.value) value :=
  (h.ulid _).bind ((h.version _).thenPure (reads_pure _))

/-- A time that its constructor makes of its own fields. -/
theorem marketTime {zones : ZoneTable} {parseDate : String → Option NaiveDate} {time : MarketTime}
    {dateText : String} (hdate : parseDate dateText = some time.localTradingDate)
    (hnew : MarketTime.new zones time.instant time.marketTimezone time.localTradingDate =
      some (.ok time)) :
    Reads (codec.marketTime zones parseDate time.instant)
      (prefixedText time.marketTimezone ++ prefixedText dateText) time :=
  (h.text _).bind ((h.parsed hdate).thenPure (reads_attempt hnew))

end Faithful

end Codec

/-- The name that the time-zone database gives a zone is the zone's name. -/
def ZoneTable.Canonical (zones : ZoneTable) : Prop :=
  ∀ zone name, zones.name zone = some name → zones.name name = some name

/-- A zone with one offset has one name. -/
theorem ZoneTable.canonical_fixedOffset (zone : String) (offset : ℤ) :
    (ZoneTable.fixedOffset zone offset).Canonical := by
  intro text name h
  simp only [ZoneTable.fixedOffset, Option.ite_none_right_eq_some, Option.some.injEq] at h ⊢
  exact ⟨h.2.symm, h.2⟩

/-- The constructor has replaced the zone by its name, and accepts the name again. -/
theorem MarketTime.new_again {zones : ZoneTable} (hzones : zones.Canonical) {instant : DateTime}
    {zone : String} {date : NaiveDate} {time : MarketTime}
    (h : MarketTime.new zones instant zone date = some (.ok time)) :
    MarketTime.new zones time.instant time.marketTimezone time.localTradingDate = some (.ok time) := by
  obtain ⟨hname, hdate, htime⟩ := MarketTime.new_eq_ok.mp h
  rw [MarketTime.new_eq_ok, htime]
  exact ⟨hzones _ _ hname, hdate, rfl⟩

end Ficant
