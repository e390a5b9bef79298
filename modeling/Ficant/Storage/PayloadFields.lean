import Ficant.Application.Governance
import Ficant.Market.Fact
import Ficant.Primitives.Decoding
import Ficant.Primitives.NaiveTime
import Ficant.Research.Artifact
import Ficant.Research.JournalBytes
import Ficant.Runtime.GraphExecution

namespace Ficant.Payload

open Lib

/-!
# The fields of a stored payload

PostgreSQL keeps facts, definitions, snapshots and records of runs as byte strings of one format
(`ficant-storage/src/postgres/codec.rs`): a header, then numbers of fixed width, bytes and texts behind
their length, and lists behind their count.

* `encodeOwner`, `encodeDecimal`, … — what the `Encoder` appends for one field;
* `decodeOwner`, `decodeDecimal`, … — the `Decoder`, as readers of what is left (`Lib.Reader`);
* `codec_faithful.owner`, `reads_decimal`, … — each field is read back, whatever follows;
* `decodePayload` — the header, the fields and the end.

A decimal is not always read back as it was: `StoredDecimal.reread` says what comes back.
-/

/-- `codec_error`. -/
def codecError : ApplicationError := ⟨.storageUnavailable, false⟩

/-- A reader of a payload. -/
abbrev PayloadReader (α : Type) := Reader (Failure ApplicationError) α

/-- What the codec needs of chrono: dates and times from their texts. -/
structure TextParsers where
  parseDate : String → Option NaiveDate
  parseTime : String → Option NaiveTime

/-- The texts that chrono displays are parsed back. -/
structure TextParsers.ReadsBack (texts : TextParsers) : Prop where
  date : ∀ date : NaiveDate, texts.parseDate date.text = some date
  time : ∀ time : NaiveTime, texts.parseTime time.text = some time

/-! ### Encoding -/

/-- The header of a payload. -/
def header : List UInt8 := [0x46, 0x53, 0x54, 0x4F, 0x00, 0x01]

/-- `Encoder::bool`. -/
def encodeBool (value : Bool) : List UInt8 := [if value then 1 else 0]

/-- `Encoder::u8` with the code of an enumeration. -/
def encodeCode (code : ℕ) : List UInt8 := [UInt8.ofNat code]

/-- `Encoder::bytes`. -/
def encodeBytes (value : List UInt8) : List UInt8 := bigEndian 8 value.length ++ value

/-- A content hash is written as bytes. -/
def encodeHash (value : ContentHash) : List UInt8 := encodeBytes value.bytes

/-- `encode_owner`. -/
def encodeOwner (value : OwnerRef) : List UInt8 :=
  prefixedText value.tenantId.text ++ prefixedText value.ownerId.text

/-- `encode_version_ref`. -/
def encodeVersionRef (value : VersionRef) : List UInt8 :=
  prefixedText value.id.text ++ bigEndian 8 value.version.value

/-- `encode_unit_ref`. -/
def encodeUnitRef (value : UnitRef) : List UInt8 :=
  prefixedText value.unitId.text ++ bigEndian 8 value.version.value

/-- `encode_decimal`. -/
def encodeDecimal (value : StoredDecimal) : List UInt8 :=
  prefixedText value.coefficientText ++ (bigEndian 4 value.scale ++ encodeUnitRef value.unit)

/-- `encode_source`: the registered source is not among its fields. -/
def encodeSource (value : FactSource) : List UInt8 :=
  prefixedText value.sourceId ++ (prefixedText value.externalId ++ bigEndian 8 value.sourceRevision)

/-- `encode_optional_id`. -/
def encodeOptionalId (value : Option Ulid) : List UInt8 :=
  writeOptional (fun id => prefixedText id.text) value

/-- `encode_market_time`. -/
def encodeMarketTime (value : MarketTime) : List UInt8 :=
  secondsBytes value.instant ++ (nanosBytes value.instant ++ (prefixedText value.marketTimezone ++
    prefixedText value.localTradingDate.text))

/-- `encode_period`. -/
def encodePeriod (value : EffectivePeriod) : List UInt8 :=
  encodeMarketTime value.from_ ++ encodeMarketTime value.to_

/-- `encode_optional_hash`. -/
def encodeOptionalHash (value : Option ContentHash) : List UInt8 := writeOptional encodeHash value

/-- `encode_lineage_ref`. -/
def encodeLineageRef (value : LineageRef) : List UInt8 :=
  prefixedText value.objectId.text ++
    (writeOptional (fun version : Version => bigEndian 8 version.value) value.version ++
      encodeOptionalHash value.contentHash)

/-- `encode_lineage`. -/
def encodeLineage (lineage : List LineageRef) : List UInt8 := writeList encodeLineageRef lineage

/-! ### Decoding -/

/-- `Decoder::u8`. -/
def u8 : PayloadReader ℕ := Reader.u8 ↑codecError

/-- `Decoder::u32`. -/
def u32 : PayloadReader ℕ := Reader.u32 ↑codecError

/-- `Decoder::u64`. -/
def u64 : PayloadReader ℕ := Reader.u64 ↑codecError

/-- `Decoder::i64`. -/
def i64 : PayloadReader ℤ := do
  let bytes ← Reader.array ↑codecError 8
  pure (Int.bmod (fromBigEndian bytes) (2 ^ 64))

/-- `Decoder::bool`. -/
def bool : PayloadReader Bool := do
  let value ← u8
  if value = 0 then pure false else if value = 1 then pure true else Reader.fail ↑codecError

/-- `Decoder::len`: no more than the bytes that are left. -/
def len : PayloadReader ℕ := do
  let value ← u64
  Reader.checkRest ↑codecError fun rest => value ≤ rest.length
  pure value

/-- `Decoder::bytes`. -/
def bytes : PayloadReader (List UInt8) := do
  let length ← len
  Reader.take ↑codecError length

/-- `Decoder::string`. -/
def string : PayloadReader String := do
  let value ← bytes
  Reader.require ↑codecError (fromUtf8 value)

/-- `Decoder::at_end`. -/
def atEnd : PayloadReader Bool := fun s => some (.ok (s.isEmpty, s))

/-- `Decoder::end`. -/
def finish : PayloadReader Unit := Reader.checkRest ↑codecError List.isEmpty

/-- The format of payloads: a hash stands there behind its length, as bytes do. -/
def codec : Codec ApplicationError where
  malformed := codecError
  refuse := mapDomainError
  text := string
  number := u64
  hashBytes := bytes

/-- A constructor of the domain, with its error mapped. -/
def construct {α : Type} (result : Except DomainErrorCode α) : PayloadReader α :=
  codec.construct result

/-- The value that a code stands for. -/
def coded {α : Type} (ofCode : ℕ → Option α) : PayloadReader α := do
  let code ← u8
  Reader.require ↑codecError (ofCode code)

/-- A field behind a byte that says whether it is there. -/
def optional {α : Type} (read : PayloadReader α) : PayloadReader (Option α) := do
  let present ← bool
  if present then do
    let value ← read
    pure (some value)
  else pure none

/-- As many values as a count in front says. -/
def list {α : Type} (read : PayloadReader α) : PayloadReader (List α) := do
  let count ← len
  Reader.count read count

/-- A value parsed from a text. -/
def parsed {α : Type} (parse : String → Option α) : PayloadReader α := codec.parsed parse

/-- `decode_ulid`. -/
def decodeUlid : PayloadReader Ulid := codec.ulid

/-- `decode_version`. -/
def decodeVersion : PayloadReader Version := codec.version

/-- `decode_hash`. -/
def decodeHash : PayloadReader ContentHash := codec.hash

/-- `decode_owner`. -/
def decodeOwner : PayloadReader OwnerRef := codec.owner

/-- `decode_version_ref`. -/
def decodeVersionRef : PayloadReader VersionRef := codec.versionRef

/-- `decode_unit_ref`. -/
def decodeUnitRef : PayloadReader UnitRef := do
  let value ← codec.versionRef
  pure ⟨value.id, value.version⟩

/-- `decode_decimal`. -/
def decodeDecimal : PayloadReader StoredDecimal := do
  let coefficient ← string
  let scale ← u32
  let unit ← decodeUnitRef
  construct (StoredDecimal.new coefficient scale unit)

/-- `decode_source`. -/
def decodeSource : PayloadReader FactSource := do
  let sourceId ← string
  let externalId ← string
  let sourceRevision ← u64
  construct (FactSource.new sourceId externalId sourceRevision)

/-- `decode_typed_source`. -/
def decodeTypedSource (hasDataSource : Bool) : PayloadReader FactSource := do
  let source ← decodeSource
  if hasDataSource then do
    let reference ← decodeVersionRef
    construct (source.withDataSource reference)
  else pure source

/-- `decode_optional_id`. -/
def decodeOptionalId : PayloadReader (Option Ulid) := optional decodeUlid

/-- `decode_optional_decimal`. -/
def decodeOptionalDecimal : PayloadReader (Option StoredDecimal) := optional decodeDecimal

section Times

variable (zones : ZoneTable) (texts : TextParsers)

/-- `decode_market_time`. -/
def decodeMarketTime : PayloadReader MarketTime := do
  let seconds ← i64
  let nanos ← u32
  let instant ← Reader.require ↑codecError (DateTime.fromTimestamp seconds nanos)
  codec.marketTime zones texts.parseDate instant

/-- `EffectivePeriod::new`. -/
def newPeriod (start stop : MarketTime) : Except DomainErrorCode EffectivePeriod :=
  if h : start.instant < stop.instant then .ok ⟨start, stop, h⟩ else .error .invalidEffectiveTime

/-- `decode_period`. -/
def decodePeriod : PayloadReader EffectivePeriod := do
  let start ← decodeMarketTime zones texts
  let stop ← decodeMarketTime zones texts
  construct (newPeriod start stop)

end Times

/-- `decode_optional_hash`. -/
def decodeOptionalHash : PayloadReader (Option ContentHash) := optional decodeHash

/-- `decode_lineage_ref`. -/
def decodeLineageRef : PayloadReader LineageRef := do
  let objectId ← decodeUlid
  let version ← optional decodeVersion
  let contentHash ← decodeOptionalHash
  construct (LineageRef.new objectId version contentHash)

/-- `decode_lineage`. -/
def decodeLineage : PayloadReader (List LineageRef) := list decodeLineageRef

/-- `Decoder::new`, the fields, and `Decoder::end`; `none` stands for a slice or an index out of
    range. -/
def decodePayload {α : Type} (read : PayloadReader α) (payload : List UInt8) :
    Option (Except (Failure ApplicationError) α) :=
  if header <+: payload then
    ((read >>= fun value => finish >>= fun _ => pure value) (payload.drop header.length)).map
      fun result => result.map Prod.fst
  else some (.error ↑codecError)

/-- A payload, and what its constructor makes of its fields behind the end. -/
def decodeThen {α β : Type} (read : PayloadReader α) (build : α → Except ApplicationError β)
    (payload : List UInt8) : Option (Except (Failure ApplicationError) β) :=
  (decodePayload read payload).map fun fields =>
    fields.bind fun a => (build a).mapError Failure.refused

/-! ### What comes back of a decimal -/

/-- A stored decimal as it is read back: a zero loses a place of its scale, if it has one. -/
def rereadDecimal (d : StoredDecimal) : StoredDecimal :=
  if h : d.coefficient = 0 then
    { coefficient := d.coefficient
      scale := d.scale - 1
      unit := d.unit
      normal :=
        { digits := d.normal.digits
          scale := (Nat.sub_le _ _).trans d.normal.scale
          trimmed := fun hne => absurd h hne } }
  else d

/-- A decimal that is read back as it was: no zero with a scale. -/
def Stable (d : StoredDecimal) : Prop := d.coefficient = 0 → d.scale = 0

instance (d : StoredDecimal) : Decidable (Stable d) := inferInstanceAs (Decidable (_ → _))

/-- A zero comes back with one place less, and everything else as it was. -/
theorem rereadDecimal_toDecimalValue (d : StoredDecimal) : (rereadDecimal d).toDecimalValue =
    if d.coefficient = 0 then { d.toDecimalValue with scale := d.scale - 1 }
    else d.toDecimalValue := by
  unfold rereadDecimal
  by_cases h : d.coefficient = 0
  · rw [dif_pos h, if_pos h]
  · rw [dif_neg h, if_neg h]

@[simp] theorem rereadDecimal_coefficient (d : StoredDecimal) :
    (rereadDecimal d).coefficient = d.coefficient := by
  rw [rereadDecimal_toDecimalValue]
  by_cases h : d.coefficient = 0
  · rw [if_pos h]
  · rw [if_neg h]

@[simp] theorem rereadDecimal_unit (d : StoredDecimal) : (rereadDecimal d).unit = d.unit := by
  rw [rereadDecimal_toDecimalValue]
  by_cases h : d.coefficient = 0
  · rw [if_pos h]
  · rw [if_neg h]

/-- What is lost is no part of the number. -/
@[simp] theorem rereadDecimal_value (d : StoredDecimal) : (rereadDecimal d).value = d.value := by
  by_cases h : d.coefficient = 0
  · apply Subtype.ext
    have hzero : ∀ v : DecimalValue, v.coefficient = 0 → (v.value : ℚ) = 0 := by
      intro v hv
      show (v.coefficient : ℚ) / 10 ^ v.scale = 0
      rw [hv, Int.cast_zero, zero_div]
    exact (hzero _ (by rw [rereadDecimal_coefficient, h])).trans (hzero _ h).symm
  · rw [rereadDecimal_toDecimalValue, if_neg h]

/-- A decimal comes back as it was exactly when it is not a zero with a scale. -/
theorem rereadDecimal_eq_iff {d : StoredDecimal} : rereadDecimal d = d ↔ Stable d := by
  unfold Stable
  constructor
  · intro h hzero
    have hscale := congrArg (fun v : StoredDecimal => v.scale) h
    simp only [rereadDecimal_toDecimalValue, if_pos hzero] at hscale
    omega
  · intro h
    apply StoredDecimal.ext_value
    rw [rereadDecimal_toDecimalValue]
    by_cases hzero : d.coefficient = 0
    · have hscale : d.scale - 1 = d.scale := by
        rw [h hzero]
      rw [if_pos hzero, hscale]
    · rw [if_neg hzero]

/-- The constructor makes of the text what is read back. -/
theorem new_coefficientText (d : StoredDecimal) :
    StoredDecimal.new d.coefficientText d.scale d.unit = .ok (rereadDecimal d) := by
  have hnew := DecimalValue.new_coefficientText d.normal
  unfold StoredDecimal.new
  split
  · rename_i value hvalue
    rw [hnew] at hvalue
    refine congrArg Except.ok (StoredDecimal.ext_value ?_)
    rw [rereadDecimal_toDecimalValue]
    exact (Except.ok.inj hvalue).symm
  · rename_i error herror
    rw [hnew] at herror
    cases herror

/-! ### The fields are read back -/

section Reading

open Reader

/-- A constructor that succeeds reads nothing. -/
theorem reads_construct {α : Type} {result : Except DomainErrorCode α} {a : α} (h : result = .ok a) :
    Reads (construct result) [] a :=
  Codec.reads_construct h

/-- A truth value is one byte. -/
theorem reads_bool (value : Bool) : Reads bool (encodeBool value) value := by
  cases value with
  | false => exact (reads_u8 _ 0).thenPure (reads_pure false)
  | true => exact (reads_u8 _ 1).thenPure (reads_pure true)

/-- The code of an enumeration. -/
theorem reads_coded {α : Type} {ofCode : ℕ → Option α} {code : ℕ} {a : α} (hlt : code < 256)
    (h : ofCode code = some a) : Reads (coded ofCode) (encodeCode code) a := by
  refine (reads_u8 _ (UInt8.ofNat code)).thenPure (reads_require ?_)
  rw [UInt8.toNat_ofNat', Nat.mod_eq_of_lt hlt]
  exact h

/-- A count, and what is read behind it: there are as many bytes at least. -/
theorem reads_len {α : Type} {n : ℕ} {f : ℕ → PayloadReader α} {written : List UInt8} {a : α}
    (hroom : n ≤ written.length) (hf : Reads (f n) written a) :
    Reads (len >>= f) (bigEndian 8 n ++ written) a := by
  intro s hlength
  have hfits : n < 2 ^ 64 := by
    simp only [List.length_append, length_bigEndian] at hlength
    omega
  -- The length is read first and compared with what is left.
  have hlen : len (bigEndian 8 n ++ (written ++ s)) = some (.ok (n, written ++ s)) := by
    have hcount := reads_u64 (codecError : Failure ApplicationError) hfits (written ++ s)
      (by rwa [List.append_assoc] at hlength)
    have hleft : n ≤ (written ++ s).length := by
      rw [List.length_append]
      omega
    unfold len u64
    rw [andThen_of_ok hcount, @andThen_of_ok _ _ _ _ _ _ (written ++ s) ()]
    · rfl
    · rw [checkRest, if_pos (decide_eq_true hleft)]
  rw [List.append_assoc, andThen_of_ok hlen]
  apply hf
  simp only [List.length_append] at hlength ⊢
  omega

/-- Bytes stand behind their length. -/
theorem reads_bytes (value : List UInt8) : Reads bytes (encodeBytes value) value :=
  reads_len le_rfl (reads_take _ value)

/-- A text is its bytes, behind their length. -/
theorem reads_string (text : String) : Reads string (prefixedText text) text :=
  (reads_bytes (utf8 text)).thenPure (reads_require (fromUtf8_utf8 text))

/-- The readers of the format read what it writes. -/
theorem codec_faithful : codec.Faithful encodeHash where
  text := reads_string
  number _ := reads_u64 _
  hashBytes hash := reads_bytes hash.bytes

/-- A unit is written as an identifier and a version. -/
theorem reads_unitRef (value : UnitRef) : Reads decodeUnitRef (encodeUnitRef value) value :=
  (codec_faithful.versionRef ⟨value.unitId, value.version⟩).thenPure (reads_pure _)

/-- A decimal comes back as the constructor makes it of its text. -/
theorem reads_decimal (value : StoredDecimal) :
    Reads decodeDecimal (encodeDecimal value) (rereadDecimal value) := by
  have hscale : value.scale < 2 ^ 32 := by
    have := value.normal.scale
    omega
  exact (reads_string _).bind ((reads_u32 _ hscale).bind
    ((reads_unitRef _).thenPure (reads_construct (new_coefficientText value))))

/-- A source comes back without its registered source. -/
theorem reads_source (value : FactSource) :
    Reads decodeSource (encodeSource value) { value with dataSource := none } := by
  have hnew : FactSource.new value.sourceId value.externalId value.sourceRevision =
      .ok { value with dataSource := none } :=
    dif_pos ⟨value.source_proper, value.external_proper, value.revised, value.fits⟩
  exact (reads_string _).bind ((reads_string _).bind
    ((reads_u64 _ value.fits).thenPure (reads_construct hnew)))

/-- The bytes of a source with the registered source, where there is one. -/
def encodeTypedSource (value : FactSource) : List UInt8 :=
  encodeSource value ++ value.dataSource.elim [] encodeVersionRef

/-- Such a source comes back as it was. -/
theorem reads_typedSource (value : FactSource) :
    Reads (decodeTypedSource value.dataSource.isSome) (encodeTypedSource value) value := by
  refine (reads_source value).bind ?_
  obtain ⟨sourceId, externalId, sourceRevision, dataSource, _, _, _, _⟩ := value
  cases dataSource with
  | none => exact reads_pure _
  | some reference => exact (codec_faithful.versionRef reference).thenPure (reads_construct rfl)

/-- A field that is there or not. -/
theorem reads_optional {α β : Type} {read : PayloadReader β} {write : α → List UInt8} {g : α → β}
    {value : Option α} (h : ∀ a ∈ value, Reads read (write a) (g a)) :
    Reads (optional read) (writeOptional write value) (value.map g) := by
  cases value with
  | none => exact (reads_bool false).thenPure (reads_pure none)
  | some a => exact (reads_bool true).bind ((h a rfl).thenPure (reads_pure _))

/-- A field that is there or not, and is read back. -/
theorem reads_optional_self {α : Type} {read : PayloadReader α} {write : α → List UInt8}
    {value : Option α} (h : ∀ a ∈ value, Reads read (write a) a) :
    Reads (optional read) (writeOptional write value) value := by
  have hmap := reads_optional (g := id) h
  rwa [Option.map_id] at hmap

/-- A list, where every element takes a byte at least. -/
theorem reads_list {α β : Type} {read : PayloadReader β} {write : α → List UInt8} {g : α → β}
    {values : List α} (hne : ∀ a, write a ≠ [])
    (h : ∀ a ∈ values, Reads read (write a) (g a)) :
    Reads (list read) (writeList write values) (values.map g) :=
  reads_len (length_le_flatMap hne values) (reads_count_map h)

/-- A list whose elements are read back. -/
theorem reads_list_self {α : Type} {read : PayloadReader α} {write : α → List UInt8}
    {values : List α} (hne : ∀ a, write a ≠ [])
    (h : ∀ a ∈ values, Reads read (write a) a) :
    Reads (list read) (writeList write values) values := by
  have hmap := reads_list (g := id) hne h
  rwa [List.map_id] at hmap

/-- A text that is parsed to a value is read as the value. -/
theorem reads_parsed {α : Type} {parse : String → Option α} {text : String} {a : α}
    (h : parse text = some a) : Reads (parsed parse) (prefixedText text) a :=
  codec_faithful.parsed h

theorem reads_optionalId (value : Option Ulid) :
    Reads decodeOptionalId (encodeOptionalId value) value :=
  reads_optional_self fun id _ => codec_faithful.ulid id

theorem reads_optionalHash (value : Option ContentHash) :
    Reads decodeOptionalHash (encodeOptionalHash value) value :=
  reads_optional_self fun hash _ => codec_faithful.hash hash

/-- A reference that its constructor accepts. -/
theorem reads_lineageRef {value : LineageRef} (h : value.Exact) :
    Reads decodeLineageRef (encodeLineageRef value) value := by
  have hnew : LineageRef.new value.objectId value.version value.contentHash = .ok value := by
    unfold LineageRef.new
    rw [if_neg]
    rintro ⟨hversion, hhash⟩
    rcases h with h | h
    · rw [hversion] at h
      cases h
    · rw [hhash] at h
      cases h
  exact (codec_faithful.ulid _).bind
    ((reads_optional_self fun version _ => codec_faithful.version version).bind
    ((reads_optionalHash _).thenPure (reads_construct hnew)))

theorem prefixedText_ne_nil (text : String) : prefixedText text ≠ [] := by
  intro h
  have hlength := congrArg List.length h
  rw [prefixedText, List.length_append, length_bigEndian, List.length_nil] at hlength
  omega

/-- A reference takes some bytes, so a list of references can be counted. -/
theorem encodeLineageRef_ne_nil (value : LineageRef) : encodeLineageRef value ≠ [] := by
  intro h
  exact prefixedText_ne_nil _ (List.append_eq_nil_iff.mp h).1

theorem encodeVersionRef_ne_nil (value : VersionRef) : encodeVersionRef value ≠ [] := by
  intro h
  exact prefixedText_ne_nil _ (List.append_eq_nil_iff.mp h).1

theorem encodeDecimal_ne_nil (value : StoredDecimal) : encodeDecimal value ≠ [] := by
  intro h
  exact prefixedText_ne_nil _ (List.append_eq_nil_iff.mp h).1

/-- A lineage is a counted list of references. -/
theorem reads_lineage {lineage : List LineageRef} (h : ∀ reference ∈ lineage, reference.Exact) :
    Reads decodeLineage (encodeLineage lineage) lineage :=
  reads_list_self encodeLineageRef_ne_nil fun reference hmem => reads_lineageRef (h reference hmem)

/-! ### Times -/

/-- The seconds of an instant. -/
theorem reads_i64 (t : DateTime) : Reads i64 (secondsBytes t) t.timestamp := by
  have hlower := t.lower
  have hupper := t.upper
  have hbytes : fromBigEndian (secondsBytes t) = (t.timestamp % 2 ^ 64).toNat :=
    fromBigEndian_bigEndian (by omega)
  refine (reads_array _ (length_bigEndian 8 _)).thenPure ?_
  have hvalue : Int.bmod (fromBigEndian (secondsBytes t)) (2 ^ 64) = t.timestamp := by
    have hmodulus : t.timestamp % 2 ^ 64 = t.timestamp % ((2 ^ 64 : ℕ) : ℤ) := by push_cast; rfl
    rw [hbytes, Int.toNat_of_nonneg (Int.emod_nonneg _ (by norm_num)), hmodulus, Int.emod_bmod]
    exact Int.bmod_eq_of_le (by omega) (by omega)
  rw [secondsBytes] at hvalue
  rw [hvalue]
  exact reads_pure _

/-- A time as its constructor makes it. -/
def StoredTime (zones : ZoneTable) (time : MarketTime) : Prop :=
  MarketTime.new zones time.instant time.marketTimezone time.localTradingDate = some (.ok time)

variable {zones : ZoneTable} {texts : TextParsers}

/-- The nanoseconds run on in a leap second, and fit into four bytes there too. -/
theorem reads_marketTime (htexts : texts.ReadsBack) {time : MarketTime}
    (h : StoredTime zones time) :
    Reads (decodeMarketTime zones texts) (encodeMarketTime time) time := by
  have hnanos : time.instant.subsecNanos < 2 ^ 32 := by
    have := time.instant.subsec_lt
    omega
  have hinstant : DateTime.fromTimestamp time.instant.timestamp time.instant.subsecNanos =
      some time.instant := DateTime.fromTimestamp_eq_some.mpr ⟨rfl, rfl⟩
  refine (reads_i64 _).bind ((reads_u32 _ hnanos).bind ?_)
  rw [← List.nil_append (prefixedText _ ++ _)]
  exact (reads_require hinstant).bind (codec_faithful.marketTime (htexts.date _) h)

/-- A period is its two times; the constructor finds them in order again. -/
theorem reads_period (htexts : texts.ReadsBack) {period : EffectivePeriod}
    (hfrom : StoredTime zones period.from_) (hto : StoredTime zones period.to_) :
    Reads (decodePeriod zones texts) (encodePeriod period) period :=
  (reads_marketTime htexts hfrom).bind ((reads_marketTime htexts hto).thenPure
    (reads_construct (dif_pos period.ordered)))

/-! ### Whole payloads -/

/-- A payload is read back when its fields are. -/
theorem decodePayload_encode {α : Type} {read : PayloadReader α} {written : List UInt8} {a : α}
    (h : ReadsAll read written a) (hlength : (header ++ written).length < 2 ^ 64) :
    decodePayload read (header ++ written) = some (.ok a) := by
  have hread := h (by rw [List.length_append] at hlength; omega)
  unfold decodePayload
  rw [if_pos (List.prefix_append _ _), List.drop_left, andThen_of_ok hread]
  rfl

end Reading

/-! ### No payload stops the program -/

section Safety

open Reader

/-- A constructor reads nothing, so it is safe whatever it returns. -/
theorem safe_construct {α : Type} (result : Except DomainErrorCode α) : Safe (construct result) :=
  Codec.safe_construct result

/-- The readers of single fields are safe, each because its parts are. -/
theorem safe_bool : Safe bool := by
  refine (safe_u8 _).bind fun value => ?_
  by_cases h0 : value = 0
  · rw [if_pos h0]
    exact safe_pure _
  · rw [if_neg h0]
    by_cases h1 : value = 1
    · rw [if_pos h1]
      exact safe_pure _
    · rw [if_neg h1]
      exact safe_fail _

theorem safe_len : Safe len := by
  refine (safe_u64 _).bind fun value => (safe_checkRest _ fun s t h => ?_).bind fun _ => safe_pure _
  rw [decide_eq_true_eq] at h ⊢
  rw [List.length_append]
  omega

theorem safe_bytes : Safe bytes := safe_len.bind fun _ => safe_take _ _

theorem safe_string : Safe string := safe_bytes.bind fun _ => safe_require _ _

theorem safe_coded {α : Type} (ofCode : ℕ → Option α) : Safe (coded ofCode) :=
  (safe_u8 _).bind fun _ => safe_require _ _

theorem safe_optional {α : Type} {read : PayloadReader α} (h : Safe read) : Safe (optional read) := by
  refine safe_bool.bind fun present => ?_
  cases present with
  | false => exact safe_pure none
  | true => exact h.bind fun _ => safe_pure _

theorem safe_list {α : Type} {read : PayloadReader α} (h : Safe read) : Safe (list read) :=
  safe_len.bind fun _ => safe_count h _

/-- The readers of the format keep to the bytes there are. -/
theorem codec_safe : codec.Safe where
  text := safe_string
  number := safe_u64 _
  hashBytes := safe_bytes

theorem safe_parsed {α : Type} (parse : String → Option α) : Safe (parsed parse) :=
  codec_safe.parsed parse

theorem safe_decodeUnitRef : Safe decodeUnitRef := codec_safe.versionRef.bind fun _ => safe_pure _

theorem safe_decodeDecimal : Safe decodeDecimal :=
  safe_string.bind fun _ => (safe_u32 _).bind fun _ => safe_decodeUnitRef.bind fun _ =>
    safe_construct _

theorem safe_decodeSource : Safe decodeSource :=
  safe_string.bind fun _ => safe_string.bind fun _ => (safe_u64 _).bind fun _ => safe_construct _

theorem safe_decodeTypedSource (hasDataSource : Bool) : Safe (decodeTypedSource hasDataSource) := by
  refine safe_decodeSource.bind fun source => ?_
  cases hasDataSource with
  | false => exact safe_pure _
  | true => exact codec_safe.versionRef.bind fun _ => safe_construct _

/-- The reader of a time is safe: the panic of chrono is a failure that it returns. -/
theorem safe_decodeMarketTime (zones : ZoneTable) (texts : TextParsers) :
    Safe (decodeMarketTime zones texts) :=
  ((safe_array _ 8).bind fun _ => safe_pure _).bind fun _ => (safe_u32 _).bind fun _ =>
    (safe_require _ _).bind fun _ => codec_safe.marketTime zones _ _

theorem safe_decodePeriod (zones : ZoneTable) (texts : TextParsers) :
    Safe (decodePeriod zones texts) :=
  (safe_decodeMarketTime zones texts).bind fun _ => (safe_decodeMarketTime zones texts).bind fun _ =>
    safe_construct _

theorem safe_decodeLineageRef : Safe decodeLineageRef :=
  codec_safe.ulid.bind fun _ => (safe_optional codec_safe.version).bind fun _ =>
    (safe_optional codec_safe.hash).bind fun _ => safe_construct _

theorem safe_decodeLineage : Safe decodeLineage := safe_list safe_decodeLineageRef

/-- To look for the end of a payload is no read past it. -/
theorem returns_finish : Returns finish := by
  intro s
  unfold finish checkRest
  by_cases h : s.isEmpty = true
  · rw [if_pos h]
    exact ⟨_, rfl⟩
  · rw [if_neg h]
    exact ⟨_, rfl⟩

/-- Whatever the bytes are, a value or an error comes of them. -/
theorem decodePayload_isSome {α : Type} {read : PayloadReader α} (h : Returns read)
    (payload : List UInt8) : (decodePayload read payload).isSome := by
  unfold decodePayload
  by_cases hheader : header <+: payload
  · rw [if_pos hheader]
    obtain ⟨result, hresult⟩ := (h.bind fun value => returns_finish.bind fun _ =>
      (safe_pure value).toReturns) (payload.drop header.length)
    rw [hresult]
    rfl
  · rw [if_neg hheader]
    rfl

end Safety

end Ficant.Payload
