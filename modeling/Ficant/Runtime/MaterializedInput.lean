import Ficant.Analytics.Bond
import Ficant.Primitives.Decoding
import Ficant.Primitives.FixedArithmetic
import Ficant.Runtime.GraphExecution

namespace Ficant.NativeNodes

open Lib Analytics

/-!
# Materialised bond inputs

The bytes in which an application hands the input of a bond calculation to its native node
(`ficant-native-nodes/src/lib.rs`).

* `encodeMaterializedBondInput` — every field behind the other;
* `decodeMaterializedBondInput` — a reader for every encoder, through the constructors of the domain;
* `Chrono`, `Messages` — the texts of dates and instants, and the messages of the contracts:
  parameters.

Where the decoder could split a slice behind its end or use an index out of range, the result is
`none`; a panic of chrono, which has no local date for an instant at the end of its range, is a
failure of its own.
-/

/-- What the codec needs of chrono: the texts of dates and instants, and what they are parsed to. -/
structure Chrono where
  dateText : NaiveDate → String
  parseDate : String → Option NaiveDate
  instantText : DateTime → String
  parseInstant : String → Option DateTime

/-- What the codec needs of prost: `deterministic_encode` and `decode` of the two messages that it
    carries, the coupon tax treatment and the metadata of a result. -/
structure Messages (τ μ : Type) where
  encodeTreatment : τ → List UInt8
  decodeTreatment : List UInt8 → Option τ
  encodeMetadata : μ → List UInt8
  decodeMetadata : List UInt8 → Option μ

variable {τ μ : Type} (chrono : Chrono) (zones : ZoneTable) (messages : Messages τ μ)

/-! ### The encoder -/

/-- `MATERIALIZED_BOND_INPUT_MAGIC`. -/
def materializedBondInputMagic : List UInt8 := [0x46, 0x4D, 0x42, 0x49, 0x00, 0x02]

/-- The number of a tax status. -/
def taxStatusCode : TaxStatus → ℕ
  | .exempt => 1
  | .taxable => 2

/-- `encode_owner`. -/
def encodeOwner (owner : OwnerRef) : List UInt8 :=
  prefixedText owner.tenantId.text ++ prefixedText owner.ownerId.text

/-- `encode_object_ref`. -/
def encodeObjectRef (value : AnalyticsObjectRef) : List UInt8 :=
  prefixedText value.versionRef.id.text ++
    (bigEndian 8 value.versionRef.version.value ++ value.contentHash.bytes)

/-- `encode_dates`. -/
def encodeDates (dates : List NaiveDate) : List UInt8 :=
  bigEndian 8 dates.length ++ dates.flatMap fun date => prefixedText (chrono.dateText date)

/-- `encode_calendar`. -/
def encodeCalendar (value : CalendarBinding) : List UInt8 :=
  prefixedText value.calendarId ++ (bigEndian 8 value.version.value ++ (value.contentHash.bytes ++
    (prefixedText (chrono.dateText value.coverageStart) ++
    (prefixedText (chrono.dateText value.coverageEnd) ++
    (encodeDates chrono value.nonBusinessDays ++ encodeDates chrono value.workWeekends)))))

/-- The end of `encode_terms`. -/
def encodeTaxAttributes : Option Analytics.BondTaxAttributes → List UInt8
  | some attributes => [1, UInt8.ofNat (taxStatusCode attributes.valueAddedTaxStatus),
      UInt8.ofNat (taxStatusCode attributes.incomeTaxStatus)]
  | none => [0]

/-- `encode_terms`. -/
def encodeTerms (value : BondTerms) : List UInt8 :=
  prefixedText (chrono.dateText value.firstIssueDate) ++
    (prefixedText (chrono.dateText value.currentIssueDate) ++
    (prefixedText (chrono.dateText value.maturityDate) ++
    (bigEndian 4 value.frequency.code ++ (bigEndian 4 value.dayCount.code ++
    (bigEndian 4 value.businessDay.code ++ (value.couponRate.scaledBytes ++
    (value.faceAmount.scaledBytes ++ (value.cumulativeIssuedAmount.scaledBytes ++
    encodeTaxAttributes value.taxAttributes))))))))

/-- The text of the instant, the zone and the local date. -/
def encodeMarketTime (value : MarketTime) : List UInt8 :=
  prefixedText (chrono.instantText value.instant) ++ (prefixedText value.marketTimezone ++
    prefixedText (chrono.dateText value.localTradingDate))

/-- Bytes behind their length. -/
def encodeMessage (bytes : List UInt8) : List UInt8 := bigEndian 8 bytes.length ++ bytes

/-- `encode_materialized_bond_input`. -/
def encodeMaterializedBondInput (input : BondAnalyticsInput) (couponTaxTreatment : τ)
    (authoritySemanticHash : ContentHash) (metadata : μ) : List UInt8 :=
  materializedBondInputMagic ++ (encodeOwner input.owner ++ (encodeObjectRef input.bond ++
    (encodeObjectRef input.rulePack ++ (encodeObjectRef input.snapshot ++
    (encodeMarketTime chrono input.valuationAt ++
    (prefixedText (chrono.dateText input.settlementDate) ++
    ([UInt8.ofNat input.calendarRequirement.code] ++ (encodeCalendar chrono input.calendar ++
    (encodeTerms chrono input.terms ++ ([UInt8.ofNat input.mode.code] ++
    (input.inputValue.scaledBytes ++ (encodeMessage (messages.encodeTreatment couponTaxTreatment) ++
    (authoritySemanticHash.bytes ++ encodeMessage (messages.encodeMetadata metadata))))))))))))))

/-! ### The reader -/

/-- A reader of a materialised input. -/
abbrev MaterializedReader (α : Type) := Reader (Failure RuntimeError) α

namespace MaterializedReader

/-- `take`, with the error of the codec. -/
def take (length : ℕ) : MaterializedReader (List UInt8) := Reader.take ↑invalidValue length

/-- `u8`. -/
def u8 : MaterializedReader ℕ := Reader.u8 ↑invalidValue

/-- `u32`. -/
def u32 : MaterializedReader ℕ := Reader.u32 ↑invalidValue

/-- `u64`, and a size where sizes have 64 bits. -/
def u64 : MaterializedReader ℕ := Reader.u64 ↑invalidValue

/-- The number that sixteen bytes stand for in two's complement. -/
def fixedOfBytes (bytes : List UInt8) : FixedDecimal :=
  ⟨Int.bmod (fromBigEndian bytes) (2 ^ 128), by
    have hlow := Int.le_bmod (x := fromBigEndian bytes) (m := 2 ^ 128) (by decide)
    have hhigh := Int.bmod_lt (x := fromBigEndian bytes) (m := 2 ^ 128) (by decide)
    unfold InI128
    omega⟩

/-- `i128`, as a fixed decimal. -/
def i128 : MaterializedReader FixedDecimal := do
  let bytes ← Reader.array ↑invalidValue 16
  pure (fixedOfBytes bytes)

/-- `string`. -/
def string : MaterializedReader String := Reader.string ↑invalidValue

/-- The format of materialised inputs: a hash stands there without its length. -/
def codec : Codec RuntimeError where
  malformed := invalidValue
  refuse := .domain
  text := string
  number := u64
  hashBytes := take 32

/-- A text that is parsed. -/
def parsed {α : Type} (parse : String → Option α) : MaterializedReader α := codec.parsed parse

/-- `dates`, with at most `limit` of them. -/
def dates (parseDate : String → Option NaiveDate) (limit : ℕ) :
    MaterializedReader (List NaiveDate) := do
  let count ← u64
  Reader.checkRest ↑invalidValue fun remaining => count ≤ limit && count ≤ remaining.length / 8
  Reader.count (parsed parseDate) count

/-- A number that stands for one of an enumeration. -/
def coded {α : Type} (read : MaterializedReader ℕ) (ofCode : ℕ → Option α) : MaterializedReader α := do
  let code ← read
  Reader.require ↑invalidValue (ofCode code)

/-- A constructor of the domain. -/
def construct {α : Type} (result : Except DomainErrorCode α) : MaterializedReader α :=
  codec.construct result

end MaterializedReader

open MaterializedReader

/-! ### The decoder -/

/-- The enumerations, from their numbers. -/
def requirementOfCode : ℕ → Option CalendarRequirement
  | 1 => some .referenceReplay
  | 2 => some .exactMarket
  | _ => none

def modeOfCode : ℕ → Option AnalyticsMode
  | 1 => some .yieldIn
  | 2 => some .priceIn
  | _ => none

def frequencyOfCode : ℕ → Option CouponFrequency
  | 1 => some .annual
  | 2 => some .semiannual
  | _ => none

def dayCountOfCode : ℕ → Option DayCountConvention
  | 1 => some .actActBondIsma
  | _ => none

def businessDayOfCode : ℕ → Option BusinessDayConvention
  | 1 => some .following
  | _ => none

/-- `decode_vat_status` and `decode_income_tax_status`. -/
def taxStatusOfCode : ℕ → Option TaxStatus
  | 1 => some .exempt
  | 2 => some .taxable
  | _ => none

/-- A version. -/
def decodeVersion : MaterializedReader Version := codec.version

/-- A content hash. -/
def decodeHash : MaterializedReader ContentHash := codec.hash

/-- `decode_owner`. -/
def decodeOwner : MaterializedReader OwnerRef := codec.owner

/-- `decode_object_ref`. -/
def decodeObjectRef : MaterializedReader AnalyticsObjectRef := do
  let versionRef ← codec.versionRef
  let contentHash ← decodeHash
  pure ⟨versionRef, contentHash⟩

/-- The valuation time. -/
def decodeMarketTime : MaterializedReader MarketTime := do
  let instant ← parsed chrono.parseInstant
  codec.marketTime zones chrono.parseDate instant

/-- `decode_calendar`. -/
def decodeCalendar (limit : ℕ) : MaterializedReader CalendarBinding := do
  let id ← string
  let version ← decodeVersion
  let contentHash ← decodeHash
  let coverageStart ← parsed chrono.parseDate
  let coverageEnd ← parsed chrono.parseDate
  let nonBusinessDays ← dates chrono.parseDate limit
  let workWeekends ← dates chrono.parseDate limit
  construct (CalendarBinding.new id version contentHash coverageStart coverageEnd nonBusinessDays
    workWeekends)

/-- The tax attributes behind a byte that says whether there are any. -/
def decodeTaxAttributes : MaterializedReader (Option Analytics.BondTaxAttributes) := do
  let tag ← u8
  if tag = 0 then pure none
  else if tag = 1 then do
    let valueAddedTaxStatus ← coded u8 taxStatusOfCode
    let incomeTaxStatus ← coded u8 taxStatusOfCode
    pure (some ⟨valueAddedTaxStatus, incomeTaxStatus⟩)
  else Reader.fail ↑invalidValue

/-- The end of `decode_terms`: without tax attributes two fields have to agree with two others. -/
def assembleTerms (firstIssueDate currentIssueDate maturityDate : NaiveDate)
    (frequency : CouponFrequency) (dayCount : DayCountConvention) (businessDay : BusinessDayConvention)
    (couponRate faceAmount cumulativeIssuedAmount : FixedDecimal) :
    Option Analytics.BondTaxAttributes → Except DomainErrorCode BondTerms
  | some attributes => BondTerms.withIssuance firstIssueDate currentIssueDate maturityDate frequency
      dayCount businessDay couponRate faceAmount cumulativeIssuedAmount attributes
  | none =>
    if currentIssueDate = firstIssueDate ∧ cumulativeIssuedAmount = faceAmount then
      BondTerms.new firstIssueDate maturityDate frequency dayCount businessDay couponRate faceAmount
    else .error .invalidValue

/-- `decode_terms`. -/
def decodeTerms : MaterializedReader BondTerms := do
  let firstIssueDate ← parsed chrono.parseDate
  let currentIssueDate ← parsed chrono.parseDate
  let maturityDate ← parsed chrono.parseDate
  let frequency ← coded u32 frequencyOfCode
  let dayCount ← coded u32 dayCountOfCode
  let businessDay ← coded u32 businessDayOfCode
  let couponRate ← i128
  let faceAmount ← i128
  let cumulativeIssuedAmount ← i128
  let taxAttributes ← decodeTaxAttributes
  construct (assembleTerms firstIssueDate currentIssueDate maturityDate frequency dayCount businessDay
    couponRate faceAmount cumulativeIssuedAmount taxAttributes)

/-- A message behind its length. -/
def decodeMessage {α : Type} (decode : List UInt8 → Option α) : MaterializedReader α := do
  let length ← u64
  let bytes ← take length
  Reader.require ↑invalidValue (decode bytes)

/-- The magic bytes. -/
def decodeMagic : MaterializedReader Unit := do
  let magic ← take materializedBondInputMagic.length
  if magic = materializedBondInputMagic then pure () else Reader.fail ↑invalidValue

/-- What has been read before an input is put together. -/
structure MaterializedFields (τ μ : Type) where
  owner : OwnerRef
  bond : AnalyticsObjectRef
  rulePack : AnalyticsObjectRef
  snapshot : AnalyticsObjectRef
  valuationAt : MarketTime
  settlementDate : NaiveDate
  calendarRequirement : CalendarRequirement
  calendar : CalendarBinding
  terms : BondTerms
  mode : AnalyticsMode
  inputValue : FixedDecimal
  couponTaxTreatment : τ
  authoritySemanticHash : ContentHash
  metadata : μ

/-- The fields, with at most `limit` dates in a list. -/
def readFields (limit : ℕ) : MaterializedReader (MaterializedFields τ μ) := do
  decodeMagic
  let owner ← decodeOwner
  let bond ← decodeObjectRef
  let rulePack ← decodeObjectRef
  let snapshot ← decodeObjectRef
  let valuationAt ← decodeMarketTime chrono zones
  let settlementDate ← parsed chrono.parseDate
  let calendarRequirement ← coded u8 requirementOfCode
  let calendar ← decodeCalendar chrono limit
  let terms ← decodeTerms chrono
  let mode ← coded u8 modeOfCode
  let inputValue ← i128
  let couponTaxTreatment ← decodeMessage messages.decodeTreatment
  let authoritySemanticHash ← decodeHash
  let metadata ← decodeMessage messages.decodeMetadata
  pure ⟨owner, bond, rulePack, snapshot, valuationAt, settlementDate, calendarRequirement, calendar,
    terms, mode, inputValue, couponTaxTreatment, authoritySemanticHash, metadata⟩

/-- The input of the fields. -/
def MaterializedFields.input (fields : MaterializedFields τ μ) :
    Except DomainErrorCode BondAnalyticsInput :=
  BondAnalyticsInput.new fields.owner fields.bond fields.rulePack fields.snapshot fields.valuationAt
    fields.settlementDate fields.calendarRequirement fields.calendar fields.terms fields.mode
    fields.inputValue

/-- `decode_materialized_bond_input`, with at most `limit` dates in a list. -/
def decodeUpTo (limit : ℕ) (bytes : List UInt8) :
    Option (Except (Failure RuntimeError) (BondAnalyticsInput × τ × ContentHash × μ)) :=
  (readFields chrono zones messages limit bytes).map fun result => do
    let (fields, remaining) ← result
    rejectIf (remaining ≠ []) ↑invalidValue
    let input ← fields.input.mapError fun error => Failure.refused (.domain error)
    return (input, fields.couponTaxTreatment, fields.authoritySemanticHash, fields.metadata)

/-- `decode_materialized_bond_input`. -/
def decodeMaterializedBondInput (bytes : List UInt8) :
    Option (Except (Failure RuntimeError) (BondAnalyticsInput × τ × ContentHash × μ)) :=
  decodeUpTo chrono zones messages 100000 bytes

end Ficant.NativeNodes
