import Ficant.Futures.DeliveryReplay
import Ficant.Runtime.MaterializedInput
import Ficant.Tax.AuthorityProof

namespace Ficant.NativeNodes

open Lib Analytics MaterializedReader

/-!
# Materialised bond inputs are read back

* `safe_readFields` — the decoder keeps to the bytes there are, whatever they are;
* `reads_fields` — it reads what the encoder wrote, field by field;
* `materialized_input_unchanged` — an input reaches the native node as it is, nothing may follow it,
  and its bytes are its own.
-/

variable {τ μ : Type} {chrono : Chrono} {zones : ZoneTable} {messages : Messages τ μ}

/-! ### The decoder keeps to the bytes -/

section Safety

open Reader

/-- The readers of the format keep to the bytes there are. -/
theorem codec_safe : codec.Safe where
  text := safe_string _
  number := safe_u64 _
  hashBytes := safe_take _ 32

theorem safe_construct {α : Type} (result : Except DomainErrorCode α) : Safe (construct result) :=
  Codec.safe_construct result

/-- The readers of the single fields are safe, each because its parts are. -/
theorem safe_i128 : Safe i128 := (safe_array _ 16).bind fun _ => safe_pure _

theorem safe_parsed {α : Type} (parse : String → Option α) : Safe (parsed parse) :=
  codec_safe.parsed parse

/-- More bytes leave room for as many dates. -/
theorem safe_dates (parseDate : String → Option NaiveDate) (limit : ℕ) :
    Safe (dates parseDate limit) := by
  refine (safe_u64 _).bind fun count => (safe_checkRest _ fun s t h => ?_).bind fun _ =>
    safe_count (safe_parsed parseDate) count
  rw [Bool.and_eq_true, decide_eq_true_eq, decide_eq_true_eq] at h ⊢
  refine ⟨h.1, h.2.trans (Nat.div_le_div_right ?_)⟩
  rw [List.length_append]
  exact Nat.le_add_right _ _

theorem safe_coded {α : Type} {read : MaterializedReader ℕ} (h : Safe read) (ofCode : ℕ → Option α) :
    Safe (coded read ofCode) :=
  h.bind fun _ => safe_require _ _

theorem safe_decodeObjectRef : Safe decodeObjectRef :=
  codec_safe.versionRef.bind fun _ => codec_safe.hash.bind fun _ => safe_pure _

theorem safe_decodeMarketTime : Safe (decodeMarketTime chrono zones) :=
  (safe_parsed _).bind fun _ => codec_safe.marketTime zones _ _

theorem safe_decodeCalendar (limit : ℕ) : Safe (decodeCalendar chrono limit) :=
  (safe_string _).bind fun _ => codec_safe.version.bind fun _ => codec_safe.hash.bind fun _ =>
    (safe_parsed _).bind fun _ => (safe_parsed _).bind fun _ => (safe_dates _ limit).bind fun _ =>
      (safe_dates _ limit).bind fun _ => safe_construct _

theorem safe_decodeTaxAttributes : Safe decodeTaxAttributes := by
  refine (safe_u8 _).bind fun tag => ?_
  by_cases h0 : tag = 0
  · rw [if_pos h0]
    exact safe_pure none
  · rw [if_neg h0]
    by_cases h1 : tag = 1
    · rw [if_pos h1]
      exact (safe_coded (safe_u8 _) _).bind fun _ => (safe_coded (safe_u8 _) _).bind fun _ =>
        safe_pure _
    · rw [if_neg h1]
      exact safe_fail _

theorem safe_decodeTerms : Safe (decodeTerms chrono) :=
  (safe_parsed _).bind fun _ => (safe_parsed _).bind fun _ => (safe_parsed _).bind fun _ =>
    (safe_coded (safe_u32 _) _).bind fun _ => (safe_coded (safe_u32 _) _).bind fun _ =>
      (safe_coded (safe_u32 _) _).bind fun _ => safe_i128.bind fun _ => safe_i128.bind fun _ =>
        safe_i128.bind fun _ => safe_decodeTaxAttributes.bind fun _ => safe_construct _

theorem safe_decodeMessage {α : Type} (decode : List UInt8 → Option α) : Safe (decodeMessage decode) :=
  (safe_u64 _).bind fun _ => (safe_take _ _).bind fun _ => safe_require _ _

theorem safe_decodeMagic : Safe decodeMagic := by
  refine (safe_take _ _).bind fun magic => ?_
  by_cases h : magic = materializedBondInputMagic
  · rw [if_pos h]
    exact safe_pure ()
  · rw [if_neg h]
    exact safe_fail _

/-- **The decoder never leaves the bytes it has**, whatever they are. -/
theorem safe_readFields (limit : ℕ) : Safe (readFields chrono zones messages limit) :=
  safe_decodeMagic.bind fun _ => codec_safe.owner.bind fun _ => safe_decodeObjectRef.bind fun _ =>
    safe_decodeObjectRef.bind fun _ => safe_decodeObjectRef.bind fun _ =>
      safe_decodeMarketTime.bind fun _ => (safe_parsed _).bind fun _ =>
        (safe_coded (safe_u8 _) _).bind fun _ => (safe_decodeCalendar limit).bind fun _ =>
          safe_decodeTerms.bind fun _ => (safe_coded (safe_u8 _) _).bind fun _ =>
            safe_i128.bind fun _ => (safe_decodeMessage _).bind fun _ =>
              codec_safe.hash.bind fun _ => (safe_decodeMessage _).bind fun _ => safe_pure _

end Safety

/-! ### The decoder reads what was written -/

/-- Texts of dates and instants are parsed back. -/
structure Chrono.ReadsBack (chrono : Chrono) : Prop where
  date : ∀ date, chrono.parseDate (chrono.dateText date) = some date
  instant : ∀ instant, chrono.parseInstant (chrono.instantText instant) = some instant

/-- Two messages are decoded to what was encoded. -/
structure Messages.ReadsBack (messages : Messages τ μ) (couponTaxTreatment : τ) (metadata : μ) :
    Prop where
  treatment : messages.decodeTreatment (messages.encodeTreatment couponTaxTreatment) =
    some couponTaxTreatment
  metadata : messages.decodeMetadata (messages.encodeMetadata metadata) = some metadata

section Reading

open Reader

/-- The readers of the format read what it writes; a hash has 32 bytes, whatever it is. -/
theorem codec_faithful : codec.Faithful ContentHash.bytes where
  text := reads_string _
  number _ := reads_u64 _
  hashBytes hash := by
    show Reads (Reader.take _ 32) hash.bytes hash.bytes
    rw [← hash.length_eq]
    exact reads_take _ hash.bytes

/-- A constructor that succeeds reads nothing. -/
theorem reads_construct {α : Type} {result : Except DomainErrorCode α} {a : α} (h : result = .ok a) :
    Reads (construct result) [] a :=
  Codec.reads_construct h

/-- A reference to an object is its version and its hash. -/
theorem reads_objectRef (value : AnalyticsObjectRef) :
    Reads decodeObjectRef (encodeObjectRef value) value := by
  unfold encodeObjectRef
  rw [← List.append_assoc]
  exact (codec_faithful.versionRef _).bind ((codec_faithful.hash _).thenPure (reads_pure _))

/-- Two's complement, back and forth. -/
theorem fixedOfBytes_scaledBytes (value : FixedDecimal) : fixedOfBytes value.scaledBytes = value := by
  have hrange : -2 ^ 127 ≤ value.scaled ∧ value.scaled < 2 ^ 127 := value.range
  have hbytes : fromBigEndian value.scaledBytes = (value.scaled % 2 ^ 128).toNat :=
    fromBigEndian_bigEndian (by omega)
  have hmodulus : value.scaled % 2 ^ 128 = value.scaled % ((2 ^ 128 : ℕ) : ℤ) := by push_cast; rfl
  apply FixedDecimal.ext
  unfold fixedOfBytes
  simp only
  rw [hbytes, Int.toNat_of_nonneg (Int.emod_nonneg _ (by norm_num)), hmodulus, Int.emod_bmod]
  exact Int.bmod_eq_of_le (by omega) (by omega)

/-- Sixteen bytes in two's complement. -/
theorem reads_i128 (value : FixedDecimal) : Reads i128 value.scaledBytes value := by
  refine (reads_array _ value.length_scaledBytes).thenPure ?_
  rw [fixedOfBytes_scaledBytes]
  exact reads_pure value

/-- A text that is parsed to a value is read as the value. -/
theorem reads_parsed {α : Type} {parse : String → Option α} {text : String} {a : α}
    (h : parse text = some a) : Reads (parsed parse) (prefixedText text) a :=
  codec_faithful.parsed h

/-- A number of one byte that stands for one of an enumeration. -/
theorem reads_coded8 {α : Type} {ofCode : ℕ → Option α} {code : ℕ} {a : α} (hlt : code < 256)
    (h : ofCode code = some a) : Reads (coded u8 ofCode) [UInt8.ofNat code] a := by
  refine (reads_u8 _ (UInt8.ofNat code)).thenPure (reads_require ?_)
  rw [UInt8.toNat_ofNat', Nat.mod_eq_of_lt hlt]
  exact h

/-- A code of four bytes is read as its member. -/
theorem reads_coded32 {α : Type} {ofCode : ℕ → Option α} {code : ℕ} {a : α} (hlt : code < 2 ^ 32)
    (h : ofCode code = some a) : Reads (coded u32 ofCode) (bigEndian 4 code) a :=
  (reads_u32 _ hlt).thenPure (reads_require h)

/-- A list of dates within the limit.  Every date takes eight bytes at least, so there is room for
    them. -/
theorem reads_dates (hchrono : chrono.ReadsBack) {limit : ℕ} {values : List NaiveDate}
    (hlimit : values.length ≤ limit) :
    Reads (dates chrono.parseDate limit) (encodeDates chrono values) values := by
  intro s hlength
  -- Every date takes at least eight bytes, so the count is never refused as too large.
  have hroom : 8 * values.length ≤
      (values.flatMap fun date => prefixedText (chrono.dateText date)).length := by
    rw [List.length_flatMap]
    have heach : ∀ n ∈ values.map fun date => (prefixedText (chrono.dateText date)).length, 8 ≤ n := by
      intro n hn
      obtain ⟨date, -, rfl⟩ := List.mem_map.mp hn
      rw [prefixedText, List.length_append, length_bigEndian]
      exact Nat.le_add_right _ _
    have hsum := List.card_nsmul_le_sum _ 8 heach
    rw [List.length_map, smul_eq_mul, mul_comm] at hsum
    exact hsum
  have hfits : values.length < 2 ^ 64 := by
    unfold encodeDates at hlength
    simp only [List.length_append] at hlength
    omega
  refine ((reads_u64 _ hfits).bind (reads_checkRest _ (fun t => ?_) (reads_count (fun date =>
    reads_parsed (hchrono.date date)) values))) s hlength
  rw [Bool.and_eq_true, decide_eq_true_eq, decide_eq_true_eq]
  refine ⟨hlimit, (Nat.le_div_iff_mul_le (by norm_num)).mpr ?_⟩
  rw [List.length_append, mul_comm]
  exact hroom.trans (Nat.le_add_right _ _)

/-- A market time that its constructor has accepted. -/
def Accepted (zones : ZoneTable) (value : MarketTime) : Prop :=
  ∃ name, MarketTime.new zones value.instant name value.localTradingDate = some (.ok value)

/-- A time comes back where the constructor finds its local date again. -/
theorem reads_marketTime (hchrono : chrono.ReadsBack)
    (hnames : ∀ text name, zones.name text = some name → zones.name name = some name)
    {value : MarketTime} (h : Accepted zones value) :
    Reads (decodeMarketTime chrono zones) (encodeMarketTime chrono value) value := by
  obtain ⟨name, hnew⟩ := h
  exact (reads_parsed (hchrono.instant _)).bind
    (codec_faithful.marketTime (hchrono.date _) (MarketTime.new_again hnames hnew))

/-- A calendar comes back where its lists are within the limit. -/
theorem reads_calendar (hchrono : chrono.ReadsBack) {limit : ℕ} {value : CalendarBinding}
    (hnonBusinessDays : value.nonBusinessDays.length ≤ limit)
    (hworkWeekends : value.workWeekends.length ≤ limit) :
    Reads (decodeCalendar chrono limit) (encodeCalendar chrono value) value := by
  have hnew : CalendarBinding.new value.calendarId value.version value.contentHash value.coverageStart
      value.coverageEnd value.nonBusinessDays value.workWeekends = .ok value :=
    dif_pos ⟨value.id_proper, value.covers, strictlySorted_iff.mpr value.nonBusinessDays_sorted,
      strictlySorted_iff.mpr value.workWeekends_sorted⟩
  exact (reads_string _ _).bind ((codec_faithful.version _).bind ((codec_faithful.hash _).bind
    ((reads_parsed (hchrono.date _)).bind ((reads_parsed (hchrono.date _)).bind
      ((reads_dates hchrono hnonBusinessDays).bind
        ((reads_dates hchrono hworkWeekends).thenPure (reads_construct hnew)))))))

theorem reads_taxStatus (status : TaxStatus) :
    Reads (coded u8 taxStatusOfCode) [UInt8.ofNat (taxStatusCode status)] status := by
  cases status <;> exact reads_coded8 (by decide) rfl

/-- Taxes stand behind a byte that says whether there are any. -/
theorem reads_taxAttributes (attributes : Option Analytics.BondTaxAttributes) :
    Reads decodeTaxAttributes (encodeTaxAttributes attributes) attributes := by
  cases attributes with
  | none => exact (reads_u8 _ 0).thenPure (reads_pure none)
  | some attributes =>
    exact (reads_u8 _ 1).bind ((reads_taxStatus attributes.valueAddedTaxStatus).bind
      ((reads_taxStatus attributes.incomeTaxStatus).thenPure (reads_pure _)))

/-- The terms of a bond are put together again, with tax attributes and without. -/
theorem assembleTerms_self (value : BondTerms) :
    assembleTerms value.firstIssueDate value.currentIssueDate value.maturityDate value.frequency
      value.dayCount value.businessDay value.couponRate value.faceAmount value.cumulativeIssuedAmount
      value.taxAttributes = .ok value := by
  obtain ⟨firstIssueDate, currentIssueDate, maturityDate, frequency, dayCount, businessDay, couponRate,
    faceAmount, cumulativeIssuedAmount, taxAttributes, hordered, hissued, hcoupon, hface, hissuedPos,
    huntaxed⟩ := value
  cases taxAttributes with
  | some attributes => exact dif_pos ⟨hordered, hissued, hcoupon, hface, hissuedPos⟩
  | none =>
    obtain ⟨rfl, rfl⟩ := huntaxed rfl
    unfold assembleTerms
    simp only [and_self, if_true]
    exact dif_pos ⟨hordered, hcoupon, hface⟩

/-- The terms of a bond come back, with its latest issue where it has taxes. -/
theorem reads_terms (hchrono : chrono.ReadsBack) (value : BondTerms) :
    Reads (decodeTerms chrono) (encodeTerms chrono value) value := by
  -- Every code leads back to its value and fits its width.
  have hfrequency : frequencyOfCode value.frequency.code = some value.frequency := by
    cases value.frequency <;> rfl
  have hdayCount : dayCountOfCode value.dayCount.code = some value.dayCount := by
    cases value.dayCount
    rfl
  have hbusinessDay : businessDayOfCode value.businessDay.code = some value.businessDay := by
    cases value.businessDay
    rfl
  have hfrequencyLt : value.frequency.code < 2 ^ 32 := by
    cases value.frequency <;> decide
  have hdayCountLt : value.dayCount.code < 2 ^ 32 := by
    cases value.dayCount
    decide
  have hbusinessDayLt : value.businessDay.code < 2 ^ 32 := by
    cases value.businessDay
    decide
  exact (reads_parsed (hchrono.date _)).bind ((reads_parsed (hchrono.date _)).bind
    ((reads_parsed (hchrono.date _)).bind ((reads_coded32 hfrequencyLt hfrequency).bind
      ((reads_coded32 hdayCountLt hdayCount).bind ((reads_coded32 hbusinessDayLt hbusinessDay).bind
        ((reads_i128 _).bind ((reads_i128 _).bind ((reads_i128 _).bind
          ((reads_taxAttributes _).thenPure (reads_construct (assembleTerms_self value)))))))))))

/-- A message stands behind its length and is decoded by its own codec. -/
theorem reads_message {α : Type} {decode : List UInt8 → Option α} {bytes : List UInt8} {a : α}
    (h : decode bytes = some a) : Reads (decodeMessage decode) (encodeMessage bytes) a := by
  intro s hlength
  have hfits : bytes.length < 2 ^ 64 := by
    unfold encodeMessage at hlength
    simp only [List.length_append] at hlength
    omega
  exact ((reads_u64 _ hfits).bind ((reads_take _ bytes).thenPure (reads_require h))) s hlength

/-- The magic text is read as nothing else. -/
theorem reads_magic : Reads decodeMagic materializedBondInputMagic () := by
  refine (reads_take _ materializedBondInputMagic).thenPure ?_
  rw [if_pos rfl]
  exact reads_pure ()

/-- **The decoder reads every field as it was written.** -/
theorem reads_fields (hchrono : chrono.ReadsBack)
    (hnames : ∀ text name, zones.name text = some name → zones.name name = some name) {limit : ℕ}
    {input : BondAnalyticsInput} {couponTaxTreatment : τ} (authoritySemanticHash : ContentHash)
    {metadata : μ} (haccepted : Accepted zones input.valuationAt)
    (hnonBusinessDays : input.calendar.nonBusinessDays.length ≤ limit)
    (hworkWeekends : input.calendar.workWeekends.length ≤ limit)
    (hmessages : messages.ReadsBack couponTaxTreatment metadata) :
    Reads (readFields chrono zones messages limit)
      (encodeMaterializedBondInput chrono messages input couponTaxTreatment authoritySemanticHash
        metadata)
      ⟨input.owner, input.bond, input.rulePack, input.snapshot, input.valuationAt,
        input.settlementDate,
        input.calendarRequirement, input.calendar, input.terms, input.mode, input.inputValue,
        couponTaxTreatment, authoritySemanticHash, metadata⟩ := by
  have hrequirement : Reads (coded u8 requirementOfCode) [UInt8.ofNat input.calendarRequirement.code]
      input.calendarRequirement := by
    cases input.calendarRequirement <;> exact reads_coded8 (by decide) rfl
  have hmode : Reads (coded u8 modeOfCode) [UInt8.ofNat input.mode.code] input.mode := by
    cases input.mode <;> exact reads_coded8 (by decide) rfl
  exact reads_magic.bind ((codec_faithful.owner _).bind
    ((reads_objectRef _).bind ((reads_objectRef _).bind
    ((reads_objectRef _).bind ((reads_marketTime hchrono hnames haccepted).bind
      ((reads_parsed (hchrono.date _)).bind (hrequirement.bind
        ((reads_calendar hchrono hnonBusinessDays hworkWeekends).bind ((reads_terms hchrono _).bind
          (hmode.bind ((reads_i128 _).bind ((reads_message hmessages.treatment).bind
            ((codec_faithful.hash _).bind ((reads_message hmessages.metadata).thenPure
              (reads_pure _)))))))))))))))

end Reading

/-! ### Whole inputs -/

/-- What was encoded is decoded, within the limit. -/
theorem decodeUpTo_encode (hchrono : chrono.ReadsBack)
    (hnames : ∀ text name, zones.name text = some name → zones.name name = some name) {limit : ℕ}
    {input : BondAnalyticsInput} {couponTaxTreatment : τ} {authoritySemanticHash : ContentHash}
    {metadata : μ} (haccepted : Accepted zones input.valuationAt)
    (hnonBusinessDays : input.calendar.nonBusinessDays.length ≤ limit)
    (hworkWeekends : input.calendar.workWeekends.length ≤ limit)
    (hmessages : messages.ReadsBack couponTaxTreatment metadata)
    (hlength : (encodeMaterializedBondInput chrono messages input couponTaxTreatment
      authoritySemanticHash metadata).length < 2 ^ 64) :
    decodeUpTo chrono zones messages limit (encodeMaterializedBondInput chrono messages input
      couponTaxTreatment authoritySemanticHash metadata) =
        some (.ok (input, couponTaxTreatment, authoritySemanticHash, metadata)) := by
  have hfields := reads_fields hchrono hnames authoritySemanticHash haccepted hnonBusinessDays
    hworkWeekends hmessages []
  rw [List.append_nil] at hfields
  -- the constructor of an input accepts the fields of an input
  have hinput : BondAnalyticsInput.new input.owner input.bond input.rulePack input.snapshot
      input.valuationAt input.settlementDate input.calendarRequirement input.calendar input.terms
      input.mode input.inputValue = .ok input := by
    unfold BondAnalyticsInput.new
    rw [dif_pos ⟨input.timezone, input.settles, input.value_pos⟩, dif_pos input.covered]
  unfold decodeUpTo
  rw [hfields hlength, Option.map_some]
  refine congrArg some (bind_eq_ok.mpr ⟨_, rfl, bind_eq_ok.mpr ⟨(), rejectIf_eq_ok.mpr ?_,
    bind_eq_ok.mpr ⟨input, mapError_eq_ok.mpr hinput, rfl⟩⟩⟩)
  exact not_not.mpr rfl

/-- What is accepted is all of the bytes. -/
theorem decodeUpTo_trailing {limit : ℕ} {bytes extra : List UInt8}
    {result : BondAnalyticsInput × τ × ContentHash × μ}
    (h : decodeUpTo chrono zones messages limit bytes = some (.ok result)) (hextra : extra ≠ []) :
    decodeUpTo chrono zones messages limit (bytes ++ extra) = some (.error invalidValue) := by
  unfold decodeUpTo at h ⊢
  obtain ⟨read, hread, h⟩ := Option.map_eq_some_iff.mp h
  obtain ⟨⟨fields, remaining⟩, hfields, h⟩ := bind_eq_ok.mp h
  obtain ⟨⟨⟩, hempty, -⟩ := bind_eq_ok.mp h
  rw [hfields] at hread
  rw [rejectIf_eq_ok, not_not] at hempty
  rw [hempty] at hread
  -- the fields are read as before, and the extra bytes are left
  rw [(safe_readFields limit).extend _ _ _ extra hread, List.nil_append, Option.map_some]
  refine congrArg some ?_
  rw [ok_bind]
  simp only
  rw [rejectIf, if_pos hextra]
  rfl

/-- **A materialised input reaches the native node unchanged.**  Where texts of dates and instants
    are parsed back and the name of a zone is its own name:

    * an input with no more than 100000 dates in a list is decoded to what was encoded, with its
      messages and its hash, when its encoding fits into memory;
    * the decoder never reads out of range, whatever the bytes are, and accepts nothing behind what it
      accepts; chrono alone can make it panic, on an instant at the end of its range;
    * two inputs with the same bytes are the same. -/
theorem materialized_input_unchanged (hchrono : chrono.ReadsBack)
    (hnames : ∀ text name, zones.name text = some name → zones.name name = some name) :
    (∀ (input : BondAnalyticsInput) (couponTaxTreatment : τ) (authoritySemanticHash : ContentHash)
        (metadata : μ), Accepted zones input.valuationAt →
      input.calendar.nonBusinessDays.length ≤ 100000 → input.calendar.workWeekends.length ≤ 100000 →
      messages.ReadsBack couponTaxTreatment metadata →
      (encodeMaterializedBondInput chrono messages input couponTaxTreatment authoritySemanticHash
        metadata).length < 2 ^ 64 →
      decodeMaterializedBondInput chrono zones messages
      (encodeMaterializedBondInput chrono messages input
        couponTaxTreatment authoritySemanticHash metadata) =
          some (.ok (input, couponTaxTreatment, authoritySemanticHash, metadata))) ∧
    (∀ bytes, (∃ result, decodeMaterializedBondInput chrono zones messages bytes = some result) ∧
      ∀ accepted, decodeMaterializedBondInput chrono zones messages bytes = some (.ok accepted) →
        ∀ extra, extra ≠ [] →
          decodeMaterializedBondInput chrono zones messages (bytes ++ extra) =
            some (.error invalidValue)) ∧
    ∀ (input input' : BondAnalyticsInput) (couponTaxTreatment couponTaxTreatment' : τ)
        (authoritySemanticHash authoritySemanticHash' : ContentHash) (metadata metadata' : μ),
      Accepted zones input.valuationAt → Accepted zones input'.valuationAt →
      messages.ReadsBack couponTaxTreatment metadata →
      messages.ReadsBack couponTaxTreatment' metadata' →
      (encodeMaterializedBondInput chrono messages input couponTaxTreatment authoritySemanticHash
        metadata).length < 2 ^ 64 →
      encodeMaterializedBondInput chrono messages input couponTaxTreatment authoritySemanticHash
      metadata =
        encodeMaterializedBondInput chrono messages input' couponTaxTreatment' authoritySemanticHash'
          metadata' →
      input = input' ∧ couponTaxTreatment = couponTaxTreatment' ∧
        authoritySemanticHash = authoritySemanticHash' ∧ metadata = metadata' := by
  refine ⟨fun input couponTaxTreatment authoritySemanticHash metadata haccepted hdays hweekends
    hmessages
    hlength => decodeUpTo_encode hchrono hnames haccepted hdays hweekends hmessages hlength,
    fun bytes => ⟨?_, fun accepted h extra hextra => decodeUpTo_trailing h hextra⟩, ?_⟩
  · obtain ⟨result, hresult⟩ := (@safe_readFields _ _ chrono zones messages 100000).returns bytes
    unfold decodeMaterializedBondInput decodeUpTo
    rw [hresult]
    exact ⟨_, rfl⟩
  · intro input input' couponTaxTreatment couponTaxTreatment' hash hash' metadata metadata' haccepted
      haccepted' hmessages hmessages' hlength hbytes
    -- both are decoded, with a limit that is large enough for both
    let limit := max (max input.calendar.nonBusinessDays.length input.calendar.workWeekends.length)
      (max input'.calendar.nonBusinessDays.length input'.calendar.workWeekends.length)
    have hdecode := @decodeUpTo_encode _ _ _ _ _ hchrono hnames limit _ _ _ _ haccepted
      ((le_max_left _ _).trans (le_max_left _ _)) ((le_max_right _ _).trans (le_max_left _ _))
      hmessages
      hlength
    have hdecode' := @decodeUpTo_encode _ _ _ _ _ hchrono hnames limit _ _ _ _ haccepted'
      ((le_max_left _ _).trans (le_max_right _ _)) ((le_max_right _ _).trans (le_max_right _ _))
      hmessages'
      (hbytes ▸ hlength)
    rw [hbytes, hdecode'] at hdecode
    have hsame := Except.ok.inj (Option.some.inj hdecode)
    simp only [Prod.mk.injEq] at hsame
    exact ⟨hsame.1.symm, hsame.2.1.symm, hsame.2.2.1.symm, hsame.2.2.2.symm⟩

/-! ### A sample -/

/-- Two decimal digits. -/
def twoDigits (n : ℕ) : List Char := [Nat.digitChar (n / 10), Nat.digitChar (n % 10)]

/-- Two digits tell the numbers below 32 apart. -/
theorem twoDigits_inj : ∀ m < 32, ∀ n < 32, twoDigits m = twoDigits n → m = n := by decide +kernel

/-- The text of a date with a year of four digits. -/
def isoText (date : NaiveDate) : String :=
  String.ofList (decimalChars date.year ++ ('-' :: twoDigits date.month ++ '-' :: twoDigits date.day))

/-- The text of a date tells it apart: the last two pairs of digits are its month and its day. -/
theorem isoText_injective : Function.Injective isoText := by
  intro a b h
  have hchars := String.ofList_injective h
  obtain ⟨hyear, hrest⟩ := List.append_inj' hchars rfl
  obtain ⟨hmonth, hday⟩ := List.append_inj (List.cons.inj hrest).2 rfl
  have hm : ∀ d : NaiveDate, d.month < 32 := fun d => by have := d.month_le; omega
  have hd : ∀ d : NaiveDate, d.day < 32 := fun d => by have := d.day_le_31; omega
  obtain ⟨year, month, day, _, _, _, _, _, _⟩ := a
  obtain ⟨year', month', day', _, _, _, _, _, _⟩ := b
  obtain rfl := decimalChars_injective hyear
  obtain rfl := twoDigits_inj _ (hm ⟨_, _, _, _, _, _, _, _, _⟩) _ (hm ⟨_, _, _, _, _, _, _, _, _⟩)
    hmonth
  obtain rfl := twoDigits_inj _ (hd ⟨_, _, _, _, _, _, _, _, _⟩) _ (hd ⟨_, _, _, _, _, _, _, _, _⟩)
    (List.cons.inj hday).2
  rfl

/-- Two numbers with a dot between them, which no number has. -/
theorem append_dot_inj {m m' n n' : ℤ}
    (h : decimalChars m ++ '.' :: decimalChars n = decimalChars m' ++ '.' :: decimalChars n') :
    decimalChars m = decimalChars m' ∧ decimalChars n = decimalChars n' := by
  have hdot : ∀ k : ℤ, '.' ∉ decimalChars k := fun k =>
    not_mem_decimalChars (by decide) (by decide) k
  obtain ⟨hfirst, -, hsecond⟩ := (List.append_cons_inj_of_notMem (hdot m) (hdot n)).mp h
  exact ⟨hfirst, hsecond⟩

/-- The text of the instant of the samples; other instants have their second and its nanoseconds. -/
def sampleInstantText (instant : DateTime) : String :=
  if instant = Futures.sampleValuation.instant then "2026-07-20T04:00:00.123456789+00:00"
  else String.ofList (decimalChars instant.timestamp ++ '.' :: decimalChars instant.subsecNanos)

/-- The texts of the samples' instants tell them apart. -/
theorem sampleInstantText_injective : Function.Injective sampleInstantText := by
  -- no number has the letter of the text in it
  have hdiffer : ∀ m n : ℤ, "2026-07-20T04:00:00.123456789+00:00" ≠
      String.ofList (decimalChars m ++ '.' :: decimalChars n) := by
    intro m n h
    have hmem : 'T' ∈ "2026-07-20T04:00:00.123456789+00:00".toList := by decide +kernel
    rw [h, String.toList_ofList, List.mem_append, List.mem_cons] at hmem
    rcases hmem with hmem | hmem | hmem
    · exact not_mem_decimalChars (by decide) (by decide) m hmem
    · exact absurd hmem (by decide)
    · exact not_mem_decimalChars (by decide) (by decide) n hmem
  intro a b h
  unfold sampleInstantText at h
  by_cases ha : a = Futures.sampleValuation.instant <;>
    by_cases hb : b = Futures.sampleValuation.instant
  · rw [ha, hb]
  · rw [if_pos ha, if_neg hb] at h
    exact absurd h (hdiffer _ _)
  · rw [if_neg ha, if_pos hb] at h
    exact absurd h.symm (hdiffer _ _)
  · rw [if_neg ha, if_neg hb] at h
    obtain ⟨hseconds, hnanos⟩ := append_dot_inj (String.ofList_injective h)
    exact DateTime.ext (decimalChars_injective hseconds)
      (by exact_mod_cast decimalChars_injective hnanos)

/-- The texts of the samples, and what parses them. -/
def sampleChrono (parseDate : String → Option NaiveDate) (parseInstant : String → Option DateTime) :
    Chrono :=
  ⟨isoText, parseDate, sampleInstantText, parseInstant⟩

theorem sampleChrono_readsBack :
    (sampleChrono (Function.partialInv isoText) (Function.partialInv sampleInstantText)).ReadsBack :=
  ⟨fun _ => Function.partialInv_left isoText_injective _,
    fun _ => Function.partialInv_left sampleInstantText_injective _⟩

/-- The zone of the samples. -/
def shanghaiZone : ZoneTable := .fixedOffset marketTimezone 28800

/-- The approved treatment of taxed interest, in its own bytes, and metadata without a field. -/
def sampleMessages : Messages Tax.SubjectCouponTaxTreatment Unit :=
  ⟨fun _ =>
    [10, 23, 99, 110, 45, 118, 97, 116, 45, 103, 101, 110, 101, 114, 97, 108, 45, 116, 97, 120, 112,
      97, 121, 101, 114, 18, 26, 99, 110, 45, 99, 103, 98, 45, 105, 110, 116, 101, 114, 101, 115, 116,
      45, 99, 105, 116, 45, 101, 120, 101, 109, 112, 116, 26, 39, 10, 1, 54, 16, 2, 26, 32, 10, 28,
      10, 26, 48, 49, 75, 50, 67, 71, 66, 86, 65, 84, 48, 48, 48, 48, 48, 48, 48, 48, 48, 48, 48, 48,
      48, 48, 48, 48, 16, 1, 34, 37, 10, 1, 48, 26, 32, 10, 28, 10, 26, 48, 49, 75, 50, 67, 71, 66,
      86, 65, 84, 48, 48, 48, 48, 48, 48, 48, 48, 48, 48, 48, 48, 48, 48, 48, 48, 16, 1, 40, 1, 48, 1,
      56, 1],
    fun _ => some (Tax.approvedTreatment "6" 2), fun _ => [], fun _ => some ()⟩

/-- A calendar with a holiday and a weekend that is worked. -/
def workedCalendar : CalendarBinding :=
  ⟨"worked calendar", .first, Fingerprint.sampleHash, Futures.sampleDate 2026 1 1,
    Futures.sampleDate 2027 12 31, [Futures.sampleDate 2026 10 1],
    [Futures.sampleDate 2026 10 10], by decide, by decide, by decide, by decide⟩

theorem sampleValuation_zone : Futures.sampleValuation.marketTimezone = Analytics.marketTimezone := rfl

/-- The price of a bond of ten years at a yield. -/
def sampleBondInput : BondAnalyticsInput :=
  ⟨Fingerprint.sampleOwner, Futures.sampleObject, Futures.sampleObject, Futures.sampleObject,
    Futures.sampleValuation, Futures.sampleDate 2026 7 22, .exactMarket, workedCalendar,
    Futures.sampleTerms, .yieldIn, .ofScaled 25000000000, sampleValuation_zone, by decide, by decide,
    by decide⟩

theorem materialized_input_sample :
    decodeMaterializedBondInput
      (sampleChrono (Function.partialInv isoText) (Function.partialInv sampleInstantText)) shanghaiZone
      sampleMessages (encodeMaterializedBondInput
        (sampleChrono (Function.partialInv isoText) (Function.partialInv sampleInstantText))
        sampleMessages sampleBondInput (Tax.approvedTreatment "6" 2) Tax.boundSemanticHash ()) =
      some (.ok (sampleBondInput, Tax.approvedTreatment "6" 2, Tax.boundSemanticHash, ())) := by
  apply (materialized_input_unchanged sampleChrono_readsBack
    (ZoneTable.canonical_fixedOffset marketTimezone 28800)).1
  · exact ⟨marketTimezone, by decide +kernel⟩
  · decide
  · decide
  · exact ⟨rfl, rfl⟩
  · decide +kernel

end Ficant.NativeNodes
