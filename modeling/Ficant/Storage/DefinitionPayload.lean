import Ficant.Market.Definition
import Ficant.Storage.FactPayload

namespace Ficant.Payload

open Lib

/-!
# Stored definitions

The payload of one version of an instrument, a calendar, a unit or a rule pack
(`ficant-storage/src/postgres/codec.rs`).  The payload of an instrument says behind its fields which
subtype follows, and in which of its shapes.

* `encodeDefinition`, `decodeDefinition` — the codec;
* `rereadDefinition` — what comes back: a coupon rate of zero loses a place of its scale;
* `encodeLegacyRulePack` — a rule pack as it was stored before rule packs had a content;
* `definition_payload_exact` — every definition comes back, up to its coupon rate.
-/

/-! ### Codes -/

/-- `instrument_kind_code`. -/
def instrumentKindCode : InstrumentKind → ℕ
  | .bond => 1
  | .futures => 2
  | .other => 3

/-- `decode_instrument_kind`. -/
def instrumentKindOfCode : ℕ → Option InstrumentKind
  | 1 => some .bond
  | 2 => some .futures
  | 3 => some .other
  | _ => none

/-- `verification_status_code`. -/
def verificationStatusCode : VerificationStatus → ℕ
  | .unverified => 1
  | .verified => 2
  | .rejected => 3

/-- `decode_verification_status`. -/
def verificationStatusOfCode : ℕ → Option VerificationStatus
  | 1 => some .unverified
  | 2 => some .verified
  | 3 => some .rejected
  | _ => none

/-- The codes of `encode_bond_tax_attributes`. -/
def valueAddedTaxCode : ValueAddedTaxStatus → ℕ
  | .exempt => 1
  | .taxable => 2

def valueAddedTaxOfCode : ℕ → Option ValueAddedTaxStatus
  | 1 => some .exempt
  | 2 => some .taxable
  | _ => none

def incomeTaxCode : IncomeTaxStatus → ℕ
  | .exempt => 1
  | .taxable => 2

def incomeTaxOfCode : ℕ → Option IncomeTaxStatus
  | 1 => some .exempt
  | 2 => some .taxable
  | _ => none

/-- The codes of the pricing terms. -/
def frequencyCode : BondCouponFrequency → ℕ
  | .annual => 1
  | .semiannual => 2

def frequencyOfCode : ℕ → Option BondCouponFrequency
  | 1 => some .annual
  | 2 => some .semiannual
  | _ => none

def dayCountCode : BondDayCountConvention → ℕ
  | .actActBondIsma => 1

def dayCountOfCode : ℕ → Option BondDayCountConvention
  | 1 => some .actActBondIsma
  | _ => none

def businessDayCode : BondBusinessDayConvention → ℕ
  | .following => 1

def businessDayOfCode : ℕ → Option BondBusinessDayConvention
  | 1 => some .following
  | _ => none

/-! ### The encoder -/

/-- `encode_instrument`. -/
def encodeInstrument (value : Instrument) : List UInt8 :=
  prefixedText value.instrumentId.text ++ (bigEndian 8 value.version.value ++
    (encodeOwner value.owner ++ (encodeCode (instrumentKindCode value.kind) ++
    (prefixedText value.market ++ (prefixedText value.symbol ++ (encodeUnitRef value.currency ++
    encodeVersionRef value.calendar))))))

/-- `encode_bond_tax_attributes`. -/
def encodeBondTaxAttributes (value : BondTaxAttributes) : List UInt8 :=
  encodeCode (valueAddedTaxCode value.valueAddedTaxStatus) ++
    encodeCode (incomeTaxCode value.incomeTaxStatus)

/-- The fields of a bond with its issuance. -/
def encodeIssuance (value : Bond) (attributes : BondTaxAttributes) : List UInt8 :=
  prefixedText value.firstIssueDate.text ++ (prefixedText value.currentIssueDate.text ++
    (prefixedText value.maturityDate.text ++ (encodeDecimal value.cumulativeIssuedAmount ++
    (encodeBondTaxAttributes attributes ++ encodeDecimal value.faceValue))))

/-- The fields of the pricing terms. -/
def encodePricingTerms (value : BondPricingTerms) : List UInt8 :=
  encodeDecimal value.couponRate ++ (encodeCode (frequencyCode value.frequency) ++
    (encodeCode (dayCountCode value.dayCount) ++ encodeCode (businessDayCode value.businessDay)))

/-- A bond: with pricing terms, with its issuance only, or in the legacy shape. -/
def encodeBond (value : Bond) : List UInt8 :=
  match value.taxAttributes, value.pricingTerms with
  | some attributes, some pricing =>
    encodeCode 4 ++ (encodeIssuance value attributes ++ encodePricingTerms pricing)
  | some attributes, none => encodeCode 3 ++ encodeIssuance value attributes
  | none, _ =>
    encodeCode 1 ++ (prefixedText value.firstIssueDate.text ++
      (prefixedText value.maturityDate.text ++ encodeDecimal value.faceValue))

/-- The fields of a futures contract that every one has. -/
def encodeContractTerms (value : FuturesContract) : List UInt8 :=
  encodeMarketTime value.lastTradeTime ++ (encodeMarketTime value.expiryTime ++
    (encodeMarketTime value.settlementTime ++ (encodeDecimal value.multiplier ++
    encodeVersionRef value.rulePack)))

/-- A futures contract, with its risk terms where it has them. -/
def encodeFutures (value : FuturesContract) : List UInt8 :=
  match value.riskTerms with
  | some risk =>
    encodeCode 5 ++ (encodeContractTerms value ++
      (prefixedText risk.productCode ++ encodeUnitRef risk.priceUnit))
  | none => encodeCode 2 ++ encodeContractTerms value

/-- The subtype of an instrument. -/
def encodeSubtype : Option InstrumentSubtype → List UInt8
  | none => encodeCode 0
  | some (.bond value) => encodeBond value
  | some (.futuresContract value) => encodeFutures value

/-- A session of a calendar. -/
def encodeSession (session : Market.CalendarSession) : List UInt8 :=
  prefixedText session.localDate.text ++
    writeOptional (fun hours : SessionHours =>
      prefixedText hours.openLocalTime.text ++ prefixedText hours.closeLocalTime.text) session.hours

/-- The fields of a calendar. -/
def encodeCalendar (value : Market.Calendar) : List UInt8 :=
  prefixedText value.calendarId.text ++ (bigEndian 8 value.version.value ++
    (encodeOwner value.owner ++ (prefixedText value.market ++ (prefixedText value.marketTimezone ++
    (encodePeriod value.effective ++ writeList encodeSession value.sessions)))))

/-- The fields of a unit. -/
def encodeUnit (value : Market.MarketUnit) : List UInt8 :=
  let i := value.input
  prefixedText i.unitId.text ++ (bigEndian 8 i.version.value ++ (encodeOwner i.owner ++
    (prefixedText i.code ++ (prefixedText i.dimension ++
    (bigEndian 4 i.scale ++ bigEndian 4 i.precision)))))

/-- The fields of a rule pack in front of its content. -/
def encodeRulePackInput (i : MarketRulePackInput) : List UInt8 :=
  prefixedText i.rulePackId.text ++ (bigEndian 8 i.version.value ++ (encodeOwner i.owner ++
    (prefixedText i.market ++ (prefixedText i.ruleType ++ (prefixedText i.source ++
    (encodePeriod i.effective ++ (encodeCode (verificationStatusCode i.verificationStatus) ++
    encodeHash i.contentHash)))))))

/-- The content of a rule pack. -/
def encodeContent (value : Option RulePackContent) : List UInt8 :=
  writeOptional (fun content : RulePackContent =>
    prefixedText content.typeUrl ++ encodeBytes content.value) value

variable {digest : List UInt8 → ContentHash}

/-- The fields of a definition, behind the byte for its kind. -/
def encodeDefinitionFields : DefinitionValue digest → List UInt8
  | .instrument value =>
    encodeCode 1 ++ (encodeInstrument value.instrument ++ encodeSubtype value.subtype)
  | .calendar value => encodeCode 4 ++ encodeCalendar value
  | .unit value => encodeCode 5 ++ encodeUnit value
  | .marketRulePack value =>
    encodeCode 6 ++ (encodeRulePackInput value.input ++ encodeContent value.content)

/-- `encode_definition`. -/
def encodeDefinition (value : DefinitionValue digest) : List UInt8 :=
  header ++ encodeDefinitionFields value

/-- A rule pack as it was stored before there was a content: the fields end behind the hash. -/
def encodeLegacyRulePack (value : MarketRulePack digest) : List UInt8 :=
  header ++ (encodeCode 6 ++ encodeRulePackInput value.input)

/-! ### The decoder -/

section Decoder

variable (digest) (zones : ZoneTable) (texts : TextParsers)

/-- `decode_instrument`. -/
def decodeInstrument : PayloadReader Instrument := do
  let instrumentId ← decodeUlid
  let version ← decodeVersion
  let owner ← decodeOwner
  let kind ← coded instrumentKindOfCode
  let market ← string
  let symbol ← string
  let currency ← decodeUnitRef
  let calendar ← decodeVersionRef
  construct (Instrument.new instrumentId version owner kind market symbol currency calendar)

/-- `decode_bond_tax_attributes`. -/
def decodeBondTaxAttributes : PayloadReader BondTaxAttributes := do
  let valueAddedTaxStatus ← coded valueAddedTaxOfCode
  let incomeTaxStatus ← coded incomeTaxOfCode
  pure ⟨valueAddedTaxStatus, incomeTaxStatus⟩

/-- The legacy shape of a bond. -/
def decodeLegacyBond (instrument : Instrument) : PayloadReader Bond := do
  let issueDate ← parsed texts.parseDate
  let maturityDate ← parsed texts.parseDate
  let faceValue ← decodeDecimal
  construct (Bond.new instrument issueDate maturityDate faceValue)

/-- A bond with its issuance. -/
def decodeIssuance (instrument : Instrument) : PayloadReader Bond := do
  let firstIssueDate ← parsed texts.parseDate
  let currentIssueDate ← parsed texts.parseDate
  let maturityDate ← parsed texts.parseDate
  let cumulativeIssuedAmount ← decodeDecimal
  let taxAttributes ← decodeBondTaxAttributes
  let faceValue ← decodeDecimal
  construct (Bond.withIssuance instrument firstIssueDate currentIssueDate maturityDate
    cumulativeIssuedAmount taxAttributes faceValue)

/-- The pricing terms of a bond. -/
def decodePricingTerms : PayloadReader BondPricingTerms := do
  let couponRate ← decodeDecimal
  let frequency ← coded frequencyOfCode
  let dayCount ← coded dayCountOfCode
  let businessDay ← coded businessDayOfCode
  construct (BondPricingTerms.new couponRate frequency dayCount businessDay)

/-- A bond with its issuance and its pricing terms. -/
def decodePricedBond (instrument : Instrument) : PayloadReader Bond := do
  let bond ← decodeIssuance texts instrument
  let pricing ← decodePricingTerms
  construct (bond.withPricingTerms pricing)

/-- A futures contract. -/
def decodeContract (instrument : Instrument) : PayloadReader FuturesContract := do
  let lastTradeTime ← decodeMarketTime zones texts
  let expiryTime ← decodeMarketTime zones texts
  let settlementTime ← decodeMarketTime zones texts
  let multiplier ← decodeDecimal
  let rulePack ← decodeVersionRef
  construct (FuturesContract.new instrument lastTradeTime expiryTime settlementTime multiplier
    rulePack)

/-- A futures contract with its risk terms. -/
def decodeRiskContract (instrument : Instrument) : PayloadReader FuturesContract := do
  let future ← decodeContract zones texts instrument
  let productCode ← string
  let priceUnit ← decodeUnitRef
  construct (future.withRiskTerms productCode priceUnit)

/-- The branches of the subtype. -/
def decodeSubtype (instrument : Instrument) (shape : ℕ) :
    PayloadReader (Option InstrumentSubtype) :=
  match shape with
  | 0 => pure none
  | 1 => (fun bond => some (.bond bond)) <$> decodeLegacyBond texts instrument
  | 3 => (fun bond => some (.bond bond)) <$> decodeIssuance texts instrument
  | 4 => (fun bond => some (.bond bond)) <$> decodePricedBond texts instrument
  | 2 => (fun future => some (.futuresContract future)) <$> decodeContract zones texts instrument
  | 5 => (fun future => some (.futuresContract future)) <$> decodeRiskContract zones texts instrument
  | _ => Reader.fail ↑codecError

/-- The branch of an instrument. -/
def decodeInstrumentDefinition : PayloadReader InstrumentDefinition := do
  let instrument ← decodeInstrument
  let subtype ← u8 >>= decodeSubtype zones texts instrument
  construct (InstrumentDefinition.new instrument subtype)

/-- A session of a calendar. -/
def decodeSession : PayloadReader Market.CalendarSession := do
  let localDate ← parsed texts.parseDate
  let opens ← bool
  if opens then do
    let openLocalTime ← parsed texts.parseTime
    let closeLocalTime ← parsed texts.parseTime
    construct (Market.CalendarSession.openOn localDate openLocalTime closeLocalTime)
  else pure (.closed localDate)

/-- The branch of a calendar. -/
def decodeCalendar : PayloadReader Market.Calendar := do
  let calendarId ← decodeUlid
  let version ← decodeVersion
  let owner ← decodeOwner
  let market ← string
  let marketTimezone ← string
  let effective ← decodePeriod zones texts
  let sessions ← list (decodeSession texts)
  construct (Market.Calendar.new zones calendarId version owner market marketTimezone effective
    sessions)

/-- The branch of a unit. -/
def decodeUnit : PayloadReader Market.MarketUnit := do
  let unitId ← decodeUlid
  let version ← decodeVersion
  let owner ← decodeOwner
  let code ← string
  let dimension ← string
  let scale ← u32
  let precision ← u32
  construct (Market.MarketUnit.new ⟨unitId, version, owner, code, dimension, scale, precision⟩)

/-- The fields of a rule pack in front of its content. -/
def decodeRulePackInput : PayloadReader MarketRulePackInput := do
  let rulePackId ← decodeUlid
  let version ← decodeVersion
  let owner ← decodeOwner
  let market ← string
  let ruleType ← string
  let source ← string
  let effective ← decodePeriod zones texts
  let verificationStatus ← coded verificationStatusOfCode
  let contentHash ← decodeHash
  pure ⟨rulePackId, version, owner, market, ruleType, source, effective, verificationStatus,
    contentHash⟩

/-- The content of a rule pack. -/
def decodeContent : PayloadReader RulePackContent := do
  let typeUrl ← string
  let value ← bytes
  construct (RulePackContent.new typeUrl value)

/-- What `decode_market_rule_pack` makes of the input and what follows it. -/
def decodeRulePackContent (input : MarketRulePackInput) : PayloadReader (MarketRulePack digest) := do
  let ended ← atEnd
  if ended then construct (MarketRulePack.newInner digest input none)
  else do
    let present ← bool
    if present then do
      let content ← decodeContent
      construct (MarketRulePack.newInner digest input (some content))
    else construct (MarketRulePack.newInner digest input none)

/-- The branches of `decode_definition`. -/
def decodeDefinitionFields (kind : ℕ) : PayloadReader (DefinitionValue digest) :=
  match kind with
  | 1 => DefinitionValue.instrument <$> decodeInstrumentDefinition zones texts
  | 4 => DefinitionValue.calendar <$> decodeCalendar zones texts
  | 5 => DefinitionValue.unit <$> decodeUnit
  | 6 => DefinitionValue.marketRulePack <$>
      (decodeRulePackInput zones texts >>= decodeRulePackContent digest)
  | _ => Reader.fail ↑codecError

/-- `decode_definition`. -/
def decodeDefinition (payload : List UInt8) :
    Option (Except (Failure ApplicationError) (DefinitionValue digest)) :=
  decodePayload (u8 >>= decodeDefinitionFields digest zones texts) payload

end Decoder

/-! ### What comes back -/

/-- The pricing terms as they are read back. -/
def rereadPricingTerms (value : BondPricingTerms) : BondPricingTerms where
  couponRate := rereadDecimal value.couponRate
  frequency := value.frequency
  dayCount := value.dayCount
  businessDay := value.businessDay
  nonneg := (rereadDecimal_coefficient value.couponRate).symm ▸ value.nonneg

/-- A bond as it is read back. -/
def rereadBond (value : Bond) : Bond :=
  { value with
    pricingTerms := value.pricingTerms.map rereadPricingTerms
    legacy := fun h => by
      obtain ⟨hdate, hamount, hterms⟩ := value.legacy h
      exact ⟨hdate, hamount, by rw [hterms, Option.map_none]⟩ }

/-- The subtype of an instrument as it is read back. -/
def rereadSubtype : Option InstrumentSubtype → Option InstrumentSubtype
  | some (.bond value) => some (.bond (rereadBond value))
  | some (.futuresContract value) => some (.futuresContract value)
  | none => none

/-- An instrument with its terms as it is read back. -/
def rereadInstrument (value : InstrumentDefinition) : InstrumentDefinition where
  instrument := value.instrument
  subtype := rereadSubtype value.subtype
  matching := by
    obtain ⟨instrument, subtype, hmatching⟩ := value
    match subtype with
    | some (.bond _) => exact hmatching
    | some (.futuresContract _) => exact hmatching
    | none => exact hmatching

/-- **What is read back of a definition.** -/
def rereadDefinition : DefinitionValue digest → DefinitionValue digest
  | .instrument value => .instrument (rereadInstrument value)
  | .calendar value => .calendar value
  | .unit value => .unit value
  | .marketRulePack value => .marketRulePack value

/-- The coupon rate of a definition, where it has one. -/
def couponRate? : DefinitionValue digest → Option StoredDecimal
  | .instrument ⟨_, some (.bond value), _⟩ => value.pricingTerms.map BondPricingTerms.couponRate
  | _ => none

/-- The times of a definition. -/
def definitionTimes : DefinitionValue digest → List MarketTime
  | .instrument ⟨_, some (.futuresContract value), _⟩ =>
    [value.lastTradeTime, value.expiryTime, value.settlementTime]
  | .instrument _ => []
  | .calendar value => [value.effective.from_, value.effective.to_]
  | .unit _ => []
  | .marketRulePack value => [value.input.effective.from_, value.input.effective.to_]

/-- The terms of a price come back as they were exactly when their coupon rate does. -/
theorem rereadPricingTerms_eq_iff {value : BondPricingTerms} :
    rereadPricingTerms value = value ↔ Stable value.couponRate := by
  obtain ⟨rate, frequency, dayCount, businessDay, hnonneg⟩ := value
  simp only [rereadPricingTerms, BondPricingTerms.mk.injEq, and_true]
  exact rereadDecimal_eq_iff

/-- What is read back is the same exactly when the coupon rate is. -/
theorem rereadDefinition_eq_iff {value : DefinitionValue digest} :
    rereadDefinition value = value ↔ ∀ rate ∈ couponRate? value, Stable rate := by
  match value with
  | .instrument ⟨instrument, some (.bond bond), hmatching⟩ =>
    obtain ⟨_, _, _, _, _, _, _, terms, _, _, _, _, _, _, _⟩ := bond
    simp only [rereadDefinition, rereadInstrument, rereadSubtype, rereadBond, couponRate?,
      DefinitionValue.instrument.injEq, InstrumentDefinition.mk.injEq, Option.some.injEq,
      InstrumentSubtype.bond.injEq, Bond.mk.injEq, true_and]
    cases terms with
    | none => simp
    | some terms => simp [rereadPricingTerms_eq_iff]
  | .instrument ⟨_, some (.futuresContract _), _⟩ =>
    simp [rereadDefinition, rereadInstrument, rereadSubtype, couponRate?]
  | .instrument ⟨_, none, _⟩ =>
    simp [rereadDefinition, rereadInstrument, rereadSubtype, couponRate?]
  | .calendar _ => simp [rereadDefinition, couponRate?]
  | .unit _ => simp [rereadDefinition, couponRate?]
  | .marketRulePack _ => simp [rereadDefinition, couponRate?]

/-! ### Reading back -/

section Reading

open Reader

variable {zones : ZoneTable} {texts : TextParsers}

/-- An instrument comes back field by field. -/
theorem reads_instrument (value : Instrument) :
    Reads decodeInstrument (encodeInstrument value) value := by
  have hkind : instrumentKindOfCode (instrumentKindCode value.kind) = some value.kind := by
    cases value.kind <;> rfl
  have hcode : instrumentKindCode value.kind < 256 := by
    cases value.kind <;> decide
  have hnew : Instrument.new value.instrumentId value.version value.owner value.kind value.market
      value.symbol value.currency value.calendar = .ok value :=
    dif_pos ⟨value.market_proper, value.symbol_proper⟩
  exact (codec_faithful.ulid _).bind ((codec_faithful.version _).bind ((codec_faithful.owner _).bind
    ((reads_coded hcode hkind).bind ((reads_string _).bind ((reads_string _).bind
    ((reads_unitRef _).bind ((codec_faithful.versionRef _).thenPure (reads_construct hnew))))))))

theorem reads_bondTaxAttributes (value : BondTaxAttributes) :
    Reads decodeBondTaxAttributes (encodeBondTaxAttributes value) value := by
  obtain ⟨valueAdded, income⟩ := value
  have hvalueAdded : Reads (coded valueAddedTaxOfCode)
      (encodeCode (valueAddedTaxCode valueAdded)) valueAdded := by
    cases valueAdded <;> exact reads_coded (by decide) rfl
  have hincome : Reads (coded incomeTaxOfCode) (encodeCode (incomeTaxCode income)) income := by
    cases income <;> exact reads_coded (by decide) rfl
  exact hvalueAdded.bind (hincome.thenPure (reads_pure _))

/-- A positive decimal comes back as it was. -/
theorem reads_positive {value : StoredDecimal} (h : value.isPositive = true) :
    Reads decodeDecimal (encodeDecimal value) value := by
  have hread := reads_decimal value
  rwa [rereadDecimal_eq_iff.mpr (stable_of_isPositive h)] at hread

/-- A bond without taxes is written in the shape of before there were any. -/
theorem reads_legacyBond (htexts : texts.ReadsBack) {instrument : Instrument} {value : Bond}
    (hkind : instrument.kind = .bond) (href : value.instrument = instrument.versionRef)
    (htax : value.taxAttributes = none) :
    Reads (decodeLegacyBond texts instrument)
      (prefixedText value.firstIssueDate.text ++ (prefixedText value.maturityDate.text ++
        encodeDecimal value.faceValue)) value := by
  have hnew : Bond.new instrument value.firstIssueDate value.maturityDate value.faceValue =
      .ok value := by
    obtain ⟨hdate, hamount, hterms⟩ := value.legacy htax
    unfold Bond.new
    rw [dif_pos ⟨hkind, value.face_positive⟩, dif_pos value.issued_before]
    cases value
    simp_all
  exact (reads_parsed (htexts.date _)).bind ((reads_parsed (htexts.date _)).bind
    ((reads_positive value.face_positive).thenPure (reads_construct hnew)))

/-- The bond that is there before its pricing terms are put on it. -/
def unpriced (value : Bond) : Bond :=
  { value with
    pricingTerms := none
    legacy := fun h => ⟨(value.legacy h).1, (value.legacy h).2.1, rfl⟩ }

/-- A bond with taxes is written with its latest issue. -/
theorem reads_issuance (htexts : texts.ReadsBack) {instrument : Instrument} {value : Bond}
    {attributes : BondTaxAttributes} (hkind : instrument.kind = .bond)
    (href : value.instrument = instrument.versionRef) (htax : value.taxAttributes = some attributes) :
    Reads (decodeIssuance texts instrument) (encodeIssuance value attributes) (unpriced value) := by
  have hnew : Bond.withIssuance instrument value.firstIssueDate value.currentIssueDate
      value.maturityDate value.cumulativeIssuedAmount attributes value.faceValue =
      .ok (unpriced value) := by
    unfold Bond.withIssuance
    rw [dif_pos ⟨hkind, value.face_positive, value.issued_positive, value.unit_eq⟩,
      dif_pos ⟨value.issued_before, value.issued_order, value.current_before⟩]
    cases value
    simp_all [unpriced]
  exact (reads_parsed (htexts.date _)).bind ((reads_parsed (htexts.date _)).bind
    ((reads_parsed (htexts.date _)).bind ((reads_positive value.issued_positive).bind
    ((reads_bondTaxAttributes _).bind
    ((reads_positive value.face_positive).thenPure (reads_construct hnew))))))

/-- The terms of a price come back with their coupon rate reread. -/
theorem reads_pricingTerms (value : BondPricingTerms) :
    Reads decodePricingTerms (encodePricingTerms value) (rereadPricingTerms value) := by
  have hfrequency : Reads (coded frequencyOfCode) (encodeCode (frequencyCode value.frequency))
      value.frequency := by
    cases value.frequency <;> exact reads_coded (by decide) rfl
  have hdayCount : Reads (coded dayCountOfCode) (encodeCode (dayCountCode value.dayCount))
      value.dayCount := by
    cases value.dayCount
    exact reads_coded (by decide) rfl
  have hbusinessDay : Reads (coded businessDayOfCode)
      (encodeCode (businessDayCode value.businessDay)) value.businessDay := by
    cases value.businessDay
    exact reads_coded (by decide) rfl
  have hnew : BondPricingTerms.new (rereadDecimal value.couponRate) value.frequency value.dayCount
      value.businessDay = .ok (rereadPricingTerms value) :=
    dif_pos (rereadPricingTerms value).nonneg
  exact (reads_decimal _).bind (hfrequency.bind (hdayCount.bind
    (hbusinessDay.thenPure (reads_construct hnew))))

/-- The terms are put back on the bond. -/
theorem withPricingTerms_unpriced {value : Bond} {terms : BondPricingTerms}
    (htax : value.taxAttributes ≠ none) (hterms : value.pricingTerms = some terms) :
    (unpriced value).withPricingTerms (rereadPricingTerms terms) = .ok (rereadBond value) := by
  unfold Bond.withPricingTerms
  rw [dif_pos ⟨rfl, htax⟩]
  cases value
  simp_all [unpriced, rereadBond]

/-- A contract without risk terms. -/
theorem reads_contract (htexts : texts.ReadsBack) {instrument : Instrument} {value : FuturesContract}
    (hkind : instrument.kind = .futures) (href : value.instrument = instrument.versionRef)
    (htimes : ∀ time ∈ [value.lastTradeTime, value.expiryTime, value.settlementTime],
      StoredTime zones time) :
    Reads (decodeContract zones texts instrument) (encodeContractTerms value)
      { value with riskTerms := none } := by
  have hnew : FuturesContract.new instrument value.lastTradeTime value.expiryTime
      value.settlementTime value.multiplier value.rulePack =
      .ok { value with riskTerms := none } := by
    unfold FuturesContract.new
    rw [dif_pos ⟨hkind, value.positive⟩, dif_pos ⟨value.traded_before, value.settled_after⟩, href]
  exact (reads_marketTime htexts (htimes _ (by simp))).bind
    ((reads_marketTime htexts (htimes _ (by simp))).bind
    ((reads_marketTime htexts (htimes _ (by simp))).bind ((reads_positive value.positive).bind
    ((codec_faithful.versionRef _).thenPure (reads_construct hnew)))))

/-- A contract with its risk terms behind the others. -/
theorem reads_riskContract (htexts : texts.ReadsBack) {instrument : Instrument}
    {value : FuturesContract} {risk : RiskTerms} (hkind : instrument.kind = .futures)
    (href : value.instrument = instrument.versionRef) (hrisk : value.riskTerms = some risk)
    (htimes : ∀ time ∈ [value.lastTradeTime, value.expiryTime, value.settlementTime],
      StoredTime zones time) :
    Reads (decodeRiskContract zones texts instrument)
      (encodeContractTerms value ++ (prefixedText risk.productCode ++ encodeUnitRef risk.priceUnit))
      value := by
  have hnew : FuturesContract.withRiskTerms { value with riskTerms := none } risk.productCode
      risk.priceUnit = .ok value := by
    unfold FuturesContract.withRiskTerms
    rw [dif_pos ⟨risk.proper, risk.solid⟩]
    cases value
    simp_all
  exact (reads_contract htexts hkind href htimes).bind ((reads_string _).bind
    ((reads_unitRef _).thenPure (reads_construct hnew)))

/-- **Bonds.** The byte in front says which of the four shapes follows. -/
theorem reads_bond (htexts : texts.ReadsBack) {instrument : Instrument} {value : Bond}
    (hkind : instrument.kind = .bond) (href : value.instrument = instrument.versionRef) :
    Reads (u8 >>= decodeSubtype zones texts instrument) (encodeBond value)
      (some (.bond (rereadBond value))) := by
  unfold encodeBond
  -- The encoder picks the kind by the attributes and the terms; each kind has its reader.
  cases htax : value.taxAttributes with
  | none =>
    have hsame : rereadBond value = value := by
      obtain ⟨-, -, hterms⟩ := value.legacy htax
      cases value
      simp_all [rereadBond]
    rw [hsame]
    exact reads_kind (by decide) (reads_mapped (reads_legacyBond htexts hkind href htax))
  | some attributes =>
    cases hterms : value.pricingTerms with
    | none =>
      have hsame : rereadBond value = unpriced value := by
        cases value
        simp_all [rereadBond, unpriced]
      rw [hsame]
      exact reads_kind (by decide) (reads_mapped (reads_issuance htexts hkind href htax))
    | some terms =>
      have hpriced := withPricingTerms_unpriced (by rw [htax]; exact Option.some_ne_none _) hterms
      apply reads_kind (by decide)
      apply reads_mapped
      exact (reads_issuance htexts hkind href htax).bind
        ((reads_pricingTerms terms).thenPure (reads_construct hpriced))

/-- **Futures contracts.** The byte in front says whether there are risk terms. -/
theorem reads_futures (htexts : texts.ReadsBack) {instrument : Instrument} {value : FuturesContract}
    (hkind : instrument.kind = .futures) (href : value.instrument = instrument.versionRef)
    (htimes : ∀ time ∈ [value.lastTradeTime, value.expiryTime, value.settlementTime],
      StoredTime zones time) :
    Reads (u8 >>= decodeSubtype zones texts instrument) (encodeFutures value)
      (some (.futuresContract value)) := by
  unfold encodeFutures
  cases hrisk : value.riskTerms with
  | none =>
    have hread := reads_contract htexts hkind href htimes
    have hsame : { value with riskTerms := none } = value := by
      cases value
      simp_all
    rw [hsame] at hread
    exact reads_kind (by decide) (reads_mapped hread)
  | some risk =>
    exact reads_kind (by decide) (reads_mapped (reads_riskContract htexts hkind href hrisk htimes))

/-- An instrument comes back with its subtype, or without one. -/
theorem reads_instrumentDefinition (htexts : texts.ReadsBack) {value : InstrumentDefinition}
    (htimes : ∀ time ∈ definitionTimes (.instrument value : DefinitionValue digest),
      StoredTime zones time) :
    Reads (decodeInstrumentDefinition zones texts)
      (encodeInstrument value.instrument ++ encodeSubtype value.subtype) (rereadInstrument value) := by
  have hnew : InstrumentDefinition.new value.instrument (rereadSubtype value.subtype) =
      .ok (rereadInstrument value) := by
    unfold InstrumentDefinition.new
    split
    · rfl
    · rename_i error herror
      exact absurd ((rereadInstrument value).matching.symm.trans herror) (by simp)
  have hsubtype : Reads (u8 >>= decodeSubtype zones texts value.instrument)
      (encodeSubtype value.subtype) (rereadSubtype value.subtype) := by
    obtain ⟨instrument, subtype, hmatching⟩ := value
    -- A subtype of another kind or instrument is not accepted in the first place.
    match subtype with
    | none => exact reads_kind (by decide) (reads_pure none)
    | some (.bond bond) =>
      by_cases hkind : instrument.kind = .bond
      · by_cases href : bond.instrument = instrument.versionRef
        · exact reads_bond htexts hkind href
        · simp [subtypeMatches, hkind, href] at hmatching
      · simp [subtypeMatches, hkind] at hmatching
    | some (.futuresContract future) =>
      by_cases hkind : instrument.kind = .futures
      · by_cases href : future.instrument = instrument.versionRef
        · exact reads_futures htexts hkind href htimes
        · simp [subtypeMatches, hkind, href] at hmatching
      · simp [subtypeMatches, hkind] at hmatching
  exact (reads_instrument _).bind (hsubtype.thenPure (reads_construct hnew))

/-- A session is its weekday and the texts of its two times. -/
theorem reads_session (htexts : texts.ReadsBack) (session : Market.CalendarSession) :
    Reads (decodeSession texts) (encodeSession session) session := by
  obtain ⟨localDate, hours⟩ := session
  refine (reads_parsed (htexts.date _)).bind ?_
  cases hours with
  | none => exact (reads_bool false).thenPure (reads_pure _)
  | some hours =>
    have hnew : Market.CalendarSession.openOn localDate hours.openLocalTime hours.closeLocalTime =
        .ok ⟨localDate, some hours⟩ :=
      dif_pos hours.ordered
    exact (reads_bool true).bind ((reads_parsed (htexts.time _)).bind
      ((reads_parsed (htexts.time _)).thenPure (reads_construct hnew)))

theorem encodeSession_ne_nil (session : Market.CalendarSession) : encodeSession session ≠ [] := by
  intro h
  exact prefixedText_ne_nil _ (List.append_eq_nil_iff.mp h).1

/-- A time of the zone that its zone's name gives. -/
theorem zoneName_of_storedTime {time : MarketTime} (h : StoredTime zones time) :
    zones.name time.marketTimezone = some time.marketTimezone :=
  (MarketTime.new_eq_ok.mp h).1

/-- A calendar comes back with its sessions and its holidays. -/
theorem reads_calendar (htexts : texts.ReadsBack) {value : Market.Calendar}
    (hfrom : StoredTime zones value.effective.from_) (hto : StoredTime zones value.effective.to_) :
    Reads (decodeCalendar zones texts) (encodeCalendar value) value := by
  have hzone : zones.name value.marketTimezone = some value.marketTimezone := by
    rw [← value.from_zone]
    exact zoneName_of_storedTime hfrom
  -- The sessions were checked when the calendar was made and are checked again.
  have hsessions : checkSessions value.effective.from_.localTradingDate
      value.effective.to_.localTradingDate none value.sessions = .ok () :=
    checkSessions_eq_ok.mpr ⟨value.within, by simp, value.increasing⟩
  have hnew : Market.Calendar.new zones value.calendarId value.version value.owner value.market
      value.marketTimezone value.effective value.sessions = .ok value := by
    unfold Market.Calendar.new
    rw [dif_pos value.market_proper]
    simp only [hzone]
    rw [dif_pos ⟨value.from_zone, value.to_zone⟩]
    split
    · rfl
    · rename_i error herror
      rw [hsessions] at herror
      cases herror
  exact (codec_faithful.ulid _).bind
    ((codec_faithful.version _).bind ((codec_faithful.owner _).bind ((reads_string _).bind
    ((reads_string _).bind ((reads_period htexts hfrom hto).bind
    ((reads_list_self encodeSession_ne_nil fun session _ => reads_session htexts session).thenPure
      (reads_construct hnew)))))))

/-- A unit comes back field by field. -/
theorem reads_unit (value : Market.MarketUnit) : Reads decodeUnit (encodeUnit value) value := by
  have hnew : Market.MarketUnit.new value.input = .ok value :=
    dif_pos ⟨value.valid, value.scale_fits, value.precision_fits⟩
  exact (codec_faithful.ulid _).bind
    ((codec_faithful.version _).bind ((codec_faithful.owner _).bind ((reads_string _).bind
    ((reads_string _).bind ((reads_u32 _ value.scale_fits).bind
    ((reads_u32 _ value.precision_fits).thenPure (reads_construct hnew)))))))

/-- A rule pack comes back up to its content, which stands behind it. -/
theorem reads_rulePackInput (htexts : texts.ReadsBack) {i : MarketRulePackInput}
    (hfrom : StoredTime zones i.effective.from_) (hto : StoredTime zones i.effective.to_) :
    Reads (decodeRulePackInput zones texts) (encodeRulePackInput i) i := by
  have hstatus : Reads (coded verificationStatusOfCode)
      (encodeCode (verificationStatusCode i.verificationStatus)) i.verificationStatus := by
    cases i.verificationStatus <;> exact reads_coded (by decide) rfl
  exact (codec_faithful.ulid _).bind
    ((codec_faithful.version _).bind ((codec_faithful.owner _).bind ((reads_string _).bind
    ((reads_string _).bind ((reads_string _).bind ((reads_period htexts hfrom hto).bind
    (hstatus.bind ((codec_faithful.hash _).thenPure (reads_pure _)))))))))

/-- The constructor of a rule pack accepts what is in one. -/
theorem newInner_of (value : MarketRulePack digest) :
    MarketRulePack.newInner digest value.input value.content = .ok value := by
  unfold MarketRulePack.newInner
  rw [dif_pos ⟨value.market_proper, value.type_proper, value.source_proper⟩, dif_pos value.bound]

/-- Not at the end, the byte says whether there is a content. -/
theorem readsAll_content (value : MarketRulePack digest) :
    ReadsAll (decodeRulePackContent digest value.input) (encodeContent value.content) value := by
  have hnew := newInner_of value
  intro hlength
  unfold decodeRulePackContent
  have hend : atEnd (encodeContent value.content) =
    some (.ok (false, encodeContent value.content)) := by
    cases value.content <;> rfl
  rw [andThen_of_ok hend]
  simp only [Bool.false_eq_true, if_false]
  apply Reads.all ?_ hlength
  -- Content comes last and is marked; where it is missing the mark is read as false.
  cases hcontent : value.content with
  | none =>
    rw [hcontent] at hnew
    exact (reads_bool false).thenPure (reads_construct hnew)
  | some content =>
    rw [hcontent] at hnew
    have hcreate : RulePackContent.new content.typeUrl content.value = .ok content :=
      dif_pos ⟨content.proper, content.nonempty⟩
    have hread : Reads decodeContent
        (prefixedText content.typeUrl ++ encodeBytes content.value) content :=
      (reads_string _).bind ((reads_bytes _).thenPure (reads_construct hcreate))
    exact (reads_bool true).bind (hread.thenPure (reads_construct hnew))

/-- At the end, there is none. -/
theorem readsAll_legacyContent {value : MarketRulePack digest} (h : value.content = none) :
    ReadsAll (decodeRulePackContent digest value.input) [] value := by
  have hnew := newInner_of value
  rw [h] at hnew
  intro hlength
  exact reads_construct hnew [] hlength

/-- A reader up to the end followed by a constructor. -/
theorem readsAll_mapped {α β : Type} {read : PayloadReader α} {written : List UInt8} {a : α}
    {g : α → β} (h : ReadsAll read written a) : ReadsAll (g <$> read) written (g a) := by
  intro hlength
  show Reader.andThen read (fun value => pure (g value)) written = _
  unfold Reader.andThen
  rw [h hlength]
  rfl

/-- The byte of the kind, and the fields behind it up to the end. -/
theorem readsAll_kind {α : Type} {branch : ℕ → PayloadReader α} {kind : ℕ} {written : List UInt8}
    {a : α} (hlt : kind < 256) (h : ReadsAll (branch kind) written a) :
    ReadsAll (u8 >>= branch) (encodeCode kind ++ written) a := by
  refine (reads_u8 _ (UInt8.ofNat kind)).bindAll ?_
  rw [UInt8.toNat_ofNat', Nat.mod_eq_of_lt hlt]
  exact h

/-- **Definitions.** The byte in front says which of the four kinds follows. -/
theorem readsAll_definition (htexts : texts.ReadsBack) {value : DefinitionValue digest}
    (htimes : ∀ time ∈ definitionTimes value, StoredTime zones time) :
    ReadsAll (u8 >>= decodeDefinitionFields digest zones texts) (encodeDefinitionFields value)
      (rereadDefinition value) := by
  cases value with
  | instrument value =>
    have hread := reads_instrumentDefinition htexts htimes
    exact readsAll_kind (by decide) (readsAll_mapped hread.all)
  | calendar value =>
    have hread := reads_calendar htexts (htimes value.effective.from_ (by simp [definitionTimes]))
      (htimes value.effective.to_ (by simp [definitionTimes]))
    exact readsAll_kind (by decide) (readsAll_mapped hread.all)
  | unit value => exact readsAll_kind (by decide) (readsAll_mapped (reads_unit value).all)
  | marketRulePack value =>
    have hinput := reads_rulePackInput htexts
      (htimes value.input.effective.from_ (by simp [definitionTimes]))
      (htimes value.input.effective.to_ (by simp [definitionTimes]))
    exact readsAll_kind (by decide) (readsAll_mapped (hinput.bindAll (readsAll_content value)))

end Reading

/-! ### No payload stops the decoder -/

section Safety

open Reader

variable (digest) (zones : ZoneTable) (texts : TextParsers)

/-- The readers of definitions are safe, each because its parts are. -/
theorem safe_decodeInstrument : Safe decodeInstrument :=
  codec_safe.ulid.bind fun _ => codec_safe.version.bind fun _ => codec_safe.owner.bind fun _ =>
    (safe_coded _).bind fun _ => safe_string.bind fun _ => safe_string.bind fun _ =>
      safe_decodeUnitRef.bind fun _ => codec_safe.versionRef.bind fun _ => safe_construct _

theorem safe_decodeBondTaxAttributes : Safe decodeBondTaxAttributes :=
  (safe_coded _).bind fun _ => (safe_coded _).bind fun _ => safe_pure _

theorem safe_decodeIssuance (instrument : Instrument) : Safe (decodeIssuance texts instrument) :=
  (safe_parsed _).bind fun _ => (safe_parsed _).bind fun _ => (safe_parsed _).bind fun _ =>
    safe_decodeDecimal.bind fun _ => safe_decodeBondTaxAttributes.bind fun _ =>
      safe_decodeDecimal.bind fun _ => safe_construct _

theorem safe_decodePricingTerms : Safe decodePricingTerms :=
  safe_decodeDecimal.bind fun _ => (safe_coded _).bind fun _ => (safe_coded _).bind fun _ =>
    (safe_coded _).bind fun _ => safe_construct _

theorem safe_decodeContract (instrument : Instrument) :
    Safe (decodeContract zones texts instrument) :=
  (safe_decodeMarketTime zones texts).bind fun _ => (safe_decodeMarketTime zones texts).bind fun _ =>
    (safe_decodeMarketTime zones texts).bind fun _ => safe_decodeDecimal.bind fun _ =>
      codec_safe.versionRef.bind fun _ => safe_construct _

theorem safe_decodeSubtype (instrument : Instrument) (shape : ℕ) :
    Safe (decodeSubtype zones texts instrument shape) := by
  have hlegacy : Safe (decodeLegacyBond texts instrument) :=
    (safe_parsed _).bind fun _ => (safe_parsed _).bind fun _ => safe_decodeDecimal.bind fun _ =>
      safe_construct _
  have hpriced : Safe (decodePricedBond texts instrument) :=
    (safe_decodeIssuance texts instrument).bind fun _ => safe_decodePricingTerms.bind fun _ =>
      safe_construct _
  have hrisk : Safe (decodeRiskContract zones texts instrument) :=
    (safe_decodeContract zones texts instrument).bind fun _ => safe_string.bind fun _ =>
      safe_decodeUnitRef.bind fun _ => safe_construct _
  -- One branch for each kind that is known, and a failure for all others.
  unfold decodeSubtype
  split
  · exact safe_pure _
  · exact safe_mapped hlegacy _
  · exact safe_mapped (safe_decodeIssuance texts instrument) _
  · exact safe_mapped hpriced _
  · exact safe_mapped (safe_decodeContract zones texts instrument) _
  · exact safe_mapped hrisk _
  · exact safe_fail _

theorem safe_decodeSession : Safe (decodeSession texts) := by
  refine (safe_parsed _).bind fun localDate => safe_bool.bind fun opens => ?_
  cases opens with
  | false => exact safe_pure _
  | true => exact (safe_parsed _).bind fun _ => (safe_parsed _).bind fun _ => safe_construct _

theorem safe_decodeCalendar : Safe (decodeCalendar zones texts) :=
  codec_safe.ulid.bind fun _ => codec_safe.version.bind fun _ => codec_safe.owner.bind fun _ =>
    safe_string.bind fun _ => safe_string.bind fun _ => (safe_decodePeriod zones texts).bind fun _ =>
      (safe_list (safe_decodeSession texts)).bind fun _ => safe_construct _

theorem safe_decodeUnit : Safe decodeUnit :=
  codec_safe.ulid.bind fun _ => codec_safe.version.bind fun _ => codec_safe.owner.bind fun _ =>
    safe_string.bind fun _ => safe_string.bind fun _ => (safe_u32 _).bind fun _ =>
      (safe_u32 _).bind fun _ => safe_construct _

theorem safe_decodeRulePackInput : Safe (decodeRulePackInput zones texts) :=
  codec_safe.ulid.bind fun _ => codec_safe.version.bind fun _ => codec_safe.owner.bind fun _ =>
    safe_string.bind fun _ => safe_string.bind fun _ => safe_string.bind fun _ =>
      (safe_decodePeriod zones texts).bind fun _ => (safe_coded _).bind fun _ =>
        codec_safe.hash.bind fun _ => safe_pure _

theorem safe_decodeContent : Safe decodeContent :=
  safe_string.bind fun _ => safe_bytes.bind fun _ => safe_construct _

/-- To look for the end is no read past it. -/
theorem returns_atEnd : Returns atEnd := fun _ => ⟨_, rfl⟩

/-- The content is read to the end, or found to be missing. -/
theorem returns_decodeRulePackContent (input : MarketRulePackInput) :
    Returns (decodeRulePackContent digest input) := by
  refine returns_atEnd.bind fun ended => ?_
  cases ended with
  | true => exact (safe_construct _).toReturns
  | false =>
    refine safe_bool.toReturns.bind fun present => ?_
    cases present with
    | false => exact (safe_construct _).toReturns
    | true => exact (safe_decodeContent.bind fun _ => safe_construct _).toReturns

theorem returns_decodeDefinitionFields (kind : ℕ) :
    Returns (decodeDefinitionFields digest zones texts kind) := by
  have hinstrument : Safe (decodeInstrumentDefinition zones texts) :=
    safe_decodeInstrument.bind fun instrument =>
      ((safe_u8 _).bind fun shape => safe_decodeSubtype zones texts instrument shape).bind fun _ =>
        safe_construct _
  unfold decodeDefinitionFields
  split
  · exact (safe_mapped hinstrument _).toReturns
  · exact (safe_mapped (safe_decodeCalendar zones texts) _).toReturns
  · exact (safe_mapped safe_decodeUnit _).toReturns
  · exact ((safe_decodeRulePackInput zones texts).toReturns.bind fun input =>
      returns_decodeRulePackContent digest input).bind fun pack => (safe_pure _).toReturns
  · exact (safe_fail _).toReturns

end Safety

/-- **Stored definitions, exactly.**  A definition whose times were constructed comes back as
    `rereadDefinition` says, which is as it was exactly when it has no coupon rate of zero with a
    scale; a rule pack without a content also comes back from the payload of before there were any; and
    no byte string stops the decoder. -/
theorem definition_payload_exact (digest : List UInt8 → ContentHash) (zones : ZoneTable)
    (texts : TextParsers) (htexts : texts.ReadsBack) (value : DefinitionValue digest)
    (htimes : ∀ time ∈ definitionTimes value, StoredTime zones time)
    (hlength : (encodeDefinition value).length < 2 ^ 64) :
    decodeDefinition digest zones texts (encodeDefinition value) =
        some (.ok (rereadDefinition value)) ∧
      (decodeDefinition digest zones texts (encodeDefinition value) = some (.ok value) ↔
        ∀ rate ∈ couponRate? value, Stable rate) ∧
      (∀ pack, value = .marketRulePack pack → pack.content = none →
        decodeDefinition digest zones texts (encodeLegacyRulePack pack) = some (.ok value)) ∧
      ∀ payload, (decodeDefinition digest zones texts payload).isSome := by
  have hread : decodeDefinition digest zones texts (encodeDefinition value) =
      some (.ok (rereadDefinition value)) :=
    decodePayload_encode (readsAll_definition htexts htimes) hlength
  refine ⟨hread, ?_, ?_, fun payload => decodePayload_isSome ?_ payload⟩
  · rw [hread, ← rereadDefinition_eq_iff]
    exact ⟨fun h => Except.ok.inj (Option.some.inj h), fun h => by rw [h]⟩
  · rintro pack rfl hcontent
    have hinput := reads_rulePackInput htexts
      (htimes pack.input.effective.from_ (by simp [definitionTimes]))
      (htimes pack.input.effective.to_ (by simp [definitionTimes]))
    have hpack := hinput.bindAll (readsAll_legacyContent hcontent)
    rw [List.append_nil] at hpack
    refine decodePayload_encode (readsAll_kind (by decide) (readsAll_mapped hpack)) ?_
    -- the payload is shorter than the one of today
    refine lt_of_le_of_lt ?_ hlength
    simp only [encodeDefinition, encodeDefinitionFields, List.length_append]
    omega
  · exact (Reader.safe_u8 _).toReturns.bind fun kind =>
      returns_decodeDefinitionFields digest zones texts kind

/-! ### A sample -/

/-- A rule pack without a content, in both payloads. -/
theorem definition_payload_sample :
    (let pack := Fingerprint.barePack fun _ => Fingerprint.sampleHash
     let value : DefinitionValue (fun _ => Fingerprint.sampleHash) := .marketRulePack pack
     decodeDefinition _ .utc displayedTexts (encodeDefinition value) =
        some (.ok (rereadDefinition value)) ∧
      (decodeDefinition _ .utc displayedTexts (encodeDefinition value) = some (.ok value) ↔
        ∀ rate ∈ couponRate? value, Stable rate) ∧
      (∀ other, value = .marketRulePack other → other.content = none →
        decodeDefinition _ .utc displayedTexts (encodeLegacyRulePack other) = some (.ok value)) ∧
      ∀ payload, (decodeDefinition (fun _ => Fingerprint.sampleHash) .utc displayedTexts
        payload).isSome) := by
  apply definition_payload_exact (fun _ => Fingerprint.sampleHash) .utc displayedTexts
    displayedTexts_readsBack
  · intro time hmem
    rcases List.mem_cons.mp hmem with rfl | hmem
    · rfl
    · obtain rfl := List.mem_singleton.mp hmem
      rfl
  · decide +kernel

end Ficant.Payload
