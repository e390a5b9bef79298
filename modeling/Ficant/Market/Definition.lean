import Ficant.Market.Fact
import Ficant.Primitives.NaiveTime

namespace Ficant

open Lib

/-!
# Market definitions

Units, instruments with their terms, calendars and rule packs (`ficant-domain/src/market`), and the
versioned value that ties them together (`ficant-application/src/ports/definitions.rs`).  A value
carries what its constructors check; the constructors are beside it.

* `Bond` — the legacy shape has neither tax attributes nor pricing terms, and then its issue dates
  and amounts agree (`Bond.legacy`);
* `MarketRulePack` — an inline payload hashes to the content hash;
* `DefinitionValue` — one version of a definition.
-/

/-! ### Units -/

/-- `UnitInput`. -/
structure UnitInput where
  unitId : Ulid
  version : Version
  owner : OwnerRef
  code : String
  dimension : String
  scale : ℕ
  precision : ℕ
  deriving DecidableEq

/-- The checks of `Unit::new`. -/
def UnitInput.check (i : UnitInput) : Except DomainErrorCode Unit :=
  if i.code ≠ "" ∧ (i.code.toList.all fun c => c.isUpper || c.isDigit || c == '_' || c == '-') ∧
      i.precision ≠ 0 ∧ i.scale ≤ i.precision ∧ properName i.dimension then .ok ()
  else .error .invalidUnit

/-- `Unit`, with 32-bit scale and precision. -/
structure Market.MarketUnit where
  input : UnitInput
  valid : input.check = .ok ()
  scale_fits : input.scale < 2 ^ 32
  precision_fits : input.precision < 2 ^ 32
  deriving DecidableEq

/-- `Unit::new`, on 32-bit numbers. -/
def Market.MarketUnit.new (input : UnitInput) : Except DomainErrorCode Market.MarketUnit :=
  if h : input.check = .ok () ∧ input.scale < 2 ^ 32 ∧ input.precision < 2 ^ 32 then
    .ok ⟨input, h.1, h.2.1, h.2.2⟩
  else .error .invalidUnit

/-! ### Instruments and their terms -/

/-- `InstrumentKind`. -/
inductive InstrumentKind
  | bond | futures | other
  deriving DecidableEq, Repr

/-- `Instrument`. -/
structure Instrument where
  instrumentId : Ulid
  version : Version
  owner : OwnerRef
  kind : InstrumentKind
  market : String
  symbol : String
  currency : UnitRef
  calendar : VersionRef
  market_proper : properName market = true
  symbol_proper : properName symbol = true

instance : DecidableEq Instrument := fun a b =>
  decidable_of_iff
    (a.instrumentId = b.instrumentId ∧ a.version = b.version ∧ a.owner = b.owner ∧ a.kind = b.kind ∧
      a.market = b.market ∧ a.symbol = b.symbol ∧ a.currency = b.currency ∧ a.calendar = b.calendar)
    (by cases a; cases b; simp)

/-- `Instrument::new`. -/
def Instrument.new (instrumentId : Ulid) (version : Version) (owner : OwnerRef)
    (kind : InstrumentKind) (market symbol : String) (currency : UnitRef) (calendar : VersionRef) :
    Except DomainErrorCode Instrument :=
  if h : properName market = true ∧ properName symbol = true then
    .ok ⟨instrumentId, version, owner, kind, market, symbol, currency, calendar, h.1, h.2⟩
  else .error .invalidValue

/-- `Instrument::version_ref`. -/
def Instrument.versionRef (i : Instrument) : VersionRef := ⟨i.instrumentId, i.version⟩

/-- `ValueAddedTaxStatus`. -/
inductive ValueAddedTaxStatus
  | exempt | taxable
  deriving DecidableEq, Repr

/-- `IncomeTaxStatus`. -/
inductive IncomeTaxStatus
  | exempt | taxable
  deriving DecidableEq, Repr

/-- `BondTaxAttributes`. -/
structure BondTaxAttributes where
  valueAddedTaxStatus : ValueAddedTaxStatus
  incomeTaxStatus : IncomeTaxStatus
  deriving DecidableEq, Repr

/-- `BondCouponFrequency`. -/
inductive BondCouponFrequency
  | annual | semiannual
  deriving DecidableEq, Repr

/-- `BondDayCountConvention`. -/
inductive BondDayCountConvention
  | actActBondIsma
  deriving DecidableEq, Repr

/-- `BondBusinessDayConvention`. -/
inductive BondBusinessDayConvention
  | following
  deriving DecidableEq, Repr

/-- `BondPricingTerms`. -/
structure BondPricingTerms where
  couponRate : StoredDecimal
  frequency : BondCouponFrequency
  dayCount : BondDayCountConvention
  businessDay : BondBusinessDayConvention
  nonneg : 0 ≤ couponRate.coefficient
  deriving DecidableEq

/-- `BondPricingTerms::new`: the coefficient has no sign. -/
def BondPricingTerms.new (couponRate : StoredDecimal) (frequency : BondCouponFrequency)
    (dayCount : BondDayCountConvention) (businessDay : BondBusinessDayConvention) :
    Except DomainErrorCode BondPricingTerms :=
  if h : 0 ≤ couponRate.coefficient then .ok ⟨couponRate, frequency, dayCount, businessDay, h⟩
  else .error .invalidValue

/-- `Bond`. -/
structure Bond where
  instrument : VersionRef
  firstIssueDate : NaiveDate
  currentIssueDate : NaiveDate
  maturityDate : NaiveDate
  cumulativeIssuedAmount : StoredDecimal
  taxAttributes : Option BondTaxAttributes
  faceValue : StoredDecimal
  pricingTerms : Option BondPricingTerms
  face_positive : faceValue.isPositive = true
  issued_positive : cumulativeIssuedAmount.isPositive = true
  unit_eq : cumulativeIssuedAmount.unit = faceValue.unit
  issued_before : firstIssueDate < maturityDate
  issued_order : firstIssueDate ≤ currentIssueDate
  current_before : currentIssueDate < maturityDate
  legacy : taxAttributes = none → currentIssueDate = firstIssueDate ∧
    cumulativeIssuedAmount = faceValue ∧ pricingTerms = none

instance : DecidableEq Bond := fun a b =>
  decidable_of_iff
    (a.instrument = b.instrument ∧ a.firstIssueDate = b.firstIssueDate ∧
      a.currentIssueDate = b.currentIssueDate ∧ a.maturityDate = b.maturityDate ∧
      a.cumulativeIssuedAmount = b.cumulativeIssuedAmount ∧ a.taxAttributes = b.taxAttributes ∧
      a.faceValue = b.faceValue ∧ a.pricingTerms = b.pricingTerms)
    (by cases a; cases b; simp)

/-- `Bond::new`, the legacy shape. -/
def Bond.new (instrument : Instrument) (issueDate maturityDate : NaiveDate)
    (faceValue : StoredDecimal) : Except DomainErrorCode Bond :=
  if h : instrument.kind = .bond ∧ faceValue.isPositive = true then
    if hdate : issueDate < maturityDate then
      .ok { instrument := instrument.versionRef
            firstIssueDate := issueDate
            currentIssueDate := issueDate
            maturityDate
            cumulativeIssuedAmount := faceValue
            taxAttributes := none
            faceValue
            pricingTerms := none
            face_positive := h.2
            issued_positive := h.2
            unit_eq := rfl
            issued_before := hdate
            issued_order := le_rfl
            current_before := hdate
            legacy := fun _ => ⟨rfl, rfl, rfl⟩ }
    else .error .invalidEffectiveTime
  else .error .invalidValue

/-- `Bond::with_issuance`. -/
def Bond.withIssuance (instrument : Instrument)
    (firstIssueDate currentIssueDate maturityDate : NaiveDate)
    (cumulativeIssuedAmount : StoredDecimal) (taxAttributes : BondTaxAttributes)
    (faceValue : StoredDecimal) : Except DomainErrorCode Bond :=
  if h : instrument.kind = .bond ∧ faceValue.isPositive = true ∧
      cumulativeIssuedAmount.isPositive = true ∧
      cumulativeIssuedAmount.unit = faceValue.unit then
    if hdate : firstIssueDate < maturityDate ∧ firstIssueDate ≤ currentIssueDate ∧
        currentIssueDate < maturityDate then
      .ok { instrument := instrument.versionRef
            firstIssueDate
            currentIssueDate
            maturityDate
            cumulativeIssuedAmount
            taxAttributes := some taxAttributes
            faceValue
            pricingTerms := none
            face_positive := h.2.1
            issued_positive := h.2.2.1
            unit_eq := h.2.2.2
            issued_before := hdate.1
            issued_order := hdate.2.1
            current_before := hdate.2.2
            legacy := by simp }
    else .error .invalidEffectiveTime
  else .error .invalidValue

/-- `Bond::with_pricing_terms`. -/
def Bond.withPricingTerms (bond : Bond) (pricingTerms : BondPricingTerms) :
    Except DomainErrorCode Bond :=
  if h : bond.pricingTerms = none ∧ bond.taxAttributes ≠ none then
    .ok { bond with
          pricingTerms := some pricingTerms
          legacy := fun hnone => absurd hnone h.2 }
  else .error .invalidStateTransition

/-- The product and the price unit of a contract that is ready for risk. -/
structure RiskTerms where
  productCode : String
  priceUnit : UnitRef
  proper : properName productCode = true
  solid : (productCode.toList.any isWhitespace) = false

instance : DecidableEq RiskTerms := fun a b =>
  decidable_of_iff
    (a.productCode = b.productCode ∧ a.priceUnit = b.priceUnit)
    (by cases a; cases b; simp)

/-- `FuturesContract`: product code and price unit come together. -/
structure FuturesContract where
  instrument : VersionRef
  lastTradeTime : MarketTime
  expiryTime : MarketTime
  settlementTime : MarketTime
  multiplier : StoredDecimal
  rulePack : VersionRef
  riskTerms : Option RiskTerms
  positive : multiplier.isPositive = true
  traded_before : lastTradeTime.instant < expiryTime.instant
  settled_after : expiryTime.instant ≤ settlementTime.instant

instance : DecidableEq FuturesContract := fun a b =>
  decidable_of_iff
    (a.instrument = b.instrument ∧ a.lastTradeTime = b.lastTradeTime ∧ a.expiryTime = b.expiryTime ∧
      a.settlementTime = b.settlementTime ∧ a.multiplier = b.multiplier ∧ a.rulePack = b.rulePack ∧
      a.riskTerms = b.riskTerms)
    (by cases a; cases b; simp)

/-- `FuturesContract::new`. -/
def FuturesContract.new (instrument : Instrument)
    (lastTradeTime expiryTime settlementTime : MarketTime) (multiplier : StoredDecimal)
    (rulePack : VersionRef) : Except DomainErrorCode FuturesContract :=
  if h : instrument.kind = .futures ∧ multiplier.isPositive = true then
    if hdate : lastTradeTime.instant < expiryTime.instant ∧
        expiryTime.instant ≤ settlementTime.instant then
      .ok ⟨instrument.versionRef, lastTradeTime, expiryTime, settlementTime, multiplier, rulePack,
        none, h.2, hdate.1, hdate.2⟩
    else .error .invalidEffectiveTime
  else .error .invalidValue

/-- `FuturesContract::with_risk_terms`. -/
def FuturesContract.withRiskTerms (contract : FuturesContract) (productCode : String)
    (priceUnit : UnitRef) : Except DomainErrorCode FuturesContract :=
  if h : properName productCode = true ∧ (productCode.toList.any isWhitespace) = false then
    .ok { contract with riskTerms := some ⟨productCode, priceUnit, h.1, h.2⟩ }
  else .error .invalidValue

/-! ### Calendars -/

/-- The open hours of a session. -/
structure SessionHours where
  openLocalTime : NaiveTime
  closeLocalTime : NaiveTime
  ordered : openLocalTime < closeLocalTime
  deriving DecidableEq

/-- `CalendarSession`: opening and closing time come together. -/
structure Market.CalendarSession where
  localDate : NaiveDate
  hours : Option SessionHours
  deriving DecidableEq

/-- `CalendarSession::open`. -/
def Market.CalendarSession.openOn (localDate : NaiveDate) (openLocalTime closeLocalTime : NaiveTime) :
    Except DomainErrorCode Market.CalendarSession :=
  if h : openLocalTime < closeLocalTime then .ok ⟨localDate, some ⟨openLocalTime, closeLocalTime, h⟩⟩
  else .error .invalidEffectiveTime

/-- `CalendarSession::closed`. -/
def Market.CalendarSession.closed (localDate : NaiveDate) : Market.CalendarSession := ⟨localDate, none⟩

/-- `Calendar`: sessions on increasing dates inside the effective period. -/
structure Market.Calendar where
  calendarId : Ulid
  version : Version
  owner : OwnerRef
  market : String
  marketTimezone : String
  effective : EffectivePeriod
  sessions : List Market.CalendarSession
  market_proper : properName market = true
  from_zone : effective.from_.marketTimezone = marketTimezone
  to_zone : effective.to_.marketTimezone = marketTimezone
  within : ∀ session ∈ sessions, effective.from_.localTradingDate ≤ session.localDate ∧
    session.localDate ≤ effective.to_.localTradingDate
  increasing : sessions.Pairwise fun a b => a.localDate < b.localDate

instance : DecidableEq Market.Calendar := fun a b =>
  decidable_of_iff
    (a.calendarId = b.calendarId ∧ a.version = b.version ∧ a.owner = b.owner ∧ a.market = b.market ∧
      a.marketTimezone = b.marketTimezone ∧ a.effective = b.effective ∧ a.sessions = b.sessions)
    (by cases a; cases b; simp)

/-- The loop of `Calendar::new` over its sessions, with the date before. -/
def checkSessions (fromDate toDate : NaiveDate) :
    Option NaiveDate → List Market.CalendarSession → Except DomainErrorCode Unit
  | _, [] => .ok ()
  | previous, session :: rest =>
    if session.localDate < fromDate ∨ toDate < session.localDate then .error .invalidEffectiveTime
    else if previous.any fun date => session.localDate ≤ date then .error .invalidEffectiveTime
    else checkSessions fromDate toDate (some session.localDate) rest

/-- The loop accepts dates that increase inside the period. -/
theorem checkSessions_eq_ok {fromDate toDate : NaiveDate} {previous : Option NaiveDate}
    {sessions : List Market.CalendarSession} :
    checkSessions fromDate toDate previous sessions = .ok () ↔
      (∀ session ∈ sessions, fromDate ≤ session.localDate ∧ session.localDate ≤ toDate) ∧
      (∀ date ∈ previous, ∀ session ∈ sessions, date < session.localDate) ∧
      sessions.Pairwise fun a b => a.localDate < b.localDate := by
  induction sessions generalizing previous with
  | nil => simp [checkSessions]
  | cons session rest ih =>
    rw [checkSessions]
    -- A session is compared with the period first and then with the session before it.
    by_cases hrange : session.localDate < fromDate ∨ toDate < session.localDate
    · rw [if_pos hrange]
      simp only [reduceCtorEq, false_iff]
      rintro ⟨hin, -⟩
      have := hin session List.mem_cons_self
      rcases hrange with hlt | hlt
      · exact absurd this.1 (not_le_of_gt hlt)
      · exact absurd this.2 (not_le_of_gt hlt)
    rw [if_neg hrange]
    push Not at hrange
    by_cases hprevious : previous.any fun date => session.localDate ≤ date
    · rw [if_pos hprevious]
      simp only [reduceCtorEq, false_iff]
      rintro ⟨-, hafter, -⟩
      obtain ⟨date, hdate, hle⟩ := (Option.any_eq_true _ _).mp hprevious
      exact absurd (hafter date hdate session List.mem_cons_self) (not_lt_of_ge (by simpa using hle))
    rw [if_neg hprevious, ih]
    have hlate : ∀ date ∈ previous, date < session.localDate := by
      intro date hdate
      by_contra hle
      exact hprevious ((Option.any_eq_true _ _).mpr ⟨date, hdate, by simpa using not_lt.mp hle⟩)
    constructor
    -- Sorted by neighbours is sorted altogether, since dates are compared transitively.
    · rintro ⟨hin, hnext, hsorted⟩
      refine ⟨List.forall_mem_cons.mpr ⟨hrange, hin⟩, fun date hdate => ?_, ?_⟩
      · refine List.forall_mem_cons.mpr ⟨hlate date hdate, fun next hmem => ?_⟩
        exact lt_trans (hlate date hdate) (hnext session.localDate rfl next hmem)
      · exact List.pairwise_cons.mpr ⟨hnext session.localDate rfl, hsorted⟩
    · rintro ⟨hin, -, hsorted⟩
      obtain ⟨hnext, hsorted⟩ := List.pairwise_cons.mp hsorted
      refine ⟨(List.forall_mem_cons.mp hin).2, fun date hdate => ?_, hsorted⟩
      obtain rfl := Option.mem_some_iff.mp hdate
      exact hnext

/-- `Calendar::new`. -/
def Market.Calendar.new (zones : ZoneTable) (calendarId : Ulid) (version : Version) (owner : OwnerRef)
    (market marketTimezone : String) (effective : EffectivePeriod)
    (sessions : List Market.CalendarSession) : Except DomainErrorCode Market.Calendar :=
  if hmarket : properName market = true then
    match zones.name marketTimezone with
    | none => .error .invalidEffectiveTime
    | some name =>
      if hzone : effective.from_.marketTimezone = name ∧ effective.to_.marketTimezone = name then
        match h : checkSessions effective.from_.localTradingDate effective.to_.localTradingDate none
            sessions with
        | .ok () => .ok
          { calendarId, version, owner, market, effective, sessions
            marketTimezone := name
            market_proper := hmarket
            from_zone := hzone.1
            to_zone := hzone.2
            within := (checkSessions_eq_ok.mp h).1
            increasing := (checkSessions_eq_ok.mp h).2.2 }
        | .error error => .error error
      else .error .invalidEffectiveTime
  else .error .invalidValue

/-! ### Rule packs -/

/-- `VerificationStatus`. -/
inductive VerificationStatus
  | unverified | verified | rejected
  deriving DecidableEq, Repr

/-- `RulePackContent`. -/
structure RulePackContent where
  typeUrl : String
  value : List UInt8
  proper : properName typeUrl = true
  nonempty : value ≠ []

instance : DecidableEq RulePackContent := fun a b =>
  decidable_of_iff
    (a.typeUrl = b.typeUrl ∧ a.value = b.value)
    (by cases a; cases b; simp)

/-- `RulePackContent::new`. -/
def RulePackContent.new (typeUrl : String) (value : List UInt8) :
    Except DomainErrorCode RulePackContent :=
  if h : properName typeUrl = true ∧ value ≠ [] then .ok ⟨typeUrl, value, h.1, h.2⟩
  else .error .invalidValue

/-- `MarketRulePackInput`. -/
structure MarketRulePackInput where
  rulePackId : Ulid
  version : Version
  owner : OwnerRef
  market : String
  ruleType : String
  source : String
  effective : EffectivePeriod
  verificationStatus : VerificationStatus
  contentHash : ContentHash
  deriving DecidableEq

/-- `MarketRulePack`. -/
structure MarketRulePack (digest : List UInt8 → ContentHash) where
  input : MarketRulePackInput
  content : Option RulePackContent
  market_proper : properName input.market = true
  type_proper : properName input.ruleType = true
  source_proper : properName input.source = true
  bound : ∀ c ∈ content, digest c.value = input.contentHash

/-- `MarketRulePack::new_inner`; `ContentHash::verify` compares with the digest. -/
def MarketRulePack.newInner (digest : List UInt8 → ContentHash) (input : MarketRulePackInput)
    (content : Option RulePackContent) : Except DomainErrorCode (MarketRulePack digest) :=
  if h : properName input.market = true ∧ properName input.ruleType = true ∧
      properName input.source = true then
    if hbound : ∀ c ∈ content, digest c.value = input.contentHash then
      .ok ⟨input, content, h.1, h.2.1, h.2.2, hbound⟩
    else .error .contentHashMismatch
  else .error .invalidValue

/-! ### Definitions -/

/-- `InstrumentSubtype`. -/
inductive InstrumentSubtype
  | bond (value : Bond)
  | futuresContract (value : FuturesContract)
  deriving DecidableEq

/-- The subtype that an instrument must have: terms of its kind, for this very version. -/
def subtypeMatches (instrument : Instrument) : Option InstrumentSubtype → Except DomainErrorCode Unit
  | some (.bond value) =>
    if instrument.kind ≠ .bond then .error .invalidValue
    else if value.instrument ≠ instrument.versionRef then .error .versionConflict else .ok ()
  | some (.futuresContract value) =>
    if instrument.kind ≠ .futures then .error .invalidValue
    else if value.instrument ≠ instrument.versionRef then .error .versionConflict else .ok ()
  | none => if instrument.kind ≠ .other then .error .invalidValue else .ok ()

/-- `InstrumentDefinition`. -/
structure InstrumentDefinition where
  instrument : Instrument
  subtype : Option InstrumentSubtype
  matching : subtypeMatches instrument subtype = .ok ()
  deriving DecidableEq

/-- `InstrumentDefinition::new`. -/
def InstrumentDefinition.new (instrument : Instrument) (subtype : Option InstrumentSubtype) :
    Except DomainErrorCode InstrumentDefinition :=
  match h : subtypeMatches instrument subtype with
  | .ok () => .ok ⟨instrument, subtype, h⟩
  | .error error => .error error

/-- `DefinitionValue`. -/
inductive DefinitionValue (digest : List UInt8 → ContentHash)
  | instrument (value : InstrumentDefinition)
  | calendar (value : Market.Calendar)
  | unit (value : Market.MarketUnit)
  | marketRulePack (value : MarketRulePack digest)

end Ficant
