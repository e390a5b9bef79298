import Ficant.Lib.StableSort
import Ficant.Market.Definition
import Ficant.Primitives.DecimalText
import Ficant.Tax.Treatment

namespace Ficant.Tax

open Lib

/-!
# Coupon tax rule packs

The first schema of a rule pack for coupon taxes (`ficant-tax-pack/src/lib.rs`): rules for intervals of
first issue dates, each with a rate for every pair of profiles.

* `parseRules`, `parseRates` — a payload is read in order, each rule beside the one before it;
* `TaxRulePackV1Parser.parse` — the rate of a date, the attributes of a bond and a pair of profiles;
* `contains_unique`, `rate_unique` — the rule and the rate that are found are the only ones.

Reading and writing a date are parameters.
-/

/-! ### Messages and errors -/

/-- `UnitRef` of the contracts. -/
structure UnitRefMessage where
  unitId : Option String
  version : ℕ
  deriving DecidableEq

/-- `DecimalValue` of the contracts. -/
structure DecimalMessage where
  coefficient : String
  scale : ℕ
  unit : Option UnitRefMessage
  deriving DecidableEq

/-- `BondTaxAttributes` of the contracts, with the numbers of its enumerations. -/
structure AttributesMessage where
  valueAddedTaxStatus : ℤ
  incomeTaxStatus : ℤ
  deriving DecidableEq

/-- `SubjectCouponTaxRate`. -/
structure SubjectCouponTaxRate where
  valueAddedTaxProfile : String
  incomeTaxProfile : String
  couponTaxRate : Option DecimalMessage
  deriving DecidableEq

/-- `BondCouponTaxRule`. -/
structure BondCouponTaxRule where
  firstIssueFrom : String
  firstIssueTo : String
  taxAttributes : Option AttributesMessage
  rates : List SubjectCouponTaxRate
  deriving DecidableEq

/-- `TaxTreatment` of a subject. -/
structure TaxTreatment where
  valueAddedTaxProfile : String
  incomeTaxProfile : String
  vat_proper : properName valueAddedTaxProfile = true
  income_proper : properName incomeTaxProfile = true

instance : DecidableEq TaxTreatment := fun a b =>
  decidable_of_iff
    (a.valueAddedTaxProfile = b.valueAddedTaxProfile ∧ a.incomeTaxProfile = b.incomeTaxProfile)
    (by cases a; cases b; simp)

/-- The errors of the parsers: a missing item of the pack with its path, or another one. -/
inductive TaxPackError
  | itemMissing (path : String)
  | application (error : ApplicationError)
  deriving DecidableEq

/-- `missing`. -/
def missing (path : String) : TaxPackError :=
  .itemMissing ("context.tax_rule_pack.content." ++ path)

/-- `invalid`. -/
def invalid : TaxPackError := .application ⟨.validationFailed, false⟩

/-- `map_domain_error`, as an error of a parser. -/
def domainError (code : DomainErrorCode) : TaxPackError := .application (mapDomainError code)

/-- `ok_or_else` of a missing item. -/
def required {α : Type} (value : Option α) (path : String) : Except TaxPackError α :=
  match value with
  | some value => .ok value
  | none => .error (missing path)

theorem required_eq_ok {α : Type} {value : Option α} {path : String} {a : α} :
    required value path = .ok a ↔ value = some a := by
  cases value with
  | none => exact iff_of_false (fun h => nomatch h) (fun h => nomatch h)
  | some b => simp [required]

/-! ### Fields -/

/-- `ValueAddedTaxStatus::try_from` and `IncomeTaxStatus::try_from`, without the unspecified number. -/
def taxStatus {α : Type} (exempt taxable : α) (code : ℤ) (path : String) : Except TaxPackError α :=
  if code = 0 then .error (missing path)
  else if code = 1 then .ok exempt
  else if code = 2 then .ok taxable
  else .error invalid

/-- `attributes`. -/
def attributes (value : Option AttributesMessage) (path : String) :
    Except TaxPackError BondTaxAttributes := do
  let value ← required value path
  let valueAddedTaxStatus ← taxStatus ValueAddedTaxStatus.exempt .taxable value.valueAddedTaxStatus
    (path ++ ".value_added_tax_status")
  let incomeTaxStatus ← taxStatus IncomeTaxStatus.exempt .taxable value.incomeTaxStatus
    (path ++ ".income_tax_status")
  return ⟨valueAddedTaxStatus, incomeTaxStatus⟩

/-- `decimal_parts`: a decimal in canonical form, as a fixed decimal with its unit. -/
def decimalParts (value : Option DecimalMessage) (path : String) :
    Except TaxPackError (FixedDecimal × UnitRef) := do
  let value ← required value path
  let unit ← required value.unit (path ++ ".unit")
  let unitId ← required unit.unitId (path ++ ".unit.unit_id")
  let id ← (Ulid.new unitId).mapError domainError
  let version ← (Version.new unit.version).mapError domainError
  let canonical ← (DecimalValue.new value.coefficient value.scale ⟨id, version⟩).mapError domainError
  rejectIf (canonical.coefficientText ≠ value.coefficient ∨ canonical.scale ≠ value.scale) invalid
  -- the coefficient has no more than 28 digits, so that it is a number of 128 bits
  let coefficient := canonical.coefficient
  if value.scale ≤ 12 then do
    let scaled ← (FixedDecimal.tryFrom (coefficient * 10 ^ (12 - value.scale))).mapError fun _ =>
      invalid
    return (scaled, ⟨id, version⟩)
  else do
    rejectIf (coefficient.tmod (10 ^ (value.scale - 12)) ≠ 0) invalid
    let scaled ← (FixedDecimal.tryFrom (coefficient.tdiv (10 ^ (value.scale - 12)))).mapError
      fun _ => invalid
    return (scaled, ⟨id, version⟩)

/-- `decimal`. -/
def decimal (value : Option DecimalMessage) (path : String) :
    Except TaxPackError CouponTaxTreatment := do
  let parts ← decimalParts value path
  return CouponTaxTreatment.new parts.1 parts.2

/-! ### Rates -/

/-- `CouponTaxRateEntry`. -/
structure CouponTaxRateEntry where
  valueAddedTaxProfile : String
  incomeTaxProfile : String
  rate : CouponTaxTreatment
  deriving DecidableEq

/-- The pair of profiles, in the order of the first and then of the second. -/
def CouponTaxRateEntry.profile (entry : CouponTaxRateEntry) : String ×ₗ String :=
  toLex (entry.valueAddedTaxProfile, entry.incomeTaxProfile)

/-- The loop of `parse_rates`, from a number and the profiles before it. -/
def parseRatesFrom (path : String) (index : ℕ) (previous : Option (String ×ₗ String)) :
    List SubjectCouponTaxRate → Except TaxPackError (List CouponTaxRateEntry)
  | [] => .ok []
  | value :: values => do
    rejectIf (properName value.valueAddedTaxProfile = false ∨
      properName value.incomeTaxProfile = false)
      invalid
    let profile : String ×ₗ String := toLex (value.valueAddedTaxProfile, value.incomeTaxProfile)
    rejectIf (previous.any fun previous => profile ≤ previous) invalid
    let rate ← decimal value.couponTaxRate (path ++ "[" ++ toString index ++ "].coupon_tax_rate")
    rejectIf (rate.valueAddedTaxRate.scaled < 0 ∨
      FixedDecimal.one.scaled < rate.valueAddedTaxRate.scaled)
      invalid
    let parsed ← parseRatesFrom path (index + 1) (some profile) values
    return ⟨value.valueAddedTaxProfile, value.incomeTaxProfile, rate⟩ :: parsed

/-- `parse_rates`. -/
def parseRates (values : List SubjectCouponTaxRate) (path : String) :
    Except TaxPackError (List CouponTaxRateEntry) :=
  parseRatesFrom path 0 none values

/-- The entries stand in the order of their profiles, after the profiles before them, and every rate
    is a retained rate between zero and one. -/
theorem parseRatesFrom_spec {path : String} {index : ℕ} {previous : Option (String ×ₗ String)}
    {values : List SubjectCouponTaxRate} {entries : List CouponTaxRateEntry}
    (h : parseRatesFrom path index previous values = .ok entries) :
    (entries.Pairwise fun a b => a.profile < b.profile) ∧
      (∀ entry ∈ entries, ∀ p ∈ previous, p < entry.profile) ∧
      ∀ entry ∈ entries, ∃ rate unit, CouponTaxTreatment.InUnitInterval rate ∧
        entry.rate = .legacyRetainedRate rate unit := by
  induction values generalizing index previous entries with
  | nil =>
    obtain rfl := Except.ok.inj h
    simp
  | cons value values ih =>
    obtain ⟨⟨⟩, -, h⟩ := bind_eq_ok.mp h
    obtain ⟨⟨⟩, hprevious, h⟩ := bind_eq_ok.mp h
    obtain ⟨rate, hrate, h⟩ := bind_eq_ok.mp h
    obtain ⟨⟨⟩, hinterval, h⟩ := bind_eq_ok.mp h
    obtain ⟨parsed, hparsed, h⟩ := bind_eq_ok.mp h
    obtain rfl := Except.ok.inj h
    obtain ⟨hsorted, hafter, hrates⟩ := ih hparsed
    rw [rejectIf_eq_ok] at hprevious hinterval
    -- the profile of this entry comes after the one before it
    have hfirst : ∀ p ∈ previous, p < toLex (value.valueAddedTaxProfile, value.incomeTaxProfile) := by
      intro p hp
      obtain rfl := Option.mem_def.mp hp
      simpa using hprevious
    refine ⟨List.pairwise_cons.mpr ⟨fun entry hentry => hafter entry hentry _ rfl, hsorted⟩, ?_, ?_⟩
    · intro entry hentry p hp
      rcases List.mem_cons.mp hentry with rfl | hentry
      · exact hfirst p hp
      · exact (hfirst p hp).trans (hafter entry hentry _ rfl)
    · intro entry hentry
      rcases List.mem_cons.mp hentry with rfl | hentry
      · obtain ⟨parts, -, hrate⟩ := bind_eq_ok.mp hrate
        obtain rfl := Except.ok.inj hrate
        rw [not_or, not_lt, not_lt] at hinterval
        exact ⟨parts.1, parts.2, hinterval, rfl⟩
      · exact hrates entry hentry

section Dates

variable (parseDate : String → Option NaiveDate) (dateText : NaiveDate → String)

/-- `date`: a date in the only form that it is written in. -/
def date (value path : String) : Except TaxPackError NaiveDate :=
  match parseDate value with
  | some parsed => if dateText parsed ≠ value then .error (missing path) else .ok parsed
  | none => .error (missing path)

/-! ### Rules -/

/-- `ParsedRule`. -/
structure ParsedRule where
  from_ : NaiveDate
  to_ : Option NaiveDate
  attributes : BondTaxAttributes
  rates : List CouponTaxRateEntry
  deriving DecidableEq

/-- `ParsedRule::contains`. -/
def ParsedRule.contains (rule : ParsedRule) (value : NaiveDate) : Bool :=
  rule.from_ ≤ value && rule.to_.all fun to_ => value < to_

/-- The end of an interval that may be open. -/
def openDate (value path : String) : Except TaxPackError (Option NaiveDate) :=
  if value = "" then .ok none
  else do
    let parsed ← date parseDate dateText value path
    return some parsed

/-- The loop of `parse_rules`, from a number and the interval before it. -/
def parseRulesFrom (index : ℕ) (previousFrom previousTo : Option NaiveDate) :
    List BondCouponTaxRule → Except TaxPackError (List ParsedRule)
  | [] => .ok []
  | value :: values => do
    let path := "coupon_rules[" ++ toString index ++ "]"
    let from_ ← date parseDate dateText value.firstIssueFrom (path ++ ".first_issue_from")
    let to_ ← openDate parseDate dateText value.firstIssueTo (path ++ ".first_issue_to")
    rejectIf ((to_.any fun to_ => to_ ≤ from_) = true ∨
      (previousFrom.any fun previous => from_ ≤ previous) = true ∨
      (previousTo.isNone = true ∧ previousFrom.isSome = true) ∨
      (previousTo.any fun previous => from_ < previous) = true) invalid
    let attributes ← attributes value.taxAttributes (path ++ ".tax_attributes")
    let rates ← parseRates value.rates (path ++ ".rates")
    let parsed ← parseRulesFrom (index + 1) (some from_) to_ values
    return ⟨from_, to_, attributes, rates⟩ :: parsed

/-- `parse_rules`. -/
def parseRules (values : List BondCouponTaxRule) : Except TaxPackError (List ParsedRule) :=
  parseRulesFrom parseDate dateText 0 none none values

/-- `parse_payload`. -/
def parsePayload (payload : List BondCouponTaxRule) (firstIssueDate : NaiveDate)
    (taxAttributes : BondTaxAttributes) (taxTreatment : TaxTreatment) :
    Except TaxPackError CouponTaxTreatment := do
  let rules ← parseRules parseDate dateText payload
  let datePath := "coupon_rules[first_issue_date=" ++ dateText firstIssueDate ++ "]"
  let selected ← required (rules.find? fun rule => rule.contains firstIssueDate) datePath
  rejectIf (selected.attributes ≠ taxAttributes) (missing (datePath ++ ".tax_attributes"))
  let profilePath := datePath ++ ".rates[vat_profile=" ++ taxTreatment.valueAddedTaxProfile ++
    "][income_profile=" ++ taxTreatment.incomeTaxProfile ++ "]"
  let rate ← required (selected.rates.find? fun rate =>
    rate.valueAddedTaxProfile = taxTreatment.valueAddedTaxProfile ∧
      rate.incomeTaxProfile = taxTreatment.incomeTaxProfile) profilePath
  return rate.rate

/-- `TYPE_URL`. -/
def typeUrl : String := "type.googleapis.com/ficant.market.v1.TaxRulePack"

/-- `TaxRulePackV1Parser::parse`, over a decoder of the payload. -/
def TaxRulePackV1Parser.parse (decode : List UInt8 → Option (List BondCouponTaxRule))
    (content : RulePackContent) (firstIssueDate : NaiveDate) (taxAttributes : BondTaxAttributes)
    (taxTreatment : TaxTreatment) : Except TaxPackError CouponTaxTreatment := do
  rejectIf (content.typeUrl ≠ typeUrl) invalid
  match decode content.value with
  | none => .error invalid
  | some payload => parsePayload parseDate dateText payload firstIssueDate taxAttributes taxTreatment

end Dates

/-! ### What is accepted -/

/-- One interval ends where another begins, or before. -/
def ParsedRule.Before (a b : ParsedRule) : Prop := ∃ to_ ∈ a.to_, to_ ≤ b.from_

variable {parseDate : String → Option NaiveDate} {dateText : NaiveDate → String}

/-- The intervals stand one after the other, after the interval before them, and the rates of each
    rule are those that `parse_rates` accepts. -/
theorem parseRulesFrom_spec {index : ℕ} {previousFrom previousTo : Option NaiveDate}
    {values : List BondCouponTaxRule} {rules : List ParsedRule}
    (h : parseRulesFrom parseDate dateText index previousFrom previousTo values = .ok rules) :
    rules.Pairwise ParsedRule.Before ∧
      (∀ rule ∈ rules, previousFrom.isSome = true → ∃ to_ ∈ previousTo, to_ ≤ rule.from_) ∧
      ∀ rule ∈ rules, ∃ rates path, parseRates rates path = .ok rule.rates := by
  induction values generalizing index previousFrom previousTo rules with
  | nil =>
    obtain rfl := Except.ok.inj h
    simp
  | cons value values ih =>
    obtain ⟨from_, -, h⟩ := bind_eq_ok.mp h
    obtain ⟨to_, -, h⟩ := bind_eq_ok.mp h
    obtain ⟨⟨⟩, hchecks, h⟩ := bind_eq_ok.mp h
    obtain ⟨attributes, -, h⟩ := bind_eq_ok.mp h
    obtain ⟨rates, hrates, h⟩ := bind_eq_ok.mp h
    obtain ⟨parsed, hparsed, h⟩ := bind_eq_ok.mp h
    obtain rfl := Except.ok.inj h
    obtain ⟨hsorted, hafter, hall⟩ := ih hparsed
    rw [rejectIf_eq_ok] at hchecks
    push Not at hchecks
    obtain ⟨hto, -, hopen, hfrom⟩ := hchecks
    -- this interval begins where the one before it ends, or later
    have hfirst : previousFrom.isSome = true → ∃ to_ ∈ previousTo, to_ ≤ from_ := by
      intro hsome
      cases hprevious : previousTo with
      | none => exact absurd hsome (hopen (by rw [hprevious]; rfl))
      | some previous =>
        refine ⟨previous, rfl, ?_⟩
        rw [hprevious] at hfrom
        simpa using hfrom
    refine ⟨List.pairwise_cons.mpr ⟨fun rule hrule => hafter rule hrule rfl, hsorted⟩, ?_, ?_⟩
    · intro rule hrule hsome
      rcases List.mem_cons.mp hrule with rfl | hrule
      · exact hfirst hsome
      · obtain ⟨previous, hprevious, hle⟩ := hfirst hsome
        obtain ⟨end_, hend, hendLe⟩ := hafter rule hrule rfl
        obtain rfl := Option.mem_def.mp hend
        have hlt : from_ < end_ := by simpa using hto
        exact ⟨previous, hprevious, hle.trans (hlt.le.trans hendLe)⟩
    · intro rule hrule
      rcases List.mem_cons.mp hrule with rfl | hrule
      · exact ⟨_, _, hrates⟩
      · exact hall rule hrule

/-- Of two intervals, one after the other, a date lies in one at most. -/
theorem ParsedRule.Before.not_both {a b : ParsedRule} (h : a.Before b) (value : NaiveDate) :
    ¬(a.contains value = true ∧ b.contains value = true) := by
  rintro ⟨ha, hb⟩
  obtain ⟨to_, hto, hle⟩ := h
  unfold ParsedRule.contains at ha hb
  rw [Bool.and_eq_true, decide_eq_true_eq] at ha hb
  obtain ⟨-, hend⟩ := ha
  simp only [Option.mem_def.mp hto, Option.all_some, decide_eq_true_eq] at hend
  exact absurd (hb.1.trans_lt hend) (not_lt.mpr hle)

/-- A search finds the element that alone has a property. -/
theorem find?_eq_of_pairwise {α : Type} {p : α → Bool} {l : List α} {a : α}
    (hpairwise : l.Pairwise fun a b => ¬(p a = true ∧ p b = true)) (ha : a ∈ l) (hp : p a = true) :
    l.find? p = some a := by
  induction l with
  | nil => cases ha
  | cons b l ih =>
    obtain ⟨hfirst, hrest⟩ := List.pairwise_cons.mp hpairwise
    rcases List.mem_cons.mp ha with rfl | ha
    · exact List.find?_cons_of_pos hp
    · rw [List.find?_cons_of_neg fun hb => hfirst a ha ⟨hb, hp⟩]
      exact ih hrest ha

/-- **A date lies in one rule at most**: no two rules contain it, and the rule that is found is the
    one. -/
theorem contains_unique {values : List BondCouponTaxRule} {rules : List ParsedRule}
    (h : parseRules parseDate dateText values = .ok rules) (value : NaiveDate) :
    (rules.Pairwise fun a b => ¬(a.contains value = true ∧ b.contains value = true)) ∧
      ∀ rule ∈ rules, rule.contains value = true →
        (rules.find? fun rule => rule.contains value) = some rule := by
  obtain ⟨hsorted, -, -⟩ := parseRulesFrom_spec h
  have hpairwise := hsorted.imp fun hbefore => ParsedRule.Before.not_both hbefore value
  exact ⟨hpairwise, fun _ hrule hcontains => find?_eq_of_pairwise hpairwise hrule hcontains⟩

/-- **A pair of profiles has one rate at most**: no two entries are for it, and the entry that is
    found is the one. -/
theorem rate_unique {values : List BondCouponTaxRule} {rules : List ParsedRule}
    (h : parseRules parseDate dateText values = .ok rules) {rule : ParsedRule} (hrule : rule ∈ rules)
    (vat income : String) :
    (rule.rates.Pairwise fun a b => ¬((a.valueAddedTaxProfile = vat ∧ a.incomeTaxProfile = income) ∧
        b.valueAddedTaxProfile = vat ∧ b.incomeTaxProfile = income)) ∧
      ∀ entry ∈ rule.rates, entry.valueAddedTaxProfile = vat ∧ entry.incomeTaxProfile = income →
        (rule.rates.find? fun rate => rate.valueAddedTaxProfile = vat ∧
          rate.incomeTaxProfile = income) = some entry := by
  obtain ⟨-, -, hrates⟩ := parseRulesFrom_spec h
  obtain ⟨rates, path, hrates⟩ := hrates rule hrule
  obtain ⟨hsorted, -, -⟩ := parseRatesFrom_spec hrates
  have hpairwise : rule.rates.Pairwise fun a b =>
      ¬((a.valueAddedTaxProfile = vat ∧ a.incomeTaxProfile = income) ∧
        b.valueAddedTaxProfile = vat ∧ b.incomeTaxProfile = income) := by
    refine hsorted.imp fun {a b} hlt => ?_
    rintro ⟨⟨havat, haincome⟩, hbvat, hbincome⟩
    unfold CouponTaxRateEntry.profile at hlt
    rw [havat, haincome, hbvat, hbincome] at hlt
    exact lt_irrefl _ hlt
  refine ⟨hpairwise, fun entry hentry hprofile => find?_eq_of_pairwise ?_ hentry
    (decide_eq_true hprofile)⟩
  simpa only [decide_eq_true_eq] using hpairwise

/-- A treatment that is returned retains a rate between zero and one. -/
theorem parsePayload_spec {payload : List BondCouponTaxRule} {firstIssueDate : NaiveDate}
    {taxAttributes : BondTaxAttributes} {taxTreatment : TaxTreatment} {treatment : CouponTaxTreatment}
    (h : parsePayload parseDate dateText payload firstIssueDate taxAttributes taxTreatment =
      .ok treatment) :
    ∃ rate unit, CouponTaxTreatment.InUnitInterval rate ∧
      treatment = .legacyRetainedRate rate unit := by
  obtain ⟨rules, hrules, h⟩ := bind_eq_ok.mp h
  obtain ⟨selected, hselected, h⟩ := bind_eq_ok.mp h
  obtain ⟨⟨⟩, -, h⟩ := bind_eq_ok.mp h
  obtain ⟨entry, hentry, h⟩ := bind_eq_ok.mp h
  obtain rfl := Except.ok.inj h
  rw [required_eq_ok] at hselected hentry
  obtain ⟨-, -, hrates⟩ := parseRulesFrom_spec hrules
  obtain ⟨rates, path, hrates⟩ := hrates selected (List.mem_of_find?_eq_some hselected)
  obtain ⟨-, -, hall⟩ := parseRatesFrom_spec hrates
  exact hall entry (List.mem_of_find?_eq_some hentry)

/-- What the parser of the first schema returns. -/
theorem TaxRulePackV1Parser.parse_spec {decode : List UInt8 → Option (List BondCouponTaxRule)}
    {content : RulePackContent} {firstIssueDate : NaiveDate} {taxAttributes : BondTaxAttributes}
    {taxTreatment : TaxTreatment} {treatment : CouponTaxTreatment}
    (h : TaxRulePackV1Parser.parse parseDate dateText decode content firstIssueDate taxAttributes
      taxTreatment = .ok treatment) :
    ∃ rate unit, CouponTaxTreatment.InUnitInterval rate ∧
      treatment = .legacyRetainedRate rate unit := by
  obtain ⟨⟨⟩, -, h⟩ := bind_eq_ok.mp h
  cases hdecode : decode content.value with
  | none =>
    simp only [hdecode] at h
    cases h
  | some payload =>
    simp only [hdecode] at h
    exact parsePayload_spec h

end Ficant.Tax
