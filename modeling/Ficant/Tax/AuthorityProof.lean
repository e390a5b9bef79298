import Ficant.Primitives.HashText
import Ficant.Tax.RulePack

namespace Ficant.Tax

open Lib

/-!
# The authority-approved rule pack

The second schema of a rule pack for coupon taxes, of which one payload is approved
(`ficant-tax-pack/src/lib.rs`).

* `parseV2Treatment`, `TaxRulePackV2Parser.parse` — the treatment with the proof it is bound to;
* `Approves` — the inputs that have a treatment; `exists_treatment_iff`;
* `coupon_tax_treatment` — what holds of the treatments of both parsers: the amounts are those of their
  rates, and no treatment of the second parser carries the approved hash.

The bytes of the hash in `parseV2Treatment` are those of the source: after `0x74` they are not the
digits of `authoritativeSemanticSha256Hex`, where a `7` comes before `cdeb`.
-/

/-! ### The parser -/

/-- `SubjectCouponTaxTreatment`, with the numbers of its enumerations. -/
structure SubjectCouponTaxTreatment where
  valueAddedTaxProfile : String
  incomeTaxProfile : String
  valueAddedTaxRate : Option DecimalMessage
  incomeTaxRate : Option DecimalMessage
  grossCouponBasis : ℤ
  rounding : ℤ
  claimScope : ℤ
  deriving DecidableEq

/-- `BondCouponTaxTreatmentRule`. -/
structure BondCouponTaxTreatmentRule where
  firstIssueFrom : String
  firstIssueTo : String
  taxAttributes : Option AttributesMessage
  treatments : List SubjectCouponTaxTreatment
  deriving DecidableEq

/-- `TYPE_URL_V2`. -/
def typeUrlV2 : String := "type.googleapis.com/ficant.market.v1.TaxRulePackV2"

/-- `RATE_UNIT_ID`. -/
def rateUnitId : String := "01K2CGBVAT0000000000000000"

/-- `AUTHORITATIVE_SEMANTIC_SHA256_HEX`. -/
def authoritativeSemanticSha256Hex : String :=
  "54fa5adbeb8b164dc779ecc250ab622ab5747cdeb36f2b6da58f4d877ce5106a"

/-- The bytes that `parse_v2_treatment` binds a treatment to. -/
def boundSemanticHash : ContentHash :=
  ⟨[0x54, 0xfa, 0x5a, 0xdb, 0xeb, 0x8b, 0x16, 0x4d, 0xc7, 0x79, 0xec, 0xc2, 0x50, 0xab, 0x62, 0x2a,
    0xb5,
    0x74, 0xcd, 0xeb, 0x36, 0xf2, 0xb6, 0xda, 0x58, 0xf4, 0xd8, 0x77, 0xce, 0x51, 0x06, 0x0a], rfl⟩

/-- `AUTHORITATIVE_PAYLOAD`. -/
def authoritativePayload : List UInt8 :=
  [10, 170, 1, 10, 10, 48, 48, 48, 49, 45, 48, 49, 45, 48, 49, 18, 10, 50, 48, 50, 53, 45, 48, 56,
    45, 48, 56, 26, 4, 8, 1, 16, 1, 34, 137, 1, 10, 23, 99, 110, 45, 118, 97, 116, 45, 103, 101,
    110, 101, 114, 97, 108, 45, 116, 97, 120, 112, 97, 121, 101, 114, 18, 26, 99, 110, 45, 99, 103,
    98, 45, 105, 110, 116, 101, 114, 101, 115, 116, 45, 99, 105, 116, 45, 101, 120, 101, 109, 112,
    116, 26, 37, 10, 1, 48, 26, 32, 10, 28, 10, 26, 48, 49, 75, 50, 67, 71, 66, 86, 65, 84, 48, 48,
    48, 48, 48, 48, 48, 48, 48, 48, 48, 48, 48, 48, 48, 48, 16, 1, 34, 37, 10, 1, 48, 26, 32, 10,
    28, 10, 26, 48, 49, 75, 50, 67, 71, 66, 86, 65, 84, 48, 48, 48, 48, 48, 48, 48, 48, 48, 48, 48,
    48, 48, 48, 48, 48, 16, 1, 40, 1, 48, 1, 56, 1, 10, 160, 1, 10, 10, 50, 48, 50, 53, 45, 48, 56,
    45, 48, 56, 26, 4, 8, 2, 16, 1, 34, 139, 1, 10, 23, 99, 110, 45, 118, 97, 116, 45, 103, 101,
    110, 101, 114, 97, 108, 45, 116, 97, 120, 112, 97, 121, 101, 114, 18, 26, 99, 110, 45, 99, 103,
    98, 45, 105, 110, 116, 101, 114, 101, 115, 116, 45, 99, 105, 116, 45, 101, 120, 101, 109, 112,
    116, 26, 39, 10, 1, 54, 16, 2, 26, 32, 10, 28, 10, 26, 48, 49, 75, 50, 67, 71, 66, 86, 65, 84,
    48, 48, 48, 48, 48, 48, 48, 48, 48, 48, 48, 48, 48, 48, 48, 48, 16, 1, 34, 37, 10, 1, 48, 26,
    32, 10, 28, 10, 26, 48, 49, 75, 50, 67, 71, 66, 86, 65, 84, 48, 48, 48, 48, 48, 48, 48, 48, 48,
    48, 48, 48, 48, 48, 48, 48, 16, 1, 40, 1, 48, 1, 56, 1]

/-- `validate_authoritative_v2_shape`. -/
def validateAuthoritativeV2Shape (rules : List BondCouponTaxTreatmentRule) :
    Except TaxPackError Unit :=
  match rules with
  | [first, second] => do
    rejectIf (first.firstIssueFrom ≠ "0001-01-01" ∨ first.firstIssueTo ≠ "2025-08-08" ∨
      second.firstIssueFrom ≠ "2025-08-08" ∨ second.firstIssueTo ≠ "" ∨
      first.treatments.length ≠ 1 ∨ second.treatments.length ≠ 1) invalid
    let pre ← attributes first.taxAttributes "coupon_rules[0].tax_attributes"
    let post ← attributes second.taxAttributes "coupon_rules[1].tax_attributes"
    rejectIf (pre ≠ ⟨.exempt, .exempt⟩ ∨ post ≠ ⟨.taxable, .exempt⟩) invalid
  | _ => .error invalid

/-- `parse_v2_treatment`. -/
def parseV2Treatment (value : SubjectCouponTaxTreatment) (path : String) :
    Except TaxPackError CouponTaxTreatment := do
  rejectIf (value.valueAddedTaxProfile ≠ "cn-vat-general-taxpayer" ∨
    value.incomeTaxProfile ≠ "cn-cgb-interest-cit-exempt" ∨ value.grossCouponBasis ≠ 1 ∨
    value.rounding ≠ 1 ∨ value.claimScope ≠ 1) invalid
  let vat ← decimalParts value.valueAddedTaxRate (path ++ ".value_added_tax_rate")
  let income ← decimalParts value.incomeTaxRate (path ++ ".income_tax_rate")
  rejectIf (vat.2 ≠ income.2 ∨ vat.2.unitId.text ≠ rateUnitId ∨ vat.2.version.value ≠ 1 ∨
    income.1 ≠ .zero ∨ ¬(vat.1.scaled = 0 ∨ vat.1.scaled = 60000000000)) invalid
  (CouponTaxTreatment.vatIncluded vat.1 income.1 vat.2 boundSemanticHash).mapError .application

section Dates

variable (parseDate : String → Option NaiveDate) (dateText : NaiveDate → String)

/-- `v2_contains`. -/
def v2Contains (rule : BondCouponTaxTreatmentRule) (value : NaiveDate) : Bool :=
  match parseDate rule.firstIssueFrom with
  | none => false
  | some from_ =>
    let to_ := if rule.firstIssueTo = "" then none else parseDate rule.firstIssueTo
    from_ ≤ value && to_.all fun to_ => value < to_

/-- `parse_v2_payload`. -/
def parseV2Payload (rules : List BondCouponTaxTreatmentRule) (firstIssueDate : NaiveDate)
    (taxAttributes : BondTaxAttributes) (taxTreatment : TaxTreatment) :
    Except TaxPackError CouponTaxTreatment := do
  validateAuthoritativeV2Shape rules
  let datePath := "coupon_rules[first_issue_date=" ++ dateText firstIssueDate ++ "]"
  let selected ← required (rules.find? fun rule => v2Contains parseDate rule firstIssueDate) datePath
  let selectedAttributes ← attributes selected.taxAttributes (datePath ++ ".tax_attributes")
  rejectIf (selectedAttributes ≠ taxAttributes) (missing (datePath ++ ".tax_attributes"))
  let profilePath := datePath ++ ".treatments[vat_profile=" ++ taxTreatment.valueAddedTaxProfile ++
    "][income_profile=" ++ taxTreatment.incomeTaxProfile ++ "]"
  let treatment ← required (selected.treatments.find? fun value =>
    value.valueAddedTaxProfile = taxTreatment.valueAddedTaxProfile ∧
      value.incomeTaxProfile = taxTreatment.incomeTaxProfile) profilePath
  parseV2Treatment treatment profilePath

/-- `TaxRulePackV2Parser::parse`, over a decoder of the payload. -/
def TaxRulePackV2Parser.parse (decode : List UInt8 → Option (List BondCouponTaxTreatmentRule))
    (content : RulePackContent) (firstIssueDate : NaiveDate) (taxAttributes : BondTaxAttributes)
    (taxTreatment : TaxTreatment) : Except TaxPackError CouponTaxTreatment := do
  rejectIf (content.typeUrl ≠ typeUrlV2 ∨ content.value ≠ authoritativePayload) invalid
  match decode content.value with
  | none => .error invalid
  | some rules => parseV2Payload parseDate dateText rules firstIssueDate taxAttributes taxTreatment

end Dates

/-! ### What it returns -/

/-- Where the path of an error stands does not matter to a decimal that is read. -/
theorem decimalParts_eq_ok {value : Option DecimalMessage} {path path' : String}
    {parts : FixedDecimal × UnitRef} :
    decimalParts value path = .ok parts ↔ decimalParts value path' = .ok parts := by
  unfold decimalParts
  simp only [bind_eq_ok, required_eq_ok]

theorem attributes_eq_ok {value : Option AttributesMessage} {path path' : String}
    {result : BondTaxAttributes} :
    attributes value path = .ok result ↔ attributes value path' = .ok result := by
  have hstatus : ∀ {α : Type} {exempt taxable status : α} {code : ℤ} (p p' : String),
      taxStatus exempt taxable code p = .ok status ↔
      taxStatus exempt taxable code p' = .ok status := by
    intro α exempt taxable status code p p'
    unfold taxStatus
    by_cases h : code = 0
    · rw [if_pos h, if_pos h]
      exact iff_of_false (fun h => nomatch h) (fun h => nomatch h)
    · rw [if_neg h, if_neg h]
  unfold attributes
  simp only [bind_eq_ok, required_eq_ok,
    hstatus (path ++ ".value_added_tax_status") (path' ++ ".value_added_tax_status"),
    hstatus (path ++ ".income_tax_status") (path' ++ ".income_tax_status")]

/-- A treatment of a payload that the authority has approved: the profiles and the conventions are the
    approved ones, no income tax is due, and the value added tax is nothing or six per cent. -/
def ApprovedTreatment (value : SubjectCouponTaxTreatment) : Prop :=
  (value.valueAddedTaxProfile = "cn-vat-general-taxpayer" ∧
    value.incomeTaxProfile = "cn-cgb-interest-cit-exempt" ∧ value.grossCouponBasis = 1 ∧
    value.rounding = 1 ∧ value.claimScope = 1) ∧
  ∃ vatRate unit, decimalParts value.valueAddedTaxRate "" = .ok (vatRate, unit) ∧
    decimalParts value.incomeTaxRate "" = .ok (.zero, unit) ∧ unit.unitId.text = rateUnitId ∧
    unit.version.value = 1 ∧ (vatRate.scaled = 0 ∨ vatRate.scaled = 60000000000)

/-- What is returned is bound to one and the same hash. -/
theorem parseV2Treatment_eq_ok {value : SubjectCouponTaxTreatment} {path : String}
    {treatment : CouponTaxTreatment} (h : parseV2Treatment value path = .ok treatment) :
    ∃ rate income unit, CouponTaxTreatment.vatIncluded rate income unit boundSemanticHash =
      .ok treatment := by
  obtain ⟨⟨⟩, -, h⟩ := bind_eq_ok.mp h
  obtain ⟨vat, -, h⟩ := bind_eq_ok.mp h
  obtain ⟨income, -, h⟩ := bind_eq_ok.mp h
  obtain ⟨⟨⟩, -, h⟩ := bind_eq_ok.mp h
  exact ⟨_, _, _, mapError_eq_ok.mp h⟩

/-- **Which treatments are accepted**: the approved ones. -/
theorem exists_treatment_iff {value : SubjectCouponTaxTreatment} {path : String} :
    (∃ treatment, parseV2Treatment value path = .ok treatment) ↔ ApprovedTreatment value := by
  constructor
  · rintro ⟨treatment, h⟩
    obtain ⟨⟨⟩, hprofile, h⟩ := bind_eq_ok.mp h
    obtain ⟨vat, hvat, h⟩ := bind_eq_ok.mp h
    obtain ⟨income, hincome, h⟩ := bind_eq_ok.mp h
    obtain ⟨⟨⟩, hchecks, -⟩ := bind_eq_ok.mp h
    rw [rejectIf_eq_ok] at hprofile hchecks
    push Not at hprofile hchecks
    obtain ⟨hunit, hid, hversion, hzero, hrate⟩ := hchecks
    refine ⟨hprofile, vat.1, vat.2, decimalParts_eq_ok.mp hvat, ?_, hid, hversion, hrate⟩
    rw [hunit, ← hzero]
    exact decimalParts_eq_ok.mp hincome
  · rintro ⟨hprofile, vatRate, unit, hvat, hincome, hid, hversion, hrate⟩
    -- both rates are in the unit interval
    have hinterval : CouponTaxTreatment.InUnitInterval vatRate := by
      rcases hrate with h | h
      · exact ⟨h.ge, h ▸ by decide⟩
      · exact ⟨h ▸ by decide, h ▸ by decide⟩
    have hzero : CouponTaxTreatment.InUnitInterval .zero := by decide
    refine ⟨_, bind_eq_ok.mpr ⟨(), rejectIf_eq_ok.mpr ?_, bind_eq_ok.mpr ⟨(vatRate, unit),
      decimalParts_eq_ok.mp hvat, bind_eq_ok.mpr ⟨(.zero, unit), decimalParts_eq_ok.mp hincome,
        bind_eq_ok.mpr ⟨(), rejectIf_eq_ok.mpr ?_, mapError_eq_ok.mpr
          (CouponTaxTreatment.vatIncluded_eq_ok.mpr ⟨hinterval, hzero, rfl⟩)⟩⟩⟩⟩⟩
    · push Not
      exact hprofile
    · push Not
      exact ⟨rfl, hid, hversion, rfl, hrate⟩

variable {parseDate : String → Option NaiveDate} {dateText : NaiveDate → String}

/-- The inputs with an approved treatment: the approved payload, in its approved shape, with a rule
    for the date and the attributes, and in it an approved treatment for the profiles. -/
def Approves (parseDate : String → Option NaiveDate)
    (decode : List UInt8 → Option (List BondCouponTaxTreatmentRule)) (content : RulePackContent)
    (firstIssueDate : NaiveDate) (taxAttributes : BondTaxAttributes) (taxTreatment : TaxTreatment) :
    Prop :=
  content.typeUrl = typeUrlV2 ∧ content.value = authoritativePayload ∧
    ∃ rules, decode content.value = some rules ∧ validateAuthoritativeV2Shape rules = .ok () ∧
    ∃ rule, (rules.find? fun rule => v2Contains parseDate rule firstIssueDate) = some rule ∧
      attributes rule.taxAttributes "" = .ok taxAttributes ∧
    ∃ treatment, (rule.treatments.find? fun value =>
      value.valueAddedTaxProfile = taxTreatment.valueAddedTaxProfile ∧
        value.incomeTaxProfile = taxTreatment.incomeTaxProfile) = some treatment ∧
      ApprovedTreatment treatment

section Parser

variable {decode : List UInt8 → Option (List BondCouponTaxTreatmentRule)} {content : RulePackContent}
  {firstIssueDate : NaiveDate} {taxAttributes : BondTaxAttributes} {taxTreatment : TaxTreatment}

/-- A treatment is one of the treatments of the payload. -/
theorem TaxRulePackV2Parser.parse_spec {treatment : CouponTaxTreatment}
    (h : TaxRulePackV2Parser.parse parseDate dateText decode content firstIssueDate taxAttributes
      taxTreatment = .ok treatment) :
    ∃ rate income unit, CouponTaxTreatment.vatIncluded rate income unit boundSemanticHash =
      .ok treatment := by
  obtain ⟨⟨⟩, -, h⟩ := bind_eq_ok.mp h
  cases hdecode : decode content.value with
  | none =>
    simp only [hdecode] at h
    cases h
  | some rules =>
    simp only [hdecode] at h
    obtain ⟨⟨⟩, -, h⟩ := bind_eq_ok.mp h
    obtain ⟨selected, -, h⟩ := bind_eq_ok.mp h
    obtain ⟨selectedAttributes, -, h⟩ := bind_eq_ok.mp h
    obtain ⟨⟨⟩, -, h⟩ := bind_eq_ok.mp h
    obtain ⟨value, -, h⟩ := bind_eq_ok.mp h
    exact parseV2Treatment_eq_ok h

/-- **Which inputs have a treatment**: the approved ones. -/
theorem TaxRulePackV2Parser.exists_iff :
    (∃ treatment, TaxRulePackV2Parser.parse parseDate dateText decode content firstIssueDate
      taxAttributes taxTreatment = .ok treatment) ↔
      Approves parseDate decode content firstIssueDate taxAttributes taxTreatment := by
  constructor
  · rintro ⟨treatment, h⟩
    obtain ⟨⟨⟩, henvelope, h⟩ := bind_eq_ok.mp h
    rw [rejectIf_eq_ok] at henvelope
    push Not at henvelope
    refine ⟨henvelope.1, henvelope.2, ?_⟩
    -- The parser decodes the content and then checks it step by step.
    cases hdecode : decode content.value with
    | none =>
      simp only [hdecode] at h
      cases h
    | some rules =>
      simp only [hdecode] at h
      obtain ⟨⟨⟩, hshape, h⟩ := bind_eq_ok.mp h
      obtain ⟨selected, hselected, h⟩ := bind_eq_ok.mp h
      obtain ⟨selectedAttributes, hattributes, h⟩ := bind_eq_ok.mp h
      obtain ⟨⟨⟩, hsame, h⟩ := bind_eq_ok.mp h
      obtain ⟨value, hvalue, h⟩ := bind_eq_ok.mp h
      rw [required_eq_ok] at hselected hvalue
      rw [rejectIf_eq_ok, not_not] at hsame
      refine ⟨rules, rfl, hshape, selected, hselected, ?_, value, hvalue,
        exists_treatment_iff.mp ⟨treatment, h⟩⟩
      rw [← hsame]
      exact attributes_eq_ok.mp hattributes
  · rintro ⟨hurl, hpayload, rules, hdecode, hshape, rule, hrule, hattributes, value, hvalue, happroved⟩
    obtain ⟨treatment, htreatment⟩ := exists_treatment_iff.mpr happroved
    refine ⟨treatment, bind_eq_ok.mpr ⟨(), rejectIf_eq_ok.mpr ?_, ?_⟩⟩
    · push Not
      exact ⟨hurl, hpayload⟩
    · simp only [hdecode]
      exact bind_eq_ok.mpr ⟨(), hshape, bind_eq_ok.mpr ⟨rule, required_eq_ok.mpr hrule,
        bind_eq_ok.mpr ⟨taxAttributes, attributes_eq_ok.mp hattributes, bind_eq_ok.mpr ⟨(),
          rejectIf_eq_ok.mpr (not_not.mpr rfl), bind_eq_ok.mpr ⟨value, required_eq_ok.mpr hvalue,
            htreatment⟩⟩⟩⟩⟩

end Parser

/-- The hash that treatments are bound to is not the approved one. -/
theorem boundSemanticHash_ne : hashHex boundSemanticHash ≠ authoritativeSemanticSha256Hex := by
  decide +kernel

/-- **Treatments of coupons.**  Of the rules that the first parser accepts, a date lies in one at
    most and a pair of profiles has one rate at most, between zero and one; so what is found first
    is all there is.  With a treatment of either parser a net amount lies between zero and its gross
    amount and grows with it, exactly without the tax in the first schema, and to the nearest amount
    in the second.  The treatment of an input is bound to the approved hash if and only if the input
    has no treatment in the second schema. -/
theorem coupon_tax_treatment (parseDate : String → Option NaiveDate) (dateText : NaiveDate → String)
    (decodeV1 : List UInt8 → Option (List BondCouponTaxRule))
    (decodeV2 : List UInt8 → Option (List BondCouponTaxTreatmentRule)) :
    (∀ values rules, parseRules parseDate dateText values = .ok rules →
      (∀ value, (rules.Pairwise fun a b => ¬(a.contains value = true ∧ b.contains value = true)) ∧
        ∀ rule ∈ rules, rule.contains value = true →
          (rules.find? fun rule => rule.contains value) = some rule) ∧
      ∀ rule ∈ rules,
        (∀ vat income,
          (rule.rates.Pairwise fun a b =>
            ¬((a.valueAddedTaxProfile = vat ∧ a.incomeTaxProfile = income) ∧
            b.valueAddedTaxProfile = vat ∧ b.incomeTaxProfile = income)) ∧
          ∀ entry ∈ rule.rates, entry.valueAddedTaxProfile = vat ∧ entry.incomeTaxProfile = income →
            (rule.rates.find? fun rate =>
              rate.valueAddedTaxProfile = vat ∧ rate.incomeTaxProfile = income) = some entry) ∧
        ∀ entry ∈ rule.rates, CouponTaxTreatment.InUnitInterval entry.rate.valueAddedTaxRate) ∧
    (∀ content firstIssueDate taxAttributes taxTreatment treatment,
      TaxRulePackV1Parser.parse parseDate dateText decodeV1 content firstIssueDate taxAttributes
        taxTreatment = .ok treatment →
      CouponTaxTreatment.InUnitInterval treatment.valueAddedTaxRate ∧ treatment.Bounded ∧
        ∀ gross net, treatment.adjustCoupon gross = .ok net →
          net.toRat = gross.toRat * (1 - treatment.valueAddedTaxRate.toRat)) ∧
    (∀ content firstIssueDate taxAttributes taxTreatment treatment,
      TaxRulePackV2Parser.parse parseDate dateText decodeV2 content firstIssueDate taxAttributes
        taxTreatment = .ok treatment →
      treatment.Bounded ∧ ∀ gross net, treatment.adjustCoupon gross = .ok net →
        |net.toRat * (1 + treatment.valueAddedTaxRate.toRat) - gross.toRat| ≤
          (1 + treatment.valueAddedTaxRate.toRat) / 2 * (1 / 10 ^ 12)) ∧
    ∀ content firstIssueDate taxAttributes taxTreatment,
      (∀ treatment, TaxRulePackV2Parser.parse parseDate dateText decodeV2 content firstIssueDate
          taxAttributes taxTreatment = .ok treatment →
        treatment.authoritySemanticHash.map hashHex = some authoritativeSemanticSha256Hex) ↔
      ¬Approves parseDate decodeV2 content firstIssueDate taxAttributes taxTreatment := by
  refine ⟨fun values rules hrules => ⟨contains_unique hrules, fun rule hrule =>
    ⟨rate_unique hrules hrule, fun entry hentry => ?_⟩⟩, ?_, ?_, ?_⟩
  · -- the rates of a rule
    obtain ⟨-, -, hrates⟩ := parseRulesFrom_spec hrules
    obtain ⟨rates, path, hrates⟩ := hrates rule hrule
    obtain ⟨-, -, hall⟩ := parseRatesFrom_spec hrates
    obtain ⟨rate, unit, hinterval, heq⟩ := hall entry hentry
    rw [heq]
    exact hinterval
  · intro content firstIssueDate taxAttributes taxTreatment treatment h
    obtain ⟨rate, unit, hinterval, rfl⟩ := TaxRulePackV1Parser.parse_spec h
    exact ⟨hinterval, CouponTaxTreatment.bounded_legacy hinterval, fun gross net hnet =>
      CouponTaxTreatment.adjust_legacy hnet⟩
  · intro content firstIssueDate taxAttributes taxTreatment treatment h
    obtain ⟨rate, income, unit, hvat⟩ := TaxRulePackV2Parser.parse_spec h
    obtain ⟨-, -, heq⟩ := CouponTaxTreatment.vatIncluded_eq_ok.mp hvat
    refine ⟨CouponTaxTreatment.bounded_vat hvat, fun gross net hnet => ?_⟩
    have hrate : treatment.valueAddedTaxRate = rate := by rw [heq]
    rw [hrate]
    exact CouponTaxTreatment.adjust_vat hvat hnet
  · intro content firstIssueDate taxAttributes taxTreatment
    rw [← @TaxRulePackV2Parser.exists_iff _ dateText]
    constructor
    · rintro hbound ⟨treatment, h⟩
      obtain ⟨rate, income, unit, hvat⟩ := TaxRulePackV2Parser.parse_spec h
      obtain ⟨-, -, rfl⟩ := CouponTaxTreatment.vatIncluded_eq_ok.mp hvat
      exact boundSemanticHash_ne (Option.some.inj (hbound _ h))
    · intro hnone treatment h
      exact absurd ⟨treatment, h⟩ hnone

/-! ### The approved payload -/

/-- The day from which interest is taxed. -/
def cutoffDate : NaiveDate := .ymd 2025 8 8

/-- The unit and the rates of the approved payload. -/
def approvedRate (coefficient : String) (scale : ℕ) : Option DecimalMessage :=
  some ⟨coefficient, scale, some ⟨some rateUnitId, 1⟩⟩

def approvedTreatment (coefficient : String) (scale : ℕ) : SubjectCouponTaxTreatment :=
  ⟨"cn-vat-general-taxpayer", "cn-cgb-interest-cit-exempt", approvedRate coefficient scale,
    approvedRate "0" 0, 1, 1, 1⟩

/-- The unit `rateUnitId`. -/
def rateUnit : UnitRef :=
  ⟨⟨⟨2121560796549131600761092312984977408, by decide⟩⟩, .first⟩

/-- What the approved payload is decoded to. -/
def approvedRules : List BondCouponTaxTreatmentRule :=
  [⟨"0001-01-01", "2025-08-08", some ⟨1, 1⟩, [approvedTreatment "0" 0]⟩,
    ⟨"2025-08-08", "", some ⟨2, 1⟩, [approvedTreatment "6" 2]⟩]

/-- The dates that the approved payload mentions. -/
def approvedDate (text : String) : Option NaiveDate :=
  if text = "2025-08-08" then some cutoffDate
  else if text = "0001-01-01" then
    some (.ymd 1 1 1)
  else none

/-- The approved payload has a treatment for a taxed bond of the day from which interest is taxed. -/
theorem approves_cutoff : Approves approvedDate (fun _ => some approvedRules)
    ⟨typeUrlV2, authoritativePayload, by decide +kernel, by decide⟩ cutoffDate ⟨.taxable, .exempt⟩
    ⟨"cn-vat-general-taxpayer", "cn-cgb-interest-cit-exempt", by decide +kernel,
      by decide +kernel⟩ := by
  refine ⟨rfl, rfl, approvedRules, rfl, by decide +kernel,
    ⟨"2025-08-08", "", some ⟨2, 1⟩, [approvedTreatment "6" 2]⟩, by decide +kernel, by decide +kernel,
    approvedTreatment "6" 2, by decide +kernel, ⟨rfl, rfl, rfl, rfl, rfl⟩, ⟨60000000000, by decide⟩,
    rateUnit, by decide +kernel, by decide +kernel, by decide +kernel, rfl, .inr rfl⟩

/-- There the hash that the treatment is bound to is not the approved one. -/
theorem approved_hash_not_bound : ¬∀ treatment, TaxRulePackV2Parser.parse approvedDate
    (fun _ => "2025-08-08") (fun _ => some approvedRules)
    ⟨typeUrlV2, authoritativePayload, by decide +kernel, by decide⟩ cutoffDate ⟨.taxable, .exempt⟩
    ⟨"cn-vat-general-taxpayer", "cn-cgb-interest-cit-exempt", by decide +kernel, by decide +kernel⟩ =
      .ok treatment →
    treatment.authoritySemanticHash.map hashHex = some authoritativeSemanticSha256Hex := by
  intro hbound
  obtain ⟨treatment, htreatment⟩ := TaxRulePackV2Parser.exists_iff.mpr approves_cutoff
  obtain ⟨rate, income, unit, hvat⟩ := TaxRulePackV2Parser.parse_spec htreatment
  obtain ⟨-, -, rfl⟩ := CouponTaxTreatment.vatIncluded_eq_ok.mp hvat
  exact boundSemanticHash_ne (Option.some.inj (hbound _ htreatment))

end Ficant.Tax
