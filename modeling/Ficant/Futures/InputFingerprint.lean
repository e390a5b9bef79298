import Ficant.Analytics.InputValues
import Ficant.Futures.DeliverableInput

namespace Ficant.Futures

open Lib Analytics

/-!
# Fingerprints of deliverable bonds

`FuturesDeliverableInput::fingerprint` in `ficant-domain/src/futures_delivery.rs`.

* `FuturesDeliverableInput.fingerprintBytes` — the bytes that are digested;
* `fingerprintBytes_eq_iff` — what they determine: the instant to a microsecond and a delivery rule
  without its contract size (`SameListed`);
* `bindsRead_iff` — hence when they determine all that a calculation reads (`SameRead`).
-/

/-- An absent number is not the number zero. -/
theorem none_ne_some_zero : (none : Option UInt32) ≠ some 0 := nofun

/-- A rule before a contract size is added to it. -/
def FuturesDeliveryRule.withoutContractSize (rule : FuturesDeliveryRule) : FuturesDeliveryRule :=
  { rule with
    contractSizeInQuoteUnits := none
    contractSize_ne := none_ne_some_zero }

/-- The value of an instant in whole microseconds. -/
def microsValue (t : DateTime) : List UInt8 := bigEndian 8 (t.timestampMicros % 2 ^ 64).toNat

namespace FuturesDeliverableInput

/-- The values up to the optional limit of the rule. -/
def openingValues (i : FuturesDeliverableInput) : List (List UInt8) :=
  [utf8 "ficant.cffex.cgb-futures-delivery", u32Value 1, idValue i.owner.tenantId,
    idValue i.owner.ownerId] ++
  (refValues i.futuresContract ++ (refValues i.bond ++ (refValues i.rulePack ++
  (refValues i.snapshot ++
  [microsValue i.valuationAt.instant, utf8 i.valuationAt.marketTimezone,
    dateValue i.valuationAt.localTradingDate, dateValue i.purchaseDate,
    dateValue i.deliveryMonthFirst, dateValue i.deliveryDate, dateValue i.terms.firstIssueDate,
    dateValue i.terms.maturityDate, codeValue i.product.number,
    u32Value i.rule.originalTermMaxMonths, u32Value i.rule.residualMinMonths]))))

/-- The values after the delivery months. -/
def closingValues (i : FuturesDeliverableInput) : List (List UInt8) :=
  [i.rule.nominalCoupon.scaledBytes, i.rule.faceQuoteBasis.scaledBytes,
    u32Value i.rule.accruedInterestDayCount, u32Value i.rule.conversionFactorRoundingPlaces,
    u32Value i.rule.accruedInterestRoundingPlaces, u32Value i.rule.annualDayBasis,
    codeValue i.terms.frequency.code, i.terms.couponRate.scaledBytes, i.terms.faceAmount.scaledBytes,
    i.spotCleanPrice.scaledBytes, i.futuresCleanPrice.scaledBytes, i.financingRate.scaledBytes]

/-- The values that `fingerprint` writes. -/
def fingerprintValues (i : FuturesDeliverableInput) : List (List UInt8) :=
  i.openingValues ++ (writeOption (fun value => [u32Value value]) i.rule.residualMaxMonths ++
    (writeCounted (fun month => [u32Value month]) i.rule.deliveryMonths ++ i.closingValues))

/-- The bytes that `fingerprint` digests. -/
def fingerprintBytes (i : FuturesDeliverableInput) : List UInt8 := joinChunks i.fingerprintValues

/-- `fingerprint`. -/
def fingerprint (digest : List UInt8 → ContentHash) (i : FuturesDeliverableInput) : ContentHash :=
  digest i.fingerprintBytes

/-! ### What is written determines -/

/-- What the fingerprint lists. -/
structure SameListed (a b : FuturesDeliverableInput) : Prop where
  owner : a.owner = b.owner
  futuresContract : a.futuresContract = b.futuresContract
  bond : a.bond = b.bond
  rulePack : a.rulePack = b.rulePack
  snapshot : a.snapshot = b.snapshot
  micros : a.valuationAt.instant.timestampMicros = b.valuationAt.instant.timestampMicros
  timezone : a.valuationAt.marketTimezone = b.valuationAt.marketTimezone
  localTradingDate : a.valuationAt.localTradingDate = b.valuationAt.localTradingDate
  purchaseDate : a.purchaseDate = b.purchaseDate
  deliveryMonthFirst : a.deliveryMonthFirst = b.deliveryMonthFirst
  deliveryDate : a.deliveryDate = b.deliveryDate
  product : a.product = b.product
  rule : a.rule.withoutContractSize = b.rule.withoutContractSize
  firstIssueDate : a.terms.firstIssueDate = b.terms.firstIssueDate
  maturityDate : a.terms.maturityDate = b.terms.maturityDate
  frequency : a.terms.frequency = b.terms.frequency
  couponRate : a.terms.couponRate = b.terms.couponRate
  faceAmount : a.terms.faceAmount = b.terms.faceAmount
  spotCleanPrice : a.spotCleanPrice = b.spotCleanPrice
  futuresCleanPrice : a.futuresCleanPrice = b.futuresCleanPrice
  financingRate : a.financingRate = b.financingRate

/-- **What a calculation reads.**  The latest issue of a bond with its amount and its taxes is read by
    none. -/
structure SameRead (a b : FuturesDeliverableInput) : Prop where
  owner : a.owner = b.owner
  futuresContract : a.futuresContract = b.futuresContract
  bond : a.bond = b.bond
  rulePack : a.rulePack = b.rulePack
  snapshot : a.snapshot = b.snapshot
  valuationAt : a.valuationAt = b.valuationAt
  purchaseDate : a.purchaseDate = b.purchaseDate
  deliveryMonthFirst : a.deliveryMonthFirst = b.deliveryMonthFirst
  deliveryDate : a.deliveryDate = b.deliveryDate
  product : a.product = b.product
  rule : a.rule = b.rule
  firstIssueDate : a.terms.firstIssueDate = b.terms.firstIssueDate
  maturityDate : a.terms.maturityDate = b.terms.maturityDate
  frequency : a.terms.frequency = b.terms.frequency
  dayCount : a.terms.dayCount = b.terms.dayCount
  businessDay : a.terms.businessDay = b.terms.businessDay
  couponRate : a.terms.couponRate = b.terms.couponRate
  faceAmount : a.terms.faceAmount = b.terms.faceAmount
  spotCleanPrice : a.spotCleanPrice = b.spotCleanPrice
  futuresCleanPrice : a.futuresCleanPrice = b.futuresCleanPrice
  financingRate : a.financingRate = b.financingRate

/-- The written microseconds determine the timestamp. -/
theorem microsValue_inj {s t : DateTime} (h : microsValue s = microsValue t) :
    s.timestampMicros = t.timestampMicros := by
  have hbound : ∀ x : ℤ, (x % 2 ^ 64).toNat < 256 ^ 8 := fun x => by omega
  have hmicros := bigEndian_inj (hbound _) (hbound _) h
  have := s.lower
  have := s.upper
  have := t.lower
  have := t.upper
  have := s.subsec_lt
  have := t.subsec_lt
  -- chrono's range in microseconds lies inside the 64-bit range, so nothing wraps
  unfold DateTime.timestampMicros at *
  omega

/-- No two products share a number. -/
theorem product_number_injective : Function.Injective CgbFuturesProduct.number := by
  intro a b h
  cases a <;> cases b <;> first | rfl | cases h

/-- The written number of a product determines it. -/
theorem productValue_inj {a b : CgbFuturesProduct} (h : codeValue a.number = codeValue b.number) :
    a = b := codeValue_inj product_number_injective (fun a => by cases a <;> decide) h

/-- The opening is always 27 values long. -/
theorem openingValues_length (i : FuturesDeliverableInput) : i.openingValues.length = 27 := rfl

/-- What is written before the optional limit of the rule. -/
theorem openingValues_inj {a b : FuturesDeliverableInput} (h : a.openingValues = b.openingValues) :
    a.owner = b.owner ∧ a.futuresContract = b.futuresContract ∧ a.bond = b.bond ∧
      a.rulePack = b.rulePack ∧ a.snapshot = b.snapshot ∧
      a.valuationAt.instant.timestampMicros = b.valuationAt.instant.timestampMicros ∧
      a.valuationAt.marketTimezone = b.valuationAt.marketTimezone ∧
      a.valuationAt.localTradingDate = b.valuationAt.localTradingDate ∧
      a.purchaseDate = b.purchaseDate ∧ a.deliveryMonthFirst = b.deliveryMonthFirst ∧
      a.deliveryDate = b.deliveryDate ∧ a.terms.firstIssueDate = b.terms.firstIssueDate ∧
      a.terms.maturityDate = b.terms.maturityDate ∧ a.product = b.product ∧
      a.rule.originalTermMaxMonths = b.rule.originalTermMaxMonths ∧
      a.rule.residualMinMonths = b.rule.residualMinMonths := by
  unfold openingValues at h
  obtain ⟨howner, h⟩ := List.append_inj h (by simp only [List.length_cons])
  obtain ⟨hcontract, h⟩ := delimited_refValues _ _ _ _ h
  obtain ⟨hbond, h⟩ := delimited_refValues _ _ _ _ h
  obtain ⟨hrulePack, h⟩ := delimited_refValues _ _ _ _ h
  obtain ⟨hsnapshot, h⟩ := delimited_refValues _ _ _ _ h
  simp only [List.cons.injEq, and_true, true_and] at howner h
  obtain ⟨hmicros, hzone, hlocal, hpurchase, hmonth, hdelivery, hissue, hmaturity, hproduct,
    horiginal, hresidual⟩ := h
  exact ⟨owner_eq (idValue_injective howner.1) (idValue_injective howner.2), hcontract, hbond,
    hrulePack, hsnapshot, microsValue_inj hmicros, utf8_inj hzone, dateValue_injective hlocal,
    dateValue_injective hpurchase, dateValue_injective hmonth, dateValue_injective hdelivery,
    dateValue_injective hissue, dateValue_injective hmaturity, productValue_inj hproduct,
    u32Value_injective horiginal, u32Value_injective hresidual⟩

/-- What is written after the delivery months. -/
theorem closingValues_inj {a b : FuturesDeliverableInput} (h : a.closingValues = b.closingValues) :
    a.rule.nominalCoupon = b.rule.nominalCoupon ∧ a.rule.faceQuoteBasis = b.rule.faceQuoteBasis ∧
      a.rule.accruedInterestDayCount = b.rule.accruedInterestDayCount ∧
      a.rule.conversionFactorRoundingPlaces = b.rule.conversionFactorRoundingPlaces ∧
      a.rule.accruedInterestRoundingPlaces = b.rule.accruedInterestRoundingPlaces ∧
      a.rule.annualDayBasis = b.rule.annualDayBasis ∧ a.terms.frequency = b.terms.frequency ∧
      a.terms.couponRate = b.terms.couponRate ∧ a.terms.faceAmount = b.terms.faceAmount ∧
      a.spotCleanPrice = b.spotCleanPrice ∧ a.futuresCleanPrice = b.futuresCleanPrice ∧
      a.financingRate = b.financingRate := by
  unfold closingValues at h
  simp only [List.cons.injEq, and_true] at h
  obtain ⟨hnominal, hbasis, hdayCount, hfactor, hinterest, hannual, hfrequency, hcoupon, hface, hspot,
    hfutures, hfinancing⟩ := h
  exact ⟨FixedDecimal.scaledBytes_injective hnominal, FixedDecimal.scaledBytes_injective hbasis,
    u32Value_injective hdayCount, u32Value_injective hfactor, u32Value_injective hinterest,
    u32Value_injective hannual, frequencyValue_inj hfrequency,
    FixedDecimal.scaledBytes_injective hcoupon, FixedDecimal.scaledBytes_injective hface,
    FixedDecimal.scaledBytes_injective hspot, FixedDecimal.scaledBytes_injective hfutures,
    FixedDecimal.scaledBytes_injective hfinancing⟩

/-- A rule but for its contract size. -/
theorem withoutContractSize_eq_iff {a b : FuturesDeliveryRule} :
    a.withoutContractSize = b.withoutContractSize ↔
      a.originalTermMaxMonths = b.originalTermMaxMonths ∧ a.residualMinMonths = b.residualMinMonths ∧
        a.residualMaxMonths = b.residualMaxMonths ∧ a.deliveryMonths = b.deliveryMonths ∧
        a.nominalCoupon = b.nominalCoupon ∧ a.faceQuoteBasis = b.faceQuoteBasis ∧
        a.accruedInterestDayCount = b.accruedInterestDayCount ∧
        a.conversionFactorRoundingPlaces = b.conversionFactorRoundingPlaces ∧
        a.accruedInterestRoundingPlaces = b.accruedInterestRoundingPlaces ∧
        a.annualDayBasis = b.annualDayBasis := by
  unfold FuturesDeliveryRule.withoutContractSize
  rw [FuturesDeliveryRule.mk.injEq]
  simp only [and_true]

/-- A delivery rule is its contract size and all the rest. -/
theorem rule_eq_iff {a b : FuturesDeliveryRule} :
    a = b ↔ a.withoutContractSize = b.withoutContractSize ∧
      a.contractSizeInQuoteUnits = b.contractSizeInQuoteUnits := by
  refine ⟨fun h => h ▸ ⟨rfl, rfl⟩, ?_⟩
  rintro ⟨hrule, hsize⟩
  obtain ⟨h₁, h₂, h₃, h₄, h₅, h₆, h₇, h₈, h₉, h₁₀⟩ := withoutContractSize_eq_iff.mp hrule
  cases a
  cases b
  rw [FuturesDeliveryRule.mk.injEq]
  exact ⟨h₁, h₂, h₃, h₄, h₅, h₆, h₇, h₈, h₉, h₁₀, hsize⟩

/-- **What the bytes determine.** -/
theorem fingerprintBytes_eq_iff {a b : FuturesDeliverableInput}
    (hlength : a.fingerprintBytes.length < lengthLimit) :
    a.fingerprintBytes = b.fingerprintBytes ↔ SameListed a b := by
  constructor
  · intro h
    have hlength' : b.fingerprintBytes.length < lengthLimit := h ▸ hlength
    have hvalues : a.fingerprintValues = b.fingerprintValues := joinChunks_inj hlength h
    have hmonths : ∀ i : FuturesDeliverableInput, i.fingerprintBytes.length < lengthLimit →
        i.rule.deliveryMonths.length < lengthLimit := by
      intro i hi
      refine lt_of_le_of_lt (length_le_of_counted
        (fun month => List.cons_ne_nil (u32Value month) []) ?_) hi
      simp only [fingerprintValues, List.length_append]
      omega
    have hsingle := delimited_single u32Value_injective
    unfold fingerprintValues at hvalues
    -- The opening has a fixed length, the limit is marked and the months are counted.
    obtain ⟨hopening, hvalues⟩ := List.append_inj hvalues
      (a.openingValues_length.trans b.openingValues_length.symm)
    obtain ⟨hlimit, hvalues⟩ := hsingle.option _ _ _ _ hvalues
    obtain ⟨hlisted, hclosing⟩ := hsingle.counted (hmonths a hlength) (hmonths b hlength') hvalues
    obtain ⟨howner, hcontract, hbond, hrulePack, hsnapshot, hmicros, hzone, hlocal, hpurchase, hmonth,
      hdelivery, hissue, hmaturity, hproduct, horiginal, hresidual⟩ := openingValues_inj hopening
    obtain ⟨hnominal, hbasis, hdayCount, hfactor, hinterest, hannual, hfrequency, hcoupon, hface,
      hspot, hfutures, hfinancing⟩ := closingValues_inj hclosing
    have hrule := withoutContractSize_eq_iff.mpr ⟨horiginal, hresidual, hlimit, hlisted, hnominal,
      hbasis, hdayCount, hfactor, hinterest, hannual⟩
    exact ⟨howner, hcontract, hbond, hrulePack, hsnapshot, hmicros, hzone, hlocal, hpurchase, hmonth,
      hdelivery, hproduct, hrule, hissue, hmaturity, hfrequency, hcoupon, hface, hspot, hfutures,
      hfinancing⟩
  · intro h
    obtain ⟨h₁, h₂, h₃, h₄, h₅, h₆, h₇, h₈, h₉, h₁₀⟩ := withoutContractSize_eq_iff.mp h.rule
    -- Conversely, everything that is written is a listed field or its microseconds.
    have hopening : a.openingValues = b.openingValues := by
      unfold openingValues microsValue
      rw [h.owner, h.futuresContract, h.bond, h.rulePack, h.snapshot, h.micros, h.timezone,
        h.localTradingDate, h.purchaseDate, h.deliveryMonthFirst, h.deliveryDate, h.firstIssueDate,
        h.maturityDate, h.product, h₁, h₂]
    have hclosing : a.closingValues = b.closingValues := by
      unfold closingValues
      rw [h₅, h₆, h₇, h₈, h₉, h₁₀, h.frequency, h.couponRate, h.faceAmount, h.spotCleanPrice,
        h.futuresCleanPrice, h.financingRate]
    unfold fingerprintBytes fingerprintValues
    rw [hopening, hclosing, h₃, h₄]

/-- **What is read and not listed**: the instant below a microsecond and the contract size. -/
theorem sameRead_iff {a b : FuturesDeliverableInput} :
    SameRead a b ↔ SameListed a b ∧ a.valuationAt.instant = b.valuationAt.instant ∧
      a.rule.contractSizeInQuoteUnits = b.rule.contractSizeInQuoteUnits := by
  constructor
  · intro h
    have hrule := rule_eq_iff.mp h.rule
    refine ⟨?_, by rw [h.valuationAt], hrule.2⟩
    exact ⟨h.owner, h.futuresContract, h.bond, h.rulePack, h.snapshot, by rw [h.valuationAt],
      by rw [h.valuationAt], by rw [h.valuationAt], h.purchaseDate, h.deliveryMonthFirst,
      h.deliveryDate, h.product, hrule.1, h.firstIssueDate, h.maturityDate, h.frequency, h.couponRate,
      h.faceAmount, h.spotCleanPrice, h.futuresCleanPrice, h.financingRate⟩
  · rintro ⟨h, hinstant, hsize⟩
    exact ⟨h.owner, h.futuresContract, h.bond, h.rulePack, h.snapshot,
      marketTime_eq hinstant h.timezone h.localTradingDate, h.purchaseDate, h.deliveryMonthFirst,
      h.deliveryDate, h.product, rule_eq_iff.mpr ⟨h.rule, hsize⟩, h.firstIssueDate, h.maturityDate,
      h.frequency, dayCount_eq _ _, businessDay_eq _ _, h.couponRate, h.faceAmount, h.spotCleanPrice,
      h.futuresCleanPrice, h.financingRate⟩

/-- **When the fingerprint binds what a calculation reads.** -/
theorem bindsRead_iff {a b : FuturesDeliverableInput}
    (hlength : a.fingerprintBytes.length < lengthLimit) :
    (a.fingerprintBytes = b.fingerprintBytes → SameRead a b) ↔
      (SameListed a b → a.valuationAt.instant = b.valuationAt.instant ∧
        a.rule.contractSizeInQuoteUnits = b.rule.contractSizeInQuoteUnits) := by
  rw [fingerprintBytes_eq_iff hlength, sameRead_iff]
  constructor
  · exact fun h hlisted => (h hlisted).2
  · exact fun h hlisted => ⟨hlisted, h hlisted⟩

end FuturesDeliverableInput

end Ficant.Futures
