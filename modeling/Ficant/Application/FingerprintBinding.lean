import Ficant.Application.ValueFingerprint

namespace Ficant

namespace Fingerprint

open Lib

/-!
# What a fingerprint binds

The bytes behind an operation fingerprint determine the value they were made from.

* `injects_bond`, `injects_valuation`, … — one lemma for each encoder;
* `FingerprintedValue` — a value of one of the six kinds, as the domain constructors make it;
* `SameUpToOrder` — equal but for the order of lineage, rule packs and input artifacts;
* `bytes_eq_iff` — the bytes are equal for the same value up to order, and otherwise only for two
  rule packs that differ in their inline content.
-/

/-! ### Parts of values -/

/-- A decimal is told apart by its coefficient, its scale and its unit. -/
theorem injects_storedDecimal :
    Injects (fun _ => True) fun v : StoredDecimal => decimalBytes v.toDecimalValue :=
  fun a b _ _ la _ h => StoredDecimal.ext_value (injects_decimal.eq a.scale_lt b.scale_lt la h)

/-- A decimal that may be missing is told apart from one that is. -/
theorem optionalDecimalBytes_inj {a b : Option StoredDecimal}
    (la : (optionalDecimalBytes a).length < lengthLimit)
    (h : optionalDecimalBytes a = optionalDecimalBytes b) : a = b := by
  rcases a with _ | a <;> rcases b with _ | b
  · rfl
  · simp [optionalDecimalBytes] at h
  · simp [optionalDecimalBytes] at h
  · simp only [optionalDecimalBytes, List.length_cons] at la
    rw [injects_storedDecimal.eq trivial trivial (show (decimalBytes _).length < _ by omega)
      (List.cons.inj h).2]

/-- A source is told apart by its names and its version. -/
theorem injects_source : Injects (fun _ => True) sourceBytes := by
  intro a b _ _ la _ h
  obtain ⟨hfields, hshort⟩ := fields_eq_of_bytes la h
  simp only [List.cons.injEq, Prod.mk.injEq, true_and] at hfields
  obtain ⟨hsource, hexternal, hrevision, hdata⟩ := hfields
  -- The revision is a fixed-width number; the reference is written only when there is one.
  have hrevisions := eq_of_bigEndian8 a.fits b.fits hrevision
  have hreferences : a.dataSource = b.dataSource := by
    cases ha : a.dataSource <;> cases hb : b.dataSource <;> rw [ha, hb] at hdata
    · cases hdata
    · cases hdata
    · simp only [List.cons.injEq, Prod.mk.injEq, true_and, and_true] at hdata
      rename_i reference _
      rw [injects_versionRef.eq trivial trivial
        (hshort (5, versionRefBytes reference) (by simp [ha])) hdata]
  have := utf8_inj hsource
  have := utf8_inj hexternal
  cases a
  cases b
  simp_all

/-! ### Definitions -/

/-- The codes of an enumeration tell its members apart; so for all of them that follow. -/
theorem instrumentKindCode_injective : Function.Injective instrumentKindCode := by
  intro a b h
  cases a <;> cases b <;> first | rfl | exact absurd h (by decide)

/-- An instrument is told apart by the fields of its record. -/
theorem injects_instrument : Injects (fun _ => True) instrumentBytes := by
  intro a b _ _ la _ h
  obtain ⟨hfields, hshort⟩ := fields_eq_of_bytes la h
  simp only [List.cons.injEq, Prod.mk.injEq, true_and, and_true] at hfields
  obtain ⟨hid, hversion, howner, hkind, hmarket, hsymbol, hcurrency, hcalendar⟩ := hfields
  have := Ulid.eq_of_utf8 hid
  have := Version.eq_of_bigEndian hversion
  have := injects_ownerRef.eq trivial trivial (hshort (4, ownerRefBytes a.owner) (by simp)) howner
  have := instrumentKindCode_injective hkind
  have := utf8_inj hmarket
  have := utf8_inj hsymbol
  have := injects_unitRef.eq trivial trivial (hshort (8, unitRefBytes a.currency) (by simp)) hcurrency
  have := injects_versionRef.eq trivial trivial
    (hshort (9, versionRefBytes a.calendar) (by simp)) hcalendar
  cases a
  cases b
  simp_all

theorem bondTaxAttributesBytes_injective : Function.Injective bondTaxAttributesBytes := by
  rintro ⟨va, ia⟩ ⟨vb, ib⟩ h
  cases va <;> cases vb <;> cases ia <;> cases ib <;> first | rfl | exact absurd h (by decide)

theorem frequencyCode_injective : Function.Injective frequencyCode := by
  intro a b h
  cases a <;> cases b <;> first | rfl | exact absurd h (by decide)

/-- Bonds of the first shape agree: what is not written follows from the rest. -/
theorem bond_eq_of_legacy {a b : Bond} (ha : a.taxAttributes = none) (hb : b.taxAttributes = none)
    (hinstrument : a.instrument = b.instrument) (hfirst : a.firstIssueDate = b.firstIssueDate)
    (hmaturity : a.maturityDate = b.maturityDate) (hface : a.faceValue = b.faceValue) : a = b := by
  obtain ⟨hcurrent, hissued, hpricing⟩ := a.legacy ha
  obtain ⟨hcurrent', hissued', hpricing'⟩ := b.legacy hb
  cases a
  cases b
  simp_all

/-- The fields of an issuance determine a bond but for its pricing terms. -/
theorem issuedFields_inj {a b : Bond} {ta tb : BondTaxAttributes}
    (hshort : ∀ field ∈ issuedFields a ta, field.2.length < lengthLimit)
    (h : issuedFields a ta = issuedFields b tb) (ha : a.taxAttributes = some ta)
    (hb : b.taxAttributes = some tb) (hpricing : a.pricingTerms = b.pricingTerms) : a = b := by
  simp only [issuedFields, List.cons.injEq, Prod.mk.injEq, true_and, and_true] at h
  obtain ⟨hinstrument, hfirst, hcurrent, hmaturity, hissued, htax, hface⟩ := h
  have := injects_versionRef.eq trivial trivial
    (hshort (2, versionRefBytes a.instrument) (by simp [issuedFields])) hinstrument
  have := NaiveDate.eq_of_utf8 hfirst
  have := NaiveDate.eq_of_utf8 hcurrent
  have := NaiveDate.eq_of_utf8 hmaturity
  have := injects_storedDecimal.eq trivial trivial
    (hshort (6, decimalBytes a.cumulativeIssuedAmount.toDecimalValue) (by simp [issuedFields])) hissued
  have := bondTaxAttributesBytes_injective htax
  have := injects_storedDecimal.eq trivial trivial
    (hshort (8, decimalBytes a.faceValue.toDecimalValue) (by simp [issuedFields])) hface
  cases a
  cases b
  simp_all

/-- The terms of a price stand in tagged fields of their own. -/
theorem pricingFields_inj {a b : BondPricingTerms}
    (hshort : ∀ field ∈ pricingFields a, field.2.length < lengthLimit)
    (h : pricingFields a = pricingFields b) : a = b := by
  simp only [pricingFields, List.cons.injEq, Prod.mk.injEq, true_and, and_true] at h
  obtain ⟨hcoupon, hfrequency⟩ := h
  have := injects_storedDecimal.eq trivial trivial
    (hshort (9, decimalBytes a.couponRate.toDecimalValue) (by simp [pricingFields])) hcoupon
  have := frequencyCode_injective hfrequency
  -- there is one day count and one business-day convention
  obtain ⟨_, _, ⟨⟩, ⟨⟩, _⟩ := a
  obtain ⟨_, _, ⟨⟩, ⟨⟩, _⟩ := b
  simp_all

/-- A bond, with or without its taxes and its price terms. -/
theorem injects_bond : Injects (fun _ => True) bondBytes := by
  intro a b _ _ la _ h
  -- the schema says which of the three shapes a bond has
  cases hta : a.taxAttributes with
  | none =>
    cases htb : b.taxAttributes with
    | none =>
      simp only [bondBytes, hta, htb] at la h
      obtain ⟨hfields, hshort⟩ := fields_eq_of_bytes la h
      simp only [List.cons.injEq, Prod.mk.injEq, true_and, and_true] at hfields
      obtain ⟨hinstrument, hfirst, hmaturity, hface⟩ := hfields
      have hinstruments := injects_versionRef.eq trivial trivial
        (hshort (2, versionRefBytes a.instrument) (by simp)) hinstrument
      have hfaces := injects_storedDecimal.eq trivial trivial
        (hshort (5, decimalBytes a.faceValue.toDecimalValue) (by simp)) hface
      exact bond_eq_of_legacy hta htb hinstruments (NaiveDate.eq_of_utf8 hfirst)
        (NaiveDate.eq_of_utf8 hmaturity) hfaces
    | some tb =>
      cases hpb : b.pricingTerms <;> simp only [bondBytes, hta, htb, hpb] at la h <;>
        exact absurd (fingerprintBytes_inj la h).1 (by decide)
  | some ta =>
    cases htb : b.taxAttributes with
    | none =>
      cases hpa : a.pricingTerms <;> simp only [bondBytes, hta, htb, hpa] at la h <;>
        exact absurd (fingerprintBytes_inj la h).1 (by decide)
    | some tb =>
      cases hpa : a.pricingTerms with
      | none =>
        cases hpb : b.pricingTerms with
        | none =>
          simp only [bondBytes, hta, htb, hpa, hpb] at la h
          obtain ⟨hfields, hshort⟩ := fields_eq_of_bytes la h
          exact issuedFields_inj hshort hfields hta htb (hpa.trans hpb.symm)
        | some pb =>
          simp only [bondBytes, hta, htb, hpa, hpb] at la h
          exact absurd (fingerprintBytes_inj la h).1 (by decide)
      | some pa =>
        cases hpb : b.pricingTerms with
        | none =>
          simp only [bondBytes, hta, htb, hpa, hpb] at la h
          exact absurd (fingerprintBytes_inj la h).1 (by decide)
        | some pb =>
          simp only [bondBytes, hta, htb, hpa, hpb] at la h
          obtain ⟨hfields, hshort⟩ := fields_eq_of_bytes la h
          obtain ⟨hissued, hpriced⟩ := List.append_inj hfields (by simp [issuedFields])
          have hpricing : pa = pb := pricingFields_inj
            (fun field hmem => hshort field (List.mem_append_right _ hmem)) hpriced
          exact issuedFields_inj (fun field hmem => hshort field (List.mem_append_left _ hmem)) hissued
            hta htb (by rw [hpa, hpb, hpricing])

/-- A futures contract, with or without its risk terms. -/
theorem injects_futures : Injects (fun _ => True) futuresBytes := by
  intro a b _ _ la _ h
  obtain ⟨hfields, hshort⟩ := fields_eq_of_bytes la h
  simp only [List.cons.injEq, Prod.mk.injEq, true_and] at hfields
  obtain ⟨hinstrument, htrade, hexpiry, hsettlement, hmultiplier, hrule, hterms⟩ := hfields
  -- The fields that are always written, each behind its own tag.
  have := injects_versionRef.eq trivial trivial
    (hshort (2, versionRefBytes a.instrument) (by simp)) hinstrument
  have := injects_marketTime.eq trivial trivial
    (hshort (3, marketTimeBytes a.lastTradeTime) (by simp)) htrade
  have := injects_marketTime.eq trivial trivial
    (hshort (4, marketTimeBytes a.expiryTime) (by simp)) hexpiry
  have := injects_marketTime.eq trivial trivial
    (hshort (5, marketTimeBytes a.settlementTime) (by simp)) hsettlement
  have := injects_storedDecimal.eq trivial trivial
    (hshort (6, decimalBytes a.multiplier.toDecimalValue) (by simp)) hmultiplier
  have := injects_versionRef.eq trivial trivial
    (hshort (7, versionRefBytes a.rulePack) (by simp)) hrule
  -- The risk terms add two fields at the end, or none.
  have hrisk : a.riskTerms = b.riskTerms := by
    cases ha : a.riskTerms <;> cases hb : b.riskTerms <;> rw [ha, hb] at hterms
    · cases hterms
    · cases hterms
    · simp only [List.cons.injEq, Prod.mk.injEq, true_and, and_true] at hterms
      rename_i terms terms'
      have hproduct := utf8_inj hterms.1
      have hunit := injects_unitRef.eq trivial trivial
        (hshort (9, unitRefBytes terms.priceUnit) (by simp [ha])) hterms.2
      cases terms
      cases terms'
      simp_all
  cases a
  cases b
  simp_all

/-- The subtype of an instrument, if there is one, stands in a tagged field. -/
theorem subtypeFields_inj {a b : Option InstrumentSubtype}
    (hshort : ∀ field ∈ subtypeFields a, field.2.length < lengthLimit)
    (h : subtypeFields a = subtypeFields b) : a = b := by
  rcases a with _ | (bond | contract) <;> rcases b with _ | (bond' | contract')
  · rfl
  · exact absurd (List.cons.inj h).1 (by decide)
  · exact absurd (List.cons.inj h).1 (by decide)
  · exact absurd (List.cons.inj h).1 (by decide)
  · have hbytes := (Prod.mk.inj (List.cons.inj (List.cons.inj h).2).1).2
    rw [injects_bond.eq trivial trivial
      (hshort (4, bondBytes bond) (by simp [subtypeFields])) hbytes]
  · exact absurd (List.cons.inj h).1 (by decide)
  · exact absurd (List.cons.inj h).1 (by decide)
  · exact absurd (List.cons.inj h).1 (by decide)
  · have hbytes := (Prod.mk.inj (List.cons.inj (List.cons.inj h).2).1).2
    rw [injects_futures.eq trivial trivial
      (hshort (4, futuresBytes contract) (by simp [subtypeFields])) hbytes]

/-- An instrument with what it is in particular. -/
theorem injects_instrumentDefinition : Injects (fun _ => True) instrumentDefinitionBytes := by
  intro a b _ _ la _ h
  obtain ⟨hfields, hshort⟩ := fields_eq_of_bytes la h
  obtain ⟨hfirst, hsubtype⟩ := List.cons.inj hfields
  have hinstrument := injects_instrument.eq trivial trivial
    (hshort (2, instrumentBytes a.instrument) List.mem_cons_self) (Prod.mk.inj hfirst).2
  have hsubtypes := subtypeFields_inj
    (fun field hmem => hshort field (List.mem_cons_of_mem _ hmem)) hsubtype
  cases a
  cases b
  simp_all

/-- The text of a time of day tells it apart. -/
theorem sessionTimeText_injective : Function.Injective sessionTimeText := by
  -- a dash is no digit, and every time starts with one
  have hdash : ∀ t : NaiveTime, t.text ≠ "-" := by
    intro t h
    have hlist := congrArg String.toList h
    have hlength := congrArg List.length hlist
    simp only [NaiveTime.text, String.toList_ofList, List.length_append, List.length_cons] at hlength
    have hmin : "-".toList.length = 1 := rfl
    omega
  rintro (_ | a) (_ | b) h
  · rfl
  · exact absurd h.symm (hdash b)
  · exact absurd h (hdash a)
  · rw [NaiveTime.text_injective h]

/-- A session is a weekday and two times of day. -/
theorem injects_session : Injects (fun _ => True) sessionBytes := by
  intro a b _ _ la _ h
  obtain ⟨hfields, -⟩ := fields_eq_of_bytes la h
  simp only [List.cons.injEq, Prod.mk.injEq, true_and, and_true] at hfields
  obtain ⟨hdate, hopen, hclose⟩ := hfields
  have hdates := NaiveDate.eq_of_utf8 hdate
  have hopens := sessionTimeText_injective (utf8_inj hopen)
  have hcloses := sessionTimeText_injective (utf8_inj hclose)
  obtain ⟨da, ha⟩ := a
  obtain ⟨db, hb⟩ := b
  rcases ha with _ | ⟨_, _, _⟩ <;> rcases hb with _ | ⟨_, _, _⟩ <;> simp_all

/-- A calendar is told apart by its sessions, its holidays and the rest. -/
theorem injects_calendar : Injects (fun _ => True) calendarBytes := by
  intro a b _ _ la _ h
  obtain ⟨hfields, hshort⟩ := fields_eq_of_bytes la h
  simp only [List.cons_append, List.nil_append, List.cons.injEq, Prod.mk.injEq, true_and] at hfields
  obtain ⟨hid, hversion, howner, hmarket, hzone, heffective, -, hsessions⟩ := hfields
  have := Ulid.eq_of_utf8 hid
  have := Version.eq_of_bigEndian hversion
  have := injects_ownerRef.eq trivial trivial (hshort (4, ownerRefBytes a.owner) (by simp)) howner
  have := utf8_inj hmarket
  have := utf8_inj hzone
  have := injects_period.eq trivial trivial (hshort (7, periodBytes a.effective) (by simp)) heffective
  have := map_eq_of_injects injects_session (by simp) (by simp)
    (fun session hmem => hshort (9, sessionBytes session)
      (List.mem_append_right _ (List.mem_map_of_mem hmem))) (map_tag_inj hsessions)
  cases a
  cases b
  simp_all

/-- A unit is told apart by its code, its dimension and its sizes. -/
theorem injects_unit : Injects (fun _ => True) unitBytes := by
  intro a b _ _ la _ h
  obtain ⟨hfields, hshort⟩ := fields_eq_of_bytes la h
  simp only [List.cons.injEq, Prod.mk.injEq, true_and, and_true] at hfields
  obtain ⟨hid, hversion, howner, hcode, hdimension, hscale, hprecision⟩ := hfields
  have := Ulid.eq_of_utf8 hid
  have := Version.eq_of_bigEndian hversion
  have := injects_ownerRef.eq trivial trivial
    (hshort (4, ownerRefBytes a.input.owner) (by simp)) howner
  have := utf8_inj hcode
  have := utf8_inj hdimension
  -- Scale and precision are bounded by the constructor, so eight bytes hold them.
  have ha := a.scale_fits
  have hb := b.scale_fits
  have ha' := a.precision_fits
  have hb' := b.precision_fits
  have := eq_of_bigEndian8 (by omega) (by omega) hscale
  have := eq_of_bigEndian8 (by omega) (by omega) hprecision
  obtain ⟨⟨_, _, _, _, _, _, _⟩, _, _, _⟩ := a
  obtain ⟨⟨_, _, _, _, _, _, _⟩, _, _, _⟩ := b
  simp_all

theorem verificationStatusCode_injective : Function.Injective verificationStatusCode := by
  intro a b h
  cases a <;> cases b <;> first | rfl | exact absurd h (by decide)

variable {digest : List UInt8 → ContentHash}

/-- The bytes of a rule pack are those of its input, whatever its inline content. -/
theorem rulePackBytes_eq_iff {a b : MarketRulePack digest}
    (la : (rulePackBytes a).length < lengthLimit) :
    rulePackBytes a = rulePackBytes b ↔ a.input = b.input := by
  constructor
  · intro h
    obtain ⟨hfields, hshort⟩ := fields_eq_of_bytes la h
    simp only [List.cons.injEq, Prod.mk.injEq, true_and, and_true] at hfields
    obtain ⟨hid, hversion, howner, hmarket, htype, hsource, heffective, hstatus, hhash⟩ := hfields
    -- Each tagged field gives back the field of the rule pack it was written from.
    have := Ulid.eq_of_utf8 hid
    have := Version.eq_of_bigEndian hversion
    have := injects_ownerRef.eq trivial trivial
      (hshort (4, ownerRefBytes a.input.owner) (by simp)) howner
    have := utf8_inj hmarket
    have := utf8_inj htype
    have := utf8_inj hsource
    have := injects_period.eq trivial trivial
      (hshort (8, periodBytes a.input.effective) (by simp)) heffective
    have := verificationStatusCode_injective hstatus
    have := ContentHash.ext_bytes hhash
    obtain ⟨⟨_, _, _, _, _, _, _, _, _⟩, _, _, _, _, _⟩ := a
    obtain ⟨⟨_, _, _, _, _, _, _, _, _⟩, _, _, _, _, _⟩ := b
    simp_all
  · intro h
    rw [rulePackBytes, rulePackBytes, h]

/-! ### Facts -/

theorem cashflowTypeCode_injective : Function.Injective cashflowTypeCode := by
  intro a b h
  cases a <;> cases b <;> first | rfl | exact absurd h (by decide)

/-- A cash flow is told apart by its source, type, amount and time. -/
theorem injects_cashflow : Injects (fun _ => True) cashflowBytes := by
  intro a b _ _ la _ h
  obtain ⟨hfields, hshort⟩ := fields_eq_of_bytes la h
  simp only [List.cons.injEq, Prod.mk.injEq, true_and, and_true] at hfields
  obtain ⟨hid, hbond, htime, hamount, howner, hsource, hsupersedes, htype, hschedule, hsequence⟩ :=
    hfields
  -- Each tagged field gives back the field of the cash flow it was written from.
  have := Ulid.eq_of_utf8 hid
  have := injects_versionRef.eq trivial trivial
    (hshort (3, versionRefBytes a.input.bond) (by simp)) hbond
  have := injects_marketTime.eq trivial trivial
    (hshort (4, marketTimeBytes a.input.paymentTime) (by simp)) htime
  have := injects_storedDecimal.eq trivial trivial
    (hshort (5, decimalBytes a.input.amount.toDecimalValue) (by simp)) hamount
  have := injects_ownerRef.eq trivial trivial
    (hshort (6, ownerRefBytes a.input.owner) (by simp)) howner
  have := injects_source.eq trivial trivial
    (hshort (7, sourceBytes a.input.source) (by simp)) hsource
  have := optionalIdBytes_injective hsupersedes
  have := cashflowTypeCode_injective htype
  have := utf8_inj hschedule
  have := eq_of_bigEndian8 a.fits b.fits hsequence
  obtain ⟨⟨_, _, _, _, _, _, _, _, _, _⟩, _, _⟩ := a
  obtain ⟨⟨_, _, _, _, _, _, _, _, _, _⟩, _, _⟩ := b
  simp_all

/-- A quote, with the sides that it has. -/
theorem injects_quote : Injects (fun _ => True) quoteBytes := by
  intro a b _ _ la _ h
  obtain ⟨hfields, hshort⟩ := fields_eq_of_bytes la h
  simp only [List.cons.injEq, Prod.mk.injEq, true_and, and_true] at hfields
  obtain ⟨hid, hinstrument, howner, hsource, hobserved, hreceived, hbid, hask, hsupersedes⟩ := hfields
  have := Ulid.eq_of_utf8 hid
  have := injects_versionRef.eq trivial trivial
    (hshort (3, versionRefBytes a.input.instrument) (by simp)) hinstrument
  have := injects_ownerRef.eq trivial trivial
    (hshort (4, ownerRefBytes a.input.owner) (by simp)) howner
  have := injects_source.eq trivial trivial
    (hshort (5, sourceBytes a.input.source) (by simp)) hsource
  have := injects_marketTime.eq trivial trivial
    (hshort (6, marketTimeBytes a.input.observedAt) (by simp)) hobserved
  have := injects_marketTime.eq trivial trivial
    (hshort (7, marketTimeBytes a.input.receivedAt) (by simp)) hreceived
  -- Either side of the quote may be missing, which is written as well.
  have := optionalDecimalBytes_inj (hshort (8, optionalDecimalBytes a.input.bid) (by simp)) hbid
  have := optionalDecimalBytes_inj (hshort (9, optionalDecimalBytes a.input.ask) (by simp)) hask
  have := optionalIdBytes_injective hsupersedes
  obtain ⟨⟨_, _, _, _, _, _, _, _, _⟩, _⟩ := a
  obtain ⟨⟨_, _, _, _, _, _, _, _, _⟩, _⟩ := b
  simp_all

/-- A trade is told apart by its price, its quantity and its time. -/
theorem injects_trade : Injects (fun _ => True) tradeBytes := by
  intro a b _ _ la _ h
  obtain ⟨hfields, hshort⟩ := fields_eq_of_bytes la h
  simp only [List.cons.injEq, Prod.mk.injEq, true_and, and_true] at hfields
  obtain ⟨hid, hinstrument, howner, hsource, htime, hprice, hquantity, hsupersedes⟩ := hfields
  have := Ulid.eq_of_utf8 hid
  have := injects_versionRef.eq trivial trivial
    (hshort (3, versionRefBytes a.input.instrument) (by simp)) hinstrument
  have := injects_ownerRef.eq trivial trivial
    (hshort (4, ownerRefBytes a.input.owner) (by simp)) howner
  have := injects_source.eq trivial trivial
    (hshort (5, sourceBytes a.input.source) (by simp)) hsource
  have := injects_marketTime.eq trivial trivial
    (hshort (6, marketTimeBytes a.input.executedAt) (by simp)) htime
  -- Price and quantity are written with coefficient, scale and unit.
  have := injects_storedDecimal.eq trivial trivial
    (hshort (7, decimalBytes a.input.price.toDecimalValue) (by simp)) hprice
  have := injects_storedDecimal.eq trivial trivial
    (hshort (8, decimalBytes a.input.quantity.toDecimalValue) (by simp)) hquantity
  have := optionalIdBytes_injective hsupersedes
  obtain ⟨⟨_, _, _, _, _, _, _, _⟩, _⟩ := a
  obtain ⟨⟨_, _, _, _, _, _, _, _⟩, _⟩ := b
  simp_all

theorem valuationValueRoleCode_injective : Function.Injective valuationValueRoleCode := by
  intro a b h
  cases a <;> cases b <;> first | rfl | exact absurd h (by decide)

/-- The schema and the fields of the roles determine them: no fields stand for prices. -/
theorem valueRoles_eq {a b : Valuation} (hvalues : a.input.values = b.input.values)
    (htyped : a.hasTypedValueRoles = b.hasTypedValueRoles) (h : roleFields a = roleFields b) :
    a.valueRoles = b.valueRoles := by
  by_cases ha : a.hasTypedValueRoles = true
  · have hb : b.hasTypedValueRoles = true := htyped ▸ ha
    rw [roleFields, roleFields, if_pos ha, if_pos hb] at h
    have hcodes := map_tag_inj h
    refine List.map_injective_iff.mpr ?_ hcodes
    intro r r' hr
    exact valuationValueRoleCode_injective (List.singleton_inj.mp hr)
  · have ha' : a.hasTypedValueRoles = false := by simpa using ha
    have hb' : b.hasTypedValueRoles = false := htyped ▸ ha'
    rw [Valuation.valueRoles_of_untyped ha', Valuation.valueRoles_of_untyped hb', hvalues]

/-- A valuation is told apart by the role of each of its values. -/
theorem injects_valuation : Injects (fun _ => True) valuationBytes := by
  intro a b _ _ la _ h
  obtain ⟨hschema, hfields⟩ := fingerprintBytes_inj la h
  have hshort := fun field (hmem : field ∈ _) => length_lt_of_mem_fields la hmem
  have htyped : a.hasTypedValueRoles = b.hasTypedValueRoles := by
    cases ha : a.hasTypedValueRoles <;> cases hb : b.hasTypedValueRoles <;>
      simp only [ha, hb, if_true, if_false, Bool.false_eq_true] at hschema ⊢ <;>
      exact absurd hschema (by decide)
  simp only [List.cons_append, List.nil_append, List.cons.injEq, Prod.mk.injEq, true_and] at hfields
  obtain ⟨hid, hinstrument, howner, hsource, htime, hmethod, hrule, -, hrest⟩ := hfields
  have := Ulid.eq_of_utf8 hid
  have := injects_versionRef.eq trivial trivial
    (hshort (3, versionRefBytes a.input.instrument) (by simp)) hinstrument
  have := injects_ownerRef.eq trivial trivial
    (hshort (4, ownerRefBytes a.input.owner) (by simp)) howner
  have := injects_source.eq trivial trivial
    (hshort (5, sourceBytes a.input.source) (by simp)) hsource
  have := injects_marketTime.eq trivial trivial
    (hshort (6, marketTimeBytes a.input.valuationAt) (by simp)) htime
  have := utf8_inj hmethod
  have := injects_versionRef.eq trivial trivial
    (hshort (8, versionRefBytes a.input.rulePack) (by simp)) hrule
  -- the values end where the tag changes
  obtain ⟨hmap, htail⟩ := map_tag_append_inj (by simp) (by simp) hrest
  have hvalues : a.input.values = b.input.values :=
    map_eq_of_injects injects_storedDecimal (by simp) (by simp)
      (fun v hmem => hshort (10, decimalBytes v.toDecimalValue)
        (List.mem_append_right _ (List.mem_append_left _ (List.mem_map_of_mem hmem)))) hmap
  obtain ⟨hfirst, hroles⟩ := List.cons.inj htail
  have := optionalIdBytes_injective (Prod.mk.inj hfirst).2
  have := valueRoles_eq hvalues htyped hroles
  obtain ⟨⟨_, _, _, _, _, _, _, _, _⟩, _, _, _, _⟩ := a
  obtain ⟨⟨_, _, _, _, _, _, _, _, _⟩, _, _, _, _⟩ := b
  simp_all

/-- Facts of different kinds have different schemas. -/
theorem injects_fact : Injects (fun _ => True) factBytes := by
  intro a b _ _ la _ h
  -- Facts of one kind are compared by their own encoding, facts of two kinds by their schema.
  cases a <;> cases b <;> simp only [factBytes] at la h
  · rw [injects_cashflow.eq trivial trivial la h]
  · exact absurd (fingerprintBytes_inj la h).1 (by decide)
  · exact absurd (fingerprintBytes_inj la h).1 (by decide)
  · have hschema := (fingerprintBytes_inj la h).1
    split at hschema <;> exact absurd hschema (by decide)
  · exact absurd (fingerprintBytes_inj la h).1 (by decide)
  · rw [injects_quote.eq trivial trivial la h]
  · exact absurd (fingerprintBytes_inj la h).1 (by decide)
  · have hschema := (fingerprintBytes_inj la h).1
    split at hschema <;> exact absurd hschema (by decide)
  · exact absurd (fingerprintBytes_inj la h).1 (by decide)
  · exact absurd (fingerprintBytes_inj la h).1 (by decide)
  · rw [injects_trade.eq trivial trivial la h]
  · have hschema := (fingerprintBytes_inj la h).1
    split at hschema <;> exact absurd hschema (by decide)
  · have hschema := (fingerprintBytes_inj la h).1
    split at hschema <;> exact absurd hschema (by decide)
  · have hschema := (fingerprintBytes_inj la h).1
    split at hschema <;> exact absurd hschema (by decide)
  · have hschema := (fingerprintBytes_inj la h).1
    split at hschema <;> exact absurd hschema (by decide)
  · rw [injects_valuation.eq trivial trivial la h]

/-! ### Values with lists that are put in order -/

/-- Two curves that agree but for the order of their lineage. -/
structure SameCurve (a b : CurveSnapshot) : Prop where
  rest : { a.input with lineage := [] } = { b.input with lineage := [] }
  knowledge : a.knowledge = b.knowledge
  lineage : a.input.lineage.Perm b.input.lineage

/-- What is known of a curve, if anything is, stands in tagged fields. -/
theorem knowledgeFields_inj {a b : Option KnowledgeTime}
    (hshort : ∀ field ∈ knowledgeFields a, field.2.length < lengthLimit)
    (h : knowledgeFields a = knowledgeFields b) : a = b := by
  rcases a with _ | a <;> rcases b with _ | b
  · rfl
  · cases h
  · cases h
  · simp only [knowledgeFields, List.cons.injEq, Prod.mk.injEq, true_and, and_true] at h
    have htime := injects_marketTime.eq trivial trivial
      (hshort (13, marketTimeBytes a.visibleAt) (by simp [knowledgeFields])) h.1
    have hfamily := utf8_inj h.2
    cases a
    cases b
    simp_all

/-- **Curves.** Equal bytes mean the same curve, whose lineage is a set. -/
theorem curveSnapshotBytes_eq_iff {a b : CurveSnapshot}
    (la : (curveSnapshotBytes a).length < lengthLimit) :
    curveSnapshotBytes a = curveSnapshotBytes b ↔ SameCurve a b := by
  have hshort := fun field (hmem : field ∈ _) => length_lt_of_mem_fields la hmem
  have hlineage : (lineageBytes a.input.lineage).length < lengthLimit :=
    hshort (11, lineageBytes a.input.lineage) (by simp [curveFields])
  constructor
  · intro h
    obtain ⟨-, hfields⟩ := fingerprintBytes_inj la h
    obtain ⟨hcommon, hknowledge⟩ := List.append_inj hfields (by simp [curveFields])
    simp only [curveFields, List.cons.injEq, Prod.mk.injEq, true_and, and_true] at hcommon
    obtain ⟨hid, howner, htime, hcurrency, hkind, hcalendar, hrule, hschema, hhash, hlist⟩ := hcommon
    have := Ulid.eq_of_utf8 hid
    have := injects_ownerRef.eq trivial trivial
      (hshort (3, ownerRefBytes a.input.owner) (by simp [curveFields])) howner
    have := injects_marketTime.eq trivial trivial
      (hshort (4, marketTimeBytes a.input.asOf) (by simp [curveFields])) htime
    have := injects_unitRef.eq trivial trivial
      (hshort (5, unitRefBytes a.input.currency) (by simp [curveFields])) hcurrency
    have := utf8_inj hkind
    have := injects_versionRef.eq trivial trivial
      (hshort (7, versionRefBytes a.input.calendar) (by simp [curveFields])) hcalendar
    have := injects_versionRef.eq trivial trivial
      (hshort (8, versionRefBytes a.input.rulePack) (by simp [curveFields])) hrule
    have := utf8_inj hschema
    have := ContentHash.ext_bytes hhash
    refine ⟨?_, knowledgeFields_inj
      (fun field hmem => hshort field (List.mem_append_right _ hmem)) hknowledge,
      (lineageBytes_eq_iff hlineage).mp hlist⟩
    -- there is one kind of input
    cases ha : a.input.inputKind
    cases hb : b.input.inputKind
    simp_all
  · rintro ⟨hrest, hknowledge, hperm⟩
    simp only [CurveSnapshotInput.mk.injEq, and_true] at hrest
    obtain ⟨hid, howner, htime, hcurrency, hkind, hcalendar, hrule, hschema, hhash⟩ := hrest
    have hinput : a.input.inputKind = b.input.inputKind := by
      cases a.input.inputKind
      cases b.input.inputKind
      rfl
    have hlist := (lineageBytes_eq_iff hlineage).mpr hperm
    have hvisible : a.visibleAt = b.visibleAt := by
      rw [CurveSnapshot.visibleAt, CurveSnapshot.visibleAt, hknowledge]
    have hcommon : curveFields a = curveFields b := by
      simp only [curveFields, hid, howner, htime, hcurrency, hkind, hcalendar, hrule, hschema, hhash,
        hinput, hlist]
    rw [curveSnapshotBytes, curveSnapshotBytes, hvisible, hcommon, hknowledge]

/-- Two runs that agree but for the order of their rule packs. -/
structure SameRun (a b : ExperimentRun) : Prop where
  rest : { a with rulePacks := [], lineage := [] } = { b with rulePacks := [], lineage := [] }
  rulePacks : a.rulePacks.Perm b.rulePacks

theorem runStateCode_injective : Function.Injective runStateCode := by
  intro a b h
  cases a <;> cases b <;> first | rfl | exact absurd h (by decide)

/-- Two lists have one sorted list exactly when one is an order of the other. -/
theorem sort_versionRef_eq_iff {l m : List VersionRef} :
    l.insertionSort (· ≤ ·) = m.insertionSort (· ≤ ·) ↔ l.Perm m :=
  insertionSort_eq_iff_perm (· ≤ ·) fun _ _ => le_antisymm

/-- The revision of a run that was built is a small number. -/
theorem revision_lt {run : ExperimentRun} (h : run.Built) : run.revision < 2 ^ 64 := by
  have hrevision := h.wellFormed.revision_eq
  cases hstate : run.state <;> simp only [hstate] at hrevision <;> omega

/-- **Runs.** Equal bytes mean the same run, whose rule packs are in any order. -/
theorem runBytes_eq_iff {a b : ExperimentRun} (ha : a.Built) (hb : b.Built)
    (la : (runBytes a).length < lengthLimit) : runBytes a = runBytes b ↔ SameRun a b := by
  have hshort := fun field (hmem : field ∈ _) => length_lt_of_mem_fields la hmem
  constructor
  · intro h
    obtain ⟨-, hfields⟩ := fingerprintBytes_inj la h
    simp only [List.cons_append, List.nil_append, List.cons.injEq, Prod.mk.injEq, true_and] at hfields
    obtain ⟨hid, howner, hdata, huniverse, -, hrest⟩ := hfields
    have := Ulid.eq_of_utf8 hid
    have := injects_ownerRef.eq trivial trivial
      (hshort (3, ownerRefBytes a.owner) (by simp)) howner
    have := injects_lineageRef.eq trivial trivial
      (hshort (4, lineageRefBytes a.dataSnapshot) (by simp)) hdata
    have := injects_lineageRef.eq trivial trivial
      (hshort (5, lineageRefBytes a.universeSnapshot) (by simp)) huniverse
    -- The references share one tag; where they end the next tag begins.
    obtain ⟨hmap, htail⟩ := map_tag_append_inj (by simp) (by simp) hrest
    have hsorted := map_eq_of_injects injects_versionRef (by simp) (by simp)
      (fun r hmem => hshort (7, versionRefBytes r)
        (List.mem_append_right _ (List.mem_append_left _ (List.mem_map_of_mem hmem)))) hmap
    simp only [List.cons.injEq, Prod.mk.injEq, true_and, and_true] at htail
    obtain ⟨himage, hparameters, hseed, hstate, hrevision⟩ := htail
    have := ContentHash.ext_bytes himage
    have := ContentHash.ext_bytes hparameters
    have := eq_of_bigEndian8 ha.wellFormed.seed_fits hb.wellFormed.seed_fits hseed
    have := runStateCode_injective hstate
    have := eq_of_bigEndian8 (revision_lt ha) (revision_lt hb) hrevision
    exact ⟨by simp_all, sort_versionRef_eq_iff.mp hsorted⟩
  -- The references are sorted before they are written, so their order is lost.
  · rintro ⟨hrest, hperm⟩
    simp only [ExperimentRun.mk.injEq, true_and, and_true] at hrest
    obtain ⟨hid, howner, hdata, huniverse, himage, hparameters, hseed, hstate, hrevision⟩ := hrest
    simp only [runBytes, hid, howner, hdata, huniverse, himage, hparameters, hseed, hstate, hrevision,
      hperm.length_eq, sort_versionRef_eq_iff.mpr hperm]

/-- Two artifacts that agree but for the order of their lineage. -/
structure SameArtifact (a b : Artifact) : Prop where
  artifactId : a.artifactId = b.artifactId
  owner : a.owner = b.owner
  kind : a.kind = b.kind
  mediaType : a.mediaType = b.mediaType
  contentHash : a.contentHash = b.contentHash
  blobSize : a.blobSize = b.blobSize
  lineage : a.lineage.Perm b.lineage

theorem artifactKindCode_injective : Function.Injective artifactKindCode := by
  intro a b h
  cases a <;> cases b <;> first | rfl | exact absurd h (by decide)

/-- **Artifacts.** Equal bytes mean the same artifact. -/
theorem artifactBytes_eq_iff {a b : Artifact} (la : (artifactBytes a).length < lengthLimit) :
    artifactBytes a = artifactBytes b ↔ SameArtifact a b := by
  have hshort := fun field (hmem : field ∈ _) => length_lt_of_mem_fields la hmem
  -- The lineage is a block of its own, sorted before it is written.
  have hlineage : (lineageBytes a.lineage).length < lengthLimit :=
    hshort (8, lineageBytes a.lineage) (by simp)
  constructor
  · intro h
    obtain ⟨-, hfields⟩ := fingerprintBytes_inj la h
    simp only [List.cons.injEq, Prod.mk.injEq, true_and, and_true] at hfields
    obtain ⟨hid, howner, hkind, hmedia, hhash, hsize, hlist⟩ := hfields
    exact
      { artifactId := Ulid.eq_of_utf8 hid
        owner := injects_ownerRef.eq trivial trivial
          (hshort (3, ownerRefBytes a.owner) (by simp)) howner
        kind := artifactKindCode_injective hkind
        mediaType := utf8_inj hmedia
        contentHash := ContentHash.ext_bytes hhash
        blobSize := eq_of_bigEndian8 a.fits b.fits hsize
        lineage := (lineageBytes_eq_iff hlineage).mp hlist }
  · rintro ⟨hid, howner, hkind, hmedia, hhash, hsize, hperm⟩
    have hlist := (lineageBytes_eq_iff hlineage).mpr hperm
    simp only [artifactBytes, hid, howner, hkind, hmedia, hhash, hsize, hlist]

/-- Two signal sets that agree but for the order of their rule packs and input artifacts. -/
structure SameSignal (a b : SignalSet) : Prop where
  rest : { a.input with rulePacks := [], inputArtifacts := [] } =
    { b.input with rulePacks := [], inputArtifacts := [] }
  rulePacks : a.input.rulePacks.Perm b.input.rulePacks
  inputArtifacts : a.input.inputArtifacts.Perm b.input.inputArtifacts

/-- **Signal sets.** Equal bytes mean the same set of signals. -/
theorem signalBytes_eq_iff {a b : SignalSet} (la : (signalBytes a).length < lengthLimit) :
    signalBytes a = signalBytes b ↔ SameSignal a b := by
  have hshort := fun field (hmem : field ∈ _) => length_lt_of_mem_fields la hmem
  constructor
  · intro h
    obtain ⟨-, hfields⟩ := fingerprintBytes_inj la h
    simp only [List.cons_append, List.nil_append, List.cons.injEq, Prod.mk.injEq, true_and] at hfields
    obtain ⟨hid, howner, hartifact, hrun, hdata, huniverse, hrest⟩ := hfields
    have := Ulid.eq_of_utf8 hid
    have := injects_ownerRef.eq trivial trivial
      (hshort (3, ownerRefBytes a.input.owner) (by simp)) howner
    have := injects_lineageRef.eq trivial trivial
      (hshort (4, lineageRefBytes a.input.artifact) (by simp)) hartifact
    have := Ulid.eq_of_utf8 hrun
    have := injects_lineageRef.eq trivial trivial
      (hshort (6, lineageRefBytes a.input.dataSnapshot) (by simp)) hdata
    have := injects_lineageRef.eq trivial trivial
      (hshort (7, lineageRefBytes a.input.universeSnapshot) (by simp)) huniverse
    -- two runs of fields, neither with a count: the change of the tag ends each of them
    have hhead : ∀ (l : List LineageRef) (tail : List (UInt8 × List UInt8)) (v : List UInt8),
        ∀ field ∈ ((l.map fun r => ((9 : UInt8), lineageRefBytes r)) ++ (10, v) :: tail).head?,
          field.1 ≠ 8 := by
      intro l tail v field hfield
      cases l with
      | nil =>
        obtain rfl := Option.mem_some_iff.mp hfield
        show (10 : UInt8) ≠ 8
        decide
      | cons r l =>
        obtain rfl := Option.mem_some_iff.mp hfield
        show (9 : UInt8) ≠ 8
        decide
    obtain ⟨hrules, hrest⟩ := map_tag_append_inj (hhead _ _ _) (hhead _ _ _) hrest
    obtain ⟨hinputs, htail⟩ := map_tag_append_inj (by simp) (by simp) hrest
    have hsorted := map_eq_of_injects injects_versionRef (by simp) (by simp)
      (fun r hmem => hshort (8, versionRefBytes r)
        (List.mem_append_right _ (List.mem_append_left _ (List.mem_map_of_mem hmem)))) hrules
    have hsorted' := map_eq_of_injects injects_lineageRef (by simp) (by simp)
      (fun r hmem => hshort (9, lineageRefBytes r)
        (List.mem_append_right _ (List.mem_append_right _
          (List.mem_append_left _ (List.mem_map_of_mem hmem))))) hinputs
    simp only [List.cons.injEq, Prod.mk.injEq, true_and, and_true] at htail
    have := injects_period.eq trivial trivial
      (hshort (10, periodBytes a.input.valid) (by simp)) htail.1
    exact ⟨by simp_all, sort_versionRef_eq_iff.mp hsorted,
      (insertionSort_eq_iff_perm compareLineage compareLineage_antisymm).mp hsorted'⟩
  · rintro ⟨hrest, hrules, hinputs⟩
    simp only [SignalSetInput.mk.injEq, true_and] at hrest
    obtain ⟨hid, howner, hartifact, hrun, hdata, huniverse, hvalid⟩ := hrest
    have hhash : a.contentHash = b.contentHash := by
      simp only [SignalSet.contentHash, hartifact]
    simp only [signalBytes, hid, howner, hartifact, hrun, hdata, huniverse, hvalid, hhash,
      sort_versionRef_eq_iff.mpr hrules,
      (insertionSort_eq_iff_perm compareLineage compareLineage_antisymm).mpr hinputs]

/-! ### Definitions, and everything together -/

/-- The bytes of a definition determine it, but for the inline content of a rule pack. -/
theorem definitionBytes_eq_iff {a b : DefinitionValue digest}
    (la : (definitionBytes a).length < lengthLimit) :
    definitionBytes a = definitionBytes b ↔ a = b ∨ ∃ p q : MarketRulePack digest,
      a = .marketRulePack p ∧ b = .marketRulePack q ∧ p.input = q.input := by
  constructor
  · intro h
    -- The kinds write different schemas, so only definitions of one kind can share bytes.
    cases a <;> cases b <;> simp only [definitionBytes] at la h
    · exact .inl (by rw [injects_instrumentDefinition.eq trivial trivial la h])
    · exact absurd (fingerprintBytes_inj la h).1 (by decide)
    · exact absurd (fingerprintBytes_inj la h).1 (by decide)
    · exact absurd (fingerprintBytes_inj la h).1 (by decide)
    · exact absurd (fingerprintBytes_inj la h).1 (by decide)
    · exact .inl (by rw [injects_calendar.eq trivial trivial la h])
    · exact absurd (fingerprintBytes_inj la h).1 (by decide)
    · exact absurd (fingerprintBytes_inj la h).1 (by decide)
    · exact absurd (fingerprintBytes_inj la h).1 (by decide)
    · exact absurd (fingerprintBytes_inj la h).1 (by decide)
    · exact .inl (by rw [injects_unit.eq trivial trivial la h])
    · exact absurd (fingerprintBytes_inj la h).1 (by decide)
    · exact absurd (fingerprintBytes_inj la h).1 (by decide)
    · exact absurd (fingerprintBytes_inj la h).1 (by decide)
    · exact absurd (fingerprintBytes_inj la h).1 (by decide)
    · exact .inr ⟨_, _, rfl, rfl, (rulePackBytes_eq_iff la).mp h⟩
  · rintro (rfl | ⟨p, q, rfl, rfl, hinput⟩)
    · rfl
    · exact (rulePackBytes_eq_iff la).mpr hinput

/-- Two definitions are not rule packs that differ in their inline content and in nothing else. -/
def ContentAgrees : DefinitionValue digest → DefinitionValue digest → Prop
  | .marketRulePack p, .marketRulePack q => p.input = q.input → p.content = q.content
  | _, _ => True

/-- Equal bytes mean equal definitions exactly where rule packs do not differ in their content. -/
theorem definitionBytes_bind_iff {a b : DefinitionValue digest}
    (la : (definitionBytes a).length < lengthLimit) :
    (definitionBytes a = definitionBytes b ↔ a = b) ↔ ContentAgrees a b := by
  rw [definitionBytes_eq_iff la]
  constructor
  · intro h
    cases a <;> cases b <;> try exact trivial
    intro hinput
    have heq := h.mp (.inr ⟨_, _, rfl, rfl, hinput⟩)
    rw [DefinitionValue.marketRulePack.inj heq]
  · intro hagrees
    refine ⟨?_, Or.inl⟩
    rintro (heq | ⟨p, q, rfl, rfl, hinput⟩)
    · exact heq
    · have hcontent : p.content = q.content := hagrees hinput
      cases p
      cases q
      simp_all

/-- **A fingerprint binds the whole value, except a rule pack's inline content.**  For facts, curves,
    runs, artifacts and signal sets, equal bytes mean the same value up to the order of the lists that
    the encoders sort, and reordering these lists changes nothing.  For definitions this holds
    exactly when the two are not rule packs that differ in their inline content only. -/
theorem values_bound_iff (digest : List UInt8 → ContentHash) :
    (∀ a b : DefinitionValue digest, (definitionBytes a).length < lengthLimit →
      ((definitionBytes a = definitionBytes b ↔ a = b) ↔ ContentAgrees a b)) ∧
    (∀ a b : MarketFact, (factBytes a).length < lengthLimit →
      (factBytes a = factBytes b ↔ a = b)) ∧
    (∀ a b : CurveSnapshot, (curveSnapshotBytes a).length < lengthLimit →
      (curveSnapshotBytes a = curveSnapshotBytes b ↔ SameCurve a b)) ∧
    (∀ a b : ExperimentRun, a.Built → b.Built → (runBytes a).length < lengthLimit →
      (runBytes a = runBytes b ↔ SameRun a b)) ∧
    (∀ a b : Artifact, (artifactBytes a).length < lengthLimit →
      (artifactBytes a = artifactBytes b ↔ SameArtifact a b)) ∧
    (∀ a b : SignalSet, (signalBytes a).length < lengthLimit →
      (signalBytes a = signalBytes b ↔ SameSignal a b)) := by
  refine ⟨fun a b => definitionBytes_bind_iff, fun a b la => ⟨fun h => ?_, fun h => by rw [h]⟩,
    fun a b => curveSnapshotBytes_eq_iff, fun a b => runBytes_eq_iff, fun a b => artifactBytes_eq_iff,
    fun a b => signalBytes_eq_iff⟩
  exact injects_fact.eq trivial trivial la h

/-! ### Samples -/

/-- A second of the samples below. -/
def sampleInstant (seconds : ℤ) (lower : -8334601228800 ≤ seconds) (upper : seconds ≤ 8210266876799) :
    MarketTime :=
  ⟨.ofSeconds seconds lower upper, "UTC", .epoch⟩

/-- A small decimal of one unit. -/
def sampleDecimal : StoredDecimal :=
  ⟨⟨5, 0, ⟨⟨4⟩, .first⟩⟩, ⟨by decide, by decide, by decide⟩⟩

/-- The time and the references of the samples. -/
def sampleTime : MarketTime := sampleInstant 0 DateTime.epoch.lower DateTime.epoch.upper

def sampleRef : VersionRef := ⟨⟨5⟩, .first⟩

def sampleOwner : OwnerRef := ⟨⟨2⟩, ⟨3⟩⟩

def sampleHash : ContentHash := .filled 0

/-- The digest of the samples: the bytes read as the digits of one number. -/
def sampleDigest (bytes : List UInt8) : ContentHash :=
  ⟨bigEndian 32 (bytes.foldl (fun n b => n * 257 + b.toNat + 1) 0), length_bigEndian _ _⟩

def sampleLineage : LineageRef := ⟨⟨6⟩, none, some sampleHash⟩

def sampleNext : MarketTime := sampleInstant 1 (by decide) (by decide)

def samplePeriod : EffectivePeriod := ⟨sampleTime, sampleNext, by decide⟩

def sampleTrade : MarketFact :=
  .trade ⟨⟨⟨7⟩, sampleRef, sampleOwner,
    ⟨"feed", "1", 1, none, by decide, by decide, Version.first.positive, Version.first.fits⟩,
    sampleTime, sampleDecimal, sampleDecimal, none⟩, by decide⟩

def sampleCurve : CurveSnapshot :=
  ⟨⟨⟨8⟩, sampleOwner, sampleTime, ⟨⟨4⟩, .first⟩, "par", sampleRef, sampleRef, "v1",
    sampleHash, [sampleLineage], .externalFixture⟩, none, by decide, by simp⟩

def sampleRunInput : ExperimentRunInput :=
  ⟨⟨9⟩, sampleOwner, sampleLineage, sampleLineage, [sampleRef], sampleHash, sampleHash, 1⟩

def sampleRun : ExperimentRun :=
  ⟨⟨9⟩, sampleOwner, sampleLineage, sampleLineage, [sampleRef], sampleHash, sampleHash, 1, .created, 1,
    [sampleLineage, sampleLineage, LineageRef.versioned sampleRef]⟩

/-- The sample is a run as the constructor makes it. -/
theorem sampleRun_built : sampleRun.Built :=
  .new (show sampleRunInput.seed < 2 ^ 64 by decide) rfl

def sampleArtifact : Artifact :=
  ⟨⟨10⟩, sampleOwner, .generic, "text/plain", sampleHash, 1, [sampleLineage], by decide,
    Version.first.positive, Version.first.fits, by decide⟩

def sampleSignal : SignalSet :=
  ⟨⟨⟨11⟩, sampleOwner, sampleLineage, ⟨9⟩, sampleLineage, sampleLineage, [sampleRef], [sampleLineage],
    samplePeriod⟩, by decide⟩

/-! ### Rule packs with one fingerprint -/

/-- A rule pack of one day, with or without its payload of one byte. -/
def samplePack (digest : List UInt8 → ContentHash) (content : Option RulePackContent)
    (bound : ∀ c ∈ content, digest c.value = digest [7]) : MarketRulePack digest where
  input :=
    { rulePackId := ⟨1⟩
      version := .first
      owner := sampleOwner
      market := "CN"
      ruleType := "tax"
      source := "gazette"
      effective := samplePeriod
      verificationStatus := .verified
      contentHash := digest [7] }
  content
  market_proper := (by decide : properName "CN" = true)
  type_proper := (by decide : properName "tax" = true)
  source_proper := (by decide : properName "gazette" = true)
  bound

/-- The payload of the sample under a type. -/
def samplePayload (typeUrl : String) (proper : properName typeUrl = true) : RulePackContent :=
  ⟨typeUrl, [7], proper, by decide⟩

/-- The sample with its payload read as a tax rule, as a fee rule, and without it. -/
def taxPack (digest : List UInt8 → ContentHash) : MarketRulePack digest :=
  samplePack digest (some (samplePayload "tax.v1" (by decide))) (by simp [samplePayload])

def feePack (digest : List UInt8 → ContentHash) : MarketRulePack digest :=
  samplePack digest (some (samplePayload "fee.v1" (by decide))) (by simp [samplePayload])

def barePack (digest : List UInt8 → ContentHash) : MarketRulePack digest :=
  samplePack digest none (by simp)

/-- The six statements at one sample each, under a digest that gives zeros. -/
theorem values_bound_samples :
    (let tax := DefinitionValue.marketRulePack (taxPack fun _ => sampleHash)
     let fee := DefinitionValue.marketRulePack (feePack fun _ => sampleHash)
     (definitionBytes tax = definitionBytes fee ↔ tax = fee) ↔ ContentAgrees tax fee) ∧
    (factBytes sampleTrade = factBytes sampleTrade ↔ sampleTrade = sampleTrade) ∧
    (curveSnapshotBytes sampleCurve = curveSnapshotBytes sampleCurve ↔
      SameCurve sampleCurve sampleCurve) ∧
    (runBytes sampleRun = runBytes sampleRun ↔ SameRun sampleRun sampleRun) ∧
    (artifactBytes sampleArtifact = artifactBytes sampleArtifact ↔
      SameArtifact sampleArtifact sampleArtifact) ∧
    (signalBytes sampleSignal = signalBytes sampleSignal ↔ SameSignal sampleSignal sampleSignal) := by
  obtain ⟨hdefinition, hfact, hcurve, hrun, hartifact, hsignal⟩ := values_bound_iff fun _ => sampleHash
  exact ⟨hdefinition _ _ (by decide +kernel), hfact _ _ (by decide +kernel),
    hcurve _ _ (by decide +kernel), hrun _ _ sampleRun_built sampleRun_built (by decide +kernel),
    hartifact _ _ (by decide +kernel), hsignal _ _ (by decide +kernel)⟩

/-- The type of the payload and its presence are not in the bytes. -/
theorem definitionBytes_miss_content :
    definitionBytes (.marketRulePack (taxPack sampleDigest)) =
        definitionBytes (.marketRulePack (feePack sampleDigest)) ∧
      definitionBytes (.marketRulePack (taxPack sampleDigest)) =
        definitionBytes (.marketRulePack (barePack sampleDigest)) ∧
      DefinitionValue.marketRulePack (taxPack sampleDigest) ≠
        .marketRulePack (feePack sampleDigest) ∧
      DefinitionValue.marketRulePack (taxPack sampleDigest) ≠
        .marketRulePack (barePack sampleDigest) := by
  refine ⟨rfl, rfl, fun h => ?_, fun h => ?_⟩
  · have hcontent := congrArg MarketRulePack.content (DefinitionValue.marketRulePack.inj h)
    have htype : some "tax.v1" = some "fee.v1" :=
      congrArg (Option.map RulePackContent.typeUrl) hcontent
    exact absurd htype (by decide)
  · have hcontent := congrArg MarketRulePack.content (DefinitionValue.marketRulePack.inj h)
    cases hcontent

end Fingerprint

end Ficant
