import Ficant.Analytics.InputValues

namespace Ficant.Analytics

open Lib

/-!
# Carry and roll-down

A yield curve bound to its snapshot, and the input of a carry and roll-down calculation
(`ficant-domain/src/curves.rs`).

* `YieldCurveNode`, `YieldCurveBinding`, `CarryRollInput` — immutable values with their constructors;
* `CarryRollInput.fingerprintBytes` — the bytes behind the fingerprint of an input;
* `CarryRollInput.sameRead_of_bytes` — they determine everything that a calculation reads.
-/

/-! ### Curves -/

/-- `YieldCurveInterpolation`. -/
inductive YieldCurveInterpolation
  | linearYield
  deriving DecidableEq, Repr

/-- There is one interpolation. -/
theorem interpolation_eq (a b : YieldCurveInterpolation) : a = b := by
  cases a
  cases b
  rfl

def YieldCurveInterpolation.code : YieldCurveInterpolation → ℕ
  | .linearYield => 1

/-- `NEGATIVE_ONE_SCALED`. -/
def negativeOneScaled : ℤ := -1000000000000

/-- `YieldCurveNode`. -/
structure YieldCurveNode where
  maturityDate : NaiveDate
  yieldToMaturity : FixedDecimal
  yield_gt : negativeOneScaled < yieldToMaturity.scaled
  deriving DecidableEq

/-- `YieldCurveNode::new`. -/
def YieldCurveNode.new (maturityDate : NaiveDate) (yieldToMaturity : FixedDecimal) :
    Except DomainErrorCode YieldCurveNode :=
  if h : yieldToMaturity.scaled ≤ negativeOneScaled then .error .invalidValue
  else .ok ⟨maturityDate, yieldToMaturity, not_le.mp h⟩

/-- `YieldCurveBinding`. -/
structure YieldCurveBinding where
  curveSnapshot : AnalyticsObjectRef
  valuationDate : NaiveDate
  interpolation : YieldCurveInterpolation
  nodes : List YieldCurveNode
  two_nodes : 2 ≤ nodes.length
  later : ∀ node ∈ nodes, valuationDate < node.maturityDate
  sorted : nodes.Pairwise fun a b => a.maturityDate < b.maturityDate
  deriving DecidableEq

/-- `YieldCurveBinding::new`. -/
def YieldCurveBinding.new (curveSnapshot : AnalyticsObjectRef) (valuationDate : NaiveDate)
    (interpolation : YieldCurveInterpolation) (nodes : List YieldCurveNode) :
    Except DomainErrorCode YieldCurveBinding :=
  if h : 2 ≤ nodes.length ∧ (∀ node ∈ nodes, valuationDate < node.maturityDate) ∧
      ((nodes.zip nodes.tail).all fun pair => pair.1.maturityDate < pair.2.maturityDate) = true then
    .ok ⟨curveSnapshot, valuationDate, interpolation, nodes, h.1, h.2.1,
      haveI : IsTrans YieldCurveNode fun a b => a.maturityDate < b.maturityDate :=
        ⟨fun _ _ _ => lt_trans⟩
      (all_zip_tail_iff_pairwise fun a b : YieldCurveNode => a.maturityDate < b.maturityDate).mp
        h.2.2⟩
  else .error .invalidValue

/-- `covers`. -/
def YieldCurveBinding.covers (curve : YieldCurveBinding) (queryDate : NaiveDate) : Bool :=
  curve.nodes.head?.any fun first => curve.nodes.getLast?.any fun last =>
    first.maturityDate ≤ queryDate && queryDate ≤ last.maturityDate

/-- `curve_query_date`: the days from a settlement to maturity, counted from the date of the curve. -/
def curveQueryDate (terms : BondTerms) (curve : YieldCurveBinding) (settlement : NaiveDate) :
    Except DomainErrorCode NaiveDate :=
  match NaiveDate.ofDayNumber (curve.valuationDate.dayNumber +
    (terms.maturityDate.dayNumber - settlement.dayNumber)) with
  | some date => .ok date
  | none => .error .invalidEffectiveTime

/-- The curve has a yield for what is left of the bond at a settlement. -/
def onCurve (terms : BondTerms) (curve : YieldCurveBinding) (settlement : NaiveDate) : Bool :=
  (curveQueryDate terms curve settlement).toOption.any curve.covers

/-! ### Inputs -/

/-- `CarryRollInput`. -/
structure CarryRollInput where
  owner : OwnerRef
  bond : AnalyticsObjectRef
  rulePack : AnalyticsObjectRef
  snapshot : AnalyticsObjectRef
  valuationAt : MarketTime
  initialSettlement : NaiveDate
  horizonSettlement : NaiveDate
  calendarRequirement : CalendarRequirement
  calendar : CalendarBinding
  terms : BondTerms
  curve : YieldCurveBinding
  timezone : valuationAt.marketTimezone = marketTimezone
  valued : curve.valuationDate = valuationAt.localTradingDate
  settles : terms.firstIssueDate ≤ initialSettlement ∧ initialSettlement < horizonSettlement ∧
    horizonSettlement < terms.maturityDate
  covered : calendarRequirement = .exactMarket →
    calendar.coverageStart ≤ initialSettlement ∧ horizonSettlement ≤ calendar.coverageEnd
  initial_on_curve : onCurve terms curve initialSettlement = true
  rolled_on_curve : onCurve terms curve horizonSettlement = true

instance : DecidableEq CarryRollInput := fun a b =>
  decidable_of_iff
    (a.owner = b.owner ∧ a.bond = b.bond ∧ a.rulePack = b.rulePack ∧ a.snapshot = b.snapshot ∧
      a.valuationAt = b.valuationAt ∧ a.initialSettlement = b.initialSettlement ∧
      a.horizonSettlement = b.horizonSettlement ∧ a.calendarRequirement = b.calendarRequirement ∧
      a.calendar = b.calendar ∧ a.terms = b.terms ∧ a.curve = b.curve)
    (by cases a; cases b; simp)

namespace CarryRollInput

/-- `CarryRollInput::new`. -/
def new (owner : OwnerRef) (bond rulePack snapshot : AnalyticsObjectRef) (valuationAt : MarketTime)
    (initialSettlement horizonSettlement : NaiveDate) (calendarRequirement : CalendarRequirement)
    (calendar : CalendarBinding) (terms : BondTerms) (curve : YieldCurveBinding) :
    Except DomainErrorCode CarryRollInput :=
  if h : valuationAt.marketTimezone = marketTimezone ∧
      curve.valuationDate = valuationAt.localTradingDate ∧
      terms.firstIssueDate ≤ initialSettlement ∧ initialSettlement < horizonSettlement ∧
      horizonSettlement < terms.maturityDate then
    if hcovered : calendarRequirement = .exactMarket →
        calendar.coverageStart ≤ initialSettlement ∧ horizonSettlement ≤ calendar.coverageEnd then
      if hcurve : onCurve terms curve initialSettlement = true ∧
          onCurve terms curve horizonSettlement = true then
        .ok ⟨owner, bond, rulePack, snapshot, valuationAt, initialSettlement, horizonSettlement,
          calendarRequirement, calendar, terms, curve, h.1, h.2.1, h.2.2, hcovered, hcurve.1,
          hcurve.2⟩
      else .error .invalidEffectiveTime
    else .error .invalidEffectiveTime
  else .error .invalidEffectiveTime

/-- The values of a curve node. -/
def nodeValues (node : YieldCurveNode) : List (List UInt8) :=
  [dateValue node.maturityDate, node.yieldToMaturity.scaledBytes]

/-- The values up to the dates of the calendar. -/
def openingValues (i : CarryRollInput) : List (List UInt8) :=
  [utf8 "ficant.carry-roll.input.v1", idValue i.owner.tenantId, bigEndian 8 0, [],
    idValue i.owner.ownerId, bigEndian 8 0, []] ++
  (refValues i.bond ++ (refValues i.rulePack ++ (refValues i.snapshot ++
  [secondsBytes i.valuationAt.instant, nanosBytes i.valuationAt.instant,
    utf8 i.valuationAt.marketTimezone, dateValue i.valuationAt.localTradingDate,
    dateValue i.initialSettlement, dateValue i.horizonSettlement,
    bigEndian 1 i.calendarRequirement.code, utf8 i.calendar.calendarId,
    bigEndian 8 i.calendar.version.value, i.calendar.contentHash.bytes,
    dateValue i.calendar.coverageStart, dateValue i.calendar.coverageEnd])))

/-- The values between the dates of the calendar and the nodes of the curve. -/
def termValues (i : CarryRollInput) : List (List UInt8) :=
  [dateValue i.terms.firstIssueDate, dateValue i.terms.maturityDate,
    codeValue i.terms.frequency.code, codeValue i.terms.dayCount.code,
    codeValue i.terms.businessDay.code, i.terms.couponRate.scaledBytes,
    i.terms.faceAmount.scaledBytes] ++
  (refValues i.curve.curveSnapshot ++
  [dateValue i.curve.valuationDate, codeValue i.curve.interpolation.code])

/-- The values that `fingerprint` writes. -/
def fingerprintValues (i : CarryRollInput) : List (List UInt8) :=
  i.openingValues ++ (writeCounted (fun date => [dateValue date]) i.calendar.nonBusinessDays ++
    (writeCounted (fun date => [dateValue date]) i.calendar.workWeekends ++
      (i.termValues ++ writeCounted nodeValues i.curve.nodes)))

/-- The bytes that `fingerprint` digests. -/
def fingerprintBytes (i : CarryRollInput) : List UInt8 := joinChunks i.fingerprintValues

/-- `fingerprint`. -/
def fingerprint (digest : List UInt8 → ContentHash) (i : CarryRollInput) : ContentHash :=
  digest i.fingerprintBytes

/-! ### What the fingerprint binds -/

/-- **What a calculation reads.**  The latest issue of a bond with its amount and its taxes is read by
    none. -/
structure SameRead (a b : CarryRollInput) : Prop where
  owner : a.owner = b.owner
  bond : a.bond = b.bond
  rulePack : a.rulePack = b.rulePack
  snapshot : a.snapshot = b.snapshot
  valuationAt : a.valuationAt = b.valuationAt
  initialSettlement : a.initialSettlement = b.initialSettlement
  horizonSettlement : a.horizonSettlement = b.horizonSettlement
  calendarRequirement : a.calendarRequirement = b.calendarRequirement
  calendar : a.calendar = b.calendar
  firstIssueDate : a.terms.firstIssueDate = b.terms.firstIssueDate
  maturityDate : a.terms.maturityDate = b.terms.maturityDate
  frequency : a.terms.frequency = b.terms.frequency
  dayCount : a.terms.dayCount = b.terms.dayCount
  businessDay : a.terms.businessDay = b.terms.businessDay
  couponRate : a.terms.couponRate = b.terms.couponRate
  faceAmount : a.terms.faceAmount = b.terms.faceAmount
  curve : a.curve = b.curve

/-- A node's values end where the next node begins. -/
theorem delimited_nodeValues : Delimited nodeValues := by
  rintro ⟨date, rate, _⟩ ⟨date', rate', _⟩ r s h
  simp only [nodeValues, List.cons_append, List.nil_append, List.cons.injEq] at h
  obtain ⟨hdate, hrate, hrest⟩ := h
  obtain rfl := dateValue_injective hdate
  obtain rfl := FixedDecimal.scaledBytes_injective hrate
  exact ⟨rfl, hrest⟩

/-- The values of fixed length come first. -/
theorem openingValues_length (i : CarryRollInput) : i.openingValues.length = 28 := rfl

/-- The terms are always twelve values long. -/
theorem termValues_length (i : CarryRollInput) : i.termValues.length = 12 := rfl

/-- No list is longer than the bytes. -/
theorem counted_lengths (i : CarryRollInput) (hi : i.fingerprintBytes.length < lengthLimit) :
    i.calendar.nonBusinessDays.length < lengthLimit ∧
      i.calendar.workWeekends.length < lengthLimit ∧ i.curve.nodes.length < lengthLimit := by
  have hlength : i.fingerprintValues.length =
      28 + ((writeCounted (fun date => [dateValue date]) i.calendar.nonBusinessDays).length +
        ((writeCounted (fun date => [dateValue date]) i.calendar.workWeekends).length +
          (12 + (writeCounted nodeValues i.curve.nodes).length))) := by
    simp only [fingerprintValues, List.length_append, openingValues_length, termValues_length]
  refine ⟨lt_of_le_of_lt ?_ hi, lt_of_le_of_lt ?_ hi, lt_of_le_of_lt ?_ hi⟩
  · exact length_le_of_counted (fun date => List.cons_ne_nil (dateValue date) []) (by omega)
  · exact length_le_of_counted (fun date => List.cons_ne_nil (dateValue date) []) (by omega)
  · have hnode : ∀ node, nodeValues node ≠ [] := fun node => List.cons_ne_nil _ _
    exact length_le_of_counted hnode (by omega)

/-- What is written before the dates of the calendar. -/
theorem openingValues_inj {a b : CarryRollInput} (h : a.openingValues = b.openingValues) :
    a.owner = b.owner ∧ a.bond = b.bond ∧ a.rulePack = b.rulePack ∧ a.snapshot = b.snapshot ∧
      a.valuationAt = b.valuationAt ∧ a.initialSettlement = b.initialSettlement ∧
      a.horizonSettlement = b.horizonSettlement ∧ a.calendarRequirement = b.calendarRequirement ∧
      a.calendar.calendarId = b.calendar.calendarId ∧ a.calendar.version = b.calendar.version ∧
      a.calendar.contentHash = b.calendar.contentHash ∧
      a.calendar.coverageStart = b.calendar.coverageStart ∧
      a.calendar.coverageEnd = b.calendar.coverageEnd := by
  unfold openingValues at h
  obtain ⟨howner, h⟩ := List.append_inj h (by simp only [List.length_cons])
  obtain ⟨hbond, h⟩ := delimited_refValues _ _ _ _ h
  obtain ⟨hrulePack, h⟩ := delimited_refValues _ _ _ _ h
  obtain ⟨hsnapshot, h⟩ := delimited_refValues _ _ _ _ h
  simp only [List.cons.injEq, and_true, true_and] at howner h
  obtain ⟨hseconds, hnanos, hzone, hlocal, hinitial, hhorizon, hrequirement, hid, hversion, hhash,
    hstart, hend⟩ := h
  exact ⟨owner_eq (idValue_injective howner.1) (idValue_injective howner.2), hbond, hrulePack,
    hsnapshot, marketTime_eq (instant_eq_of_bytes hseconds hnanos) (utf8_inj hzone)
      (dateValue_injective hlocal), dateValue_injective hinitial, dateValue_injective hhorizon,
    requirementValue_inj hrequirement, utf8_inj hid, versionValue_inj hversion,
    hashBytes_injective hhash, dateValue_injective hstart, dateValue_injective hend⟩

/-- What is written between them and the nodes of the curve. -/
theorem termValues_inj {a b : CarryRollInput} (h : a.termValues = b.termValues) :
    a.terms.firstIssueDate = b.terms.firstIssueDate ∧ a.terms.maturityDate = b.terms.maturityDate ∧
      a.terms.frequency = b.terms.frequency ∧ a.terms.couponRate = b.terms.couponRate ∧
      a.terms.faceAmount = b.terms.faceAmount ∧ a.curve.curveSnapshot = b.curve.curveSnapshot ∧
      a.curve.valuationDate = b.curve.valuationDate := by
  unfold termValues at h
  obtain ⟨hterms, h⟩ := List.append_inj h (by simp only [List.length_cons])
  obtain ⟨hsnapshot, h⟩ := delimited_refValues _ _ _ _ h
  simp only [List.cons.injEq, and_true] at hterms h
  obtain ⟨hissue, hmaturity, hfrequency, -, -, hcoupon, hface⟩ := hterms
  exact ⟨dateValue_injective hissue, dateValue_injective hmaturity, frequencyValue_inj hfrequency,
    FixedDecimal.scaledBytes_injective hcoupon, FixedDecimal.scaledBytes_injective hface, hsnapshot,
    dateValue_injective h⟩

/-- A calendar binding is determined by its fields. -/
theorem calendar_eq {a b : CalendarBinding} (hid : a.calendarId = b.calendarId)
    (hversion : a.version = b.version) (hhash : a.contentHash = b.contentHash)
    (hstart : a.coverageStart = b.coverageStart) (hend : a.coverageEnd = b.coverageEnd)
    (hfree : a.nonBusinessDays = b.nonBusinessDays) (hwork : a.workWeekends = b.workWeekends) :
    a = b := by
  cases a
  cases b
  simp only at hid hversion hhash hstart hend hfree hwork
  subst hid hversion hhash hstart hend hfree hwork
  rfl

/-- A curve binding is determined by its fields. -/
theorem curve_eq {a b : YieldCurveBinding} (hsnapshot : a.curveSnapshot = b.curveSnapshot)
    (hdate : a.valuationDate = b.valuationDate) (hnodes : a.nodes = b.nodes) : a = b := by
  have hinterpolation := interpolation_eq a.interpolation b.interpolation
  cases a
  cases b
  simp only at hsnapshot hdate hnodes
  subst hsnapshot hdate hnodes
  rw [YieldCurveBinding.mk.injEq]
  exact ⟨rfl, rfl, hinterpolation, rfl⟩

/-- **The fingerprint of a carry and roll-down calculation** binds everything that it reads. -/
theorem sameRead_of_bytes {a b : CarryRollInput} (hlength : a.fingerprintBytes.length < lengthLimit)
    (h : a.fingerprintBytes = b.fingerprintBytes) : SameRead a b := by
  have hlength' : b.fingerprintBytes.length < lengthLimit := h ▸ hlength
  have hvalues : a.fingerprintValues = b.fingerprintValues := joinChunks_inj hlength h
  obtain ⟨hfree, hwork, hnodes⟩ := a.counted_lengths hlength
  obtain ⟨hfree', hwork', hnodes'⟩ := b.counted_lengths hlength'
  have hdate := delimited_single dateValue_injective
  -- the values of fixed length and the counted lists come apart one by one
  unfold fingerprintValues at hvalues
  obtain ⟨hopening, hvalues⟩ := List.append_inj hvalues
    (a.openingValues_length.trans b.openingValues_length.symm)
  obtain ⟨hfreeDays, hvalues⟩ := hdate.counted hfree hfree' hvalues
  obtain ⟨hworkDays, hvalues⟩ := hdate.counted hwork hwork' hvalues
  obtain ⟨hterms, hvalues⟩ := List.append_inj hvalues
    (a.termValues_length.trans b.termValues_length.symm)
  obtain ⟨hcurveNodes, -⟩ := delimited_nodeValues.counted hnodes hnodes' (congrArg (· ++ []) hvalues)
  obtain ⟨howner, hbond, hrulePack, hsnapshot, hvaluation, hinitial, hhorizon, hrequirement, hid,
    hversion, hhash, hstart, hend⟩ := openingValues_inj hopening
  obtain ⟨hissue, hmaturity, hfrequency, hcoupon, hface, hcurveSnapshot, hcurveDate⟩ :=
    termValues_inj hterms
  have hcalendar := calendar_eq hid hversion hhash hstart hend hfreeDays hworkDays
  have hcurve := curve_eq hcurveSnapshot hcurveDate hcurveNodes
  exact ⟨howner, hbond, hrulePack, hsnapshot, hvaluation, hinitial, hhorizon, hrequirement, hcalendar,
    hissue, hmaturity, hfrequency, dayCount_eq _ _, businessDay_eq _ _, hcoupon, hface, hcurve⟩

end CarryRollInput

end Ficant.Analytics
