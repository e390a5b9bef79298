import Ficant.Futures.DeliveryArtifact

namespace Ficant.Futures

open Lib Analytics Fingerprint

/-!
# Replay of stored delivery baskets

A stored basket is found again by the fingerprints of its inputs.

* `accepts_iff` — which expected inputs a stored candidate is decoded for;
* `fingerprints_bind_iff` — when the fingerprints bind what a calculation reads, and a stored basket is
  decoded to nothing but itself.
-/

/-- What the fingerprint lists, and the whole instant where it is stored too. -/
def SameStored (sd : Bool) (a b : FuturesDeliverableInput) : Prop :=
  a.SameListed b ∧ (sd = true → a.valuationAt.instant = b.valuationAt.instant)

section Replay

variable {format : ArrowFormat}

/-- **Which inputs a stored candidate is decoded for.** -/
theorem accepts_iff {sd : Bool} {common input : FuturesDeliverableInput}
    {candidate : FuturesDeliveryResult} (hcontract : SameContract candidate.input common)
    (hlong : candidate.input.fingerprintBytes.length < lengthLimit)
    (hcollision : NoCollision format.digest candidate.input.fingerprintBytes input.fingerprintBytes) :
    Accepts format sd common candidate input ↔ SameStored sd candidate.input input := by
  obtain ⟨-, hfutures, hrulePack, hsnapshot, hvaluation, -, -, -, hproduct, -, -, -⟩ := hcontract
  -- The stored fingerprint stands for every listed field of the input.
  have hlisted : candidate.input.fingerprint format.digest = input.fingerprint format.digest ↔
      candidate.input.SameListed input := by
    rw [← FuturesDeliverableInput.fingerprintBytes_eq_iff hlong]
    exact ⟨hcollision, congrArg format.digest⟩
  unfold Accepts SameStored
  rw [hlisted]
  constructor
  · rintro ⟨h, -, hdescribed⟩
    refine ⟨h, fun hsd => ?_⟩
    rw [hvaluation]
    exact (hdescribed hsd).instant
  -- Conversely, what the description repeats is listed as well, the instant apart.
  · rintro ⟨h, hinstant⟩
    refine ⟨h, congrArg (fun bond => bond.versionRef.id) h.bond, fun hsd => ?_⟩
    have hinstant := hinstant hsd
    have hzone := h.timezone
    have hlocal := h.localTradingDate
    rw [hvaluation] at hinstant hzone hlocal
    exact ⟨hzone, hlocal, hinstant, h.bond, hfutures ▸ h.futuresContract, hrulePack ▸ h.rulePack,
      hsnapshot ▸ h.snapshot, hproduct ▸ h.product⟩

variable (format) in
/-- **What a stored basket is for.**  It is decoded for its own inputs, and to nothing but itself. -/
def Replays (result : FuturesDeliveryBasketResult) (sd : Bool)
    (inputs : List FuturesDeliverableInput) : Prop :=
  ∀ bytes, encode format result sd = .ok bytes →
    (∀ decoded, decode format bytes inputs = .ok decoded → decoded = result) ∧
      decode format bytes (result.candidates.map FuturesDeliveryResult.input) = .ok result

/-- The inputs of a calculated basket are of one contract, that of the first. -/
theorem sameContract_first {engine : FuturesDeliveryEngine} {calculated : List FuturesDeliverableInput}
    {result : FuturesDeliveryBasketResult}
    (h : CalculateFuturesDeliveryBasket.execute engine calculated = .ok result) :
    ∀ candidate ∈ result.candidates, SameContract candidate.input result.first := by
  obtain ⟨hcontract, hcandidates, -⟩ := CalculateFuturesDeliveryBasket.execute_eq_ok.mp h
  have hinput : ∀ candidate ∈ result.candidates, candidate.input ∈ calculated := by
    intro candidate hmem
    obtain ⟨i, hi, rfl⟩ := List.getElem_of_mem hmem
    have hlt : i < calculated.length := hcandidates.length_eq ▸ hi
    have hresult := (List.forall₂_iff_get.mp hcandidates).2 i hlt hi
    rw [show result.candidates[i].input = calculated[i] from hresult.2]
    exact List.getElem_mem hlt
  intro candidate hmem
  exact hcontract _ (hinput _ hmem) _ (hinput _ (List.getElem_mem _))

/-- **When a stored basket is decoded to nothing but itself**: no other inputs agree with its own in
    what is stored. -/
theorem replays_iff {engine : FuturesDeliveryEngine} {calculated inputs : List FuturesDeliverableInput}
    {result : FuturesDeliveryBasketResult} {sd : Bool}
    (hexecute : CalculateFuturesDeliveryBasket.execute engine calculated = .ok result)
    (hlong : ∀ candidate ∈ result.candidates, candidate.input.fingerprintBytes.length < lengthLimit)
    (hcollision : ∀ candidate ∈ result.candidates, ∀ input ∈ inputs,
      NoCollision format.digest candidate.input.fingerprintBytes input.fingerprintBytes)
    (harrow : ∀ batch, encodeBatch format result sd = .ok batch →
      format.read (format.write batch) = some batch) :
    Replays format result sd inputs ↔ (result.candidates.length < 2 ^ 32 →
      List.Forall₂ (SameStored sd) (result.candidates.map FuturesDeliveryResult.input) inputs →
        inputs = result.candidates.map FuturesDeliveryResult.input) := by
  have hcontract := sameContract_first hexecute
  have haccepts : ∀ inputs : List FuturesDeliverableInput,
      (∀ candidate ∈ result.candidates, ∀ input ∈ inputs,
        NoCollision format.digest candidate.input.fingerprintBytes input.fingerprintBytes) →
      (List.Forall₂ (Accepts format sd result.first) result.candidates inputs ↔
        List.Forall₂ (SameStored sd) (result.candidates.map FuturesDeliveryResult.input) inputs) := by
    intro inputs hcollision
    rw [List.forall₂_map_left_iff, List.forall₂_iff_get, List.forall₂_iff_get]
    refine and_congr_right fun _ => forall_congr' fun i => forall_congr' fun hi =>
      forall_congr' fun hi' => ?_
    have hmem : result.candidates.get ⟨i, hi⟩ ∈ result.candidates := List.getElem_mem hi
    exact accepts_iff (hcontract _ hmem) (hlong _ hmem) (hcollision _ hmem _ (List.getElem_mem hi'))
  have hown : ∀ batch, encodeBatch format result sd = .ok batch →
      decode format (format.write batch) (result.candidates.map FuturesDeliveryResult.input) =
        .ok result := by
    intro batch hbatch
    refine (decode_encode hbatch (harrow batch hbatch)).mpr ⟨?_, (rebind_self _).symm, rfl⟩
    rw [List.forall₂_map_right_iff, List.forall₂_same]
    intro candidate hmem
    refine (accepts_iff (hcontract _ hmem) (hlong _ hmem) fun _ => rfl).mpr ⟨?_, fun _ => rfl⟩
    exact (FuturesDeliverableInput.fingerprintBytes_eq_iff (hlong _ hmem)).mp rfl
  constructor
  · intro h hsize hstored
    obtain ⟨batch, hbatch⟩ := exists_encodeBatch format sd hsize
    obtain ⟨honly, -⟩ := h (format.write batch) (map_eq_ok.mpr ⟨batch, hbatch, rfl⟩)
    have haccepted := (haccepts inputs hcollision).mpr hstored
    -- the basket that is decoded for the other inputs
    have hlength : (rebind result.candidates inputs).length = result.candidates.length := by
      unfold rebind
      rw [List.length_zipWith, ← haccepted.length_eq, Nat.min_self]
    have hdistinct : ((rebind result.candidates inputs).map FuturesDeliveryResult.bondId).Nodup := by
      rw [rebind_bondIds haccepted]
      exact result.bonds_distinct
    have hdecoded := honly ⟨rebind result.candidates inputs, result.ctdIndex,
      hlength ▸ result.index_lt,
      hdistinct⟩ ((decode_encode hbatch (harrow batch hbatch)).mpr ⟨haccepted, rfl, rfl⟩)
    rw [← hdecoded]
    exact (rebind_inputs haccepted.length_eq).symm
  · intro h bytes hbytes
    obtain ⟨batch, hbatch, rfl⟩ := map_eq_ok.mp hbytes
    refine ⟨fun decoded hdecoded => ?_, hown batch hbatch⟩
    obtain ⟨haccepted, hcandidates, hindex⟩ := (decode_encode hbatch (harrow batch hbatch)).mp hdecoded
    have hinputs := h (encodeBatch_eq_ok hbatch).1 ((haccepts inputs hcollision).mp haccepted)
    rw [hinputs, rebind_self] at hcandidates
    cases decoded
    cases result
    simp only at hcandidates hindex
    subst hcandidates hindex
    rfl

end Replay

/-- The fingerprints of analytics inputs bind what is read, and a stored basket is decoded to
    nothing but itself. -/
def FingerprintsBind (format : ArrowFormat) (a b : FuturesDeliverableInput) (c d : CarryRollInput)
    (result : FuturesDeliveryBasketResult) (sd : Bool) (inputs : List FuturesDeliverableInput) :
    Prop :=
  (a.fingerprintBytes = b.fingerprintBytes → a.SameRead b) ∧
    (c.fingerprintBytes = d.fingerprintBytes → c.SameRead d) ∧ Replays format result sd inputs

/-- **When the fingerprints bind.**  Two carry and roll-down inputs are always told apart; two
    deliverable bonds are not when they differ below a microsecond or in the contract size only, and
    a basket is decoded for other inputs when these differ in what is not stored only. -/
theorem fingerprints_bind_iff {format : ArrowFormat} {a b : FuturesDeliverableInput}
    {c d : CarryRollInput} {engine : FuturesDeliveryEngine}
    {calculated inputs : List FuturesDeliverableInput} {result : FuturesDeliveryBasketResult}
    {sd : Bool}
    (ha : a.fingerprintBytes.length < lengthLimit) (hc : c.fingerprintBytes.length < lengthLimit)
    (hexecute : CalculateFuturesDeliveryBasket.execute engine calculated = .ok result)
    (hlong : ∀ candidate ∈ result.candidates, candidate.input.fingerprintBytes.length < lengthLimit)
    (hcollision : ∀ candidate ∈ result.candidates, ∀ input ∈ inputs,
      NoCollision format.digest candidate.input.fingerprintBytes input.fingerprintBytes)
    (harrow : ∀ batch, encodeBatch format result sd = .ok batch →
      format.read (format.write batch) = some batch) :
    FingerprintsBind format a b c d result sd inputs ↔
      (a.SameListed b → a.valuationAt.instant = b.valuationAt.instant ∧
        a.rule.contractSizeInQuoteUnits = b.rule.contractSizeInQuoteUnits) ∧
      (result.candidates.length < 2 ^ 32 →
        List.Forall₂ (SameStored sd) (result.candidates.map FuturesDeliveryResult.input) inputs →
          inputs = result.candidates.map FuturesDeliveryResult.input) := by
  have hbinds := FuturesDeliverableInput.bindsRead_iff (b := b) ha
  have hreplays := replays_iff hexecute hlong hcollision harrow
  constructor
  · rintro ⟨hdelivery, -, hreplay⟩
    exact ⟨hbinds.mp hdelivery, hreplays.mp hreplay⟩
  · rintro ⟨hdelivery, hreplay⟩
    exact ⟨hbinds.mpr hdelivery, CarryRollInput.sameRead_of_bytes hc, hreplays.mpr hreplay⟩

/-! ### Samples -/

/-- A day of the samples. -/
@[reducible] def sampleDate (year : ℤ) (month day : ℕ) : NaiveDate := .ymd year month day

/-- The object that the samples refer to. -/
def sampleObject : AnalyticsObjectRef := ⟨sampleRef, sampleHash⟩

/-- Noon of 20 July 2026 in UTC. -/
def sampleValuation : MarketTime :=
  ⟨⟨1784520000, 123456789, by decide, by decide, by decide, by decide⟩, marketTimezone,
    sampleDate 2026 7 20⟩

/-- A bond of ten years. -/
def sampleTerms : BondTerms :=
  ⟨sampleDate 2024 8 15, sampleDate 2024 8 15, sampleDate 2034 8 15,
    .semiannual, .actActBondIsma, .following, ⟨25000000000, by decide⟩, .ofScaled 100000000000000,
    .ofScaled 100000000000000, none, by decide, by decide, by decide, by decide, by decide,
    fun _ => ⟨rfl, rfl⟩⟩

/-- The rule of the ten-year contract. -/
def sampleRule : FuturesDeliveryRule :=
  ⟨120, 78, none, [3, 6, 9, 12], ⟨30000000000, by decide⟩, .ofScaled 100000000000000, 1, 4, 7, 365,
    none, by decide, by decide, by simp, by simp, by simp, by simp, by decide, by decide,
    by decide, by decide, by decide, by decide, by decide⟩

theorem sampleRule_delivers : isDeliverableByDates sampleRule sampleTerms.firstIssueDate
    sampleTerms.maturityDate (sampleDate 2026 9 1) = .ok true := by decide

/-- A candidate of ten years. -/
def sampleInput : FuturesDeliverableInput :=
  ⟨sampleOwner, sampleObject, sampleObject, sampleObject, sampleObject, sampleValuation,
    sampleDate 2026 7 21, sampleDate 2026 9 1, sampleDate 2026 9 18,
    .tenYear, sampleRule, sampleTerms, ⟨102000000000000, by decide⟩, ⟨99500000000000, by decide⟩,
    ⟨18000000000, by decide⟩, rfl, by decide, by decide, by decide, by decide,
    ⟨9, by simp [sampleRule], by decide⟩, by decide, by decide, by decide, by decide, by decide,
    by decide, sampleRule_delivers⟩

/-- The same candidate of a contract of a stated size. -/
def sizedInput : FuturesDeliverableInput :=
  { sampleInput with
    rule := { sampleRule with
      contractSizeInQuoteUnits := some 10000
      contractSize_ne := by decide }
    month_listed := sampleInput.month_listed
    face_eq := sampleInput.face_eq
    deliverable := sampleRule_delivers }

/-- Two contract sizes have one fingerprint. -/
theorem contract_size_unbound :
    ¬(sampleInput.fingerprintBytes = sizedInput.fingerprintBytes →
      sampleInput.SameRead sizedInput) := by
  intro h
  have hsize := congrArg FuturesDeliveryRule.contractSizeInQuoteUnits (h rfl).rule
  cases hsize

/-- The same candidate at another price of the contract. -/
def dearInput : FuturesDeliverableInput :=
  { sampleInput with
    futuresCleanPrice := ⟨99600000000000, by decide⟩
    futures_pos := by decide }

/-- A calendar without free days. -/
def sampleCalendar : CalendarBinding :=
  ⟨"calendar", .first, sampleHash, sampleDate 2026 1 1,
    sampleDate 2026 12 31, [], [], by decide, by decide, by decide, by decide⟩

/-- A curve of two nodes. -/
def sampleYieldCurve : YieldCurveBinding :=
  ⟨sampleObject, sampleDate 2026 7 20, .linearYield,
    [⟨sampleDate 2027 1 1, ⟨20000000000, by decide⟩, by decide⟩,
      ⟨sampleDate 2040 1 1, ⟨30000000000, by decide⟩, by decide⟩], by decide, by decide,
    by decide⟩

/-- The bond held for a month. -/
def sampleCarryRoll : CarryRollInput :=
  ⟨sampleOwner, sampleObject, sampleObject, sampleObject, sampleValuation,
    sampleDate 2026 7 21, sampleDate 2026 8 21, .referenceReplay, sampleCalendar,
    sampleTerms, sampleYieldCurve, rfl, rfl, by decide, by decide, by decide, by decide⟩

/-- The bond held for a day less. -/
def shorterCarryRoll : CarryRollInput :=
  { sampleCarryRoll with
    horizonSettlement := sampleDate 2026 8 20
    settles := by decide
    covered := by decide
    rolled_on_curve := by decide }

/-- The measures of every bond. -/
def sampleMeasures : FuturesDeliveryMeasures :=
  ⟨1, 17, .one, .one, .one, .zero, .one, .one, .zero, .zero, .zero, .zero, .zero, .zero, by decide,
    by decide, by decide, by decide, by decide, by decide, by decide, by decide, by decide, by decide⟩

/-- An engine that finds the same measures for every bond. -/
def sampleEngine : FuturesDeliveryEngine := fun input => .ok ⟨input, sampleMeasures⟩

/-- The basket of the one candidate. -/
def sampleBasket : FuturesDeliveryBasketResult :=
  ⟨[⟨sampleInput, sampleMeasures⟩], 0, by decide, by simp⟩

/-- An Arrow library that knows one file. -/
def sampleFormat : ArrowFormat :=
  ⟨sampleDigest, fun _ => [], fun _ =>
    (encodeBatch ⟨sampleDigest, fun _ => [], fun _ => none⟩ sampleBasket true).toOption⟩

theorem sampleInput_short : sampleInput.fingerprintBytes.length < lengthLimit := by decide +kernel

theorem sampleCarryRoll_short : sampleCarryRoll.fingerprintBytes.length < lengthLimit := by
  decide +kernel

theorem sampleBasket_executed :
    CalculateFuturesDeliveryBasket.execute sampleEngine [sampleInput] = .ok sampleBasket := by
  refine CalculateFuturesDeliveryBasket.execute_eq_ok.mpr ⟨?_, .cons ⟨rfl, rfl⟩ .nil, rfl⟩
  simp [SameContract]

/-- Another price and another horizon have other fingerprints, and a basket is decoded for its own
    inputs. -/
theorem fingerprints_bind_sample :
    FingerprintsBind sampleFormat sampleInput dearInput sampleCarryRoll shorterCarryRoll sampleBasket
      true [sampleInput] ∧
    sampleInput.fingerprintBytes ≠ dearInput.fingerprintBytes ∧
    sampleCarryRoll.fingerprintBytes ≠ shorterCarryRoll.fingerprintBytes := by
  have hbinds : FingerprintsBind sampleFormat sampleInput dearInput sampleCarryRoll shorterCarryRoll
      sampleBasket true [sampleInput] := by
    refine (fingerprints_bind_iff sampleInput_short sampleCarryRoll_short sampleBasket_executed ?_ ?_
      ?_).mpr ⟨fun _ => ⟨rfl, rfl⟩, fun _ _ => rfl⟩
    · intro candidate hmem
      obtain rfl := List.mem_singleton.mp hmem
      exact sampleInput_short
    · intro candidate hmem input hinput
      obtain rfl := List.mem_singleton.mp hmem
      obtain rfl := List.mem_singleton.mp hinput
      exact fun _ => rfl
    · intro batch hbatch
      have hsame : encodeBatch ⟨sampleDigest, fun _ => [], fun _ => none⟩ sampleBasket true =
          .ok batch := hbatch
      show (encodeBatch ⟨sampleDigest, fun _ => [], fun _ => none⟩ sampleBasket true).toOption = _
      rw [hsame]
      rfl
  -- The two inputs differ in a price and the two carries in a date, so neither pair shares bytes.
  refine ⟨hbinds, fun h => ?_, fun h => ?_⟩
  · exact absurd (hbinds.1 h).futuresCleanPrice (by decide)
  · exact absurd (hbinds.2.1 h).horizonSettlement (by decide)

end Ficant.Futures
