import Ficant.Analytics.CarryRoll
import Ficant.Data.BarSnapshot
import Ficant.Futures.Basket
import Ficant.Futures.InputFingerprint

namespace Ficant.Futures

open Lib Analytics

/-!
# Stored delivery baskets

A basket is stored as an Arrow file with one row for each candidate, and is decoded again for a list of
expected inputs (`ArrowFuturesDeliveryCodec` in `ficant-storage/src/futures_arrow.rs`).

* `ArtifactBatch` — the rows, without or with the columns that describe the contract;
* `encodeBatch`, `decode` — the codec, over an Arrow library that reads what was written;
* `decode_encode` — a stored basket is decoded for inputs with the fingerprints of its own.
-/

/-! ### Rows -/

/-- The columns of every artifact. -/
structure ArtifactRow where
  schemaId : String
  codecId : String
  engineId : String
  engineVersion : String
  algorithmId : String
  conventionProfile : String
  algorithmVersion : ℕ
  abiVersion : ℕ
  basketSize : ℕ
  rowIndex : ℕ
  inputFingerprint : List UInt8
  bondId : String
  isCtd : Bool
  monthsToNextCoupon : UInt32
  remainingCouponCount : UInt32
  conversionFactor : FixedDecimal
  purchaseAccruedInterest : FixedDecimal
  deliveryAccruedInterest : FixedDecimal
  interimCoupons : FixedDecimal
  invoicePrice : FixedDecimal
  purchaseDirtyPrice : FixedDecimal
  grossBasis : FixedDecimal
  financingCost : FixedDecimal
  holdingCarry : FixedDecimal
  netBasis : FixedDecimal
  impliedRepoRate : FixedDecimal
  deliveryProfit : FixedDecimal

/-- The three columns of an object reference. -/
structure RefColumns where
  id : String
  version : ℕ
  contentHash : List UInt8
  deriving DecidableEq

def refColumns (reference : AnalyticsObjectRef) : RefColumns :=
  ⟨reference.versionRef.id.text, reference.versionRef.version.value, reference.contentHash.bytes⟩

/-- The columns of a self-describing artifact, of which the identity of the bond is in the others. -/
structure SelfDescription where
  marketTimezone : String
  valuationLocalDate : ℤ
  bondVersion : ℕ
  bondContentHash : List UInt8
  futuresContract : RefColumns
  rulePack : RefColumns
  snapshot : RefColumns
  product : ℕ
  valuationAtSeconds : ℤ
  valuationAtNanos : ℕ

/-- A batch of the one schema or of the other. -/
inductive ArtifactBatch
  | base (rows : List ArtifactRow)
  | selfDescribing (rows : List (ArtifactRow × SelfDescription))

/-- The rows of a batch. -/
def ArtifactBatch.rows : ArtifactBatch → List (ArtifactRow × Option SelfDescription)
  | .base rows => rows.map fun row => (row, none)
  | .selfDescribing rows => rows.map fun row => (row.1, some row.2)

/-- What the codec needs of the Arrow library and of SHA-256. -/
structure ArrowFormat where
  digest : List UInt8 → ContentHash
  write : ArtifactBatch → List UInt8
  /-- The only batch of a file, when its schema is one of the two. -/
  read : List UInt8 → Option ArtifactBatch

/-- `ENGINE_ID`, `ENGINE_VERSION` and `ABI_VERSION`. -/
def engineId : String := "ficant-fixed-income-native"

def engineVersion : String := "0.1.0"

def abiVersion : ℕ := 1

/-- `FUTURES_DELIVERY_ALGORITHM_ID`, `FUTURES_DELIVERY_ALGORITHM_VERSION` and
    `FUTURES_DELIVERY_CONVENTION_PROFILE`. -/
def algorithmId : String := "ficant.cffex.cgb-futures-delivery"

def algorithmVersion : ℕ := 1

def conventionProfile : String := "cffex-cgb-futures-delivery-v1"

/-- `R5D_ARTIFACT_SCHEMA_ID` and `FUTURES_DELIVERY_ARTIFACT_SCHEMA_ID`. -/
def artifactSchemaId (selfDescribing : Bool) : String :=
  if selfDescribing then "ficant.cgb-futures-delivery.arrow.v2"
  else "ficant.cgb-futures-delivery.arrow.v1"

/-- `R5D_ARTIFACT_CODEC_ID` and `FUTURES_DELIVERY_ARTIFACT_CODEC_ID`. -/
def artifactCodecId (selfDescribing : Bool) : String :=
  if selfDescribing then "ficant-cgb-futures-delivery-arrow/2"
  else "ficant-cgb-futures-delivery-arrow/1"

/-! ### Encoding -/

/-- `epoch_days`. -/
def epochDays (date : NaiveDate) : Except AnalyticsError ℤ :=
  let days := date.dayNumber - epochDay
  if -2 ^ 31 ≤ days ∧ days < 2 ^ 31 then .ok days else .error .invalidInput

variable (format : ArrowFormat)

/-- One row. -/
def encodeRow (selfDescribing : Bool) (size ctdIndex index : ℕ) (candidate : FuturesDeliveryResult) :
    ArtifactRow :=
  { schemaId := artifactSchemaId selfDescribing
    codecId := artifactCodecId selfDescribing
    engineId := engineId
    engineVersion := engineVersion
    algorithmId := algorithmId
    conventionProfile := conventionProfile
    algorithmVersion := algorithmVersion
    abiVersion := abiVersion
    basketSize := size
    rowIndex := index
    inputFingerprint := (candidate.input.fingerprint format.digest).bytes
    bondId := candidate.bondId.text
    isCtd := index = ctdIndex
    monthsToNextCoupon := candidate.measures.monthsToNextCoupon
    remainingCouponCount := candidate.measures.remainingCouponCount
    conversionFactor := candidate.measures.conversionFactor
    purchaseAccruedInterest := candidate.measures.purchaseAccruedInterest
    deliveryAccruedInterest := candidate.measures.deliveryAccruedInterest
    interimCoupons := candidate.measures.interimCoupons
    invoicePrice := candidate.measures.invoicePrice
    purchaseDirtyPrice := candidate.measures.purchaseDirtyPrice
    grossBasis := candidate.measures.grossBasis
    financingCost := candidate.measures.financingCost
    holdingCarry := candidate.measures.holdingCarry
    netBasis := candidate.measures.netBasis
    impliedRepoRate := candidate.measures.impliedRepoRate
    deliveryProfit := candidate.measures.deliveryProfit }

/-- The rows from an index on. -/
def encodeRows (selfDescribing : Bool) (size ctdIndex : ℕ) :
    ℕ → List FuturesDeliveryResult → List ArtifactRow
  | _, [] => []
  | index, candidate :: rest =>
    encodeRow format selfDescribing size ctdIndex index candidate ::
      encodeRows selfDescribing size ctdIndex (index + 1) rest

/-- `self_describing_columns` of one row: but for the bond they are those of the first candidate. -/
def selfDescription (common input : FuturesDeliverableInput) (localDate : ℤ) : SelfDescription :=
  { marketTimezone := common.valuationAt.marketTimezone
    valuationLocalDate := localDate
    bondVersion := input.bond.versionRef.version.value
    bondContentHash := input.bond.contentHash.bytes
    futuresContract := refColumns common.futuresContract
    rulePack := refColumns common.rulePack
    snapshot := refColumns common.snapshot
    product := common.product.number
    valuationAtSeconds := RunJournalInput.timestampSeconds common.valuationAt.instant
    valuationAtNanos := RunJournalInput.subsecNanos common.valuationAt.instant }

/-- The first candidate of a basket. -/
def FuturesDeliveryBasketResult.first (result : FuturesDeliveryBasketResult) :
    FuturesDeliverableInput :=
  (result.candidates.get ⟨0, Nat.zero_lt_of_lt result.index_lt⟩).input

/-- `encode_batch`. -/
def encodeBatch (result : FuturesDeliveryBasketResult) (selfDescribing : Bool) :
    Except AnalyticsError ArtifactBatch := do
  let candidates := result.candidates
  rejectIf (2 ^ 32 ≤ candidates.length) .invalidInput
  let rows := encodeRows format selfDescribing candidates.length result.ctdIndex 0 candidates
  if selfDescribing then
    let localDate ← epochDays result.first.valuationAt.localTradingDate
    return .selfDescribing (rows.zip (candidates.map fun candidate =>
      selfDescription result.first candidate.input localDate))
  else return .base rows

/-- `encode` and `encode_self_describing`. -/
def encode (result : FuturesDeliveryBasketResult) (selfDescribing : Bool) :
    Except AnalyticsError (List UInt8) :=
  format.write <$> encodeBatch format result selfDescribing

/-! ### Decoding -/

/-- `validate_common_columns`. -/
def validateCommonColumns (row : ArtifactRow) (description : Option SelfDescription)
    (index size : ℕ) : Except AnalyticsError Unit :=
  rejectIf (¬(row.schemaId = artifactSchemaId description.isSome ∧
    row.codecId = artifactCodecId description.isSome ∧ row.engineId = engineId ∧
    row.engineVersion = engineVersion ∧ row.algorithmId = algorithmId ∧
    row.conventionProfile = conventionProfile ∧ row.algorithmVersion = algorithmVersion ∧
    row.abiVersion = abiVersion ∧ row.basketSize = size ∧ row.rowIndex = index ∧
    ∀ columns ∈ description, columns.marketTimezone = marketTimezone)) .invalidInput

/-- `date` of a column. -/
def dateColumn (days : ℤ) : Except AnalyticsError NaiveDate :=
  match epochDate days with
  | some date => .ok date
  | none => .error .invalidInput

/-- The checks of a description against an expected input. -/
def validateDescription (columns : SelfDescription) (input : FuturesDeliverableInput) :
    Except AnalyticsError Unit := do
  let localDate ← dateColumn columns.valuationLocalDate
  rejectIf (¬(columns.marketTimezone = input.valuationAt.marketTimezone ∧
    localDate = input.valuationAt.localTradingDate ∧
    columns.bondVersion = input.bond.versionRef.version.value ∧
    columns.bondContentHash = input.bond.contentHash.bytes ∧
    columns.futuresContract = refColumns input.futuresContract ∧
    columns.rulePack = refColumns input.rulePack ∧ columns.snapshot = refColumns input.snapshot ∧
    columns.product = input.product.number ∧
    columns.valuationAtSeconds = RunJournalInput.timestampSeconds input.valuationAt.instant ∧
    columns.valuationAtNanos = RunJournalInput.subsecNanos input.valuationAt.instant)) .invalidInput

/-- `validate_input_columns`. -/
def validateInputColumns (row : ArtifactRow) (description : Option SelfDescription) (index : ℕ)
    (input : FuturesDeliverableInput) (size : ℕ) : Except AnalyticsError Unit := do
  validateCommonColumns row description index size
  rejectIf (¬(row.inputFingerprint = (input.fingerprint format.digest).bytes ∧
    row.bondId = input.bond.versionRef.id.text)) .invalidInput
  match description with
  | none => return ()
  | some columns => validateDescription columns input

/-- `decode_measures`. -/
def decodeMeasures (row : ArtifactRow) : Except AnalyticsError FuturesDeliveryMeasures :=
  (FuturesDeliveryMeasures.new row.monthsToNextCoupon row.remainingCouponCount row.conversionFactor
    row.purchaseAccruedInterest row.deliveryAccruedInterest row.interimCoupons row.invoicePrice
    row.purchaseDirtyPrice row.grossBasis row.financingCost row.holdingCarry row.netBasis
    row.impliedRepoRate row.deliveryProfit).mapError fun _ => .invalidInput

/-- The loop of `decode`, with the index of the row marked so far. -/
def decodeRows (size : ℕ) : ℕ → Option ℕ →
    List (FuturesDeliverableInput × ArtifactRow × Option SelfDescription) →
    Except AnalyticsError (List FuturesDeliveryResult × Option ℕ)
  | _, ctdIndex, [] => .ok ([], ctdIndex)
  | index, ctdIndex, (input, row, description) :: rest => do
    validateInputColumns format row description index input size
    rejectIf (row.isCtd = true ∧ ctdIndex.isSome) .invalidInput
    let measures ← decodeMeasures row
    let (candidates, marked) ←
      decodeRows size (index + 1) (if row.isCtd then some index else ctdIndex) rest
    return (⟨input, measures⟩ :: candidates, marked)

/-- `decode`. -/
def decode (bytes : List UInt8) (expectedInputs : List FuturesDeliverableInput) :
    Except AnalyticsError FuturesDeliveryBasketResult := do
  rejectIf (expectedInputs = []) .invalidInput
  match format.read bytes with
  | none => .error .invalidInput
  | some batch =>
    rejectIf (batch.rows.length ≠ expectedInputs.length) .invalidInput
    let (candidates, marked) ←
      decodeRows format expectedInputs.length 0 none (expectedInputs.zip batch.rows)
    match marked with
    | none => .error .invalidInput
    | some ctdIndex =>
      (FuturesDeliveryBasketResult.new candidates ctdIndex).mapError fun _ => .invalidInput

variable {format : ArrowFormat}

/-! ### A stored basket -/

/-- The measures of a candidate pass their own checks. -/
theorem decodeMeasures_encodeRow (sd : Bool) (size ctdIndex index : ℕ)
    (candidate : FuturesDeliveryResult) :
    decodeMeasures (encodeRow format sd size ctdIndex index candidate) = .ok candidate.measures := by
  obtain ⟨input, m⟩ := candidate
  unfold decodeMeasures
  rw [mapError_eq_ok]
  exact dif_pos ⟨m.count_ne, m.factor_pos, m.purchaseInterest_nonneg, m.deliveryInterest_nonneg,
    m.coupons_nonneg, m.invoice_pos, m.dirty_pos, m.cost_nonneg, m.basis_eq, m.profit_eq⟩

/-- The columns of a reference determine it. -/
theorem refColumns_inj {a b : AnalyticsObjectRef} (h : refColumns a = refColumns b) : a = b := by
  obtain ⟨⟨id, version, _, _⟩, hash⟩ := a
  obtain ⟨⟨id', version', _, _⟩, hash'⟩ := b
  simp only [refColumns, RefColumns.mk.injEq] at h
  obtain ⟨hid, hversion, hhash⟩ := h
  obtain rfl := Ulid.text_injective hid
  obtain rfl := hversion
  obtain rfl := hashBytes_injective hhash
  rfl

/-- Seconds and nanoseconds determine the instant. -/
theorem instant_eq_of_parts {s t : DateTime}
    (hseconds : RunJournalInput.timestampSeconds s = RunJournalInput.timestampSeconds t)
    (hnanos : RunJournalInput.subsecNanos s = RunJournalInput.subsecNanos t) : s = t :=
  instant_eq_of_bytes (by unfold secondsBytes; rw [hseconds]) (by unfold nanosBytes; rw [hnanos])

/-- What a description asks of an expected input. -/
structure Describes (common candidate input : FuturesDeliverableInput) : Prop where
  timezone : common.valuationAt.marketTimezone = input.valuationAt.marketTimezone
  localTradingDate : common.valuationAt.localTradingDate = input.valuationAt.localTradingDate
  instant : common.valuationAt.instant = input.valuationAt.instant
  bond : candidate.bond = input.bond
  futuresContract : common.futuresContract = input.futuresContract
  rulePack : common.rulePack = input.rulePack
  snapshot : common.snapshot = input.snapshot
  product : common.product = input.product

/-- The days of a date lead back to it. -/
theorem epochDays_eq_ok {date : NaiveDate} {days : ℤ} (h : epochDays date = .ok days) :
    epochDate days = some date := by
  unfold epochDays at h
  simp only at h
  split at h
  · rw [← Except.ok.inj h, epochDate, Int.sub_add_cancel, NaiveDate.ofDayNumber_dayNumber]
  · cases h

/-- A row's own description passes exactly when it describes the input. -/
theorem validateDescription_eq_ok {common candidate input : FuturesDeliverableInput} {days : ℤ}
    (hdays : epochDays common.valuationAt.localTradingDate = .ok days)
    (hid : candidate.bond.versionRef.id = input.bond.versionRef.id) :
    validateDescription (selfDescription common candidate days) input = .ok () ↔
      Describes common candidate input := by
  -- The day count of the row leads back to the trading date.
  have hdate : dateColumn days = .ok common.valuationAt.localTradingDate := by
    unfold dateColumn
    rw [epochDays_eq_ok hdays]
  unfold validateDescription
  rw [show dateColumn (selfDescription common candidate days).valuationLocalDate = _ from hdate,
    ok_bind, rejectIf_eq_ok, not_not]
  constructor
  · rintro ⟨hzone, hlocal, hversion, hhash, hcontract, hrulePack, hsnapshot, hproduct, hseconds,
      hnanos⟩
    -- The identity is compared apart from the version and the hash.
    have hbond : candidate.bond = input.bond := by
      apply refColumns_inj
      unfold refColumns
      rw [hid, show candidate.bond.versionRef.version.value = _ from hversion,
        show candidate.bond.contentHash.bytes = _ from hhash]
    exact ⟨hzone, hlocal, instant_eq_of_parts hseconds hnanos, hbond, refColumns_inj hcontract,
      refColumns_inj hrulePack, refColumns_inj hsnapshot,
      FuturesDeliverableInput.product_number_injective hproduct⟩
  · rintro ⟨hzone, hlocal, hinstant, hbond, hcontract, hrulePack, hsnapshot, hproduct⟩
    unfold selfDescription
    rw [hzone, hlocal, hinstant, hbond, hcontract, hrulePack, hsnapshot, hproduct]
    exact ⟨rfl, rfl, rfl, rfl, rfl, rfl, rfl, rfl, rfl, rfl⟩

variable (format) in
/-- A stored candidate is decoded for an expected input. -/
def Accepts (sd : Bool) (common : FuturesDeliverableInput) (candidate : FuturesDeliveryResult)
    (input : FuturesDeliverableInput) : Prop :=
  candidate.input.fingerprint format.digest = input.fingerprint format.digest ∧
    candidate.bondId = input.bond.versionRef.id ∧
    (sd = true → Describes common candidate.input input)

/-- The description that is stored with a candidate. -/
def describe (sd : Bool) (common : FuturesDeliverableInput) (days : ℤ)
    (candidate : FuturesDeliveryResult) : Option SelfDescription :=
  if sd then some (selfDescription common candidate.input days) else none

/-- A stored row passes its check exactly when it accepts the input. -/
theorem validateInputColumns_eq_ok {sd : Bool} {size ctdIndex index : ℕ}
    {common input : FuturesDeliverableInput} {candidate : FuturesDeliveryResult} {days : ℤ}
    (hdays : sd = true → epochDays common.valuationAt.localTradingDate = .ok days) :
    validateInputColumns format (encodeRow format sd size ctdIndex index candidate)
        (describe sd common days candidate) index input size = .ok () ↔
      Accepts format sd common candidate input := by
  have hsome : (describe sd common days candidate).isSome = sd := by
    unfold describe
    cases sd <;> rfl
  -- The common columns were written from the same batch and always pass.
  have hcommon : validateCommonColumns (encodeRow format sd size ctdIndex index candidate)
      (describe sd common days candidate) index size = .ok () := by
    unfold validateCommonColumns
    rw [rejectIf_eq_ok, not_not, hsome]
    refine ⟨rfl, rfl, rfl, rfl, rfl, rfl, rfl, rfl, rfl, rfl, fun columns hcolumns => ?_⟩
    unfold describe at hcolumns
    split at hcolumns
    · obtain rfl := Option.some.inj hcolumns
      exact common.timezone
    · cases hcolumns
  unfold validateInputColumns
  rw [hcommon, ok_bind, bind_eq_ok]
  simp only [rejectIf_eq_ok, not_not]
  show (∃ _ : Unit, ((candidate.input.fingerprint format.digest).bytes =
    (input.fingerprint format.digest).bytes ∧ candidate.bondId.text =
      input.bond.versionRef.id.text) ∧ _) ↔ _
  unfold Accepts
  constructor
  · rintro ⟨-, ⟨hfingerprint, hid⟩, hdescription⟩
    have hid := Ulid.text_injective hid
    refine ⟨hashBytes_injective hfingerprint, hid, fun hsd => ?_⟩
    subst hsd
    exact (validateDescription_eq_ok (hdays rfl) hid).mp hdescription
  · rintro ⟨hfingerprint, hid, hdescription⟩
    refine ⟨(), ⟨congrArg _ hfingerprint, congrArg _ hid⟩, ?_⟩
    cases sd with
    | false => rfl
    | true => exact (validateDescription_eq_ok (hdays rfl) hid).mpr (hdescription rfl)

variable (format) in
/-- The rows of a stored basket from an index on. -/
def storedRows (sd : Bool) (size ctdIndex : ℕ) (common : FuturesDeliverableInput) (days : ℤ) :
    ℕ → List FuturesDeliveryResult → List (ArtifactRow × Option SelfDescription)
  | _, [] => []
  | index, candidate :: rest =>
    (encodeRow format sd size ctdIndex index candidate, describe sd common days candidate) ::
      storedRows sd size ctdIndex common days (index + 1) rest

/-- The candidates for other inputs. -/
def rebind (candidates : List FuturesDeliveryResult) (inputs : List FuturesDeliverableInput) :
    List FuturesDeliveryResult :=
  List.zipWith (fun candidate input => ⟨input, candidate.measures⟩) candidates inputs

/-- **What is decoded of the rows from an index on**: the row of the cheapest bond is marked once. -/
theorem decodeRows_eq_ok {sd : Bool} {size ctdIndex : ℕ} {common : FuturesDeliverableInput} {days : ℤ}
    (hdays : sd = true → epochDays common.valuationAt.localTradingDate = .ok days)
    {candidates : List FuturesDeliveryResult} {inputs : List FuturesDeliverableInput} {index : ℕ}
    {marked : Option ℕ} (hlength : candidates.length = inputs.length)
    (hmarked : marked = if ctdIndex < index then some ctdIndex else none)
    {out : List FuturesDeliveryResult} {marked' : Option ℕ} :
    decodeRows format size index marked
        (inputs.zip (storedRows format sd size ctdIndex common days index candidates)) =
          .ok (out, marked') ↔
      List.Forall₂ (Accepts format sd common) candidates inputs ∧ out = rebind candidates inputs ∧
        marked' = if ctdIndex < index + candidates.length then some ctdIndex else none := by
  induction candidates generalizing inputs index marked out with
  | nil =>
    obtain rfl := List.length_eq_zero_iff.mp hlength.symm
    simp only [storedRows, List.zip_nil_left, decodeRows, List.length_nil, Nat.add_zero, rebind,
      List.zipWith_nil_left, List.Forall₂.nil, true_and, Except.ok.injEq, Prod.mk.injEq, hmarked]
    exact ⟨fun h => ⟨h.1.symm, h.2.symm⟩, fun h => ⟨h.1.symm, h.2.symm⟩⟩
  | cons candidate rest ih =>
    cases inputs with
    | nil => cases hlength
    | cons input inputs =>
      have hrest : rest.length = inputs.length := Nat.succ.inj hlength
      -- Which row is marked so far, before and after this one.
      have hmark : (if (encodeRow format sd size ctdIndex index candidate).isCtd = true
          then some index else marked) = if ctdIndex < index + 1 then some ctdIndex else none := by
        rw [hmarked]
        simp only [encodeRow, decide_eq_true_eq]
        by_cases heq : index = ctdIndex
        · rw [if_pos heq, if_pos (by omega), heq]
        · rw [if_neg heq]
          by_cases hlt : ctdIndex < index
          · rw [if_pos hlt, if_pos (by omega)]
          · rw [if_neg hlt, if_neg (by omega)]
      -- No row is marked twice, since only one has the index of the cheapest.
      have honce : ¬((encodeRow format sd size ctdIndex index candidate).isCtd = true ∧
          marked.isSome = true) := by
        rw [hmarked]
        simp only [encodeRow, decide_eq_true_eq]
        rintro ⟨rfl, hsome⟩
        rw [if_neg (Nat.lt_irrefl _)] at hsome
        cases hsome
      rw [storedRows, List.zip_cons_cons, decodeRows, bind_eq_ok, List.forall₂_cons,
        ← validateInputColumns_eq_ok hdays]
      rw [rejectIf_of_not honce, ok_bind, decodeMeasures_encodeRow, ok_bind, hmark]
      constructor
      · rintro ⟨_, hvalid, h⟩
        obtain ⟨⟨others, marked''⟩, hothers, h⟩ := bind_eq_ok.mp h
        obtain ⟨rfl, rfl⟩ := Prod.mk.inj (Except.ok.inj h)
        obtain ⟨haccepted, rfl, hend⟩ := (ih hrest rfl).mp hothers
        refine ⟨⟨hvalid, haccepted⟩, rfl, ?_⟩
        rw [hend, List.length_cons, Nat.add_assoc, Nat.add_comm 1]
      · rintro ⟨⟨hvalid, haccepted⟩, rfl, hend⟩
        refine ⟨(), hvalid, bind_eq_ok.mpr ⟨(rebind rest inputs, marked'), ?_, rfl⟩⟩
        refine (ih hrest rfl).mpr ⟨haccepted, rfl, ?_⟩
        rw [hend, List.length_cons, Nat.add_assoc, Nat.add_comm 1]

variable (format) in

/-- Every candidate gets one row. -/
theorem length_storedRows (sd : Bool) (size ctdIndex : ℕ) (common : FuturesDeliverableInput) (days : ℤ)
    (index : ℕ) (candidates : List FuturesDeliveryResult) :
    (storedRows format sd size ctdIndex common days index candidates).length = candidates.length := by
  induction candidates generalizing index with
  | nil => rfl
  | cons candidate rest ih => rw [storedRows, List.length_cons, List.length_cons, ih]

/-- The rows with no description, and with one. -/
theorem storedRows_base (size ctdIndex : ℕ) (common : FuturesDeliverableInput) (days : ℤ)
    (index : ℕ) (candidates : List FuturesDeliveryResult) :
    (ArtifactBatch.base (encodeRows format false size ctdIndex index candidates)).rows =
      storedRows format false size ctdIndex common days index candidates := by
  show List.map _ _ = _
  induction candidates generalizing index with
  | nil => rfl
  | cons candidate rest ih =>
    rw [encodeRows, List.map_cons, ih]
    rfl

/-- The rows of a self-describing batch are the stored rows. -/
theorem storedRows_selfDescribing (size ctdIndex : ℕ) (common : FuturesDeliverableInput) (days : ℤ)
    (index : ℕ) (candidates : List FuturesDeliveryResult) :
    (ArtifactBatch.selfDescribing ((encodeRows format true size ctdIndex index candidates).zip
        (candidates.map fun candidate => selfDescription common candidate.input days))).rows =
      storedRows format true size ctdIndex common days index candidates := by
  show List.map _ _ = _
  induction candidates generalizing index with
  | nil => rfl
  | cons candidate rest ih =>
    rw [encodeRows, List.map_cons, List.zip_cons_cons, List.map_cons, ih]
    rfl

/-- **What is stored of a basket.** -/
theorem encodeBatch_eq_ok {result : FuturesDeliveryBasketResult} {sd : Bool} {batch : ArtifactBatch}
    (h : encodeBatch format result sd = .ok batch) :
    result.candidates.length < 2 ^ 32 ∧ ∃ days,
      (sd = true → epochDays result.first.valuationAt.localTradingDate = .ok days) ∧
        batch.rows = storedRows format sd result.candidates.length result.ctdIndex result.first days 0
          result.candidates := by
  obtain ⟨⟨⟩, hsize, h⟩ := bind_eq_ok.mp h
  rw [rejectIf_eq_ok, not_le] at hsize
  refine ⟨hsize, ?_⟩
  cases sd with
  | false =>
    obtain rfl := Except.ok.inj h
    exact ⟨0, by simp, storedRows_base _ _ _ _ _ _⟩
  | true =>
    obtain ⟨days, hdays, h⟩ := bind_eq_ok.mp h
    obtain rfl := Except.ok.inj h
    exact ⟨days, fun _ => hdays, storedRows_selfDescribing _ _ _ _ _ _⟩

/-- A date is stored as a number of 32 bits. -/
theorem epochDays_fits (date : NaiveDate) : ∃ days, epochDays date = .ok days := by
  have hyear := date.year_ge
  have hyear' := date.year_le
  have hordinal := NaiveDate.ordinal_bounds date
  have hnumber := NaiveDate.dayNumber_eq date
  have hleap : (365 : ℤ) + (if NaiveDate.isLeapYear date.year then 1 else 0) ≤ 366 := by
    split <;> omega
  unfold NaiveDate.daysBeforeYear at hnumber
  refine ⟨date.dayNumber - epochDay, if_pos ?_⟩
  unfold epochDay
  omega

/-- A basket of fewer than 2³² bonds is stored. -/
theorem exists_encodeBatch (format : ArrowFormat) {result : FuturesDeliveryBasketResult} (sd : Bool)
    (h : result.candidates.length < 2 ^ 32) : ∃ batch, encodeBatch format result sd = .ok batch := by
  unfold encodeBatch
  simp only [rejectIf_of_not (not_le.mpr h), ok_bind]
  cases sd with
  | false => exact ⟨_, rfl⟩
  | true =>
    obtain ⟨days, hdays⟩ := epochDays_fits result.first.valuationAt.localTradingDate
    rw [if_pos rfl, hdays]
    exact ⟨_, rfl⟩

/-- Binding results to inputs again keeps the bonds they are about. -/
theorem rebind_bondIds {sd : Bool} {common : FuturesDeliverableInput}
    {candidates : List FuturesDeliveryResult} {inputs : List FuturesDeliverableInput}
    (h : List.Forall₂ (Accepts format sd common) candidates inputs) :
    (rebind candidates inputs).map FuturesDeliveryResult.bondId =
      candidates.map FuturesDeliveryResult.bondId := by
  induction h with
  | nil => rfl
  | cons haccepts _ ih =>
    unfold rebind at ih ⊢
    rw [List.zipWith_cons_cons, List.map_cons, List.map_cons, ih]
    congr 1
    exact haccepts.2.1.symm

/-- **What a stored basket is decoded to**: itself for other inputs, when each is accepted. -/
theorem decode_encode {result decoded : FuturesDeliveryBasketResult} {sd : Bool}
    {batch : ArtifactBatch}
    {inputs : List FuturesDeliverableInput} (hencode : encodeBatch format result sd = .ok batch)
    (harrow : format.read (format.write batch) = some batch) :
    decode format (format.write batch) inputs = .ok decoded ↔
      List.Forall₂ (Accepts format sd result.first) result.candidates inputs ∧
        decoded.candidates = rebind result.candidates inputs ∧ decoded.ctdIndex = result.ctdIndex := by
  obtain ⟨-, days, hdays, hrows⟩ := encodeBatch_eq_ok hencode
  have hpos : 0 < result.candidates.length := Nat.zero_lt_of_lt result.index_lt
  -- Over the stored rows the loop is the comparison of every candidate with its input.
  have hmarked : ∀ {inputs : List FuturesDeliverableInput} {out : List FuturesDeliveryResult}
      {marked : Option ℕ}, result.candidates.length = inputs.length →
      (decodeRows format inputs.length 0 none (inputs.zip batch.rows) = .ok (out, marked) ↔
        List.Forall₂ (Accepts format sd result.first) result.candidates inputs ∧
          out = rebind result.candidates inputs ∧ marked = some result.ctdIndex) := by
    intro inputs out marked hlength
    rw [hrows, ← hlength]
    have hnone : none = if result.ctdIndex < 0 then some result.ctdIndex else none :=
      (if_neg (Nat.not_lt_zero _)).symm
    rw [decodeRows_eq_ok hdays hlength hnone, Nat.zero_add, if_pos result.index_lt]
  have hstored : batch.rows.length = result.candidates.length := by
    rw [hrows, length_storedRows]
  unfold decode
  rw [bind_eq_ok, harrow]
  simp only [rejectIf_eq_ok]
  constructor
  · rintro ⟨_, hne, h⟩
    obtain ⟨⟨⟩, hlength, h⟩ := bind_eq_ok.mp h
    rw [rejectIf_eq_ok, not_not, hstored] at hlength
    obtain ⟨⟨out, marked⟩, hout, h⟩ := bind_eq_ok.mp h
    obtain ⟨haccepted, rfl, rfl⟩ := (hmarked hlength).mp hout
    have h := mapError_eq_ok.mp h
    unfold FuturesDeliveryBasketResult.new at h
    split at h
    · obtain rfl := Except.ok.inj h
      exact ⟨haccepted, rfl, rfl⟩
    · cases h
  · rintro ⟨haccepted, hcandidates, hindex⟩
    -- Conversely, what is accepted passes the checks on the number of rows.
    have hlength := haccepted.length_eq
    refine ⟨(), ?_, ?_⟩
    · rintro rfl
      rw [List.length_nil] at hlength
      omega
    · rw [rejectIf_of_not (by rw [hstored, hlength, not_not]), ok_bind,
        (hmarked hlength).mpr ⟨haccepted, rfl, rfl⟩, ok_bind]
      refine mapError_eq_ok.mpr ?_
      obtain ⟨candidates, ctdIndex, hlt, hdistinct⟩ := decoded
      simp only at hcandidates hindex
      subst hcandidates hindex
      exact dif_pos ⟨hlt, hdistinct⟩

/-- A basket is decoded for its own inputs. -/
theorem rebind_self (candidates : List FuturesDeliveryResult) :
    rebind candidates (candidates.map FuturesDeliveryResult.input) = candidates := by
  induction candidates with
  | nil => rfl
  | cons candidate rest ih =>
    unfold rebind at ih ⊢
    rw [List.map_cons, List.zipWith_cons_cons, ih]

/-- The inputs that a basket is decoded for are those of the result. -/
theorem rebind_inputs {candidates : List FuturesDeliveryResult} {inputs : List FuturesDeliverableInput}
    (h : candidates.length = inputs.length) :
    (rebind candidates inputs).map FuturesDeliveryResult.input = inputs := by
  induction candidates generalizing inputs with
  | nil => exact (List.length_eq_zero_iff.mp h.symm).symm
  | cons candidate rest ih =>
    cases inputs with
    | nil => cases h
    | cons input inputs =>
      have hrest := ih (Nat.succ.inj h)
      unfold rebind at hrest ⊢
      rw [List.zipWith_cons_cons, List.map_cons, hrest]

end Ficant.Futures
