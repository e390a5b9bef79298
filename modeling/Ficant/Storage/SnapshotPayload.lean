import Ficant.Data.BarSnapshot
import Ficant.Research.DataHealth
import Ficant.Research.SnapshotBinding
import Ficant.Storage.RecordPayload

namespace Ficant

open Lib

/-!
# Stored snapshots

The payload of a snapshot (`ficant-storage/src/postgres/codec.rs`).  Of the four kinds two have a hash
that the decoder computes again: threshold profiles and positions.

* `SnapshotValue` — the four kinds (`ficant-application/src/ports/snapshots.rs`);
* `encodeSnapshot`, `decodeSnapshot` — the codec;
* `snapshot_payload_exact` — a snapshot comes back exactly when no decimal of its positions is a zero
  with a scale.  Where one is, the hash that is computed again is the hash of other bytes, and the
  stored snapshot is refused.
-/

/-! ### The snapshots -/

/-- `UniverseSnapshot`. -/
structure UniverseSnapshot where
  universeSnapshotId : Ulid
  owner : OwnerRef
  instrumentVersions : List VersionRef
  filterDigest : ContentHash
  contentHash : ContentHash
  lineage : List LineageRef
  nonempty : instrumentVersions ≠ []
  increasing : ((instrumentVersions.zip instrumentVersions.tail).all fun pair =>
    pair.1 < pair.2) = true
  traced : lineage ≠ []

/-- `UniverseSnapshot::new`. -/
def UniverseSnapshot.new (universeSnapshotId : Ulid) (owner : OwnerRef)
    (instrumentVersions : List VersionRef) (filterDigest contentHash : ContentHash)
    (lineage : List LineageRef) : Except DomainErrorCode UniverseSnapshot :=
  if h : instrumentVersions ≠ [] ∧
      ((instrumentVersions.zip instrumentVersions.tail).all fun pair => pair.1 < pair.2) = true then
    if hlineage : lineage ≠ [] then
      .ok ⟨universeSnapshotId, owner, instrumentVersions, filterDigest, contentHash, lineage, h.1, h.2,
        hlineage⟩
    else .error .brokenLineage
  else .error .invalidValue

/-- `AccountingClassification::new`. -/
def AccountingClassification.new (state : AccountingClassificationState)
    (book : Option AccountingBook) :
    Except DomainErrorCode AccountingClassification :=
  if h : state = .classified ↔ book.isSome then .ok ⟨state, book, h⟩ else .error .invalidValue

/-- `PositionInput`. -/
structure PositionInput where
  positionId : Ulid
  instrumentRef : VersionRef
  quantity : StoredDecimal
  economicValue : StoredDecimal
  economicPnl : StoredDecimal
  accountingPnl : StoredDecimal
  capitalRequirement : StoredDecimal
  accountingClassification : AccountingClassification
  holdingForm : PositionHoldingForm

/-- `Position::new`. -/
def Position.new (i : PositionInput) : Except DomainErrorCode Position :=
  if h : i.economicValue.unit = i.economicPnl.unit ∧ i.economicPnl.unit = i.accountingPnl.unit ∧
      i.accountingPnl.unit = i.capitalRequirement.unit then
    .ok ⟨i.positionId, i.instrumentRef, i.quantity, i.economicValue, i.economicPnl, i.accountingPnl,
      i.capitalRequirement, i.accountingClassification, i.holdingForm, h⟩
  else .error .invalidUnit

/-- `DataHealthThresholdProfile::new`. -/
def DataHealthThresholdProfile.new (digest : List UInt8 → ContentHash)
    (i : DataHealthThresholdProfileInput) :
    Except DomainErrorCode (DataHealthThresholdProfile digest) :=
  match h : i.check digest with
  | .ok () => .ok ⟨i, h⟩
  | .error error => .error error

/-- A data snapshot that its constructor accepts. -/
abbrev AcceptedDataSnapshot := { value : DataSnapshot // DataSnapshot.new value = .ok value }

/-- `SnapshotValue`. -/
inductive SnapshotValue (digest : List UInt8 → ContentHash)
  | data (value : AcceptedDataSnapshot)
  | dataHealthThresholdProfile (value : DataHealthThresholdProfile digest)
  | position (value : PositionSnapshot digest)
  | universeSnapshot (value : UniverseSnapshot)

namespace Payload

/-! ### Codes -/

/-- The codes of the classification of a position. -/
def classificationCode : AccountingClassificationState → ℕ
  | .classified => 1
  | .notApplicable => 2
  | .unknown => 3

def classificationOfCode : ℕ → Option AccountingClassificationState
  | 1 => some .classified
  | 2 => some .notApplicable
  | 3 => some .unknown
  | _ => none

/-- The codes of its book. -/
def bookCode : Option AccountingBook → ℕ
  | none => 0
  | some .ac => 1
  | some .fvoci => 2
  | some .fvtpl => 3

def bookOfCode : ℕ → Option (Option AccountingBook)
  | 0 => some none
  | 1 => some (some .ac)
  | 2 => some (some .fvoci)
  | 3 => some (some .fvtpl)
  | _ => none

/-- The codes of its holding form. -/
def formCode : PositionHoldingForm → ℕ
  | .owned => 1
  | .repoSold => 2
  | .reverseRepoCollateral => 3

def formOfCode : ℕ → Option PositionHoldingForm
  | 1 => some .owned
  | 2 => some .repoSold
  | 3 => some .reverseRepoCollateral
  | _ => none

variable {digest : List UInt8 → ContentHash}

/-! ### The encoder -/

/-- The fields of a data snapshot. -/
def encodeDataSnapshot (value : DataSnapshot) : List UInt8 :=
  prefixedText value.dataSnapshotId.text ++ (encodeOwner value.owner ++
    (encodeMarketTime value.visibleAt ++ (encodeMarketTime value.asOf ++
    (encodeHash value.schemaHash ++ (encodeHash value.manifestHash ++
    (encodeHash value.blobContentHash ++ encodeLineage value.lineage))))))

/-- The fields of a threshold profile. -/
def encodeProfile (i : DataHealthThresholdProfileInput) : List UInt8 :=
  prefixedText i.profileSnapshotId.text ++ (encodeOwner i.owner ++ (encodeVersionRef i.profileRef ++
    (encodeMarketTime i.visibleAt ++ (encodeMarketTime i.effectiveFrom ++
    (encodeMarketTime i.effectiveTo ++ (bigEndian 8 i.maxPositionSnapshotAgeSeconds.toNat ++
    (bigEndian 4 i.unknownAccountingWarningBasisPoints.toNat ++
    (bigEndian 8 i.maxDataSnapshotAgeSeconds.toNat ++
    (bigEndian 4 i.modelValuationWarningBasisPoints.toNat ++
    (encodeHash i.contentHash ++ encodeLineage i.lineage))))))))))

/-- The fields of a position. -/
def encodePosition (p : Position) : List UInt8 :=
  prefixedText p.positionId.text ++ (encodeVersionRef p.instrumentRef ++ (encodeDecimal p.quantity ++
    (encodeDecimal p.economicValue ++ (encodeDecimal p.economicPnl ++ (encodeDecimal p.accountingPnl ++
    (encodeDecimal p.capitalRequirement ++
    (encodeCode (classificationCode p.accountingClassification.state) ++
    (encodeCode (bookCode p.accountingClassification.book) ++
      encodeCode (formCode p.holdingForm)))))))))

/-- The fields of a snapshot of positions. -/
def encodePositionSnapshot (i : PositionSnapshotInput) : List UInt8 :=
  prefixedText i.snapshotId.text ++ (encodeOwner i.owner ++ (encodeVersionRef i.subjectRef ++
    (encodeMarketTime i.observedAt ++ (encodeMarketTime i.visibleAt ++ (encodeHash i.contentHash ++
    (encodeLineage i.lineage ++ writeList encodePosition i.positions))))))

/-- The fields of a universe. -/
def encodeUniverse (value : UniverseSnapshot) : List UInt8 :=
  prefixedText value.universeSnapshotId.text ++ (encodeOwner value.owner ++
    (writeList encodeVersionRef value.instrumentVersions ++ (encodeHash value.filterDigest ++
    (encodeHash value.contentHash ++ encodeLineage value.lineage))))

/-- The fields of a snapshot, behind the byte for its kind. -/
def encodeSnapshotFields : SnapshotValue digest → List UInt8
  | .data value => encodeCode 1 ++ encodeDataSnapshot value.1
  | .dataHealthThresholdProfile value => encodeCode 4 ++ encodeProfile value.input
  | .position value => encodeCode 3 ++ encodePositionSnapshot value.input
  | .universeSnapshot value => encodeCode 2 ++ encodeUniverse value

/-- `encode_snapshot`. -/
def encodeSnapshot (value : SnapshotValue digest) : List UInt8 := header ++ encodeSnapshotFields value

/-! ### The decoder -/

/-- `DataSnapshot::new`, with what it accepts. -/
def newDataSnapshot (value : DataSnapshot) : Except DomainErrorCode AcceptedDataSnapshot :=
  if h : DataSnapshot.new value = .ok value then .ok ⟨value, h⟩
  else (DataSnapshot.new value).bind fun _ => .error .invalidValue

section Decoder

variable (digest) (zones : ZoneTable) (texts : TextParsers)

/-- The branch of a data snapshot. -/
def decodeDataSnapshot : PayloadReader AcceptedDataSnapshot := do
  let dataSnapshotId ← decodeUlid
  let owner ← decodeOwner
  let visibleAt ← decodeMarketTime zones texts
  let asOf ← decodeMarketTime zones texts
  let schemaHash ← decodeHash
  let manifestHash ← decodeHash
  let blobContentHash ← decodeHash
  let lineage ← decodeLineage
  construct (newDataSnapshot ⟨dataSnapshotId, owner, visibleAt, asOf, schemaHash, manifestHash,
    blobContentHash, lineage⟩)

/-- The branch of a universe. -/
def decodeUniverse : PayloadReader UniverseSnapshot := do
  let universeSnapshotId ← decodeUlid
  let owner ← decodeOwner
  let instruments ← list decodeVersionRef
  let filterDigest ← decodeHash
  let contentHash ← decodeHash
  let lineage ← decodeLineage
  construct (UniverseSnapshot.new universeSnapshotId owner instruments filterDigest contentHash
    lineage)

/-- The branch of a threshold profile. -/
def decodeProfile : PayloadReader (DataHealthThresholdProfile digest) := do
  let profileSnapshotId ← decodeUlid
  let owner ← decodeOwner
  let profileRef ← decodeVersionRef
  let visibleAt ← decodeMarketTime zones texts
  let effectiveFrom ← decodeMarketTime zones texts
  let effectiveTo ← decodeMarketTime zones texts
  let maxPositionSnapshotAgeSeconds ← u64
  let unknownAccountingWarningBasisPoints ← u32
  let maxDataSnapshotAgeSeconds ← u64
  let modelValuationWarningBasisPoints ← u32
  let contentHash ← decodeHash
  let lineage ← decodeLineage
  construct (DataHealthThresholdProfile.new digest
    ⟨profileSnapshotId, owner, profileRef, visibleAt, effectiveFrom, effectiveTo,
      .ofNat maxPositionSnapshotAgeSeconds, .ofNat unknownAccountingWarningBasisPoints,
      .ofNat maxDataSnapshotAgeSeconds, .ofNat modelValuationWarningBasisPoints, contentHash, lineage⟩)

/-- `decode_position`. -/
def decodePosition : PayloadReader Position := do
  let positionId ← decodeUlid
  let instrumentRef ← decodeVersionRef
  let quantity ← decodeDecimal
  let economicValue ← decodeDecimal
  let economicPnl ← decodeDecimal
  let accountingPnl ← decodeDecimal
  let capitalRequirement ← decodeDecimal
  let state ← coded classificationOfCode
  let book ← coded bookOfCode
  let holdingForm ← coded formOfCode
  let accountingClassification ← construct (AccountingClassification.new state book)
  construct (Position.new ⟨positionId, instrumentRef, quantity, economicValue, economicPnl,
    accountingPnl, capitalRequirement, accountingClassification, holdingForm⟩)

/-- The fields of `decode_position_snapshot`. -/
def decodePositionSnapshotInput : PayloadReader PositionSnapshotInput := do
  let snapshotId ← decodeUlid
  let owner ← decodeOwner
  let subjectRef ← decodeVersionRef
  let observedAt ← decodeMarketTime zones texts
  let visibleAt ← decodeMarketTime zones texts
  let contentHash ← decodeHash
  let lineage ← decodeLineage
  let positions ← list decodePosition
  pure ⟨snapshotId, owner, subjectRef, observedAt, visibleAt, contentHash, lineage, positions⟩

/-- `decode_position_snapshot`. -/
def decodePositionSnapshot : PayloadReader (PositionSnapshot digest) := do
  let input ← decodePositionSnapshotInput zones texts
  construct (PositionSnapshot.new digest input)

/-- The branches of `decode_snapshot`. -/
def decodeSnapshotFields (kind : ℕ) : PayloadReader (SnapshotValue digest) :=
  match kind with
  | 1 => SnapshotValue.data <$> decodeDataSnapshot zones texts
  | 2 => SnapshotValue.universeSnapshot <$> decodeUniverse
  | 3 => SnapshotValue.position <$> decodePositionSnapshot digest zones texts
  | 4 => SnapshotValue.dataHealthThresholdProfile <$> decodeProfile digest zones texts
  | _ => Reader.fail ↑codecError

/-- `decode_snapshot`. -/
def decodeSnapshot (payload : List UInt8) :
    Option (Except (Failure ApplicationError) (SnapshotValue digest)) :=
  decodePayload (u8 >>= decodeSnapshotFields digest zones texts) payload

end Decoder

/-! ### What comes back -/

/-- A position as it is read back. -/
def rereadPosition (p : Position) : Position where
  positionId := p.positionId
  instrumentRef := p.instrumentRef
  quantity := rereadDecimal p.quantity
  economicValue := rereadDecimal p.economicValue
  economicPnl := rereadDecimal p.economicPnl
  accountingPnl := rereadDecimal p.accountingPnl
  capitalRequirement := rereadDecimal p.capitalRequirement
  accountingClassification := p.accountingClassification
  holdingForm := p.holdingForm
  units := by simpa using p.units

/-- The fields of a snapshot of positions as they are read back. -/
def rereadPositions (i : PositionSnapshotInput) : PositionSnapshotInput :=
  { i with positions := i.positions.map rereadPosition }

/-- No decimal of a position is a zero with a scale. -/
structure StablePosition (p : Position) : Prop where
  quantity : Stable p.quantity
  economicValue : Stable p.economicValue
  economicPnl : Stable p.economicPnl
  accountingPnl : Stable p.accountingPnl
  capitalRequirement : Stable p.capitalRequirement

/-- **A snapshot that can be read back**: no decimal of its positions is a zero with a scale. -/
def Readable : SnapshotValue digest → Prop
  | .position value => ∀ p ∈ value.input.positions, StablePosition p
  | _ => True

/-- The times of a snapshot. -/
def snapshotTimes : SnapshotValue digest → List MarketTime
  | .data value => [value.1.visibleAt, value.1.asOf]
  | .dataHealthThresholdProfile value =>
    [value.input.visibleAt, value.input.effectiveFrom, value.input.effectiveTo]
  | .position value => [value.input.observedAt, value.input.visibleAt]
  | .universeSnapshot _ => []

/-- The references of a snapshot. -/
def snapshotReferences : SnapshotValue digest → List LineageRef
  | .data value => value.1.lineage
  | .dataHealthThresholdProfile value => value.input.lineage
  | .position value => value.input.lineage
  | .universeSnapshot value => value.lineage

/-- A position comes back as it was exactly when no decimal of it is a zero with a scale. -/
theorem rereadPosition_eq_iff {p : Position} : rereadPosition p = p ↔ StablePosition p := by
  constructor
  · intro h
    exact
      { quantity := rereadDecimal_eq_iff.mp (congrArg Position.quantity h)
        economicValue := rereadDecimal_eq_iff.mp (congrArg Position.economicValue h)
        economicPnl := rereadDecimal_eq_iff.mp (congrArg Position.economicPnl h)
        accountingPnl := rereadDecimal_eq_iff.mp (congrArg Position.accountingPnl h)
        capitalRequirement := rereadDecimal_eq_iff.mp (congrArg Position.capitalRequirement h) }
  · rintro ⟨hquantity, hvalue, hpnl, haccounting, hcapital⟩
    rw [← rereadDecimal_eq_iff] at hquantity hvalue hpnl haccounting hcapital
    cases p
    simp only [rereadPosition, Position.mk.injEq, true_and, and_true]
    exact ⟨hquantity, hvalue, hpnl, haccounting, hcapital⟩

/-- So do the positions of a snapshot. -/
theorem rereadPositions_eq_iff {i : PositionSnapshotInput} :
    (rereadPositions i).positions = i.positions ↔ ∀ p ∈ i.positions, StablePosition p := by
  show i.positions.map rereadPosition = i.positions ↔ _
  constructor
  · intro h p hp
    apply rereadPosition_eq_iff.mp
    have hall : i.positions.map rereadPosition = i.positions.map id := by
      rw [List.map_id]
      exact h
    exact List.map_inj_left.mp hall p hp
  · intro h
    rw [List.map_congr_left fun p hp => rereadPosition_eq_iff.mpr (h p hp), List.map_id']

/-- The identifiers of the positions come back, in their order. -/
theorem ordered_reread (positions : List Position) :
    (((positions.map rereadPosition).zip (positions.map rereadPosition).tail).all fun pair =>
      pair.1.positionId < pair.2.positionId) =
      ((positions.zip positions.tail).all fun pair => pair.1.positionId < pair.2.positionId) := by
  rw [← List.map_tail, List.zip_map, List.all_map]
  rfl

/-- What the constructor makes of the fields that come back: the hash decides. -/
theorem new_rereadPositions (value : PositionSnapshot digest) :
    PositionSnapshotInput.check digest (rereadPositions value.input) =
      if value.input.contentHash ≠ digest (rereadPositions value.input).canonicalBytes then
        .error .contentHashMismatch
      else .ok () := by
  have hvalid := value.valid
  unfold PositionSnapshotInput.check at hvalid ⊢
  by_cases htime : value.input.visibleAt.instant < value.input.observedAt.instant
  · rw [if_pos htime] at hvalid
    cases hvalid
  rw [if_neg htime] at hvalid
  by_cases hlineage : value.input.lineage = []
  · rw [if_pos hlineage] at hvalid
    cases hvalid
  rw [if_neg hlineage] at hvalid
  have horder : ((value.input.positions.zip value.input.positions.tail).all fun pair =>
      pair.1.positionId < pair.2.positionId) = true := by
    by_contra h
    rw [if_pos (by simpa using h)] at hvalid
    cases hvalid
  -- Rereading changes amounts only, so the checks on time, lineage and order pass again.
  have hreread := (ordered_reread value.input.positions).trans horder
  have htime' : ¬ (rereadPositions value.input).visibleAt.instant <
      (rereadPositions value.input).observedAt.instant := htime
  have hlineage' : ¬ (rereadPositions value.input).lineage = [] := hlineage
  rw [if_neg htime', if_neg hlineage']
  show (if (!(((value.input.positions.map rereadPosition).zip
    (value.input.positions.map rereadPosition).tail).all fun pair =>
      decide (pair.1.positionId < pair.2.positionId))) = true then _ else _) = _
  rw [hreread]
  rfl

/-- The hash of a snapshot is that of its bytes. -/
theorem contentHash_of_valid (value : PositionSnapshot digest) :
    value.input.contentHash = digest value.input.canonicalBytes := by
  have hvalid := value.valid
  unfold PositionSnapshotInput.check at hvalid
  by_contra h
  rw [if_pos h] at hvalid
  split at hvalid
  · cases hvalid
  split at hvalid
  · cases hvalid
  split at hvalid <;> cases hvalid

/-! ### Reading back -/

section Reading

open Reader

variable {zones : ZoneTable} {texts : TextParsers}

/-- A snapshot of data comes back field by field. -/
theorem reads_dataSnapshot (htexts : texts.ReadsBack) {value : AcceptedDataSnapshot}
    (hreferences : ∀ reference ∈ value.1.lineage, reference.Exact)
    (hvisible : StoredTime zones value.1.visibleAt) (hasOf : StoredTime zones value.1.asOf) :
    Reads (decodeDataSnapshot zones texts) (encodeDataSnapshot value.1) value := by
  have hnew : newDataSnapshot value.1 = .ok value := dif_pos value.2
  exact (codec_faithful.ulid _).bind
    ((codec_faithful.owner _).bind ((reads_marketTime htexts hvisible).bind
    ((reads_marketTime htexts hasOf).bind ((codec_faithful.hash _).bind ((codec_faithful.hash _).bind
    ((codec_faithful.hash _).bind ((reads_lineage hreferences).thenPure (reads_construct hnew))))))))

/-- So does a universe. -/
theorem reads_universe {value : UniverseSnapshot}
    (hreferences : ∀ reference ∈ value.lineage, reference.Exact) :
    Reads decodeUniverse (encodeUniverse value) value := by
  have hnew : UniverseSnapshot.new value.universeSnapshotId value.owner value.instrumentVersions
      value.filterDigest value.contentHash value.lineage = .ok value := by
    unfold UniverseSnapshot.new
    rw [dif_pos ⟨value.nonempty, value.increasing⟩, dif_pos value.traced]
  exact (codec_faithful.ulid _).bind
    ((codec_faithful.owner _).bind ((reads_versionRefs _).bind ((codec_faithful.hash _).bind
    ((codec_faithful.hash _).bind ((reads_lineage hreferences).thenPure (reads_construct hnew))))))

/-- A profile comes back with its hash, which is computed again. -/
theorem reads_profile (htexts : texts.ReadsBack) {value : DataHealthThresholdProfile digest}
    (hreferences : ∀ reference ∈ value.input.lineage, reference.Exact)
    (htimes : ∀ time ∈ [value.input.visibleAt, value.input.effectiveFrom, value.input.effectiveTo],
      StoredTime zones time) :
    Reads (decodeProfile digest zones texts) (encodeProfile value.input) value := by
  -- The thresholds are read back from their widths before the profile is built.
  have hnew : DataHealthThresholdProfile.new digest
      { value.input with
        maxPositionSnapshotAgeSeconds := .ofNat value.input.maxPositionSnapshotAgeSeconds.toNat
        unknownAccountingWarningBasisPoints :=
          .ofNat value.input.unknownAccountingWarningBasisPoints.toNat
        maxDataSnapshotAgeSeconds := .ofNat value.input.maxDataSnapshotAgeSeconds.toNat
        modelValuationWarningBasisPoints :=
          .ofNat value.input.modelValuationWarningBasisPoints.toNat } = .ok value := by
    simp only [UInt64.ofNat_toNat, UInt32.ofNat_toNat]
    unfold DataHealthThresholdProfile.new
    split
    · rfl
    · rename_i error herror
      exact absurd (value.valid.symm.trans herror) (by simp)
  exact (codec_faithful.ulid _).bind ((codec_faithful.owner _).bind ((codec_faithful.versionRef _).bind
    ((reads_marketTime htexts (htimes _ (by simp))).bind
    ((reads_marketTime htexts (htimes _ (by simp))).bind
    ((reads_marketTime htexts (htimes _ (by simp))).bind
    ((reads_u64 _ (UInt64.toNat_lt _)).bind
    ((reads_u32 _ (UInt32.toNat_lt _)).bind
    ((reads_u64 _ (UInt64.toNat_lt _)).bind
    ((reads_u32 _ (UInt32.toNat_lt _)).bind ((codec_faithful.hash _).bind
    ((reads_lineage hreferences).thenPure (reads_construct hnew))))))))))))

/-- A position comes back with its decimals reread. -/
theorem reads_position (p : Position) :
    Reads decodePosition (encodePosition p) (rereadPosition p) := by
  have hstate : Reads (coded classificationOfCode)
      (encodeCode (classificationCode p.accountingClassification.state))
      p.accountingClassification.state := by
    cases p.accountingClassification.state <;> exact reads_coded (by decide) rfl
  have hbook : Reads (coded bookOfCode) (encodeCode (bookCode p.accountingClassification.book))
      p.accountingClassification.book := by
    match p.accountingClassification.book with
    | none => exact reads_coded (by decide) rfl
    | some .ac => exact reads_coded (by decide) rfl
    | some .fvoci => exact reads_coded (by decide) rfl
    | some .fvtpl => exact reads_coded (by decide) rfl
  have hform : Reads (coded formOfCode) (encodeCode (formCode p.holdingForm)) p.holdingForm := by
    cases p.holdingForm <;> exact reads_coded (by decide) rfl
  have hclassification : AccountingClassification.new p.accountingClassification.state
      p.accountingClassification.book = .ok p.accountingClassification :=
    dif_pos p.accountingClassification.agrees
  -- Units do not change, so the reread position is accepted.
  have hnew : Position.new ⟨p.positionId, p.instrumentRef, rereadDecimal p.quantity,
      rereadDecimal p.economicValue, rereadDecimal p.economicPnl, rereadDecimal p.accountingPnl,
      rereadDecimal p.capitalRequirement, p.accountingClassification, p.holdingForm⟩ =
      .ok (rereadPosition p) :=
    dif_pos (rereadPosition p).units
  have hlast : Reads (construct (AccountingClassification.new p.accountingClassification.state
      p.accountingClassification.book) >>= fun classification =>
        construct (Position.new ⟨p.positionId, p.instrumentRef, rereadDecimal p.quantity,
          rereadDecimal p.economicValue, rereadDecimal p.economicPnl, rereadDecimal p.accountingPnl,
          rereadDecimal p.capitalRequirement, classification, p.holdingForm⟩)) [] (rereadPosition p) :=
    (reads_construct hclassification).thenPure (reads_construct hnew)
  exact (codec_faithful.ulid _).bind
    ((codec_faithful.versionRef _).bind ((reads_decimal _).bind ((reads_decimal _).bind
    ((reads_decimal _).bind ((reads_decimal _).bind ((reads_decimal _).bind (hstate.bind (hbook.bind
    (hform.thenPure hlast)))))))))

/-- A position takes some bytes, so a list of positions can be counted. -/
theorem encodePosition_ne_nil (p : Position) : encodePosition p ≠ [] := by
  intro h
  exact prefixedText_ne_nil _ (List.append_eq_nil_iff.mp h).1

/-- The input of a snapshot comes back with its positions reread. -/
theorem reads_positionSnapshotInput (htexts : texts.ReadsBack) {i : PositionSnapshotInput}
    (hreferences : ∀ reference ∈ i.lineage, reference.Exact)
    (hobserved : StoredTime zones i.observedAt) (hvisible : StoredTime zones i.visibleAt) :
    Reads (decodePositionSnapshotInput zones texts) (encodePositionSnapshot i) (rereadPositions i) :=
  (codec_faithful.ulid _).bind ((codec_faithful.owner _).bind ((codec_faithful.versionRef _).bind
    ((reads_marketTime htexts hobserved).bind ((reads_marketTime htexts hvisible).bind
    ((codec_faithful.hash _).bind ((reads_lineage hreferences).bind
    ((reads_list encodePosition_ne_nil fun p _ => reads_position p).thenPure (reads_pure _))))))))

end Reading

/-- A payload is refused when its fields are. -/
theorem decodePayload_refuses {α : Type} {read : PayloadReader α} {written : List UInt8}
    {error : Failure ApplicationError} (h : Reader.Refuses read written error)
    (hlength : (header ++ written).length < 2 ^ 64) :
    decodePayload read (header ++ written) = some (.error error) := by
  have hread := (h.bind fun value => finish >>= fun _ => pure value) []
    (by rw [List.append_nil]; rw [List.length_append] at hlength; omega)
  rw [List.append_nil] at hread
  unfold decodePayload
  rw [if_pos (List.prefix_append _ _), List.drop_left, hread]
  rfl

/-- What the decoder makes of a stored snapshot of positions. -/
theorem decodeSnapshot_position {zones : ZoneTable} {texts : TextParsers} (htexts : texts.ReadsBack)
    {value : PositionSnapshot digest}
    (hreferences : ∀ reference ∈ value.input.lineage, reference.Exact)
    (hobserved : StoredTime zones value.input.observedAt)
    (hvisible : StoredTime zones value.input.visibleAt)
    (hlength : (encodeSnapshot (.position value)).length < 2 ^ 64) :
    (∀ reread, PositionSnapshot.new digest (rereadPositions value.input) = .ok reread →
      decodeSnapshot digest zones texts (encodeSnapshot (.position value)) =
        some (.ok (.position reread))) ∧
    (∀ error, PositionSnapshot.new digest (rereadPositions value.input) = .error error →
      decodeSnapshot digest zones texts (encodeSnapshot (.position value)) =
        some (.error ↑(mapDomainError error))) := by
  have hinput := reads_positionSnapshotInput htexts hreferences hobserved hvisible
  constructor
  · intro reread hnew
    have hread : Reader.Reads (decodePositionSnapshot digest zones texts)
        (encodePositionSnapshot value.input) reread :=
      hinput.thenPure (reads_construct hnew)
    exact decodePayload_encode (readsAll_kind (by decide) (readsAll_mapped hread.all)) hlength
  · intro error hnew
    have hconstruct : Reader.Refuses (construct (PositionSnapshot.new digest
        (rereadPositions value.input))) [] ↑(mapDomainError error) :=
      Reader.refuses_lift (by rw [hnew]; rfl)
    -- The fields are read; what refuses is the constructor, on the hash of the contents.
    have hrefuses : Reader.Refuses (decodePositionSnapshot digest zones texts)
        (encodePositionSnapshot value.input) ↑(mapDomainError error) := by
      rw [← List.append_nil (encodePositionSnapshot value.input)]
      exact hinput.bindRefuses hconstruct
    have hbranch : Reader.Refuses (decodeSnapshotFields digest zones texts 3)
        (encodePositionSnapshot value.input) ↑(mapDomainError error) :=
      hrefuses.bind _
    have hkind : Reader.Refuses (u8 >>= decodeSnapshotFields digest zones texts)
        (encodeCode 3 ++ encodePositionSnapshot value.input) ↑(mapDomainError error) :=
      (Reader.reads_u8 _ 3).bindRefuses hbranch
    exact decodePayload_refuses hkind hlength

/-- A snapshot of positions comes back exactly when it can be read back; where it does not, it is
    refused, or other bytes have its hash. -/
theorem position_payload {zones : ZoneTable} {texts : TextParsers} (htexts : texts.ReadsBack)
    {value : PositionSnapshot digest}
    (hreferences : ∀ reference ∈ value.input.lineage, reference.Exact)
    (hobserved : StoredTime zones value.input.observedAt)
    (hvisible : StoredTime zones value.input.visibleAt)
    (hbytes : value.input.canonicalBytes.length < lengthLimit)
    (hlength : (encodeSnapshot (.position value)).length < 2 ^ 64) :
    (decodeSnapshot digest zones texts (encodeSnapshot (.position value)) =
        some (.ok (.position value)) ↔ Readable (.position value)) ∧
      (¬ Readable (.position value) →
        decodeSnapshot digest zones texts (encodeSnapshot (.position value)) =
            some (.error ↑(mapDomainError .contentHashMismatch)) ∨
          ∃ bytes, bytes ≠ value.input.canonicalBytes ∧ digest bytes = value.input.contentHash) := by
  obtain ⟨hok, herror⟩ := decodeSnapshot_position htexts hreferences hobserved hvisible hlength
  have hcheck := new_rereadPositions value
  have hhash := contentHash_of_valid value
  have hreadable : Readable (.position value) ↔
      (rereadPositions value.input).positions = value.input.positions :=
    rereadPositions_eq_iff.symm
  have hnew : PositionSnapshot.new digest (rereadPositions value.input) =
      if h : PositionSnapshotInput.check digest (rereadPositions value.input) = .ok () then
        .ok ⟨rereadPositions value.input, h⟩
      else .error .contentHashMismatch := by
    unfold PositionSnapshot.new
    split
    · rename_i hgood
      rw [dif_pos hgood]
    · rename_i error hbad
      have hmismatch := hcheck.symm.trans hbad
      split at hmismatch
      · obtain rfl := Except.error.inj hmismatch
        rw [dif_neg (by rw [hbad]; simp)]
      · cases hmismatch
  have hfixed : Readable (.position value) → rereadPositions value.input = value.input := by
    intro h
    show { value.input with positions := (rereadPositions value.input).positions } = value.input
    rw [hreadable.mp h]
  refine ⟨⟨fun h => ?_, fun h => ?_⟩, fun h => ?_⟩
  · -- what came back is the snapshot of the fields that are read back
    by_cases hgood : PositionSnapshotInput.check digest (rereadPositions value.input) = .ok ()
    · have hdecode := hok _ (hnew.trans (dif_pos hgood))
      rw [hdecode] at h
      have hsame := SnapshotValue.position.inj (Except.ok.inj (Option.some.inj h))
      exact hreadable.mpr (congrArg (fun v : PositionSnapshot digest => v.input.positions) hsame)
    · rw [herror _ (hnew.trans (dif_neg hgood))] at h
      cases h
  · have hinput := hfixed h
    have hgood : PositionSnapshotInput.check digest (rereadPositions value.input) = .ok () := by
      rw [hinput]
      exact value.valid
    rw [hok _ (hnew.trans (dif_pos hgood))]
    congr 3
    cases value
    simp only [PositionSnapshot.mk.injEq]
    exact hinput
  · by_cases hmatch : digest (rereadPositions value.input).canonicalBytes = value.input.contentHash
    · refine .inr ⟨_, ?_, hmatch⟩
      -- equal bytes would list equal positions
      intro hsame
      have hothers := ((PositionSnapshotInput.canonicalBytes_eq_iff hbytes).mp hsame.symm).1
      exact h (hreadable.mpr hothers.positions.symm)
    · refine .inl (herror _ (hnew.trans (dif_neg ?_)))
      rw [hcheck, if_pos fun heq => hmatch heq.symm]
      simp

/-! ### No payload stops the decoder -/

section Safety

open Reader

variable (digest) (zones : ZoneTable) (texts : TextParsers)

/-- The readers of snapshots are safe, each because its parts are. -/
theorem safe_decodePosition : Safe decodePosition :=
  codec_safe.ulid.bind fun _ => codec_safe.versionRef.bind fun _ => safe_decodeDecimal.bind fun _ =>
    safe_decodeDecimal.bind fun _ => safe_decodeDecimal.bind fun _ => safe_decodeDecimal.bind fun _ =>
      safe_decodeDecimal.bind fun _ => (safe_coded _).bind fun _ => (safe_coded _).bind fun _ =>
        (safe_coded _).bind fun _ => (safe_construct _).bind fun _ => safe_construct _

theorem safe_decodeSnapshotFields (kind : ℕ) :
    Safe (decodeSnapshotFields digest zones texts kind) := by
  have hdata : Safe (decodeDataSnapshot zones texts) :=
    codec_safe.ulid.bind fun _ => codec_safe.owner.bind fun _ =>
      (safe_decodeMarketTime zones texts).bind fun _ =>
        (safe_decodeMarketTime zones texts).bind fun _ => codec_safe.hash.bind fun _ =>
          codec_safe.hash.bind fun _ => codec_safe.hash.bind fun _ => safe_decodeLineage.bind fun _ =>
            safe_construct _
  have huniverse : Safe decodeUniverse :=
    codec_safe.ulid.bind fun _ => codec_safe.owner.bind fun _ =>
      (safe_list codec_safe.versionRef).bind fun _ => codec_safe.hash.bind fun _ =>
        codec_safe.hash.bind fun _ => safe_decodeLineage.bind fun _ => safe_construct _
  have hposition : Safe (decodePositionSnapshot digest zones texts) :=
    (codec_safe.ulid.bind fun _ => codec_safe.owner.bind fun _ => codec_safe.versionRef.bind fun _ =>
      (safe_decodeMarketTime zones texts).bind fun _ =>
        (safe_decodeMarketTime zones texts).bind fun _ => codec_safe.hash.bind fun _ =>
          safe_decodeLineage.bind fun _ => (safe_list safe_decodePosition).bind fun _ =>
            safe_pure _).bind fun _ => safe_construct _
  have hprofile : Safe (decodeProfile digest zones texts) :=
    codec_safe.ulid.bind fun _ => codec_safe.owner.bind fun _ => codec_safe.versionRef.bind fun _ =>
      (safe_decodeMarketTime zones texts).bind fun _ =>
        (safe_decodeMarketTime zones texts).bind fun _ =>
          (safe_decodeMarketTime zones texts).bind fun _ => (safe_u64 _).bind fun _ =>
            (safe_u32 _).bind fun _ => (safe_u64 _).bind fun _ => (safe_u32 _).bind fun _ =>
              codec_safe.hash.bind fun _ => safe_decodeLineage.bind fun _ => safe_construct _
  -- One branch for each kind that is known, and a failure for all others.
  unfold decodeSnapshotFields
  split
  · exact safe_mapped hdata _
  · exact safe_mapped huniverse _
  · exact safe_mapped hposition _
  · exact safe_mapped hprofile _
  · exact safe_fail _

end Safety

/-- The bytes that a snapshot's hash is of, where it has one that is computed again. -/
def hashedLength : SnapshotValue digest → ℕ
  | .position value => value.input.canonicalBytes.length
  | _ => 0

/-- **Stored snapshots, exactly.**  A snapshot comes back as it was exactly when no decimal of its
    positions is a zero with a scale.  One that does not is refused for its hash, unless other bytes
    have the hash that it was stored with; and no byte string stops the decoder. -/
theorem snapshot_payload_exact (digest : List UInt8 → ContentHash) (zones : ZoneTable)
    (texts : TextParsers) (htexts : texts.ReadsBack) (value : SnapshotValue digest)
    (hreferences : ∀ reference ∈ snapshotReferences value, reference.Exact)
    (htimes : ∀ time ∈ snapshotTimes value, StoredTime zones time)
    (hbytes : hashedLength value < lengthLimit) (hlength : (encodeSnapshot value).length < 2 ^ 64) :
    (decodeSnapshot digest zones texts (encodeSnapshot value) = some (.ok value) ↔ Readable value) ∧
      (∀ positions, value = .position positions → ¬ Readable value →
        decodeSnapshot digest zones texts (encodeSnapshot value) =
            some (.error ↑(mapDomainError .contentHashMismatch)) ∨
          ∃ bytes, bytes ≠ positions.input.canonicalBytes ∧
            digest bytes = positions.input.contentHash) ∧
      ∀ payload, (decodeSnapshot digest zones texts payload).isSome := by
  have hsafe : ∀ payload, (decodeSnapshot digest zones texts payload).isSome := fun payload =>
    decodePayload_isSome ((Reader.safe_u8 _).toReturns.bind fun kind =>
      (safe_decodeSnapshotFields digest zones texts kind).toReturns) payload
  -- Three kinds are read back as they were; position snapshots may be refused.
  cases value with
  | data value =>
    have hread := reads_dataSnapshot htexts hreferences
      (htimes value.1.visibleAt (by simp [snapshotTimes]))
      (htimes value.1.asOf (by simp [snapshotTimes]))
    have hdecode : decodeSnapshot digest zones texts (encodeSnapshot (.data value)) =
        some (.ok (.data value)) :=
      decodePayload_encode (readsAll_kind (by decide) (readsAll_mapped hread.all)) hlength
    exact ⟨iff_of_true hdecode trivial, fun _ h => absurd h (by simp), hsafe⟩
  | dataHealthThresholdProfile value =>
    have hread := reads_profile htexts hreferences htimes
    have hdecode : decodeSnapshot digest zones texts
        (encodeSnapshot (.dataHealthThresholdProfile value)) =
          some (.ok (.dataHealthThresholdProfile value)) :=
      decodePayload_encode (readsAll_kind (by decide) (readsAll_mapped hread.all)) hlength
    exact ⟨iff_of_true hdecode trivial, fun _ h => absurd h (by simp), hsafe⟩
  | position value =>
    obtain ⟨hexact, hrefused⟩ := position_payload htexts hreferences
      (htimes value.input.observedAt (by simp [snapshotTimes]))
      (htimes value.input.visibleAt (by simp [snapshotTimes])) hbytes hlength
    refine ⟨hexact, ?_, hsafe⟩
    rintro positions h
    obtain rfl := SnapshotValue.position.inj h
    exact hrefused
  | universeSnapshot value =>
    have hread := reads_universe hreferences
    have hdecode : decodeSnapshot digest zones texts (encodeSnapshot (.universeSnapshot value)) =
        some (.ok (.universeSnapshot value)) :=
      decodePayload_encode (readsAll_kind (by decide) (readsAll_mapped hread.all)) hlength
    exact ⟨iff_of_true hdecode trivial, fun _ h => absurd h (by simp), hsafe⟩

/-! ### A sample -/

section Sample

open Fingerprint (sampleDigest sampleOwner sampleRef sampleHash sampleLineage sampleTime)

/-- A profit of nothing, with one place behind the point. -/
def zeroProfit : StoredDecimal := ⟨⟨0, 1, ⟨⟨4⟩, .first⟩⟩, ⟨by decide, by decide, by decide⟩⟩

/-- A position that has made nothing yet. -/
def flatPosition : Position :=
  ⟨⟨22⟩, sampleRef, Fingerprint.sampleDecimal, Fingerprint.sampleDecimal, zeroProfit, zeroProfit,
    Fingerprint.sampleDecimal, ⟨.notApplicable, none, by decide⟩, .owned, by decide⟩

def flatInput (contentHash : ContentHash) : PositionSnapshotInput :=
  ⟨⟨20⟩, sampleOwner, sampleRef, sampleTime, sampleTime, contentHash, [sampleLineage],
    [flatPosition]⟩

def flatSnapshot : PositionSnapshot sampleDigest :=
  ⟨flatInput (sampleDigest (flatInput sampleHash).canonicalBytes), by decide +kernel⟩

/-- The snapshot of that position is stored, and is not read back. -/
theorem snapshot_payload_sample :
    StoredDecimal.new "0" 2 ⟨⟨4⟩, .first⟩ = .ok zeroProfit ∧
      decodeSnapshot sampleDigest .utc displayedTexts (encodeSnapshot (.position flatSnapshot)) ≠
        some (.ok (.position flatSnapshot)) := by
  have hunreadable : ¬ Readable (.position flatSnapshot) := by
    intro h
    exact absurd ((h flatPosition List.mem_cons_self).economicPnl rfl) (by decide)
  have htimes : ∀ time ∈ snapshotTimes (.position flatSnapshot), StoredTime .utc time := by
    intro time hmem
    obtain rfl : time = sampleTime := by simpa [snapshotTimes, flatSnapshot, flatInput] using hmem
    rfl
  refine ⟨rfl, fun h => hunreadable ?_⟩
  exact (snapshot_payload_exact sampleDigest .utc displayedTexts displayedTexts_readsBack
    (.position flatSnapshot) (by decide) htimes (by decide +kernel) (by decide +kernel)).1.mp h

end Sample

end Payload

end Ficant
