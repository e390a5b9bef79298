import Ficant.Lib.Chunks
import Ficant.Lib.Fields
import Ficant.Market.Fact
import Ficant.Research.ExperimentRun
import Ficant.Research.JournalBytes

namespace Ficant

open Lib

/-!
# Positions and their snapshots

The positions of one Subject at one time (`ficant-domain/src/research/position_snapshot.rs`).

* `Position` — a holding with its signed totals, all in one unit;
* `PositionSnapshot` — positions in the order of their identifiers, with the hash of all of it.

The canonical bytes put every value behind its length; the definitions here list the values.
-/

/-! ### Positions -/

/-- `AccountingClassificationState`. -/
inductive AccountingClassificationState
  | classified | notApplicable | unknown
  deriving DecidableEq, Repr

/-- `AccountingBook`. -/
inductive AccountingBook
  | ac | fvoci | fvtpl
  deriving DecidableEq, Repr

/-- `PositionHoldingForm`. -/
inductive PositionHoldingForm
  | owned | repoSold | reverseRepoCollateral
  deriving DecidableEq, Repr

/-- `AccountingClassification`: a book goes with the state `Classified` and with no other. -/
structure AccountingClassification where
  state : AccountingClassificationState
  book : Option AccountingBook
  agrees : state = .classified ↔ book.isSome
  deriving DecidableEq

/-- A classification that is not known. -/
def AccountingClassification.unknown : AccountingClassification := ⟨.unknown, none, by decide⟩

/-- `Position`: the four money totals have one unit. -/
structure Position where
  positionId : Ulid
  instrumentRef : VersionRef
  quantity : StoredDecimal
  economicValue : StoredDecimal
  economicPnl : StoredDecimal
  accountingPnl : StoredDecimal
  capitalRequirement : StoredDecimal
  accountingClassification : AccountingClassification
  holdingForm : PositionHoldingForm
  units : economicValue.unit = economicPnl.unit ∧ economicPnl.unit = accountingPnl.unit ∧
    accountingPnl.unit = capitalRequirement.unit
  deriving DecidableEq

/-! ### Snapshots -/

/-- `PositionSnapshotInput`. -/
structure PositionSnapshotInput where
  snapshotId : Ulid
  owner : OwnerRef
  subjectRef : VersionRef
  observedAt : MarketTime
  visibleAt : MarketTime
  contentHash : ContentHash
  lineage : List LineageRef
  positions : List Position
  deriving DecidableEq

/-- The text of an integer. -/
def integerText (n : ℤ) : List UInt8 := utf8 (String.ofList (decimalChars n))

/-- `timestamp_nanos_opt().unwrap_or_default()`: zero outside the 64-bit range. -/
def timestampNanosOrZero (t : DateTime) : ℤ :=
  if -2 ^ 63 ≤ t.timestampNanos ∧ t.timestampNanos < 2 ^ 63 then t.timestampNanos else 0

/-- The names that `{:?}` gives the states of a classification. -/
def AccountingClassificationState.debug : AccountingClassificationState → String
  | .classified => "Classified"
  | .notApplicable => "NotApplicable"
  | .unknown => "Unknown"

/-- The name that `{:?}` gives an optional book. -/
def AccountingBook.debug : Option AccountingBook → String
  | none => "None"
  | some .ac => "Some(Ac)"
  | some .fvoci => "Some(Fvoci)"
  | some .fvtpl => "Some(Fvtpl)"

/-- The names that `{:?}` gives the holding forms. -/
def PositionHoldingForm.debug : PositionHoldingForm → String
  | .owned => "Owned"
  | .repoSold => "RepoSold"
  | .reverseRepoCollateral => "ReverseRepoCollateral"

namespace PositionSnapshotInput

/-- The values of a time. -/
def timeValues (time : MarketTime) : List (List UInt8) :=
  [integerText (timestampNanosOrZero time.instant), utf8 time.marketTimezone,
    utf8 time.localTradingDate.text]

/-- The values of a lineage reference. -/
def lineageValues (reference : LineageRef) : List (List UInt8) :=
  [utf8 reference.objectId.text,
    reference.version.elim [] fun version => integerText version.value,
    reference.contentHash.elim [] ContentHash.bytes]

/-- The values of a decimal. -/
def decimalValues (value : StoredDecimal) : List (List UInt8) :=
  [utf8 value.coefficientText, integerText value.scale, utf8 value.unit.unitId.text,
    integerText value.unit.version.value]

/-- The values of a position. -/
def positionValues (p : Position) : List (List UInt8) :=
  [utf8 p.positionId.text, utf8 p.instrumentRef.id.text,
    integerText p.instrumentRef.version.value] ++
  [p.quantity, p.economicValue, p.economicPnl, p.accountingPnl, p.capitalRequirement].flatMap
    decimalValues ++
  [utf8 (p.accountingClassification.state.debug ++
    AccountingBook.debug p.accountingClassification.book ++ p.holdingForm.debug)]

/-- `canonical_bytes`, as the values it appends. -/
def canonicalValues (i : PositionSnapshotInput) : List (List UInt8) :=
  [utf8 i.snapshotId.text, utf8 i.owner.tenantId.text, utf8 i.owner.ownerId.text,
    utf8 i.subjectRef.id.text, integerText i.subjectRef.version.value] ++
  timeValues i.observedAt ++ timeValues i.visibleAt ++
  i.lineage.flatMap lineageValues ++ i.positions.flatMap positionValues

/-- `canonical_bytes`. -/
def canonicalBytes (i : PositionSnapshotInput) : List UInt8 := joinChunks i.canonicalValues

/-- The checks of `PositionSnapshot::new`. -/
def check (digest : List UInt8 → ContentHash) (i : PositionSnapshotInput) :
    Except DomainErrorCode Unit :=
  if i.visibleAt.instant < i.observedAt.instant then .error .invalidEffectiveTime
  else if i.lineage = [] then .error .brokenLineage
  else if !(i.positions.zip i.positions.tail).all (fun pair => pair.1.positionId < pair.2.positionId)
    then .error .invalidValue
  else if i.contentHash ≠ digest i.canonicalBytes then .error .contentHashMismatch
  else .ok ()

end PositionSnapshotInput

/-- `PositionSnapshot`. -/
structure PositionSnapshot (digest : List UInt8 → ContentHash) where
  input : PositionSnapshotInput
  valid : input.check digest = .ok ()
  deriving DecidableEq

/-- `PositionSnapshot::new`. -/
def PositionSnapshot.new (digest : List UInt8 → ContentHash) (i : PositionSnapshotInput) :
    Except DomainErrorCode (PositionSnapshot digest) :=
  match h : i.check digest with
  | .ok () => .ok ⟨i, h⟩
  | .error error => .error error

end Ficant
