import Ficant.Primitives.FixedArithmetic
import Ficant.Research.Coverage

namespace Ficant

open Lib

/-!
# Key-rate exposures

Sensitivities of positions to the factors of a curve (`ficant-domain/src/research/exposure.rs`).

* `FactorDv01` — one factor with the hash of its definition and a value;
* `PositionKeyRateExposure` — the factors of one position, with what they were computed from;
* `PortfolioKeyRateExposure` — the positions of one snapshot and their totals by factor.

Each constructor's checks are the field `valid`; the hashes that a constructor stores are functions
of the rest.  How a single sensitivity is computed is not modelled here.
-/

/-! ### Factors -/

/-- `FactorDv01`. -/
structure FactorDv01 where
  factorId : String
  factorDefinitionHash : ContentHash
  value : FixedDecimal
  unit : UnitRef
  proper : properName factorId = true

instance : DecidableEq FactorDv01 := fun a b =>
  decidable_of_iff
    (a.factorId = b.factorId ∧ a.factorDefinitionHash = b.factorDefinitionHash ∧ a.value = b.value ∧
      a.unit = b.unit)
    (by cases a; cases b; simp)

/-- `FactorDv01::new`. -/
def FactorDv01.new (factorId : String) (factorDefinitionHash : ContentHash) (value : FixedDecimal)
    (unit : UnitRef) : Except DomainErrorCode FactorDv01 :=
  if h : properName factorId = true then .ok ⟨factorId, factorDefinitionHash, value, unit, h⟩
  else .error .invalidId

/-- The values that the encoders append for a factor. -/
def FactorDv01.values (f : FactorDv01) : List (List UInt8) :=
  [utf8 f.factorId, f.factorDefinitionHash.bytes, f.value.scaledBytes, utf8 f.unit.unitId.text,
    bigEndian 8 f.unit.version.value]

theorem FactorDv01.delimited_values : Delimited FactorDv01.values := by
  intro a b r s h
  simp only [FactorDv01.values, List.cons_append, List.nil_append, List.cons.injEq] at h
  obtain ⟨hid, hhash, hvalue, hunit, hversion, hrest⟩ := h
  refine ⟨?_, hrest⟩
  obtain ⟨id, hash, value, unit, _⟩ := a
  obtain ⟨id', hash', value', unit', _⟩ := b
  obtain rfl := utf8_inj hid
  obtain rfl := ContentHash.ext_bytes hhash
  obtain rfl := FixedDecimal.scaledBytes_injective hvalue
  obtain rfl := UnitRef.ext_fields (Ulid.eq_of_utf8 hunit) (Version.eq_of_bigEndian hversion)
  rfl

/-- `append_lineage`, as the values it appends. -/
def appendLineage (reference : LineageRef) : List (List UInt8) :=
  [utf8 reference.objectId.text, bigEndian 8 (reference.version.elim 0 Version.value),
    reference.contentHash.elim [] ContentHash.bytes]

/-- A version is positive and a hash has 32 bytes, so nothing stands for the lack of one only. -/
theorem delimited_appendLineage : Delimited appendLineage := by
  intro a b r s h
  simp only [appendLineage, List.cons_append, List.nil_append, List.cons.injEq] at h
  obtain ⟨hid, hversion, hhash, hrest⟩ := h
  refine ⟨?_, hrest⟩
  have hfits : ∀ v : Option Version, v.elim 0 Version.value < 2 ^ 64 := by
    intro v
    cases v with
    | none => exact Nat.pos_of_ne_zero (by decide)
    | some v => exact v.fits
  have hvalue := eq_of_bigEndian8 (hfits _) (hfits _) hversion
  obtain ⟨id, version, hash⟩ := a
  obtain ⟨id', version', hash'⟩ := b
  obtain rfl := Ulid.eq_of_utf8 hid
  -- A version is positive, so zero stands for its absence.
  have hversions : version = version' := by
    cases version with
    | none =>
      cases version' with
      | none => rfl
      | some v => exact absurd hvalue.symm (Nat.ne_of_gt v.positive)
    | some v =>
      cases version' with
      | none => exact absurd hvalue (Nat.ne_of_gt v.positive)
      | some w => exact congrArg some (Version.ext_value hvalue)
  -- A hash is never empty, so no bytes stand for its absence.
  have hhashes : hash = hash' := by
    cases hash with
    | none =>
      cases hash' with
      | none => rfl
      | some g =>
        have := congrArg List.length hhash
        simp [g.length_eq] at this
    | some g =>
      cases hash' with
      | none =>
        have := congrArg List.length hhash
        simp [g.length_eq] at this
      | some g' => exact congrArg some (ContentHash.ext_bytes hhash)
  rw [hversions, hhashes]

/-! ### One position -/

/-- What `PositionKeyRateExposure::new` is given. -/
structure PositionKeyRateExposureInput where
  positionId : Ulid
  instrument : VersionRef
  exposures : List FactorDv01
  inputEvidenceHashes : List ContentHash
  lineage : List LineageRef
  deriving DecidableEq

/-- Whether `PositionKeyRateExposure::new` accepts: something in every list, factors and hashes in
    increasing order, and one unit. -/
def PositionKeyRateExposureInput.Accepted (i : PositionKeyRateExposureInput) : Prop :=
  i.exposures ≠ [] ∧ i.inputEvidenceHashes ≠ [] ∧ i.lineage ≠ [] ∧
    (i.exposures.Pairwise fun a b => a.factorId < b.factorId) ∧
    (i.inputEvidenceHashes.Pairwise fun a b => a.bytes < b.bytes) ∧
    ∀ a ∈ i.exposures, ∀ b ∈ i.exposures.head?, a.unit = b.unit

instance (i : PositionKeyRateExposureInput) : Decidable i.Accepted :=
  inferInstanceAs (Decidable (_ ∧ _ ∧ _ ∧ _ ∧ _ ∧ _))

/-- `PositionKeyRateExposure`. -/
structure PositionKeyRateExposure extends PositionKeyRateExposureInput where
  valid : toPositionKeyRateExposureInput.Accepted
  deriving DecidableEq

namespace PositionKeyRateExposure

/-- `PositionKeyRateExposure::new`. -/
def new (i : PositionKeyRateExposureInput) : Except DomainErrorCode PositionKeyRateExposure :=
  if h : i.Accepted then .ok ⟨i, h⟩ else .error .brokenLineage

/-- The values that `hash_position` appends. -/
def hashedValues (e : PositionKeyRateExposure) : List (List UInt8) :=
  [utf8 e.positionId.text, utf8 e.instrument.id.text, bigEndian 8 e.instrument.version.value] ++
    e.exposures.flatMap FactorDv01.values ++ e.inputEvidenceHashes.map ContentHash.bytes ++
    e.lineage.flatMap appendLineage

/-- The bytes that `hash_position` digests. -/
def preimage (e : PositionKeyRateExposure) : List UInt8 := joinChunks e.hashedValues

/-- `hash_position`. -/
def contentHash (digest : List UInt8 → ContentHash) (e : PositionKeyRateExposure) : ContentHash :=
  digest e.preimage

end PositionKeyRateExposure

/-! ### The positions of a portfolio -/

/-- Adds the factors of one more position, as many as there are totals. -/
def addFactors : List FactorDv01 → List FactorDv01 → Except DomainErrorCode (List FactorDv01)
  | total :: totals, value :: values =>
    if total.factorId ≠ value.factorId ∨ total.factorDefinitionHash ≠ value.factorDefinitionHash ∨
        total.unit ≠ value.unit then .error .brokenLineage
    else do
      let sum ← total.value.checkedAdd value.value
      let rest ← addFactors totals values
      return { total with value := sum } :: rest
  | _, _ => .ok []

/-- One position of the loop of `aggregate_bond_key_rate_exposures`. -/
def addExposures (totals : List FactorDv01) (position : PositionKeyRateExposure) :
    Except DomainErrorCode (List FactorDv01) := do
  rejectIf (position.exposures.length ≠ totals.length) .brokenLineage
  addFactors totals position.exposures

/-- `aggregate_bond_key_rate_exposures`. -/
def aggregateBondKeyRateExposures : List PositionKeyRateExposure →
    Except DomainErrorCode (List FactorDv01)
  | [] => .error .invalidValue
  | first :: rest =>
    rest.foldlM addExposures first.exposures

/-- `RiskAlgorithmBinding`. -/
structure RiskAlgorithmBinding where
  algorithmId : String
  algorithmVersion : UInt32
  conventionProfile : String
  valid : algorithmVersion ≠ 0 ∧ properName algorithmId = true ∧ properName conventionProfile = true
  deriving DecidableEq

/-- What the constructors of `PortfolioKeyRateExposure` are given. -/
structure PortfolioKeyRateExposureInput where
  positionSnapshotId : Ulid
  curveSnapshotId : Ulid
  futuresDataSnapshotId : Option Ulid
  positions : List PositionKeyRateExposure
  algorithm : RiskAlgorithmBinding
  sourceConfidence : PriceSourceSummary
  coverage : CoverageDeclaration
  lineage : List LineageRef
  deriving DecidableEq

namespace PortfolioKeyRateExposureInput

/-- The sources that `new` and `new_with_futures_data_snapshot` expect. -/
def expectedSources (i : PortfolioKeyRateExposureInput) : Except DomainErrorCode PriceSourceSummary :=
  match i.futuresDataSnapshotId with
  | none => do
    let curve ← PriceSourceCount.new .curveInterpolation (← lengthU64 i.positions.length)
    PriceSourceSummary.new [curve]
  | some _ =>
    match i.sourceConfidence.counts.find? fun count => count.sourceType = .activeQuote with
    | none => .error .brokenLineage
    | some active => do
      let quotes ← PriceSourceCount.new .activeQuote active.recordCount
      let curve ← PriceSourceCount.new .curveInterpolation (← lengthU64 i.positions.length)
      PriceSourceSummary.new [quotes, curve]

/-- The checks of `new_inner`, and the totals it stores. -/
def check (i : PortfolioKeyRateExposureInput) : Except DomainErrorCode (List FactorDv01) := do
  let expected ← i.expectedSources
  rejectIf (i.sourceConfidence ≠ expected) .brokenLineage
  rejectIf (i.positions = [] ∨ i.lineage = [] ∨
    i.coverage.sourceConfidence ≠ some i.sourceConfidence) .brokenLineage
  let count ← lengthU64 i.positions.length
  rejectIf (i.coverage.participatingPositionCount ≠ count ∨
    ¬ i.positions.Pairwise fun a b => a.positionId < b.positionId) .brokenLineage
  aggregateBondKeyRateExposures i.positions

end PortfolioKeyRateExposureInput

/-- `PortfolioKeyRateExposure`. -/
structure PortfolioKeyRateExposure extends PortfolioKeyRateExposureInput where
  totals : List FactorDv01
  valid : toPortfolioKeyRateExposureInput.check = .ok totals
  deriving DecidableEq

namespace PortfolioKeyRateExposure

/-- `PortfolioKeyRateExposure::new` and `new_with_futures_data_snapshot`. -/
def new (i : PortfolioKeyRateExposureInput) :
    Except DomainErrorCode PortfolioKeyRateExposure :=
  match h : i.check with
  | .ok totals => .ok ⟨i, totals, h⟩
  | .error error => .error error

/-- The values that `new_inner` appends. -/
def hashedValues (digest : List UInt8 → ContentHash) (e : PortfolioKeyRateExposure) :
    List (List UInt8) :=
  [utf8 e.positionSnapshotId.text, utf8 e.curveSnapshotId.text] ++
    e.futuresDataSnapshotId.elim [] (fun id => [utf8 "futures_data_snapshot_id", utf8 id.text]) ++
    e.positions.map (fun position => (position.contentHash digest).bytes) ++
    e.totals.flatMap FactorDv01.values ++
    [utf8 e.algorithm.algorithmId, bigEndian 4 e.algorithm.algorithmVersion.toNat,
      utf8 e.algorithm.conventionProfile] ++
    e.sourceConfidence.counts.flatMap CoverageDeclaration.countValues ++
    [e.coverage.canonicalBytes] ++ e.lineage.flatMap appendLineage

/-- The bytes that `new_inner` digests. -/
def preimage (digest : List UInt8 → ContentHash) (e : PortfolioKeyRateExposure) : List UInt8 :=
  joinChunks (e.hashedValues digest)

/-- The content hash that `new_inner` stores. -/
def contentHash (digest : List UInt8 → ContentHash) (e : PortfolioKeyRateExposure) : ContentHash :=
  digest (e.preimage digest)

end PortfolioKeyRateExposure

end Ficant
