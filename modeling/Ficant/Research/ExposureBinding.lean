import Ficant.Application.FingerprintBinding
import Ficant.Research.Exposure

namespace Ficant

open Lib

/-!
# What the hashes of key-rate exposures bind

The bytes under the content hashes of `exposure.rs` and `coverage.rs`.  Their lists carry no counts
and no tags, so it is the lengths of the values, one behind the other, that tell where a list ends.

* `PositionKeyRateExposure.preimage_injective` — the bytes of one position;
* `CoverageDeclaration.Built` — the declarations that the constructors make, and their bytes;
* `PortfolioKeyRateExposure.preimage_injective` — the bytes of a portfolio, which hold the hashes of
  its positions;
* `risk_hashes_bind` — all three.
-/

/-! ### The lengths of factors and references -/

/-- The lengths of a factor's values behind its name. -/
def StartsFactor (r : List (List UInt8)) : Prop :=
  lengthAt 1 r = some 32 ∧ lengthAt 2 r = some 16 ∧ lengthAt 3 r = some 26

/-- What a factor writes looks like the start of a factor. -/
theorem startsFactor_values (f : FactorDv01) (r : List (List UInt8)) :
    StartsFactor (f.values ++ r) := by
  simp [StartsFactor, FactorDv01.values, f.factorDefinitionHash.length_eq, Ulid.length_utf8_text,
    FixedDecimal.length_scaledBytes]

/-- A reference starts with an identifier and a version. -/
theorem lengthAt_appendLineage (reference : LineageRef) (r : List (List UInt8)) :
    lengthAt 0 (appendLineage reference ++ r) = some 26 ∧
      lengthAt 1 (appendLineage reference ++ r) = some 8 := by
  simp [appendLineage, Ulid.length_utf8_text]

/-- So does what is left of a list of them, when anything is. -/
theorem lengthAt_lineage (l : List LineageRef) :
    (lengthAt 0 (l.flatMap appendLineage) = none ∧ l = []) ∨
      (lengthAt 0 (l.flatMap appendLineage) = some 26 ∧
        lengthAt 1 (l.flatMap appendLineage) = some 8) := by
  cases l with
  | nil => exact .inl ⟨rfl, rfl⟩
  | cons reference l =>
    rw [List.flatMap_cons]
    exact .inr (lengthAt_appendLineage reference _)

/-- A list of references at the end. -/
theorem lineage_inj {l m : List LineageRef} (h : l.flatMap appendLineage = m.flatMap appendLineage) :
    l = m := by
  refine (delimited_appendLineage.list (fun r => r ≠ []) (fun _ _ => List.cons_ne_nil _ _)
    (not_not.mpr rfl) (not_not.mpr rfl) (r := []) (s := []) ?_).1
  rw [List.append_nil, List.append_nil]
  exact h

/-- Hashes in front of a factor: a hash that was taken for the factor's name would have to be
    followed by values of the wrong lengths. -/
theorem hashes_inj {l m : List ContentHash} {r s : List (List UInt8)} (hr : StartsFactor r)
    (hs : StartsFactor s) (h : l.map ContentHash.bytes ++ r = m.map ContentHash.bytes ++ s) :
    l = m ∧ r = s := by
  have hno : ∀ (g : ContentHash) (t : List ContentHash) (s : List (List UInt8)), StartsFactor s →
      ¬ StartsFactor ((g :: t).map ContentHash.bytes ++ s) := by
    rintro g t s ⟨hs1, hs2, -⟩ ⟨h1, h2, h3⟩
    simp only [List.map_cons, List.cons_append, lengthAt_succ] at h1 h2 h3
    cases t with
    | nil =>
      -- the value after the name is a hash of 32 bytes
      rw [List.map_nil, List.nil_append, hs1] at h2
      cases h2
    | cons g' t =>
      simp only [List.map_cons, List.cons_append, lengthAt_succ] at h2 h3
      cases t with
      | nil =>
        rw [List.map_nil, List.nil_append, hs1] at h3
        cases h3
      | cons g'' t =>
        rw [List.map_cons, List.cons_append, lengthAt_zero, g''.length_eq] at h2
        cases h2
  induction l generalizing m with
  | nil =>
    cases m with
    | nil => exact ⟨rfl, h⟩
    | cons g m =>
      have hr' : r = (g :: m).map ContentHash.bytes ++ s := h
      exact absurd (hr' ▸ hr) (hno g m s hs)
  | cons g l ih =>
    cases m with
    | nil =>
      have hs' : (g :: l).map ContentHash.bytes ++ r = s := h
      exact absurd (hs' ▸ hs) (hno g l r hr)
    | cons g' m =>
      rw [List.map_cons, List.map_cons, List.cons_append, List.cons_append, List.cons.injEq] at h
      obtain ⟨rfl, rfl⟩ := ih h.2
      exact ⟨by rw [ContentHash.ext_bytes h.1], rfl⟩

/-! ### One position -/

namespace PositionKeyRateExposure

/-- Behind the factors come hashes, or a reference: no third value has sixteen bytes. -/
theorem not_lengthAt_evidence (hashes : List ContentHash) (lineage : List LineageRef) :
    lengthAt 2 (hashes.map ContentHash.bytes ++ lineage.flatMap appendLineage) ≠ some 16 := by
  have hlineage := lengthAt_lineage lineage
  -- After up to two hashes a lineage reference may follow, whose lengths are known.
  match hashes with
  | [] =>
    cases lineage with
    | nil => simp
    | cons reference lineage =>
      cases hhash : reference.contentHash with
      | none => simp [appendLineage, hhash]
      | some hash => simp [appendLineage, hhash, hash.length_eq]
  | [g] =>
    show lengthAt 1 (lineage.flatMap appendLineage) ≠ some 16
    rcases hlineage with ⟨-, rfl⟩ | ⟨-, h⟩
    · simp
    · simp [h]
  | [g, g'] =>
    show lengthAt 0 (lineage.flatMap appendLineage) ≠ some 16
    rcases hlineage with ⟨h, -⟩ | ⟨h, -⟩ <;> simp [h]
  | g :: g' :: g'' :: hashes =>
    rw [List.map_cons, List.map_cons, List.map_cons, List.cons_append, List.cons_append,
      List.cons_append, lengthAt_succ, lengthAt_succ, lengthAt_zero, g''.length_eq]
    decide

/-- **The bytes of a position determine it.** -/
theorem preimage_injective {a b : PositionKeyRateExposure} (hlength : a.preimage.length < lengthLimit)
    (h : a.preimage = b.preimage) : a = b := by
  have hvalues := joinChunks_inj hlength h
  simp only [hashedValues, List.append_assoc, List.cons_append, List.nil_append,
    List.cons.injEq] at hvalues
  obtain ⟨hid, hinstrument, hversion, hvalues⟩ := hvalues
  -- the factors end at the first value that is followed by no value of sixteen bytes
  obtain ⟨hexposures, hvalues⟩ := FactorDv01.delimited_values.list
    (fun r => lengthAt 2 r = some 16) (fun f r => (startsFactor_values f r).2.1)
    (not_lengthAt_evidence _ _) (not_lengthAt_evidence _ _) hvalues
  have hend : ∀ l : List LineageRef, lengthAt 0 (l.flatMap appendLineage) ≠ some 32 := by
    intro l
    rcases lengthAt_lineage l with ⟨h, -⟩ | ⟨h, -⟩ <;> simp [h]
  have hsingle : Delimited fun hash : ContentHash => [hash.bytes] :=
    delimited_single fun _ _ heq => ContentHash.ext_bytes heq
  have hmap : ∀ l : List ContentHash, l.map ContentHash.bytes = l.flatMap fun hash => [hash.bytes] :=
    fun l => List.map_eq_flatMap
  rw [hmap, hmap] at hvalues
  obtain ⟨hevidence, hlineage⟩ := hsingle.list (fun r => lengthAt 0 r = some 32)
    (fun hash r => by simp [hash.length_eq]) (hend _) (hend _) hvalues
  obtain ⟨⟨id, ⟨instrument, version⟩, exposures, evidence, lineage⟩, _⟩ := a
  obtain ⟨⟨id', ⟨instrument', version'⟩, exposures', evidence', lineage'⟩, _⟩ := b
  obtain rfl := Ulid.eq_of_utf8 hid
  obtain rfl := Ulid.eq_of_utf8 hinstrument
  obtain rfl := Version.eq_of_bigEndian hversion
  obtain rfl := hexposures
  obtain rfl := hevidence
  obtain rfl := lineage_inj hlineage
  rfl

end PositionKeyRateExposure

/-! ### Declarations -/

/-- The declarations that the constructors make. -/
inductive CoverageDeclaration.Built (add : DecimalAdd) : CoverageDeclaration → Prop
  | verifiedEmpty : Built add .forVerifiedEmpty
  | completePositions {imported : List Position} {participatingIds : List Ulid}
      {source : Option PriceSourceSummary} {versions : UInt64} {c : CoverageDeclaration}
      (h : forCompletePositions add imported participatingIds source versions = .ok c) : Built add c

/-- A declaration that is built is well formed. -/
theorem CoverageDeclaration.Built.wellFormed {add : DecimalAdd} {c : CoverageDeclaration}
    (h : Built add c) : c.WellFormed := by
  cases h with
  | verifiedEmpty => exact wellFormed_forVerifiedEmpty
  | completePositions h => exact wellFormed_of_forCompletePositions h

/-! ### The positions of a portfolio -/

/-- Totals keep their first factor. -/
theorem addFactors_ne_nil {totals values out : List FactorDv01} (htotals : totals ≠ [])
    (hvalues : values ≠ []) (h : addFactors totals values = .ok out) : out ≠ [] := by
  cases totals with
  | nil => exact absurd rfl htotals
  | cons total totals =>
    cases values with
    | nil => exact absurd rfl hvalues
    | cons value values =>
      rw [addFactors] at h
      split at h
      · cases h
      · obtain ⟨sum, -, h⟩ := bind_eq_ok.mp h
        obtain ⟨rest, -, h⟩ := bind_eq_ok.mp h
        obtain rfl := Except.ok.inj h
        exact List.cons_ne_nil _ _

/-- There are totals, because every position has factors. -/
theorem totals_ne_nil {positions : List PositionKeyRateExposure} {totals : List FactorDv01}
    (h : aggregateBondKeyRateExposures positions = .ok totals) : totals ≠ [] := by
  cases positions with
  | nil => cases h
  | cons first rest =>
    refine foldlM_induction (motive := fun _ totals => totals ≠ []) first.valid.1 ?_ h
    intro done position totals totals' htotals hstep
    obtain ⟨⟨⟩, -, hstep⟩ := bind_eq_ok.mp hstep
    exact addFactors_ne_nil htotals position.valid.1 hstep

/-- A binding is determined by its algorithm, version and convention profile. -/
theorem RiskAlgorithmBinding.ext_fields {a b : RiskAlgorithmBinding}
    (hid : a.algorithmId = b.algorithmId) (hversion : a.algorithmVersion = b.algorithmVersion)
    (hprofile : a.conventionProfile = b.conventionProfile) : a = b := by
  cases a
  cases b
  subst hid hversion hprofile
  rfl

/-- A summary is determined by its counts. -/
theorem PriceSourceSummary.ext_counts {a b : PriceSourceSummary} (h : a.counts = b.counts) :
    a = b := by
  cases a
  cases b
  subst h
  rfl

namespace PortfolioKeyRateExposure

variable {digest : List UInt8 → ContentHash}

/-- What `new_inner` accepts has positions, and its totals are theirs. -/
theorem accepted (e : PortfolioKeyRateExposure) :
    e.positions ≠ [] ∧ aggregateBondKeyRateExposures e.positions = .ok e.totals := by
  have hvalid := e.valid
  unfold PortfolioKeyRateExposureInput.check at hvalid
  obtain ⟨expected, -, hvalid⟩ := bind_eq_ok.mp hvalid
  obtain ⟨⟨⟩, -, hvalid⟩ := bind_eq_ok.mp hvalid
  obtain ⟨⟨⟩, hparts, hvalid⟩ := bind_eq_ok.mp hvalid
  obtain ⟨count, -, hvalid⟩ := bind_eq_ok.mp hvalid
  obtain ⟨⟨⟩, -, hvalid⟩ := bind_eq_ok.mp hvalid
  have hgood := rejectIf_eq_ok.mp hparts
  exact ⟨fun hnil => hgood (.inl hnil), hvalid⟩

/-- Everything that is stored besides the totals. -/
theorem ext_input {a b : PortfolioKeyRateExposure}
    (h : a.toPortfolioKeyRateExposureInput = b.toPortfolioKeyRateExposureInput) : a = b := by
  obtain ⟨i, totals, hvalid⟩ := a
  obtain ⟨j, totals', hvalid'⟩ := b
  obtain rfl : i = j := h
  obtain rfl := Except.ok.inj (hvalid.symm.trans hvalid')
  rfl

/-- The optional identifier stands behind a name of 24 bytes, and no hash has as many. -/
theorem futures_inj {o p : Option Ulid} {r s : List (List UInt8)} (hr : lengthAt 0 r = some 32)
    (hs : lengthAt 0 s = some 32)
    (h : o.elim [] (fun id => [utf8 "futures_data_snapshot_id", utf8 id.text]) ++ r =
      p.elim [] (fun id => [utf8 "futures_data_snapshot_id", utf8 id.text]) ++ s) :
    o = p ∧ r = s := by
  -- The tag is shorter than a hash, so it cannot be taken for one.
  have htag : (utf8 "futures_data_snapshot_id").length = 24 := by decide
  cases o with
  | none =>
    cases p with
    | none => exact ⟨rfl, h⟩
    | some id =>
      have hr' := congrArg (lengthAt 0) h
      simp only [Option.elim_none, Option.elim_some, List.nil_append, List.cons_append, hr,
        lengthAt_zero, htag] at hr'
      cases hr'
  | some id =>
    cases p with
    | none =>
      have hs' := congrArg (lengthAt 0) h
      simp only [Option.elim_none, Option.elim_some, List.nil_append, List.cons_append, hs,
        lengthAt_zero, htag] at hs'
      cases hs'
    | some id' =>
      simp only [Option.elim_some, List.cons_append, List.nil_append, List.cons.injEq, true_and] at h
      exact ⟨congrArg some (Ulid.eq_of_utf8 h.1), h.2⟩

/-- The values from the totals on. -/
def totalsValues (e : PortfolioKeyRateExposure) : List (List UInt8) :=
  e.totals.flatMap FactorDv01.values ++
    ([utf8 e.algorithm.algorithmId, bigEndian 4 e.algorithm.algorithmVersion.toNat,
      utf8 e.algorithm.conventionProfile] ++
    (e.sourceConfidence.counts.flatMap CoverageDeclaration.countValues ++
    ([e.coverage.canonicalBytes] ++ e.lineage.flatMap appendLineage)))

/-- The totals begin like a factor, so that no position can be read in their place. -/
theorem startsFactor_totalsValues (e : PortfolioKeyRateExposure) : StartsFactor e.totalsValues := by
  unfold totalsValues
  have hne := totals_ne_nil e.accepted.2
  cases htotals : e.totals with
  | nil => exact absurd htotals hne
  | cons total totals =>
    rw [List.flatMap_cons, List.append_assoc]
    exact startsFactor_values total _

/-- The values that are hashed, with the optional data snapshot set apart. -/
theorem hashedValues_eq (e : PortfolioKeyRateExposure) :
    e.hashedValues digest = utf8 e.positionSnapshotId.text :: utf8 e.curveSnapshotId.text ::
      (e.futuresDataSnapshotId.elim [] (fun id => [utf8 "futures_data_snapshot_id", utf8 id.text]) ++
      ((e.positions.map fun position => position.contentHash digest).map ContentHash.bytes ++
        e.totalsValues)) := by
  simp only [hashedValues, totalsValues, List.append_assoc, List.cons_append, List.nil_append,
    List.map_map]
  rfl

/-- The values from the totals on determine what they are of. -/
theorem totalsValues_inj {add : DecimalAdd} {a b : PortfolioKeyRateExposure}
    (ha : CoverageDeclaration.Built add a.coverage) (hb : CoverageDeclaration.Built add b.coverage)
    (hlength : a.coverage.canonicalBytes.length < lengthLimit)
    (h : a.totalsValues = b.totalsValues) :
    a.algorithm = b.algorithm ∧ a.sourceConfidence = b.sourceConfidence ∧
      a.coverage = b.coverage ∧ a.lineage = b.lineage := by
  -- the second value behind the totals has four bytes and not 32
  obtain ⟨-, h⟩ := FactorDv01.delimited_values.list (fun r => lengthAt 1 r = some 32)
    (fun f r => (startsFactor_values f r).1) (by simp) (by simp) h
  simp only [List.cons_append, List.nil_append, List.cons.injEq] at h
  obtain ⟨hid, hversion, hprofile, h⟩ := h
  have hlong : ∀ (c : CoverageDeclaration) (r : List (List UInt8)),
      lengthAt 0 (c.canonicalBytes :: r) ≠ some 1 := by
    intro c r
    have hmem : CoverageDeclaration.u64Value c.importedPositionCount ∈ c.canonicalValues := by
      simp [CoverageDeclaration.canonicalValues]
    have hle := length_le_joinChunks hmem
    rw [CoverageDeclaration.length_u64Value] at hle
    rw [lengthAt_zero, ne_eq, Option.some.injEq]
    show (joinChunks c.canonicalValues).length ≠ 1
    omega
  obtain ⟨hcounts, h⟩ := CoverageDeclaration.delimited_countValues.list
    (fun r => lengthAt 0 r = some 1) (fun _ _ => rfl) (hlong _ _) (hlong _ _) h
  obtain ⟨hcoverage, hlineage⟩ := List.cons.inj h
  refine ⟨?_, ?_, CoverageDeclaration.canonicalBytes_injective ha.wellFormed hb.wellFormed hlength
    hcoverage, lineage_inj hlineage⟩
  · refine RiskAlgorithmBinding.ext_fields (utf8_inj hid) ?_ (utf8_inj hprofile)
    exact UInt32.toNat_inj.mp (bigEndian_inj (UInt32.toNat_lt _) (UInt32.toNat_lt _) hversion)
  · exact PriceSourceSummary.ext_counts hcounts

/-- **The bytes of a portfolio determine it**, where the digest keeps its positions apart. -/
theorem preimage_injective {add : DecimalAdd} {a b : PortfolioKeyRateExposure}
    (ha : CoverageDeclaration.Built add a.coverage) (hb : CoverageDeclaration.Built add b.coverage)
    (hpositions : ∀ position ∈ a.positions, position.preimage.length < lengthLimit)
    (hdigest : ∀ p ∈ a.positions, ∀ q ∈ b.positions, NoCollision digest p.preimage q.preimage)
    (hlength : (a.preimage digest).length < lengthLimit)
    (h : a.preimage digest = b.preimage digest) : a = b := by
  have hvalues := joinChunks_inj hlength h
  have hcoverage : a.coverage.canonicalBytes.length < lengthLimit := by
    refine lt_of_le_of_lt (length_le_joinChunks ?_) hlength
    simp [hashedValues]
  rw [hashedValues_eq, hashedValues_eq, List.cons.injEq, List.cons.injEq] at hvalues
  obtain ⟨hsnapshot, hcurve, hvalues⟩ := hvalues
  have hfirst : ∀ e : PortfolioKeyRateExposure, lengthAt 0
      ((e.positions.map fun position => position.contentHash digest).map ContentHash.bytes ++
        e.totalsValues) = some 32 := by
    intro e
    cases hp : e.positions with
    | nil => exact absurd hp e.accepted.1
    | cons position rest =>
      rw [List.map_cons, List.map_cons, List.cons_append, lengthAt_zero, ContentHash.length_eq]
  obtain ⟨hfutures, hvalues⟩ := futures_inj (hfirst a) (hfirst b) hvalues
  obtain ⟨hhashes, htotals⟩ :=
    hashes_inj (startsFactor_totalsValues a) (startsFactor_totalsValues b) hvalues
  have hsame : a.positions = b.positions := by
    refine map_inj_of_mem (fun p hp q hq heq => ?_) hhashes
    exact PositionKeyRateExposure.preimage_injective (hpositions p hp) (hdigest p hp q hq heq)
  obtain ⟨halgorithm, hsource, hdeclaration, hlineage⟩ := totalsValues_inj ha hb hcoverage htotals
  apply ext_input
  obtain ⟨⟨snapshot, curve, futures, positions, algorithm, source, coverage, lineage⟩, _, _⟩ := a
  obtain ⟨⟨snapshot', curve', futures', positions', algorithm', source', coverage', lineage'⟩, _, _⟩ :=
    b
  obtain rfl := Ulid.eq_of_utf8 hsnapshot
  obtain rfl := Ulid.eq_of_utf8 hcurve
  obtain rfl := hfutures
  obtain rfl := hsame
  obtain rfl := halgorithm
  obtain rfl := hsource
  obtain rfl := hdeclaration
  obtain rfl := hlineage
  rfl

end PortfolioKeyRateExposure

/-- **The hashes of risk results bind their content.** The bytes digested for a position, those of a
    declaration and those digested for a portfolio determine what was written, although the lists
    in them carry no counts; of its positions a portfolio holds the hashes. -/
theorem risk_hashes_bind (add : DecimalAdd) (digest : List UInt8 → ContentHash) :
    (∀ a b : PositionKeyRateExposure, a.preimage.length < lengthLimit → a.preimage = b.preimage →
      a = b) ∧
    (∀ a b : CoverageDeclaration, CoverageDeclaration.Built add a → CoverageDeclaration.Built add b →
      a.canonicalBytes.length < lengthLimit → a.canonicalBytes = b.canonicalBytes → a = b) ∧
    ∀ a b : PortfolioKeyRateExposure, CoverageDeclaration.Built add a.coverage →
      CoverageDeclaration.Built add b.coverage →
      (∀ position ∈ a.positions, position.preimage.length < lengthLimit) →
      (∀ p ∈ a.positions, ∀ q ∈ b.positions, NoCollision digest p.preimage q.preimage) →
      (a.preimage digest).length < lengthLimit → a.preimage digest = b.preimage digest → a = b := by
  refine ⟨fun a b => PositionKeyRateExposure.preimage_injective, ?_, ?_⟩
  · intro a b ha hb
    exact CoverageDeclaration.canonicalBytes_injective ha.wellFormed hb.wellFormed
  · intro a b ha hb hpositions hdigest
    exact PortfolioKeyRateExposure.preimage_injective ha hb hpositions hdigest

section Sample

open Fingerprint (sampleDigest sampleRef sampleHash sampleLineage sampleDecimal)

/-- The four amounts of the held position are in one unit. -/
theorem heldUnits : sampleDecimal.unit = sampleDecimal.unit ∧ sampleDecimal.unit = sampleDecimal.unit ∧
    sampleDecimal.unit = sampleDecimal.unit :=
  ⟨rfl, rfl, rfl⟩

/-- A position whose accounting is not known. -/
def heldPosition : Position :=
  ⟨⟨30⟩, sampleRef, sampleDecimal, sampleDecimal, sampleDecimal, sampleDecimal, sampleDecimal,
    .unknown, .owned, heldUnits⟩

/-- One record, read off a curve. -/
def curveSources : PriceSourceSummary := ⟨[⟨.curveInterpolation, 1, by decide⟩], by decide, by decide⟩

/-- The declaration of the held position is accepted. -/
theorem heldCoverage_isSome : (CoverageDeclaration.forCompletePositions (fun _ _ => none)
    [heldPosition] [⟨30⟩] (some curveSources) 0).toOption.isSome := by
  decide +kernel

/-- The declaration over that position. -/
def heldCoverage : CoverageDeclaration :=
  (CoverageDeclaration.forCompletePositions (fun _ _ => none) [heldPosition] [⟨30⟩]
    (some curveSources) 0).toOption.get heldCoverage_isSome

/-- The sensitivity of that position to one factor, its name as long as a hash. -/
def heldExposure : PositionKeyRateExposure :=
  ⟨⟨⟨30⟩, sampleRef, [⟨"treasury.curve.par.maturity.02.y", sampleHash, ⟨5, by decide⟩,
    sampleDecimal.unit, by decide⟩], [sampleHash], [sampleLineage]⟩, by decide⟩

/-- The portfolio of that position. -/
def heldPortfolio : PortfolioKeyRateExposure :=
  ⟨⟨⟨31⟩, ⟨32⟩, none, [heldExposure], ⟨"key-rate", 1, "act-365", by decide⟩, curveSources,
    heldCoverage, [sampleLineage]⟩, heldExposure.exposures, by decide +kernel⟩

/-- The same sensitivity, with one more piece of evidence behind it. -/
def surerExposure : PositionKeyRateExposure :=
  ⟨{ heldExposure.toPositionKeyRateExposureInput with
    inputEvidenceHashes := [sampleHash, .filled 255] }, by decide⟩

/-- The declaration without price sources is accepted. -/
theorem blankCoverage_isSome : (CoverageDeclaration.forCompletePositions (fun _ _ => none)
    [heldPosition] [⟨30⟩] none 0).toOption.isSome := by
  decide +kernel

/-- The declaration over that position without its price sources. -/
def blankCoverage : CoverageDeclaration :=
  (CoverageDeclaration.forCompletePositions (fun _ _ => none) [heldPosition] [⟨30⟩]
    none 0).toOption.get blankCoverage_isSome

/-- The same portfolio, by the next version of the algorithm. -/
def laterPortfolio : PortfolioKeyRateExposure :=
  ⟨{ heldPortfolio.toPortfolioKeyRateExposureInput with
    algorithm := ⟨"key-rate", 2, "act-365", by decide⟩ }, heldExposure.exposures, by decide +kernel⟩

/-- Evidence, price sources and the version of the algorithm are told apart. -/
theorem risk_hashes_bind_sample :
    heldExposure.preimage ≠ surerExposure.preimage ∧
    heldCoverage.canonicalBytes ≠ blankCoverage.canonicalBytes ∧
    heldPortfolio.preimage sampleDigest ≠ laterPortfolio.preimage sampleDigest := by
  have hheld : CoverageDeclaration.Built (fun _ _ => none) heldCoverage :=
    .completePositions (eq_ok_get heldCoverage_isSome)
  have hblank : CoverageDeclaration.Built (fun _ _ => none) blankCoverage :=
    .completePositions (eq_ok_get blankCoverage_isSome)
  have hposition : heldExposure.preimage.length < lengthLimit := by decide +kernel
  obtain ⟨hexposures, hdeclarations, hportfolios⟩ := risk_hashes_bind (fun _ _ => none) sampleDigest
  refine ⟨fun h => ?_, fun h => ?_, fun h => ?_⟩
  · exact absurd (hexposures _ _ hposition h) (by decide +kernel)
  · exact absurd (hdeclarations _ _ hheld hblank (by decide +kernel) h) (by decide +kernel)
  · refine absurd (hportfolios heldPortfolio laterPortfolio hheld hheld ?_ ?_ (by decide +kernel) h)
      (by decide +kernel)
    · intro position hmem
      obtain rfl := List.mem_singleton.mp hmem
      exact hposition
    · intro p hp q hq _
      rw [List.mem_singleton.mp hp, List.mem_singleton.mp hq]

end Sample

end Ficant
