import Ficant.Application.Fingerprint
import Ficant.Market.Bar
import Ficant.Primitives.DecimalArithmetic
import Ficant.Research.PositionSnapshot

namespace Ficant

open Lib

/-!
# Coverage declarations

What a result over many positions was computed from (`ficant-domain/src/research/coverage.rs`, and
the price sources of `exposure.rs`).

* `PriceSourceSummary` — how many records came from each kind of source;
* `CoverageDeclaration` — the imported and the participating positions, their gross economic values
  by unit, and the sources;
* `CoverageDeclaration.WellFormed` — what its constructors guarantee;
* `canonicalBytes_injective` — the bytes determine a well-formed declaration: the two lists of
  amounts are written without a count, but the units increase within each and not from one to the
  next.

`rust_decimal` is third-party code: its `checked_add` is the parameter `add`.
-/

/-! ### Sums of decimals -/

instance : LinearOrder UnitRef :=
  LinearOrder.lift' (fun u => toLex (u.unitId, u.version.value)) fun a b h => by
    obtain ⟨ia, va, _, _⟩ := a
    obtain ⟨ib, vb, _, _⟩ := b
    obtain ⟨rfl, rfl⟩ := Prod.mk.inj (toLex_inj.mp h)
    rfl

theorem UnitRef.ext_fields {a b : UnitRef} (hid : a.unitId = b.unitId)
    (hversion : a.version = b.version) : a = b := by
  cases a
  cases b
  subst hid hversion
  rfl

/-- `Decimal::checked_add`. -/
abbrev DecimalAdd := RustDecimal → RustDecimal → Option RustDecimal

namespace StoredDecimal

theorem ext_fields {a b : StoredDecimal} (hcoefficient : a.coefficient = b.coefficient)
    (hscale : a.scale = b.scale) (hunit : a.unit = b.unit) : a = b := by
  obtain ⟨⟨_, _, _⟩, _⟩ := a
  obtain ⟨⟨_, _, _⟩, _⟩ := b
  subst hcoefficient hscale hunit
  rfl

/-- `DecimalValue::as_decimal`. -/
def asDecimal (v : StoredDecimal) : RustDecimal := ⟨v.coefficient, v.scale⟩

/-- `DecimalValue::checked_add`. -/
def checkedAdd (add : DecimalAdd) (a b : StoredDecimal) : Except DomainErrorCode StoredDecimal :=
  if a.unit ≠ b.unit then .error .invalidUnit
  else match add a.asDecimal b.asDecimal with
    | none => .error .invalidValue
    | some sum => new (String.ofList (decimalChars sum.mantissa)) sum.scale a.unit

/-- Whether `DecimalValue::compare` finds the first value greater. -/
def isGreater (a b : StoredDecimal) : Except DomainErrorCode Bool :=
  if a.unit ≠ b.unit then .error .invalidUnit
  else .ok (b.coefficient * 10 ^ a.scale < a.coefficient * 10 ^ b.scale)

/-- A decimal has the unit that was given. -/
theorem unit_of_new {coefficient : String} {scale : ℕ} {unit : UnitRef} {v : StoredDecimal}
    (h : new coefficient scale unit = .ok v) : v.unit = unit := by
  unfold new at h
  split at h
  · rename_i value hvalue
    obtain rfl := Except.ok.inj h
    exact DecimalValue.unit_of_new hvalue
  · cases h

/-- A sum has the unit of its summands. -/
theorem unit_of_checkedAdd {add : DecimalAdd} {a b v : StoredDecimal}
    (h : checkedAdd add a b = .ok v) : v.unit = a.unit := by
  unfold checkedAdd at h
  split at h
  · cases h
  · split at h
    · cases h
    · exact unit_of_new h

end StoredDecimal

/-! ### Price sources -/

/-- The order of the declaration tells the types apart. -/
theorem ctorIdx_injective : Function.Injective PriceSourceType.ctorIdx := fun a b h => by
  cases a <;> cases b <;> first | rfl | exact absurd h (by decide)

instance : LinearOrder PriceSourceType := LinearOrder.lift' PriceSourceType.ctorIdx ctorIdx_injective

/-- `PriceSourceCount`: a positive number of records. -/
structure PriceSourceCount where
  sourceType : PriceSourceType
  recordCount : UInt64
  positive : recordCount ≠ 0
  deriving DecidableEq

/-- `PriceSourceSummary`: at least one count, in the order of the sources, each once. -/
structure PriceSourceSummary where
  counts : List PriceSourceCount
  nonempty : counts ≠ []
  increasing : counts.Pairwise fun a b => a.sourceType < b.sourceType
  deriving DecidableEq

/-- `PriceSourceCount::new`. -/
def PriceSourceCount.new (sourceType : PriceSourceType) (recordCount : UInt64) :
    Except DomainErrorCode PriceSourceCount :=
  if h : recordCount ≠ 0 then .ok ⟨sourceType, recordCount, h⟩ else .error .invalidValue

/-- `PriceSourceSummary::new`. -/
def PriceSourceSummary.new (counts : List PriceSourceCount) :
    Except DomainErrorCode PriceSourceSummary :=
  if h : counts ≠ [] ∧ counts.Pairwise fun a b => a.sourceType < b.sourceType then
    .ok ⟨counts, h.1, h.2⟩
  else .error .invalidValue

/-- `PriceSourceSummary::mixed`. -/
def PriceSourceSummary.mixed (s : PriceSourceSummary) : Bool := 1 < s.counts.length

/-- `price_source_type_code`. -/
def priceSourceTypeCode : PriceSourceType → UInt8
  | .realTrade => 1
  | .activeQuote => 2
  | .modelValuation => 3
  | .curveInterpolation => 4

theorem priceSourceTypeCode_injective : Function.Injective priceSourceTypeCode := by
  intro a b h
  cases a <;> cases b <;> first | rfl | exact absurd h (by decide)

/-! ### The declaration -/

/-- `CoverageDeclaration`. -/
structure CoverageDeclaration where
  importedPositionCount : UInt64
  participatingPositionCount : UInt64
  importedGross : List StoredDecimal
  participatingGross : List StoredDecimal
  missingCriticalFieldRecordCount : UInt64
  sourceConfidence : Option PriceSourceSummary
  distinctExternalVersionCount : UInt64
  deriving DecidableEq

/-- `u64::try_from` of a length. -/
def lengthU64 (n : ℕ) : Except DomainErrorCode UInt64 :=
  if n < 2 ^ 64 then .ok (UInt64.ofNat n) else .error .invalidValue

/-- `checked_add` of `u64` values. -/
def checkedAddU64 (a b : UInt64) : Option UInt64 :=
  if a.toNat + b.toNat < 2 ^ 64 then some (a + b) else none

namespace CoverageDeclaration

/-- `CoverageDeclaration::for_verified_empty`. -/
def forVerifiedEmpty : CoverageDeclaration := ⟨0, 0, [], [], 0, none, 0⟩

/-- `validate_source_confidence`. -/
def validateSourceConfidence (source : Option PriceSourceSummary) (versions : UInt64) :
    Except DomainErrorCode Unit :=
  match source with
  | none => if versions = 0 then .ok () else .error .invalidValue
  | some summary =>
    let external := summary.counts.filter fun count => count.sourceType ≠ .curveInterpolation
    match external.foldlM (fun total count => checkedAddU64 total count.recordCount) 0 with
    | none => .error .invalidValue
    | some total =>
      if total = 0 then if versions ≠ 0 then .error .invalidValue else .ok ()
      else if versions = 0 ∨ total < versions then .error .invalidValue else .ok ()

/-- `gross`: the absolute value.  A stored coefficient is a 128-bit number and so is its absolute
    value. -/
def gross (value : StoredDecimal) : Except DomainErrorCode StoredDecimal :=
  StoredDecimal.new (String.ofList (decimalChars value.coefficient.natAbs)) value.scale value.unit

/-- One position of the loop of `aggregate_gross`. -/
def addGross (add : DecimalAdd) (totals : SortedMap UnitRef StoredDecimal) (position : Position) :
    Except DomainErrorCode (SortedMap UnitRef StoredDecimal) := do
  let value ← gross position.economicValue
  match totals.get? value.unit with
  | some total =>
    let sum ← total.checkedAdd add value
    return totals.insert value.unit sum
  | none => return totals.insert value.unit value

/-- `aggregate_gross`. -/
def aggregateGross (add : DecimalAdd) (positions : List Position) :
    Except DomainErrorCode (List StoredDecimal) := do
  let totals ← positions.foldlM (addGross add) ∅
  rejectIf (totals.entries = []) .invalidValue
  return totals.entries.map Prod.snd

/-- The participating amount of a unit is not more than the imported one. -/
def checkParticipating (imported : List StoredDecimal) (value : StoredDecimal) :
    Except DomainErrorCode Unit :=
  match imported.find? fun total => total.unit = value.unit with
  | none => .error .invalidUnit
  | some total => do
    let greater ← value.isGreater total
    rejectIf greater .invalidValue

/-- `CoverageDeclaration::for_complete_positions`. -/
def forCompletePositions (add : DecimalAdd) (imported : List Position) (participatingIds : List Ulid)
    (source : Option PriceSourceSummary) (versions : UInt64) :
    Except DomainErrorCode CoverageDeclaration := do
  rejectIf (imported = [] ∨ participatingIds = [] ∨ ¬ participatingIds.Pairwise (· < ·)) .invalidValue
  let participating := imported.filter fun position => position.positionId ∈ participatingIds
  rejectIf (participating.length ≠ participatingIds.length) .invalidValue
  validateSourceConfidence source versions
  let importedCount ← lengthU64 imported.length
  let participatingCount ← lengthU64 participating.length
  let importedGross ← aggregateGross add imported
  let participatingGross ← aggregateGross add participating
  participatingGross.forM (checkParticipating importedGross)
  return ⟨importedCount, participatingCount, importedGross, participatingGross, 0, source, versions⟩

/-! ### The canonical bytes -/

/-- A 64-bit number, as a value. -/
def u64Value (n : UInt64) : List UInt8 := bigEndian 8 n.toNat

/-- `append_amounts`, as the values it appends for one amount. -/
def amountValues (value : StoredDecimal) : List (List UInt8) :=
  [utf8 value.coefficientText, bigEndian 4 value.scale, utf8 value.unit.unitId.text,
    bigEndian 8 value.unit.version.value]

/-- The values of one count of a summary. -/
def countValues (count : PriceSourceCount) : List (List UInt8) :=
  [[priceSourceTypeCode count.sourceType], u64Value count.recordCount]

/-- The values of the sources. -/
def sourceValues : Option PriceSourceSummary → List (List UInt8)
  | some summary =>
    [1] :: summary.counts.flatMap countValues ++ [[if summary.mixed then 1 else 0]]
  | none => [[0]]

/-- `CoverageDeclaration::canonical_bytes`, as the values it appends. -/
def canonicalValues (c : CoverageDeclaration) : List (List UInt8) :=
  [u64Value c.importedPositionCount, u64Value c.participatingPositionCount] ++
  c.importedGross.flatMap amountValues ++ c.participatingGross.flatMap amountValues ++
  [u64Value c.missingCriticalFieldRecordCount] ++ sourceValues c.sourceConfidence ++
  [u64Value c.distinctExternalVersionCount]

/-- `CoverageDeclaration::canonical_bytes`. -/
def canonicalBytes (c : CoverageDeclaration) : List UInt8 := joinChunks c.canonicalValues

/-! ### What the constructors guarantee -/

/-- The units of the imported amounts increase, and no participating amount has another unit. -/
structure WellFormed (c : CoverageDeclaration) : Prop where
  increasing : c.importedGross.Pairwise fun v w => v.unit < w.unit
  covered : ∀ v ∈ c.participatingGross, ∃ w ∈ c.importedGross, w.unit = v.unit

/-- A declaration of no positions is well formed. -/
theorem wellFormed_forVerifiedEmpty : forVerifiedEmpty.WellFormed :=
  ⟨List.Pairwise.nil, fun _ hv => absurd hv List.not_mem_nil⟩

/-- Every total is kept under its own unit. -/
theorem addGross_keyed {add : DecimalAdd} {totals totals' : SortedMap UnitRef StoredDecimal}
    {position : Position} (hkeyed : ∀ unit v, totals.get? unit = some v → v.unit = unit)
    (h : addGross add totals position = .ok totals') :
    ∀ unit v, totals'.get? unit = some v → v.unit = unit := by
  unfold addGross at h
  obtain ⟨value, -, h⟩ := bind_eq_ok.mp h
  have hinsert : ∀ {inserted : StoredDecimal}, inserted.unit = value.unit → ∀ unit v,
      (totals.insert value.unit inserted).get? unit = some v → v.unit = unit := by
    intro inserted hunit unit v hv
    rw [SortedMap.get?_insert] at hv
    split at hv
    · rename_i heq
      obtain rfl := Option.some.inj hv
      rw [hunit, heq]
    · exact hkeyed unit v hv
  split at h
  · rename_i total htotal
    obtain ⟨sum, hsum, h⟩ := bind_eq_ok.mp h
    obtain rfl := Except.ok.inj h
    apply hinsert
    rw [StoredDecimal.unit_of_checkedAdd hsum]
    exact hkeyed _ _ htotal
  · obtain rfl := Except.ok.inj h
    exact hinsert rfl

/-- The amounts come out in the order of their units. -/
theorem aggregateGross_increasing {add : DecimalAdd} {positions : List Position}
    {amounts : List StoredDecimal} (h : aggregateGross add positions = .ok amounts) :
    amounts.Pairwise fun v w => v.unit < w.unit := by
  unfold aggregateGross at h
  obtain ⟨totals, htotals, h⟩ := bind_eq_ok.mp h
  have hkeyed : ∀ unit v, totals.get? unit = some v → v.unit = unit :=
    foldlM_induction (motive := fun _ m => ∀ unit v, m.get? unit = some v → v.unit = unit)
      (fun unit v hv => by rw [SortedMap.get?_empty] at hv; cases hv)
      (fun _ _ _ _ hm hstep => addGross_keyed hm hstep) htotals
  obtain ⟨-, -, h⟩ := bind_eq_ok.mp h
  obtain rfl := Except.ok.inj h
  rw [List.pairwise_map]
  refine totals.sorted.imp_of_mem fun {e e'} he he' hlt => ?_
  rw [hkeyed e.1 e.2 (SortedMap.mem_entries_iff.mp he),
    hkeyed e'.1 e'.2 (SortedMap.mem_entries_iff.mp he')]
  exact hlt

/-- **A declaration over positions** is well formed. -/
theorem wellFormed_of_forCompletePositions {add : DecimalAdd} {imported : List Position}
    {participatingIds : List Ulid} {source : Option PriceSourceSummary} {versions : UInt64}
    {c : CoverageDeclaration}
    (h : forCompletePositions add imported participatingIds source versions = .ok c) :
    c.WellFormed := by
  unfold forCompletePositions at h
  obtain ⟨-, -, h⟩ := bind_eq_ok.mp h
  obtain ⟨-, -, h⟩ := bind_eq_ok.mp h
  obtain ⟨-, -, h⟩ := bind_eq_ok.mp h
  obtain ⟨importedCount, -, h⟩ := bind_eq_ok.mp h
  obtain ⟨participatingCount, -, h⟩ := bind_eq_ok.mp h
  obtain ⟨importedGross, himported, h⟩ := bind_eq_ok.mp h
  obtain ⟨participatingGross, hparticipating, h⟩ := bind_eq_ok.mp h
  obtain ⟨⟨⟩, hchecked, h⟩ := bind_eq_ok.mp h
  obtain rfl := Except.ok.inj h
  refine ⟨aggregateGross_increasing himported, fun v hv => ?_⟩
  have hcheck := forM_eq_ok.mp hchecked v hv
  unfold checkParticipating at hcheck
  split at hcheck
  · cases hcheck
  · rename_i total htotal
    exact ⟨total, List.mem_of_find?_eq_some htotal, by simpa using List.find?_some htotal⟩

/-! ### When a declaration over all positions fails -/

/-- An absolute value is always a value of the same unit. -/
theorem exists_gross (value : StoredDecimal) : ∃ v, gross value = .ok v ∧ v.unit = value.unit := by
  have hnormal : (⟨value.coefficient.natAbs, value.scale, value.unit⟩ : DecimalValue).Normal := by
    refine ⟨?_, value.normal.scale, ?_⟩
    · exact value.normal.digits
    · intro hne
      exact value.normal.trimmed fun hzero => hne (by simp [hzero])
  have hparsed := DecimalValue.new_coefficientText hnormal
  have hnew : ∃ v, gross value = .ok v := by
    unfold gross StoredDecimal.new
    split
    · exact ⟨_, rfl⟩
    · rename_i error herror
      exact nomatch (show Except.ok _ = Except.error error from hparsed.symm.trans herror)
  obtain ⟨v, hv⟩ := hnew
  exact ⟨v, hv, StoredDecimal.unit_of_new hv⟩

/-- The total of a unit over the first positions and the amount of the next one have no sum. -/
def TotalsOverflow (add : DecimalAdd) (positions : List Position) : Prop :=
  ∃ done position rest totals total value, positions = done ++ position :: rest ∧
    done.foldlM (addGross add) ∅ = .ok totals ∧ gross position.economicValue = .ok value ∧
    totals.get? value.unit = some total ∧ ∃ error, total.checkedAdd add value = .error error

/-- A position fails only by its sum. -/
theorem addGross_error {add : DecimalAdd} {totals : SortedMap UnitRef StoredDecimal}
    {position : Position} {error : DomainErrorCode} (h : addGross add totals position = .error error) :
    ∃ total value, gross position.economicValue = .ok value ∧
      totals.get? value.unit = some total ∧ ∃ error, total.checkedAdd add value = .error error := by
  obtain ⟨value, hvalue, -⟩ := exists_gross position.economicValue
  unfold addGross at h
  rw [hvalue, ok_bind] at h
  split at h
  · rename_i total htotal
    cases hsum : total.checkedAdd add value with
    | ok sum =>
      rw [hsum] at h
      cases h
    | error code => exact ⟨total, value, hvalue, htotal, code, hsum⟩
  · cases h

/-- **Totals of some positions** fail exactly when one of their sums does. -/
theorem foldlM_addGross_error_iff {add : DecimalAdd} {positions : List Position} :
    (∃ error, positions.foldlM (addGross add) ∅ = .error error) ↔ TotalsOverflow add positions := by
  constructor
  · rintro ⟨error, h⟩
    obtain ⟨done, position, rest, totals, rfl, hdone, hstep⟩ := foldlM_error h
    obtain ⟨total, value, hvalue, htotal, hsum⟩ := addGross_error hstep
    exact ⟨done, position, rest, totals, total, value, rfl, hdone, hvalue, htotal, hsum⟩
  · rintro ⟨done, position, rest, totals, total, value, rfl, hdone, hvalue, htotal, code, hsum⟩
    have hstep : addGross add totals position = .error code := by
      unfold addGross
      rw [hvalue, ok_bind, htotal]
      show (total.checkedAdd add value >>= _) = _
      rw [hsum]
      rfl
    refine ⟨code, ?_⟩
    rw [List.foldlM_append, hdone, ok_bind, List.foldlM_cons, hstep]
    rfl

/-- Something has been added up. -/
theorem entries_ne_nil_of_foldlM {add : DecimalAdd} {positions : List Position}
    (hne : positions ≠ []) {totals : SortedMap UnitRef StoredDecimal}
    (h : positions.foldlM (addGross add) ∅ = .ok totals) : totals.entries ≠ [] := by
  have hsome : positions ≠ [] → ∃ unit v, totals.get? unit = some v := by
    refine foldlM_induction (motive := fun done m => done ≠ [] → ∃ unit v, m.get? unit = some v)
      (fun hnil => absurd rfl hnil) ?_ h
    intro done position m m' _ hstep _
    unfold addGross at hstep
    obtain ⟨value, -, hstep⟩ := bind_eq_ok.mp hstep
    split at hstep
    · obtain ⟨sum, -, hstep⟩ := bind_eq_ok.mp hstep
      obtain rfl := Except.ok.inj hstep
      exact ⟨value.unit, sum, SortedMap.get?_insert_self _ _ _⟩
    · obtain rfl := Except.ok.inj hstep
      exact ⟨value.unit, value, SortedMap.get?_insert_self _ _ _⟩
  obtain ⟨unit, v, hv⟩ := hsome hne
  exact List.ne_nil_of_mem (SortedMap.mem_entries_iff.mpr hv)

/-- No amount is greater than itself. -/
theorem forM_checkParticipating_self {amounts : List StoredDecimal}
    (hincreasing : amounts.Pairwise fun v w => v.unit < w.unit) :
    amounts.forM (checkParticipating amounts) = .ok () := by
  rw [forM_eq_ok]
  intro value hvalue
  unfold checkParticipating
  have hnodup : (amounts.map fun v => v.unit).Nodup := by
    rw [List.Nodup, List.pairwise_map]
    exact hincreasing.imp fun hlt => ne_of_lt hlt
  cases hfind : amounts.find? fun total => decide (total.unit = value.unit) with
  | none =>
    have hnone := List.find?_eq_none.mp hfind value hvalue
    exact absurd (decide_eq_true rfl) hnone
  | some total =>
    have hunit : total.unit = value.unit := by simpa using List.find?_some hfind
    -- one amount for each unit
    have hsame : total = value :=
      List.inj_on_of_nodup_map hnodup (List.mem_of_find?_eq_some hfind) hvalue hunit
    rw [hsame]
    show (value.isGreater value >>= _) = _
    rw [StoredDecimal.isGreater, if_neg (not_not.mpr rfl), ok_bind]
    exact rejectIf_eq_ok.mpr (by simp)

/-- What a declaration over all positions reports. -/
def ofTotals (positions : List Position) (amounts : List StoredDecimal) : CoverageDeclaration :=
  ⟨UInt64.ofNat positions.length, UInt64.ofNat positions.length, amounts, amounts, 0, none, 0⟩

/-- A declaration over all positions adds them up once. -/
theorem forCompletePositions_all {add : DecimalAdd} {positions : List Position}
    (hne : positions ≠ []) (hsorted : (positions.map (·.positionId)).Pairwise (· < ·)) :
    forCompletePositions add positions (positions.map (·.positionId)) none 0 = (do
      let _ ← lengthU64 positions.length
      let amounts ← aggregateGross add positions
      return ofTotals positions amounts) := by
  have hfilter : positions.filter (fun position =>
      decide (position.positionId ∈ positions.map (·.positionId))) = positions := by
    rw [List.filter_eq_self]
    intro position hposition
    exact decide_eq_true (List.mem_map_of_mem hposition)
  have hchecks : rejectIf (positions = [] ∨ positions.map (·.positionId) = [] ∨
      ¬ (positions.map (·.positionId)).Pairwise (· < ·)) DomainErrorCode.invalidValue = .ok () := by
    rw [rejectIf_eq_ok, not_or, not_or, not_not]
    exact ⟨hne, fun hnil => hne (List.map_eq_nil_iff.mp hnil), hsorted⟩
  have hcounts : rejectIf (positions.length ≠ (positions.map (·.positionId)).length)
      DomainErrorCode.invalidValue = .ok () := by
    rw [rejectIf_eq_ok, List.length_map, not_not]
  have hsource : validateSourceConfidence none 0 = .ok () := rfl
  unfold forCompletePositions
  simp only [hchecks, ok_bind, hfilter, hcounts, hsource]
  unfold lengthU64
  split
  · simp only [ok_bind]
    cases hgross : aggregateGross add positions with
    | error code => rfl
    | ok amounts =>
      simp only [ok_bind, forM_checkParticipating_self (aggregateGross_increasing hgross)]
      rfl
  · rfl

/-- **A declaration over all positions** fails exactly when they cannot be counted, or when one of
    the sums of their amounts cannot be represented. -/
theorem forCompletePositions_error_iff {add : DecimalAdd} {positions : List Position}
    (hne : positions ≠ []) (hsorted : (positions.map (·.positionId)).Pairwise (· < ·)) :
    (∃ error, forCompletePositions add positions (positions.map (·.positionId)) none 0 =
        .error error) ↔ 2 ^ 64 ≤ positions.length ∨ TotalsOverflow add positions := by
  rw [forCompletePositions_all hne hsorted, ← foldlM_addGross_error_iff]
  unfold lengthU64 aggregateGross
  by_cases hlength : positions.length < 2 ^ 64
  · rw [if_pos hlength, ok_bind, or_iff_right (not_le.mpr hlength)]
    cases hfold : positions.foldlM (addGross add) ∅ with
    | error code => exact ⟨fun _ => ⟨code, rfl⟩, fun _ => ⟨code, rfl⟩⟩
    | ok totals =>
      have hentries : rejectIf (totals.entries = []) DomainErrorCode.invalidValue = .ok () :=
        rejectIf_eq_ok.mpr (entries_ne_nil_of_foldlM hne hfold)
      rw [ok_bind, hentries]
      constructor
      · rintro ⟨error, h⟩
        cases h
      · rintro ⟨error, h⟩
        cases h
  · rw [if_neg hlength]
    exact iff_of_true ⟨_, rfl⟩ (.inl (not_lt.mp hlength))

/-! ### The bytes determine the declaration -/

/-- Numbers of eight bytes are told apart. -/
theorem u64Value_injective : Function.Injective u64Value := fun a b h =>
  UInt64.toNat_inj.mp (eq_of_bigEndian8 a.toNat_lt b.toNat_lt h)

theorem length_u64Value (n : UInt64) : (u64Value n).length = 8 := length_bigEndian 8 _

/-- An amount takes as many values as every other one. -/
theorem delimited_amountValues : Delimited amountValues := by
  intro v w r s h
  simp only [amountValues, List.cons_append, List.nil_append, List.cons.injEq] at h
  obtain ⟨hcoefficient, hscale, hunit, hversion, hrest⟩ := h
  have hsmall : ∀ x : StoredDecimal, x.scale < 256 ^ 4 := fun x => by
    have := x.normal.scale
    omega
  refine ⟨StoredDecimal.ext_fields ?_ ?_ ?_, hrest⟩
  · exact DecimalValue.coefficient_eq_of_text (utf8_inj hcoefficient)
  · exact bigEndian_inj (hsmall v) (hsmall w) hscale
  · exact UnitRef.ext_fields (Ulid.eq_of_utf8 hunit) (Version.eq_of_bigEndian hversion)

/-- So does a count. -/
theorem delimited_countValues : Delimited countValues := by
  intro a b r s h
  simp only [countValues, List.cons_append, List.nil_append, List.cons.injEq] at h
  obtain ⟨⟨htype, -⟩, hcount, hrest⟩ := h
  refine ⟨?_, hrest⟩
  obtain ⟨type, count, _⟩ := a
  obtain ⟨type', count', _⟩ := b
  obtain rfl := priceSourceTypeCode_injective htype
  obtain rfl := u64Value_injective hcount
  rfl

/-- The sources in front of the last value. -/
theorem sourceValues_inj {a b : Option PriceSourceSummary} {v w : List UInt8}
    (h : sourceValues a ++ [v] = sourceValues b ++ [w]) : a = b ∧ v = w := by
  cases a with
  | none =>
    cases b with
    | none => exact ⟨rfl, (List.cons.inj (List.cons.inj h).2).1⟩
    | some b => exact absurd (List.cons.inj h).1 (by decide)
  | some a =>
    cases b with
    | none => exact absurd (List.cons.inj h).1 (by decide)
    | some b =>
      simp only [sourceValues, List.cons_append, List.append_assoc, List.cons.injEq, true_and] at h
      -- both ends are two values long, and the counts are all that stands before them
      obtain ⟨hcounts, hend⟩ := List.append_inj' h rfl
      simp only [List.nil_append, List.cons.injEq, and_true] at hend
      refine ⟨?_, hend.2⟩
      rw [← List.append_nil (a.counts.flatMap _), ← List.append_nil (b.counts.flatMap _)] at hcounts
      have hlist := delimited_countValues.list (fun r => r ≠ [])
        (fun _ _ => List.cons_ne_nil _ _) (not_not.mpr rfl) (not_not.mpr rfl) hcounts
      obtain ⟨counts, _, _⟩ := a
      obtain ⟨counts', _, _⟩ := b
      obtain rfl := hlist.1
      rfl

/-- Where the imported amounts end: the next unit is one of theirs. -/
theorem split_amounts {l l' m m' : List StoredDecimal}
    (hl' : l'.Pairwise fun v w => v.unit < w.unit)
    (hm : ∀ v ∈ m, ∃ w ∈ l, w.unit = v.unit) {t : List StoredDecimal} (hlt : l' = l ++ t)
    (hmt : m = t ++ m') : l = l' ∧ m = m' := by
  cases t with
  | nil => exact ⟨by simpa using hlt.symm, hmt⟩
  | cons v t =>
    -- the first amount after `l` would have a greater unit than all of `l`, and one of theirs
    subst hlt hmt
    obtain ⟨w, hw, hunit⟩ := hm v List.mem_cons_self
    have hless := (List.pairwise_append.mp hl').2.2 w hw v List.mem_cons_self
    exact absurd hunit (ne_of_lt hless)

/-- **The bytes determine a well-formed declaration.** -/
theorem canonicalBytes_injective {a b : CoverageDeclaration} (ha : a.WellFormed) (hb : b.WellFormed)
    (hlength : a.canonicalBytes.length < lengthLimit) (h : a.canonicalBytes = b.canonicalBytes) :
    a = b := by
  have hvalues := joinChunks_inj hlength h
  simp only [canonicalValues, List.append_assoc, List.cons_append, List.nil_append,
    List.cons.injEq] at hvalues
  obtain ⟨himported, hparticipating, hvalues⟩ := hvalues
  rw [← List.append_assoc, ← List.append_assoc, ← List.flatMap_append,
    ← List.flatMap_append] at hvalues
  have hends : ∀ (n : UInt64) (source : Option PriceSourceSummary) (r : List (List UInt8)),
      lengthAt 1 (u64Value n :: (sourceValues source ++ r)) ≠ some 4 := by
    intro n source r
    cases source <;> simp [sourceValues]
  obtain ⟨hamounts, hvalues⟩ := delimited_amountValues.list (fun r => lengthAt 1 r = some 4)
    (fun _ _ => by simp [amountValues]) (hends _ _ _) (hends _ _ _) hvalues
  obtain ⟨hmissing, hvalues⟩ := List.cons.inj hvalues
  obtain ⟨hsource, hversions⟩ := sourceValues_inj hvalues
  have hsplit : a.importedGross = b.importedGross ∧ a.participatingGross = b.participatingGross := by
    rcases List.append_eq_append_iff.mp hamounts with ⟨t, hlt, hmt⟩ | ⟨t, hlt, hmt⟩
    · exact split_amounts hb.increasing ha.covered hlt hmt
    · obtain ⟨hl, hm⟩ := split_amounts ha.increasing hb.covered hlt hmt
      exact ⟨hl.symm, hm.symm⟩
  obtain ⟨i, p, ig, pg, m, s, d⟩ := a
  obtain ⟨i', p', ig', pg', m', s', d'⟩ := b
  obtain rfl := u64Value_injective himported
  obtain rfl := u64Value_injective hparticipating
  obtain rfl := u64Value_injective hmissing
  obtain rfl := u64Value_injective hversions
  obtain ⟨rfl, rfl⟩ := hsplit
  obtain rfl := hsource
  rfl

end CoverageDeclaration

end Ficant
