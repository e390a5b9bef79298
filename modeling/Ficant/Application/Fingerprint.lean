import Ficant.Lib.Fields
import Ficant.Lib.StableSort
import Ficant.Primitives.DecimalText
import Ficant.Research.ExperimentRun
import Ficant.Research.JournalBytes

namespace Ficant

open Lib

/-!
# Canonical fingerprints

`FingerprintBuilder` writes a schema name and tagged, length-delimited fields, and the operation
fingerprint is the digest of these bytes (`ficant-application/src/ports/fingerprint.rs`).

* `fingerprintBytes` — a schema with its fields, which the bytes determine
  (`fingerprintBytes_inj`);
* `versionRefBytes`, `decimalBytes`, `marketTimeBytes`, … — the values of the domain primitives, each
  determined by its bytes (`injects_versionRef`, …);
* `lineageBytes` — a list of lineage references in a fixed order, so that the bytes determine the
  list up to its order and nothing else (`lineageBytes_eq_iff`);
* `AccessScope` — whose fingerprint is the first use of them.
-/

/-! ### The builder -/

/-- `FingerprintBuilder::new` with fields. -/
def fingerprintBytes (schema : String) (fields : List (UInt8 × List UInt8)) : List UInt8 :=
  utf8 "FCMD" ++ bigEndian 2 1 ++
    ((1, utf8 schema) :: fields).flatMap fun field => taggedField [field.1] field.2

/-- The bytes determine the schema and the fields. -/
theorem fingerprintBytes_inj {schema schema' : String} {fields fields' : List (UInt8 × List UInt8)}
    (hlength : (fingerprintBytes schema fields).length < lengthLimit)
    (h : fingerprintBytes schema fields = fingerprintBytes schema' fields') :
    schema = schema' ∧ fields = fields' := by
  rw [fingerprintBytes, List.length_append] at hlength
  have hfields : (1, utf8 schema) :: fields = (1, utf8 schema') :: fields' := by
    apply taggedFields_inj
    · rw [taggedFields]
      omega
    · exact List.append_cancel_left h
  simp only [List.cons.injEq, Prod.mk.injEq, true_and] at hfields
  exact ⟨utf8_inj hfields.1, hfields.2⟩

/-- Every field of a value is shorter than the whole. -/
theorem length_lt_of_mem_fields {schema : String} {fields : List (UInt8 × List UInt8)}
    (hlength : (fingerprintBytes schema fields).length < lengthLimit)
    {field : UInt8 × List UInt8} (hmem : field ∈ fields) : field.2.length < lengthLimit := by
  rw [fingerprintBytes, List.length_append] at hlength
  have hle := length_le_taggedFields (List.mem_cons_of_mem (1, utf8 schema) hmem)
  rw [taggedFields] at hle
  omega

/-- Values of one schema have the same fields, and none of these is too long. -/
theorem fields_eq_of_bytes {schema : String} {fields fields' : List (UInt8 × List UInt8)}
    (hlength : (fingerprintBytes schema fields).length < lengthLimit)
    (h : fingerprintBytes schema fields = fingerprintBytes schema fields') :
    fields = fields' ∧ ∀ field ∈ fields, field.2.length < lengthLimit :=
  ⟨(fingerprintBytes_inj hlength h).2, fun _ hmem => length_lt_of_mem_fields hlength hmem⟩

/-- A list of values is determined by the list of their bytes. -/
theorem map_eq_of_injects {α : Type*} {ok : α → Prop} {write : α → List UInt8} {l m : List α}
    (h : Injects ok write) (hl : ∀ a ∈ l, ok a) (hm : ∀ a ∈ m, ok a)
    (hshort : ∀ a ∈ l, (write a).length < lengthLimit) (heq : l.map write = m.map write) :
    l = m := by
  induction l generalizing m with
  | nil => exact (List.map_eq_nil_iff.mp heq.symm).symm
  | cons a l ih =>
    cases m with
    | nil => cases heq
    | cons b m =>
      simp only [List.map_cons, List.cons.injEq] at heq
      have hhead := h.eq (hl a List.mem_cons_self) (hm b List.mem_cons_self)
        (hshort a List.mem_cons_self) heq.1
      have htail := ih (fun x hx => hl x (List.mem_cons_of_mem _ hx))
        (fun x hx => hm x (List.mem_cons_of_mem _ hx))
        (fun x hx => hshort x (List.mem_cons_of_mem _ hx)) heq.2
      rw [hhead, htail]

/-- Fields of one tag at the end of a value. -/
theorem map_tag_inj {α : Type*} {write : α → List UInt8} {tag : UInt8} {l m : List α}
    (h : (l.map fun a => (tag, write a)) = m.map fun a => (tag, write a)) :
    l.map write = m.map write :=
  (map_tag_append_inj (r := []) (s := []) (by simp) (by simp) (by simpa using h)).1

/-! ### Values of the primitives -/

/-- Identifiers, dates, versions and hashes are told apart by what is written of them. -/
theorem Ulid.eq_of_utf8 {a b : Ulid} (h : utf8 a.text = utf8 b.text) : a = b :=
  Ulid.text_injective (utf8_inj h)

theorem NaiveDate.eq_of_utf8 {a b : NaiveDate} (h : utf8 a.text = utf8 b.text) : a = b :=
  NaiveDate.text_injective (utf8_inj h)

theorem Version.ext_value {a b : Version} (h : a.value = b.value) : a = b := by
  cases a
  cases b
  simpa using h

theorem ContentHash.ext_bytes {a b : ContentHash} (h : a.bytes = b.bytes) : a = b := by
  cases a
  cases b
  simpa using h

/-- A 64-bit number is read back from its eight bytes. -/
theorem eq_of_bigEndian8 {m n : ℕ} (hm : m < 2 ^ 64) (hn : n < 2 ^ 64)
    (h : bigEndian 8 m = bigEndian 8 n) : m = n := bigEndian_inj (by omega) (by omega) h

theorem Version.eq_of_bigEndian {a b : Version} (h : bigEndian 8 a.value = bigEndian 8 b.value) :
    a = b := Version.ext_value (eq_of_bigEndian8 a.fits b.fits h)

/-- The text of a coefficient tells it apart. -/
theorem DecimalValue.coefficient_eq_of_text {a b : DecimalValue}
    (h : a.coefficientText = b.coefficientText) : a.coefficient = b.coefficient := by
  have htext := congrArg String.toList h
  simp only [DecimalValue.coefficientText, String.toList_ofList] at htext
  exact decimalChars_injective htext

/-- What `compare_lineage` compares, in order: the identifier, the version and the hash, where a
    missing one comes first. -/
def LineageRef.key (reference : LineageRef) : ℕ ×ₗ WithBot ℕ ×ₗ WithBot (List ℕ) :=
  toLex (reference.objectId.value, toLex
    (reference.version.elim ⊥ fun version => (version.value : WithBot ℕ),
      reference.contentHash.elim ⊥ fun hash => ((hash.bytes.map UInt8.toNat : List ℕ) :
        WithBot (List ℕ))))

/-- The key that a lineage is sorted by tells references apart. -/
theorem LineageRef.key_injective : Function.Injective LineageRef.key := by
  rintro ⟨ida, va, ha⟩ ⟨idb, vb, hb⟩ h
  simp only [LineageRef.key, toLex_inj, Prod.mk.injEq] at h
  obtain ⟨hid, hversion, hhash⟩ := h
  -- Equal parts of the key give equal fields; absence comes before every value.
  have hids : ida = idb := by
    cases ida
    cases idb
    simpa [Fin.ext_iff] using hid
  have hversions : va = vb := by
    rcases va with _ | va <;> rcases vb with _ | vb
    · rfl
    · simp at hversion
    · simp at hversion
    · rw [Version.ext_value (WithBot.coe_inj.mp hversion)]
  have hhashes : ha = hb := by
    rcases ha with _ | ha <;> rcases hb with _ | hb
    · rfl
    · simp at hhash
    · simp at hhash
    · have hbytes := WithBot.coe_inj.mp hhash
      rw [ContentHash.ext_bytes (List.map_injective_iff.mpr (fun _ _ => UInt8.toNat_inj.mp) hbytes)]
  rw [hids, hversions, hhashes]

/-- `owner_bytes`. -/
def ownerRefBytes (owner : OwnerRef) : List UInt8 :=
  fingerprintBytes "owner-ref/v1" [(2, utf8 owner.tenantId.text), (3, utf8 owner.ownerId.text)]

/-- An owner is told apart by its two identifiers. -/
theorem injects_ownerRef : Injects (fun _ => True) ownerRefBytes := by
  intro a b _ _ la _ h
  obtain ⟨hfields, -⟩ := fields_eq_of_bytes la h
  simp only [List.cons.injEq, Prod.mk.injEq, true_and, and_true] at hfields
  obtain ⟨htenant, howner⟩ := hfields
  cases a
  cases b
  rw [OwnerRef.mk.injEq]
  exact ⟨Ulid.eq_of_utf8 htenant, Ulid.eq_of_utf8 howner⟩

namespace Fingerprint

/-- The fields of an identifier with a version, under a schema of its own. -/
def versionedBytes (schema : String) (id : Ulid) (version : Version) : List UInt8 :=
  fingerprintBytes schema [(2, utf8 id.text), (3, bigEndian 8 version.value)]

/-- A versioned reference is told apart, whatever its schema is called. -/
theorem versionedBytes_inj {schema : String} {id id' : Ulid} {version version' : Version}
    (hlength : (versionedBytes schema id version).length < lengthLimit)
    (h : versionedBytes schema id version = versionedBytes schema id' version') :
    id = id' ∧ version = version' := by
  obtain ⟨hfields, -⟩ := fields_eq_of_bytes hlength h
  simp only [List.cons.injEq, Prod.mk.injEq, true_and, and_true] at hfields
  exact ⟨Ulid.eq_of_utf8 hfields.1, Version.eq_of_bigEndian hfields.2⟩

/-- `version_ref_bytes`. -/
def versionRefBytes (reference : VersionRef) : List UInt8 :=
  versionedBytes "version-ref/v1" reference.id reference.version

/-- A reference is told apart by its identifier and its version. -/
theorem injects_versionRef : Injects (fun _ => True) versionRefBytes := by
  intro a b _ _ la _ h
  obtain ⟨hid, hversion⟩ := versionedBytes_inj la h
  cases a
  cases b
  simp_all

/-- `unit_ref_bytes`. -/
def unitRefBytes (reference : UnitRef) : List UInt8 :=
  versionedBytes "unit-ref/v1" reference.unitId reference.version

/-- A unit is told apart by its identifier and its version. -/
theorem injects_unitRef : Injects (fun _ => True) unitRefBytes := by
  intro a b _ _ la _ h
  obtain ⟨hid, hversion⟩ := versionedBytes_inj la h
  cases a
  cases b
  simp_all

/-- `decimal_bytes`. -/
def decimalBytes (decimal : DecimalValue) : List UInt8 :=
  fingerprintBytes "decimal/v1"
    [(2, utf8 decimal.coefficientText), (3, bigEndian 8 decimal.scale),
      (4, unitRefBytes decimal.unit)]

/-- A decimal is told apart by its coefficient, its scale and its unit. -/
theorem injects_decimal : Injects (fun v : DecimalValue => v.scale < 2 ^ 64) decimalBytes := by
  intro a b ha hb la _ h
  obtain ⟨hfields, hshort⟩ := fields_eq_of_bytes la h
  simp only [List.cons.injEq, Prod.mk.injEq, true_and, and_true] at hfields
  obtain ⟨htext, hscale, hunit⟩ := hfields
  have hcoefficient := DecimalValue.coefficient_eq_of_text (utf8_inj htext)
  have hscales := eq_of_bigEndian8 ha hb hscale
  have hunits : a.unit = b.unit :=
    injects_unitRef.eq trivial trivial (hshort (4, unitRefBytes a.unit) (by simp)) hunit
  cases a
  cases b
  simp_all

/-- `market_time_bytes`. -/
def marketTimeBytes (time : MarketTime) : List UInt8 :=
  fingerprintBytes "market-time/v1"
    [(2, secondsBytes time.instant), (3, nanosBytes time.instant), (4, utf8 time.marketTimezone),
      (5, utf8 time.localTradingDate.text)]

/-- A time is told apart by its instant, its zone and its date. -/
theorem injects_marketTime : Injects (fun _ => True) marketTimeBytes := by
  intro a b _ _ la _ h
  obtain ⟨hfields, -⟩ := fields_eq_of_bytes la h
  simp only [List.cons.injEq, Prod.mk.injEq, true_and, and_true] at hfields
  obtain ⟨hseconds, hnanos, hzone, hdate⟩ := hfields
  cases a
  cases b
  rw [MarketTime.mk.injEq]
  exact ⟨instant_eq_of_bytes hseconds hnanos, utf8_inj hzone, NaiveDate.eq_of_utf8 hdate⟩

/-- `period_bytes`. -/
def periodBytes (period : EffectivePeriod) : List UInt8 :=
  fingerprintBytes "effective-period/v1"
    [(2, marketTimeBytes period.from_), (3, marketTimeBytes period.to_)]

/-- A period is told apart by its two times. -/
theorem injects_period : Injects (fun _ => True) periodBytes := by
  intro a b _ _ la _ h
  obtain ⟨hfields, hshort⟩ := fields_eq_of_bytes la h
  simp only [List.cons.injEq, Prod.mk.injEq, true_and, and_true] at hfields
  have hfrom := injects_marketTime.eq trivial trivial (hshort (2, marketTimeBytes a.from_) (by simp))
    hfields.1
  have hto := injects_marketTime.eq trivial trivial (hshort (3, marketTimeBytes a.to_) (by simp))
    hfields.2
  cases a
  cases b
  simp_all

/-- `optional_id_bytes`. -/
def optionalIdBytes : Option Ulid → List UInt8
  | some id => 1 :: utf8 id.text
  | none => [0]

/-- An identifier that may be missing is told apart from one that is. -/
theorem optionalIdBytes_injective : Function.Injective optionalIdBytes := by
  rintro (_ | a) (_ | b) h
  · rfl
  · simp [optionalIdBytes] at h
  · simp [optionalIdBytes] at h
  · rw [Ulid.eq_of_utf8 (List.cons.inj h).2]

/-! ### Lineage -/

/-- The field that `optional_u64` writes. -/
def optionalU64Bytes : Option ℕ → List UInt8
  | some n => 1 :: bigEndian 8 n
  | none => [0]

/-- A version that may be missing is told apart from one that is. -/
theorem optionalU64Bytes_version_inj {a b : Option Version}
    (h : optionalU64Bytes (a.map Version.value) = optionalU64Bytes (b.map Version.value)) : a = b := by
  rcases a with _ | a <;> rcases b with _ | b
  · rfl
  · simp [optionalU64Bytes] at h
  · simp [optionalU64Bytes] at h
  · rw [Version.eq_of_bigEndian (List.cons.inj h).2]

/-- The fields of an optional hash. -/
def optionalHashFields : Option ContentHash → List (UInt8 × List UInt8)
  | some hash => [(4, [1]), (5, hash.bytes)]
  | none => [(4, [0])]

/-- A hash that may be missing has a field of its own. -/
theorem optionalHashFields_injective : Function.Injective optionalHashFields := by
  rintro (_ | a) (_ | b) h
  · rfl
  · simp [optionalHashFields] at h
  · simp [optionalHashFields] at h
  · simp only [optionalHashFields, List.cons.injEq, Prod.mk.injEq, true_and, and_true] at h
    rw [ContentHash.ext_bytes h]

/-- `lineage_ref_bytes`. -/
def lineageRefBytes (reference : LineageRef) : List UInt8 :=
  fingerprintBytes "lineage-ref/v1"
    ((2, utf8 reference.objectId.text) ::
      (3, optionalU64Bytes (reference.version.map Version.value)) ::
      optionalHashFields reference.contentHash)

/-- A reference to an object is told apart by all that it has. -/
theorem injects_lineageRef : Injects (fun _ => True) lineageRefBytes := by
  intro a b _ _ la _ h
  obtain ⟨hfields, -⟩ := fields_eq_of_bytes la h
  simp only [List.cons.injEq, Prod.mk.injEq, true_and] at hfields
  obtain ⟨hid, hversion, hhash⟩ := hfields
  cases a
  cases b
  rw [LineageRef.mk.injEq]
  exact ⟨Ulid.eq_of_utf8 hid, optionalU64Bytes_version_inj hversion,
    optionalHashFields_injective hhash⟩

/-- The order of `compare_lineage`. -/
def compareLineage (left right : LineageRef) : Prop := left.key ≤ right.key

instance : DecidableRel compareLineage := fun left right =>
  inferInstanceAs (Decidable (left.key ≤ right.key))

instance : Std.Total compareLineage := ⟨fun left right => le_total left.key right.key⟩

instance : IsTrans LineageRef compareLineage := ⟨fun _ _ _ => le_trans⟩

/-- The order of a lineage is one of its references, not of their keys only. -/
theorem compareLineage_antisymm (left right : LineageRef) (h : compareLineage left right)
    (h' : compareLineage right left) : left = right :=
  LineageRef.key_injective (le_antisymm h h')

/-- `lineage_bytes`. -/
def lineageBytes (lineage : List LineageRef) : List UInt8 :=
  fingerprintBytes "lineage-list/v1"
    ((2, bigEndian 8 lineage.length) ::
      (lineage.insertionSort compareLineage).map fun reference => (3, lineageRefBytes reference))

/-- The bytes of a list of lineage references determine the references, and not their order. -/
theorem lineageBytes_eq_iff {l m : List LineageRef}
    (hlength : (lineageBytes l).length < lengthLimit) :
    lineageBytes l = lineageBytes m ↔ l.Perm m := by
  constructor
  · intro h
    obtain ⟨hfields, hshort⟩ := fields_eq_of_bytes hlength h
    rw [← insertionSort_eq_iff_perm compareLineage compareLineage_antisymm]
    refine map_eq_of_injects injects_lineageRef (by simp) (by simp) ?_
      (map_tag_inj (List.cons.inj hfields).2)
    intro reference hmem
    exact hshort (3, lineageRefBytes reference) (List.mem_cons_of_mem _ (List.mem_map_of_mem hmem))
  · intro h
    rw [lineageBytes, lineageBytes, h.length_eq,
      (insertionSort_eq_iff_perm compareLineage compareLineage_antisymm).mpr h]

end Fingerprint

/-! ### The scope of a caller -/

/-- `IdempotencyOutcome`: whether a request is new or was made before. -/
inductive IdempotencyOutcome
  | fresh | replay
  deriving DecidableEq, Repr

/-- `AccessScope`. -/
structure AccessScope where
  tenantId : Ulid
  actorId : Ulid
  allowedOwnerIds : List Ulid
  fingerprint : ContentHash
  deriving DecidableEq

/-- `AccessScope::new`. -/
def AccessScope.new (digest : List UInt8 → ContentHash) (tenantId actorId : Ulid)
    (allowedOwnerIds : List Ulid) : Except ApplicationError AccessScope :=
  let owners := SortedMap.sortedSet allowedOwnerIds
  if owners = [] then .error ⟨.validationFailed, false⟩
  else .ok ⟨tenantId, actorId, owners, digest (fingerprintBytes "access-scope/v1"
    ((2, utf8 tenantId.text) :: (3, utf8 actorId.text) ::
      owners.map fun owner => (4, utf8 owner.text)))⟩

/-- `AccessScope::authorize`. -/
def AccessScope.authorize (scope : AccessScope) (owner : OwnerRef) : Except ApplicationError Unit :=
  if owner.tenantId = scope.tenantId ∧ owner.ownerId ∈ scope.allowedOwnerIds then .ok ()
  else .error ⟨.forbidden, false⟩

end Ficant
