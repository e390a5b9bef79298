import Ficant.Primitives.EpochDate
import Ficant.Research.ExposureBinding

namespace Ficant

open Lib

/-!
# What the hash of a position snapshot binds

The bytes of `canonical_bytes` in `position_snapshot.rs`.  References and positions follow one
another without a count, names of variants are written one behind the other, and an instant that
does not fit 64 bits of nanoseconds is written as zero.

* `PositionSnapshotInput.canonicalBytes_eq_iff` — what two snapshots with equal bytes agree on;
* `snapshot_bytes_bind_iff` — when that is all that their readers see.
-/

theorem OwnerRef.eq_of_utf8 {a b : OwnerRef} (htenant : utf8 a.tenantId.text = utf8 b.tenantId.text)
    (howner : utf8 a.ownerId.text = utf8 b.ownerId.text) : a = b := by
  have htenants := Ulid.eq_of_utf8 htenant
  have howners := Ulid.eq_of_utf8 howner
  cases a
  cases b
  subst htenants howners
  rfl

namespace PositionSnapshotInput

/-! ### Numbers and names -/

/-- The text of an integer determines it. -/
theorem integerText_injective : Function.Injective integerText := fun _ _ h =>
  decimalChars_injective (String.ofList_injective (utf8_inj h))

/-- A version has at most twenty digits, and an identifier 26 characters. -/
theorem length_integerText_version (v : Version) : (integerText v.value).length ≤ 20 := by
  have hdigits : decimalChars (v.value : ℤ) = Nat.toDigits 10 v.value := by
    unfold decimalChars
    rw [if_neg (by omega), List.nil_append, Int.natAbs_natCast]
  have hone : ∀ c ∈ Nat.toDigits 10 v.value, c.utf8Size = 1 := by
    intro c hc
    have hdigit := isDigit_of_mem_toDigits hc
    rw [Char.isDigit, Bool.and_eq_true, decide_eq_true_eq, decide_eq_true_eq] at hdigit
    exact Char.utf8Size_eq_one_iff.mpr (UInt32.le_trans hdigit.2 (by decide))
  unfold integerText
  rw [hdigits, length_utf8_ofList hone, Nat.length_toDigits_le_iff (by decide) (by decide)]
  have := v.fits
  omega

/-- Texts of which none is the beginning of another. -/
theorem delimited_of_prefixFree {α : Type} {text : α → String}
    (h : ∀ a b, (text a).toList <+: (text b).toList → a = b) :
    Delimited fun a => (text a).toList := by
  intro a b r s heq
  have hab : a = b := by
    rcases List.append_eq_append_iff.mp heq with ⟨t, hb, -⟩ | ⟨t, ha, -⟩
    · exact h a b ⟨t, hb.symm⟩
    · exact (h b a ⟨t, ha.symm⟩).symm
  subst hab
  exact ⟨rfl, List.append_cancel_left heq⟩

/-- The written classification state ends where the next value begins. -/
theorem delimited_state : Delimited fun state : AccountingClassificationState => state.debug.toList :=
  delimited_of_prefixFree fun a b h => by
    cases a <;> cases b <;> first | rfl | exact absurd h (by decide)

/-- The written book, or its absence, ends where the next value begins. -/
theorem delimited_book : Delimited fun book : Option AccountingBook =>
    (AccountingBook.debug book).toList :=
  delimited_of_prefixFree fun a b h => by
    rcases a with _ | _ | _ | _ <;> rcases b with _ | _ | _ | _ <;>
      first | rfl | exact absurd h (by decide)

/-- The written holding form ends where the next value begins. -/
theorem delimited_form : Delimited fun form : PositionHoldingForm => form.debug.toList :=
  delimited_of_prefixFree fun a b h => by
    cases a <;> cases b <;> first | rfl | exact absurd h (by decide)

/-- A versioned reference as an identifier and a number. -/
theorem versionRef_inj {a b : VersionRef} (hid : utf8 a.id.text = utf8 b.id.text)
    (hversion : integerText a.version.value = integerText b.version.value) : a = b := by
  have hvalue : a.version = b.version :=
    Version.ext_value (by exact_mod_cast integerText_injective hversion)
  have hids := Ulid.eq_of_utf8 hid
  cases a
  cases b
  subst hvalue hids
  rfl

/-- The three names in one text. -/
theorem names_inj {a b : AccountingClassification} {f g : PositionHoldingForm}
    (h : a.state.debug ++ AccountingBook.debug a.book ++ f.debug =
      b.state.debug ++ AccountingBook.debug b.book ++ g.debug) : a = b ∧ f = g := by
  have hlist := congrArg String.toList h
  simp only [String.toList_append, List.append_assoc] at hlist
  obtain ⟨hstate, hlist⟩ := delimited_state a.state b.state _ _ hlist
  obtain ⟨hbook, hlist⟩ := delimited_book a.book b.book _ _ hlist
  refine ⟨?_, delimited_form.inj hlist⟩
  obtain ⟨state, book, _⟩ := a
  obtain ⟨state', book', _⟩ := b
  obtain rfl : state = state' := hstate
  obtain rfl : book = book' := hbook
  rfl

/-! ### References and positions -/

/-- A decimal's values end where the next value begins. -/
theorem delimited_decimalValues : Delimited decimalValues := by
  intro v w r s h
  simp only [decimalValues, List.cons_append, List.nil_append, List.cons.injEq] at h
  obtain ⟨hcoefficient, hscale, hunit, hversion, hrest⟩ := h
  refine ⟨StoredDecimal.ext_fields ?_ ?_ ?_, hrest⟩
  · exact DecimalValue.coefficient_eq_of_text (utf8_inj hcoefficient)
  · exact_mod_cast integerText_injective hscale
  · refine UnitRef.ext_fields (Ulid.eq_of_utf8 hunit) (Version.ext_value ?_)
    exact_mod_cast integerText_injective hversion

/-- A lineage reference's values end where the next value begins. -/
theorem delimited_lineageValues : Delimited lineageValues := by
  intro a b r s h
  simp only [lineageValues, List.cons_append, List.nil_append, List.cons.injEq] at h
  obtain ⟨hid, hversion, hhash, hrest⟩ := h
  refine ⟨?_, hrest⟩
  obtain ⟨id, version, hash⟩ := a
  obtain ⟨id', version', hash'⟩ := b
  obtain rfl := Ulid.eq_of_utf8 hid
  -- the text of a number is not empty
  have hne : ∀ v : Version, integerText v.value ≠ [] := by
    intro v hnil
    have hzero := utf8_inj (hnil.trans (show [] = utf8 "" by decide))
    have hdigits := congrArg String.toList hzero
    rw [String.toList_ofList] at hdigits
    unfold decimalChars at hdigits
    exact Nat.toDigits_ne_nil (List.append_eq_nil_iff.mp hdigits).2
  have hversions : version = version' := by
    cases version with
    | none =>
      cases version' with
      | none => rfl
      | some v => exact absurd hversion.symm (hne v)
    | some v =>
      cases version' with
      | none => exact absurd hversion (hne v)
      | some w =>
        refine congrArg some (Version.ext_value ?_)
        exact_mod_cast integerText_injective hversion
  have hhashes : hash = hash' := by
    cases hash with
    | none =>
      cases hash' with
      | none => rfl
      | some g =>
        have := congrArg List.length hhash
        simp [g.length_eq] at this
    | some g =>
      cases hash' with
      | none =>
        have := congrArg List.length hhash
        simp [g.length_eq] at this
      | some g' => exact congrArg some (ContentHash.ext_bytes hhash)
  rw [hversions, hhashes]

/-- A position's values end where the next value begins. -/
theorem delimited_positionValues : Delimited positionValues := by
  intro p q r s h
  simp only [positionValues, List.flatMap_cons, List.flatMap_nil, List.append_nil, List.append_assoc,
    List.cons_append, List.nil_append, List.cons.injEq] at h
  obtain ⟨hid, hinstrument, hversion, h⟩ := h
  obtain ⟨hquantity, h⟩ := delimited_decimalValues _ _ _ _ h
  obtain ⟨hvalue, h⟩ := delimited_decimalValues _ _ _ _ h
  obtain ⟨hpnl, h⟩ := delimited_decimalValues _ _ _ _ h
  obtain ⟨haccounting, h⟩ := delimited_decimalValues _ _ _ _ h
  obtain ⟨hcapital, h⟩ := delimited_decimalValues _ _ _ _ h
  obtain ⟨hnames, hrest⟩ := List.cons.inj h
  -- Classification, book and form share one text of three names.
  obtain ⟨hclassification, hform⟩ := names_inj (utf8_inj hnames)
  refine ⟨?_, hrest⟩
  have hreference := versionRef_inj hinstrument hversion
  obtain ⟨id, _, _, _, _, _, _, _, _, _⟩ := p
  obtain ⟨id', _, _, _, _, _, _, _, _, _⟩ := q
  obtain rfl := Ulid.eq_of_utf8 hid
  obtain rfl := hreference
  simp only at hquantity hvalue hpnl haccounting hcapital hclassification hform
  subst hquantity hvalue hpnl haccounting hcapital hclassification hform
  rfl

/-- The second value of a reference is a version or nothing, that of a position an identifier. -/
def StartsReference (r : List (List UInt8)) : Prop := ∃ n ≤ 20, lengthAt 1 r = some n

/-- What a lineage reference writes looks like the start of a reference. -/
theorem startsReference_lineageValues (reference : LineageRef) (r : List (List UInt8)) :
    StartsReference (lineageValues reference ++ r) := by
  refine ⟨_, ?_, rfl⟩
  cases reference.version with
  | none => exact Nat.zero_le _
  | some v => exact length_integerText_version v

/-- What the positions write never looks like the start of a reference. -/
theorem not_startsReference_positions (positions : List Position) :
    ¬ StartsReference (positions.flatMap positionValues) := by
  rintro ⟨n, hn, h⟩
  cases positions with
  | nil => cases h
  | cons position positions =>
    have hlength : lengthAt 1 ((position :: positions).flatMap positionValues) = some 26 := by
      simp [positionValues, Ulid.length_utf8_text]
    rw [hlength] at h
    obtain rfl := Option.some.inj h
    omega

/-- **References and positions** are told apart although neither list has a count. -/
theorem lists_inj {l m : List LineageRef} {p q : List Position}
    (h : l.flatMap lineageValues ++ p.flatMap positionValues =
      m.flatMap lineageValues ++ q.flatMap positionValues) : l = m ∧ p = q := by
  obtain ⟨hlineage, hpositions⟩ := delimited_lineageValues.list StartsReference
    startsReference_lineageValues (not_startsReference_positions _)
    (not_startsReference_positions _) h
  refine ⟨hlineage, (delimited_positionValues.list (fun r => r ≠ []) ?_ (not_not.mpr rfl)
    (not_not.mpr rfl) (r := []) (s := []) ?_).1⟩
  · exact fun _ _ => List.cons_ne_nil _ _
  · rw [List.append_nil, List.append_nil]
    exact hpositions

/-! ### What equal bytes mean -/

/-- The instants that are written as zero. -/
def Lost (t : DateTime) : Prop :=
  ¬ (-2 ^ 63 ≤ t.timestampNanos ∧ t.timestampNanos < 2 ^ 63) ∨ t.timestampNanos = 0

instance (t : DateTime) : Decidable (Lost t) := inferInstanceAs (Decidable (_ ∨ _))

/-- Two instants are written alike: they are equal, or a leap second and the second after it, or
    neither is kept. -/
def Confused (t u : DateTime) : Prop := t = u ∨ DateTime.LeapAlias t u ∨ (Lost t ∧ Lost u)

/-- Two instants share their nanosecond number exactly when they are confused. -/
theorem confused_iff {t u : DateTime} :
    timestampNanosOrZero t = timestampNanosOrZero u ↔ Confused t u := by
  unfold Confused Lost timestampNanosOrZero
  rw [← or_assoc, ← DateTime.timestampNanos_eq_iff]
  split <;> split <;> omega

/-- Everything in the bytes but the instants agrees. -/
structure OthersAgree (a b : PositionSnapshotInput) : Prop where
  snapshotId : a.snapshotId = b.snapshotId
  owner : a.owner = b.owner
  subjectRef : a.subjectRef = b.subjectRef
  observedZone : a.observedAt.marketTimezone = b.observedAt.marketTimezone
  observedDate : a.observedAt.localTradingDate = b.observedAt.localTradingDate
  visibleZone : a.visibleAt.marketTimezone = b.visibleAt.marketTimezone
  visibleDate : a.visibleAt.localTradingDate = b.visibleAt.localTradingDate
  lineage : a.lineage = b.lineage
  positions : a.positions = b.positions

/-- **Equal bytes** mean that the instants are written alike and all else agrees. -/
theorem canonicalBytes_eq_iff {a b : PositionSnapshotInput}
    (hlength : a.canonicalBytes.length < lengthLimit) :
    a.canonicalBytes = b.canonicalBytes ↔ OthersAgree a b ∧
      Confused a.observedAt.instant b.observedAt.instant ∧
      Confused a.visibleAt.instant b.visibleAt.instant := by
  rw [← confused_iff, ← confused_iff]
  constructor
  · intro h
    have hvalues := joinChunks_inj hlength h
    simp only [canonicalValues, timeValues, List.cons_append, List.nil_append,
      List.cons.injEq] at hvalues
    obtain ⟨hid, htenant, howner, hsubject, hversion, hobserved, hozone, hodate, hvisible, hvzone,
      hvdate, hlists⟩ := hvalues
    obtain ⟨hlineage, hpositions⟩ := lists_inj hlists
    exact ⟨⟨Ulid.eq_of_utf8 hid, OwnerRef.eq_of_utf8 htenant howner,
      versionRef_inj hsubject hversion, utf8_inj hozone, NaiveDate.eq_of_utf8 hodate,
      utf8_inj hvzone, NaiveDate.eq_of_utf8 hvdate, hlineage, hpositions⟩,
      integerText_injective hobserved, integerText_injective hvisible⟩
  · rintro ⟨h, hobserved, hvisible⟩
    unfold canonicalBytes canonicalValues timeValues
    rw [h.snapshotId, h.owner, h.subjectRef, h.observedZone, h.observedDate, h.visibleZone,
      h.visibleDate, h.lineage, h.positions, hobserved, hvisible]

/-- The snapshots agree in everything that their hash is to bind. -/
structure SameSnapshot (a b : PositionSnapshotInput) : Prop where
  snapshotId : a.snapshotId = b.snapshotId
  owner : a.owner = b.owner
  subjectRef : a.subjectRef = b.subjectRef
  observed : a.observedAt.instant = b.observedAt.instant
  visible : a.visibleAt.instant = b.visibleAt.instant
  lineage : a.lineage = b.lineage
  positions : a.positions = b.positions

end PositionSnapshotInput

open PositionSnapshotInput in
/-- **Equal bytes, equal snapshots** exactly when two snapshots that agree in everything else do not
    differ in instants that are written as zero. -/
theorem snapshot_bytes_bind_iff (a b : PositionSnapshotInput)
    (hlength : a.canonicalBytes.length < lengthLimit) :
    (a.canonicalBytes = b.canonicalBytes → SameSnapshot a b) ↔
      (OthersAgree a b → Confused a.observedAt.instant b.observedAt.instant →
        Confused a.visibleAt.instant b.visibleAt.instant →
        a.observedAt.instant = b.observedAt.instant ∧ a.visibleAt.instant = b.visibleAt.instant) := by
  rw [canonicalBytes_eq_iff hlength]
  constructor
  · intro h hothers hobserved hvisible
    have hsame := h ⟨hothers, hobserved, hvisible⟩
    exact ⟨hsame.observed, hsame.visible⟩
  · rintro h ⟨hothers, hobserved, hvisible⟩
    obtain ⟨ho, hv⟩ := h hothers hobserved hvisible
    exact ⟨hothers.snapshotId, hothers.owner, hothers.subjectRef, ho, hv, hothers.lineage,
      hothers.positions⟩

/-! ### Two seconds of one day -/

section Sample

open Fingerprint (sampleDigest sampleOwner sampleRef sampleHash sampleLineage sampleTime)

/-- A second of the first day of the year 2300, which has no 64-bit count of nanoseconds. -/
def lateSecond (second : Fin 60) : MarketTime :=
  ⟨.ofSeconds (10413792000 + second) (by omega) (by omega), "UTC", .ymd 2300 1 1⟩

/-- A snapshot observed and visible at that second. -/
def lateSnapshotInput (second : Fin 60) (contentHash : ContentHash) : PositionSnapshotInput :=
  ⟨⟨20⟩, sampleOwner, sampleRef, lateSecond second, lateSecond second, contentHash, [sampleLineage],
    [heldPosition]⟩

def lateSnapshot : PositionSnapshot sampleDigest :=
  ⟨lateSnapshotInput 0 (sampleDigest (lateSnapshotInput 0 sampleHash).canonicalBytes), by
    decide +kernel⟩

def laterSnapshot : PositionSnapshot sampleDigest :=
  ⟨lateSnapshotInput 1 (sampleDigest (lateSnapshotInput 0 sampleHash).canonicalBytes), by
    decide +kernel⟩

/-- Both times are accepted, and so are both snapshots, with one hash. -/
theorem late_instants_not_bound :
    MarketTime.new .utc (lateSecond 0).instant "UTC" (lateSecond 0).localTradingDate =
      some (.ok (lateSecond 0)) ∧
    MarketTime.new .utc (lateSecond 1).instant "UTC" (lateSecond 1).localTradingDate =
      some (.ok (lateSecond 1)) ∧
    lateSnapshot.input.canonicalBytes = laterSnapshot.input.canonicalBytes ∧
    lateSnapshot.input.contentHash = laterSnapshot.input.contentHash ∧
    ¬ PositionSnapshotInput.SameSnapshot lateSnapshot.input laterSnapshot.input := by
  refine ⟨by decide +kernel, by decide +kernel, by decide +kernel, rfl, ?_⟩
  intro h
  exact absurd h.observed (by decide +kernel)

/-- A snapshot observed and visible at a second of 1970. -/
def earlySnapshotInput (second : Fin 60) : PositionSnapshotInput :=
  { lateSnapshotInput second sampleHash with
    observedAt := Fingerprint.sampleInstant second (by omega) (by omega)
    visibleAt := Fingerprint.sampleInstant second (by omega) (by omega) }

theorem snapshot_bytes_bind_iff_sample :
    (earlySnapshotInput 1).canonicalBytes.length < lengthLimit ∧
    ((earlySnapshotInput 1).canonicalBytes = (earlySnapshotInput 2).canonicalBytes →
      PositionSnapshotInput.SameSnapshot (earlySnapshotInput 1) (earlySnapshotInput 2)) := by
  have hlength : (earlySnapshotInput 1).canonicalBytes.length < lengthLimit := by decide +kernel
  refine ⟨hlength, (snapshot_bytes_bind_iff _ (earlySnapshotInput 2) hlength).mpr ?_⟩
  intro _ hobserved _
  exact absurd hobserved (by
    unfold PositionSnapshotInput.Confused
    decide)

end Sample

end Ficant
