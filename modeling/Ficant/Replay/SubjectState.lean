import Ficant.Primitives.DecimalText
import Ficant.Market.Fact
import Ficant.Replay.Identity

namespace Ficant

open Lib Canonical

/-!
# What the hash of a Subject state binds

`SubjectStateSnapshot::build` keeps the ceilings of a state sorted by limit code, one for each
code (`ficant-domain/src/subject.rs`), and `subject_state_hash` writes the state out field by
field.  Of a decimal value it writes the coefficient and the scale, of an instant the microseconds,
and it does not write the owner:

* `subjectStateBytes_eq_iff` — two states have the same bytes exactly when their numbers, names and
  times agree (`NumbersAgree`);
* `subjectStateHash_binds_iff` — equal hashes mean equal states unless the states differ in units,
  in the owner, or in a leap second against the second after it alone.
-/

/-! ### The constructors -/

/-- `LimitCeiling::new`. -/
def LimitCeiling.new (limitCode : String) (ceiling : DecimalValue) :
    Except DomainErrorCode LimitCeiling := do
  requireText limitCode
  return ⟨limitCode, ceiling⟩

namespace SubjectStateSnapshot

/-- The ceilings in the order of their codes (a stable sort). -/
def sortCeilings (ceilings : List LimitCeiling) : List LimitCeiling :=
  ceilings.insertionSort fun a b => a.limitCode ≤ b.limitCode

/-- `SubjectStateSnapshot::build`. -/
def build (zones : ZoneTable) (snapshotId : Ulid) (subjectRef : VersionRef)
    (netCapital : DecimalValue) (limitCeilings : List LimitCeiling)
    (observedAt visibleAt : DateTime) (marketTimezone : String) (owner : Option OwnerRef) :
    Except DomainErrorCode SubjectStateSnapshot :=
  -- The zone has to be known; the text is kept as it was given.
  if (zones.name marketTimezone).isNone then .error .invalidEffectiveTime
  else if visibleAt < observedAt then .error .invalidEffectiveTime
  else
    let limitCeilings := sortCeilings limitCeilings
    if (limitCeilings.map LimitCeiling.limitCode).Nodup then
      .ok ⟨snapshotId, subjectRef, netCapital, limitCeilings, observedAt, visibleAt,
        marketTimezone, owner⟩
    else .error .invalidValue

/-- `SubjectStateSnapshot::new`. -/
def new (zones : ZoneTable) (snapshotId : Ulid) (subjectRef : VersionRef)
    (netCapital : DecimalValue) (limitCeilings : List LimitCeiling)
    (observedAt visibleAt : DateTime) (marketTimezone : String) :
    Except DomainErrorCode SubjectStateSnapshot :=
  build zones snapshotId subjectRef netCapital limitCeilings observedAt visibleAt marketTimezone none

/-- `SubjectStateSnapshot::new_owned`. -/
def newOwned (zones : ZoneTable) (snapshotId : Ulid) (subjectRef : VersionRef)
    (netCapital : DecimalValue) (limitCeilings : List LimitCeiling)
    (observedAt visibleAt : DateTime) (marketTimezone : String) (owner : OwnerRef) :
    Except DomainErrorCode SubjectStateSnapshot :=
  build zones snapshotId subjectRef netCapital limitCeilings observedAt visibleAt marketTimezone
    (some owner)

/-- The states the two constructors return. -/
def Accepted (zones : ZoneTable) (state : SubjectStateSnapshot) : Prop :=
  ∃ snapshotId subjectRef netCapital limitCeilings observedAt visibleAt marketTimezone,
    new zones snapshotId subjectRef netCapital limitCeilings observedAt visibleAt marketTimezone
      = .ok state ∨
    ∃ owner, newOwned zones snapshotId subjectRef netCapital limitCeilings observedAt visibleAt
      marketTimezone owner = .ok state

/-- A snapshot that is built holds its ceilings sorted by code. -/
theorem ceilings_of_build {zones : ZoneTable} {snapshotId : Ulid} {subjectRef : VersionRef}
    {netCapital : DecimalValue} {limitCeilings : List LimitCeiling}
    {observedAt visibleAt : DateTime} {marketTimezone : String} {owner : Option OwnerRef}
    {state : SubjectStateSnapshot}
    (h : build zones snapshotId subjectRef netCapital limitCeilings observedAt visibleAt
      marketTimezone owner = .ok state) :
    state.limitCeilings = sortCeilings limitCeilings ∧
      (state.limitCeilings.map LimitCeiling.limitCode).Nodup := by
  unfold build at h
  split at h
  · cases h
  split at h
  · cases h
  dsimp only at h
  split at h
  · rename_i hnodup
    obtain rfl := Except.ok.inj h
    exact ⟨rfl, hnodup⟩
  · cases h

/-- The ceilings of an accepted state are in strictly increasing order of their codes. -/
theorem Accepted.sorted {zones : ZoneTable} {state : SubjectStateSnapshot}
    (h : state.Accepted zones) :
    state.limitCeilings.Pairwise fun a b => a.limitCode < b.limitCode := by
  obtain ⟨_, _, _, limitCeilings, _, _, _, h⟩ := h
  have hbuilt : state.limitCeilings = sortCeilings limitCeilings ∧
      (state.limitCeilings.map LimitCeiling.limitCode).Nodup := by
    rcases h with h | ⟨owner, h⟩
    · exact ceilings_of_build h
    · exact ceilings_of_build h
  obtain ⟨hsort, hnodup⟩ := hbuilt
  have hle : state.limitCeilings.Pairwise fun a b => a.limitCode ≤ b.limitCode := by
    rw [hsort]
    exact List.pairwise_insertionSort _ _
  have hne : state.limitCeilings.Pairwise fun a b => a.limitCode ≠ b.limitCode :=
    List.pairwise_map.mp hnodup
  exact hle.imp₂ (fun _ _ hle hne => lt_of_le_of_ne hle hne) hne

/-! ### What is written -/

/-- What is written of a ceiling: its code, coefficient and scale. -/
def numbers (ceiling : LimitCeiling) : String × ℤ × ℕ :=
  (ceiling.limitCode, ceiling.ceiling.coefficient, ceiling.ceiling.scale)

/-- Everything that is written of two states agrees. -/
structure NumbersAgree (a b : SubjectStateSnapshot) : Prop where
  snapshotId : a.snapshotId = b.snapshotId
  subjectRef : a.subjectRef = b.subjectRef
  coefficient : a.netCapital.coefficient = b.netCapital.coefficient
  scale : a.netCapital.scale = b.netCapital.scale
  ceilings : (a.limitCeilings.map numbers).Perm (b.limitCeilings.map numbers)
  observedAt : a.observedAt.Alike b.observedAt
  visibleAt : a.visibleAt.Alike b.visibleAt
  marketTimezone : a.marketTimezone = b.marketTimezone

/-- What is not written agrees: the owner, the units, and which of the two an instant is where a leap
    second and the second after it have the same microseconds. -/
structure UnwrittenAgree (a b : SubjectStateSnapshot) : Prop where
  owner : a.owner = b.owner
  netCapital : a.netCapital.unit = b.netCapital.unit
  ceilings : ∀ c ∈ a.limitCeilings, ∀ d ∈ b.limitCeilings, c.limitCode = d.limitCode →
    c.ceiling.unit = d.ceiling.unit
  observedAt : ¬ DateTime.LeapAlias a.observedAt b.observedAt
  visibleAt : ¬ DateTime.LeapAlias a.visibleAt b.visibleAt

/-- The same state, up to the order of its ceilings. -/
def SameUpToOrder (a b : SubjectStateSnapshot) : Prop :=
  { a with limitCeilings := b.limitCeilings } = b ∧ a.limitCeilings.Perm b.limitCeilings

/-- States that the bytes can tell apart: whole microseconds, decimal values as their constructor
    makes them, and a total length that fits its 64-bit prefix. -/
structure Encodable (state : SubjectStateSnapshot) : Prop where
  observedAt : state.observedAt.WholeMicros
  visibleAt : state.visibleAt.WholeMicros
  netCapital : state.netCapital.Normal
  ceilings : ∀ c ∈ state.limitCeilings, c.ceiling.Normal
  fits : (subjectStateBytes state).length < lengthLimit

/-- The bytes of a ceiling, from what is written of it. -/
def numbersBytes (n : String × ℤ × ℕ) : List UInt8 :=
  text n.1 ++ text (toString n.2.1) ++ number n.2.2

/-- The ceilings are written as the numbers they carry. -/
theorem writeList_ceilingBytes (ceilings : List LimitCeiling) :
    writeList ceilingBytes ceilings = writeList numbersBytes (ceilings.map numbers) := by
  rw [writeList, writeList, List.length_map, List.flatMap_map]
  rfl

/-- A written coefficient ends where the next value begins. -/
theorem separable_coefficient : Separable (fun _ => True) fun n : ℤ => text (toString n) :=
  separable_code fun _ _ h => Int.repr_injective h

/-- A written ceiling ends where the next one begins. -/
theorem separable_numbersBytes :
    Separable (fun n : String × ℤ × ℕ => n.2.2 < 2 ^ 64) numbersBytes := by
  have h := ((reads separable_text fun n : String × ℤ × ℕ => n.1).append
    (reads separable_coefficient fun n : String × ℤ × ℕ => n.2.1)).append
    (separable_number.reads (fun n : String × ℤ × ℕ => n.2.2) fun _ h => h)
  refine h.separable ?_
  rintro ⟨_, _, _⟩ ⟨_, _, _⟩ - - e
  simpa [and_assoc] using e

/-- A written ceiling is never empty. -/
theorem numbersBytes_ne_nil (n : String × ℤ × ℕ) : numbersBytes n ≠ [] :=
  List.append_ne_nil_of_left_ne_nil (List.append_ne_nil_of_left_ne_nil (text_ne_nil _) _) _

/-- Sorting ceilings that stand in order changes nothing. -/
theorem sortCeilings_of_sorted {ceilings : List LimitCeiling}
    (h : ceilings.Pairwise fun a b => a.limitCode < b.limitCode) :
    sortCeilings ceilings = ceilings :=
  (h.imp fun hlt => le_of_lt hlt).insertionSort_eq

/-- The bytes of a state with sorted ceilings read back everything that is written. -/
theorem reads_subjectStateBytes : Reads
    (fun s : SubjectStateSnapshot => (s.limitCeilings.Pairwise fun a b => a.limitCode < b.limitCode) ∧
      s.Encodable) subjectStateBytes
    (fun s => (((((((((), s.snapshotId), s.subjectRef), s.netCapital.coefficient),
      s.netCapital.scale), s.limitCeilings.map numbers), s.observedAt.timestampMicros),
      s.visibleAt.timestampMicros), s.marketTimezone)) := by
  -- On sorted ceilings the encoder's own sort does nothing.
  have hceilings : Reads
      (fun s : SubjectStateSnapshot =>
        (s.limitCeilings.Pairwise fun a b => a.limitCode < b.limitCode) ∧ s.Encodable)
      (fun s => writeList ceilingBytes (sortCeilings s.limitCeilings))
      (fun s => s.limitCeilings.map numbers) := by
    have hlist := (separable_writeList separable_numbersBytes numbersBytes_ne_nil).reads
      (fun s : SubjectStateSnapshot => s.limitCeilings.map numbers)
      (fun s (h : (s.limitCeilings.Pairwise fun a b => a.limitCode < b.limitCode) ∧
        s.Encodable) => by
        intro n hn
        obtain ⟨c, hc, rfl⟩ := List.mem_map.mp hn
        have := (h.2.ceilings c hc).scale
        show c.ceiling.scale < 2 ^ 64
        omega)
    intro s s' r r' hs hs' ls ls' heq
    simp only [sortCeilings_of_sorted hs.1, sortCeilings_of_sorted hs'.1,
      writeList_ceilingBytes] at ls ls' heq
    exact hlist s s' r r' hs hs' ls ls' heq
  exact ((((((((Reads.tag _ (text "ficant-subject-state-snapshot/v1")).append
    (reads separable_ulid SubjectStateSnapshot.snapshotId)).append
    (reads separable_versionRef SubjectStateSnapshot.subjectRef)).append
    (reads separable_coefficient fun s : SubjectStateSnapshot => s.netCapital.coefficient)).append
    (separable_number.reads (fun s : SubjectStateSnapshot => s.netCapital.scale) fun s h => by
      have := h.2.netCapital.scale
      show s.netCapital.scale < 2 ^ 64
      omega)).append hceilings).append
    (reads_time.of_part SubjectStateSnapshot.observedAt fun _ _ => trivial)).append
    (reads_time.of_part SubjectStateSnapshot.visibleAt fun _ _ => trivial)).append
    (reads separable_text SubjectStateSnapshot.marketTimezone)

/-- Codes in increasing order and the same numbers mean the same list of numbers. -/
theorem map_numbers_eq {l m : List LimitCeiling}
    (hl : l.Pairwise fun a b => a.limitCode < b.limitCode)
    (hm : m.Pairwise fun a b => a.limitCode < b.limitCode)
    (h : (l.map numbers).Perm (m.map numbers)) : l.map numbers = m.map numbers := by
  have sorted : ∀ {l : List LimitCeiling}, (l.Pairwise fun a b => a.limitCode < b.limitCode) →
      (l.map numbers).Pairwise fun a b => a.1 < b.1 := fun h => List.pairwise_map.mpr h
  refine h.eq_of_pairwise ?_ (sorted hl) (sorted hm)
  intro a b _ _ hab hba
  exact absurd hab (lt_asymm hba)

/-- **Bytes of a state.** Two states have the same bytes exactly when their numbers, names and times
    agree. -/
theorem subjectStateBytes_eq_iff {zones : ZoneTable} {a b : SubjectStateSnapshot}
    (ha : a.Accepted zones) (hb : b.Accepted zones) (ea : a.Encodable) (eb : b.Encodable) :
    subjectStateBytes a = subjectStateBytes b ↔ NumbersAgree a b := by
  constructor
  · intro h
    have hfields := reads_subjectStateBytes a b [] [] ⟨ha.sorted, ea⟩ ⟨hb.sorted, eb⟩
      (by simpa using ea.fits) (by simpa using eb.fits) (by rw [h])
    simp only [Prod.mk.injEq, true_and] at hfields
    obtain ⟨⟨⟨⟨⟨⟨⟨⟨hid, href⟩, hcoefficient⟩, hscale⟩, hceilings⟩, hobserved⟩, hvisible⟩, hzone⟩, -⟩ :=
      hfields
    exact ⟨hid, href, hcoefficient, hscale, hceilings ▸ List.Perm.refl _,
      (DateTime.timestampMicros_eq_iff ea.observedAt eb.observedAt).mp hobserved,
      (DateTime.timestampMicros_eq_iff ea.visibleAt eb.visibleAt).mp hvisible, hzone⟩
  · intro h
    have hceilings := map_numbers_eq ha.sorted hb.sorted h.ceilings
    unfold subjectStateBytes
    rw [show (a.limitCeilings.insertionSort fun a b => a.limitCode ≤ b.limitCode) = a.limitCeilings
        from sortCeilings_of_sorted ha.sorted,
      show (b.limitCeilings.insertionSort fun a b => a.limitCode ≤ b.limitCode) = b.limitCeilings
        from sortCeilings_of_sorted hb.sorted,
      writeList_ceilingBytes, writeList_ceilingBytes, hceilings, h.snapshotId, h.subjectRef,
      h.coefficient, h.scale, h.observedAt.time_eq, h.visibleAt.time_eq, h.marketTimezone]

/-! ### States -/

/-- Two lists with the same numbers and the same units code by code are equal. -/
theorem ceilings_eq {l m : List LimitCeiling} (h : l.map numbers = m.map numbers)
    (hunits : ∀ c ∈ l, ∀ d ∈ m, c.limitCode = d.limitCode → c.ceiling.unit = d.ceiling.unit) :
    l = m := by
  induction l generalizing m with
  | nil => exact (List.map_eq_nil_iff.mp h.symm).symm
  | cons c l ih =>
    cases m with
    | nil => cases h
    | cons d m =>
      rw [List.map_cons, List.map_cons, List.cons.injEq] at h
      have hunit : c.limitCode = d.limitCode → c.ceiling.unit = d.ceiling.unit :=
        hunits c List.mem_cons_self d List.mem_cons_self
      have htail : l = m := ih h.2 fun c hc d hd =>
        hunits c (List.mem_cons_of_mem _ hc) d (List.mem_cons_of_mem _ hd)
      obtain ⟨code, ⟨coefficient, scale, unit⟩⟩ := c
      obtain ⟨code', ⟨coefficient', scale', unit'⟩⟩ := d
      simp only [numbers, Prod.mk.injEq] at h hunit
      obtain ⟨⟨rfl, rfl, rfl⟩, -⟩ := h
      rw [htail, hunit rfl]

/-- Accepted states are the same exactly when what is written and what is not both agree. -/
theorem sameUpToOrder_iff {zones : ZoneTable} {a b : SubjectStateSnapshot}
    (ha : a.Accepted zones) (hb : b.Accepted zones) :
    a.SameUpToOrder b ↔ NumbersAgree a b ∧ UnwrittenAgree a b := by
  constructor
  · rintro ⟨hrest, hperm⟩
    obtain ⟨_, _, netCapital, _, _, _, _, _⟩ := a
    obtain ⟨_, _, _, _, _, _, _, _⟩ := b
    simp only [SubjectStateSnapshot.mk.injEq, true_and] at hrest
    obtain ⟨rfl, rfl, rfl, rfl, rfl, rfl, rfl⟩ := hrest
    refine ⟨⟨rfl, rfl, rfl, rfl, hperm.map numbers, .refl _, .refl _, rfl⟩, rfl, rfl, ?_,
      DateTime.not_leapAlias_self _, DateTime.not_leapAlias_self _⟩
    -- A code has one ceiling in a state, and both states have the same ceilings.
    intro c hc d hd hcode
    have hcodes := List.pairwise_map.mpr (hb.sorted.imp fun hlt => ne_of_lt hlt)
    rw [List.inj_on_of_nodup_map hcodes (hperm.subset hc) hd hcode]
  · rintro ⟨hnumbers, hunits⟩
    have hceilings : a.limitCeilings = b.limitCeilings :=
      ceilings_eq (map_numbers_eq ha.sorted hb.sorted hnumbers.ceilings) hunits.ceilings
    obtain ⟨_, _, ⟨_, _, _⟩, _, _, _, _, _⟩ := a
    obtain ⟨_, _, ⟨_, _, _⟩, _, _, _, _, _⟩ := b
    obtain ⟨hid, href, hcoefficient, hscale, -, hobserved, hvisible, hzone⟩ := hnumbers
    obtain ⟨howner, hunit, -, hsameObserved, hsameVisible⟩ := hunits
    replace hobserved := hobserved.resolve_right hsameObserved
    replace hvisible := hvisible.resolve_right hsameVisible
    simp only at hid href hcoefficient hscale hobserved hvisible hzone howner hunit hceilings
    subst hid href hcoefficient hscale hobserved hvisible hzone howner hunit hceilings
    exact ⟨rfl, List.Perm.refl _⟩

end SubjectStateSnapshot

open SubjectStateSnapshot in
/-- **Equal hashes, equal states, units and owner apart.** With a digest that does not collide on the
    two states, equal hashes mean the same state exactly when states whose numbers, names and times
    agree also agree in their owner, in the units of their values and in their leap seconds. -/
theorem subjectStateHash_binds_iff (digest : List UInt8 → ContentHash) (zones : ZoneTable)
    (a b : SubjectStateSnapshot) (ha : a.Accepted zones) (hb : b.Accepted zones)
    (ea : a.Encodable) (eb : b.Encodable)
    (hdigest : NoCollision digest (subjectStateBytes a) (subjectStateBytes b)) :
    (subjectStateHash digest a = subjectStateHash digest b → a.SameUpToOrder b) ↔
      (NumbersAgree a b → UnwrittenAgree a b) := by
  have hhash : subjectStateHash digest a = subjectStateHash digest b ↔ NumbersAgree a b := by
    rw [← subjectStateBytes_eq_iff ha hb ea eb]
    exact ⟨hdigest, fun h => congrArg digest h⟩
  rw [hhash, sameUpToOrder_iff ha hb]
  exact ⟨fun h hn => (h hn).2, fun h hn => ⟨hn, h hn⟩⟩

/-! ### Samples -/

/-- One unit or another. -/
def sampleStateUnit (unit : Fin 2) : UnitRef := ⟨⟨⟨unit, by omega⟩⟩, .first⟩

/-- A state with one ceiling and a net capital in one unit or another. -/
def sampleState (capital : ℤ) (unit : Fin 2) : SubjectStateSnapshot where
  snapshotId := ⟨7⟩
  subjectRef := ⟨⟨8⟩, .first⟩
  netCapital := ⟨capital, 0, sampleStateUnit unit⟩
  limitCeilings := [⟨"DV01", ⟨5, 0, sampleStateUnit 0⟩⟩]
  observedAt := .epoch
  visibleAt := .epoch
  marketTimezone := "UTC"
  owner := none

/-- The sample snapshot is one the constructor accepts. -/
theorem sampleState_accepted (capital : ℤ) (unit : Fin 2) :
    (sampleState capital unit).Accepted .utc := by
  refine ⟨⟨7⟩, ⟨⟨8⟩, .first⟩, ⟨capital, 0, sampleStateUnit unit⟩,
    [⟨"DV01", ⟨5, 0, sampleStateUnit 0⟩⟩], .epoch, .epoch,
    "UTC", Or.inl ?_⟩
  rfl

/-- The sample snapshot fits the widths of its encoding. -/
theorem sampleState_encodable {capital : ℤ} {unit : Fin 2} (hcapital : capital.natAbs < 10 ^ 28)
    (hfits : (subjectStateBytes (sampleState capital unit)).length < lengthLimit) :
    (sampleState capital unit).Encodable := by
  refine ⟨rfl, rfl, ⟨hcapital, Nat.zero_le _, fun _ => Or.inl rfl⟩, ?_, hfits⟩
  intro c hc
  obtain rfl := List.mem_singleton.mp hc
  exact ⟨by decide, by decide, by decide⟩

theorem subjectStateHash_binds_sample :
    (subjectStateHash checksum (sampleState 100 0) = subjectStateHash checksum (sampleState 101 0) →
      (sampleState 100 0).SameUpToOrder (sampleState 101 0)) ↔
      ((sampleState 100 0).NumbersAgree (sampleState 101 0) →
        (sampleState 100 0).UnwrittenAgree (sampleState 101 0)) := by
  apply subjectStateHash_binds_iff checksum .utc (sampleState 100 0) (sampleState 101 0)
    (sampleState_accepted 100 0) (sampleState_accepted 101 0)
  · exact sampleState_encodable (by decide) (by decide +kernel)
  · exact sampleState_encodable (by decide) (by decide +kernel)
  · intro h
    exact absurd h (by decide +kernel)

/-- The same net capital in two units has the same bytes, and so the same hash. -/
theorem subjectState_unit_not_bound :
    ∃ a b : SubjectStateSnapshot, a.Accepted .utc ∧ b.Accepted .utc ∧
      a.Encodable ∧ b.Encodable ∧ subjectStateBytes a = subjectStateBytes b ∧
      ¬ a.SameUpToOrder b := by
  refine ⟨sampleState 100 0, sampleState 100 1, sampleState_accepted 100 0,
    sampleState_accepted 100 1, sampleState_encodable (by decide) (by decide +kernel),
    sampleState_encodable (by decide) (by decide +kernel), rfl, ?_⟩
  rintro ⟨h, -⟩
  exact absurd (congrArg (fun s => s.netCapital.unit) h) (by decide)

end Ficant
