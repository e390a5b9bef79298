import Ficant.Lib.StableSort
import Ficant.Data.BarIngest
import Ficant.Research.JournalBytes

namespace Ficant

open Lib

/-!
# Instrument mappings

A mapping says which instrument a source key stands for, and when (`ficant-data/src/mapping.rs`).
`InstrumentMapping::new` sorts the entries by key and start and compares neighbours only.

* `Apart` — the order in which entries of a mapping follow one another: by key, and for one key the
  earlier period ends before the later one begins;
* `neighbours_apart_iff` — the check on neighbours is pairwise disjointness;
* `instrumentMapping_unambiguous` — what is accepted, and what `resolve` then returns.
-/

/-! ### Periods -/

/-- The instants of a period: the start counts, the end does not. -/
def EffectivePeriod.Contains (period : EffectivePeriod) (t : DateTime) : Prop :=
  period.from_.instant ≤ t ∧ t < period.to_.instant

/-- No instant is in both periods. -/
def EffectivePeriod.Disjoint (p q : EffectivePeriod) : Prop :=
  ∀ t, ¬ (p.Contains t ∧ q.Contains t)

/-- Disjointness of periods is symmetric. -/
theorem EffectivePeriod.Disjoint.symm {p q : EffectivePeriod} (h : p.Disjoint q) : q.Disjoint p :=
  fun t ht => h t ht.symm

/-- Of two disjoint periods the one that starts first also ends first. -/
theorem EffectivePeriod.disjoint_iff_of_le {p q : EffectivePeriod}
    (h : p.from_.instant ≤ q.from_.instant) :
    p.Disjoint q ↔ p.to_.instant ≤ q.from_.instant := by
  constructor
  · intro hdisjoint
    by_contra hlt
    exact hdisjoint q.from_.instant ⟨⟨h, not_le.mp hlt⟩, le_rfl, q.ordered⟩
  · rintro hle t ⟨⟨-, hp⟩, ⟨hq, -⟩⟩
    exact absurd (lt_of_lt_of_le hp hle) (not_lt.mpr hq)

/-! ### Construction -/

/-- `InstrumentMappingEntry::new`. -/
def InstrumentMappingEntry.new (sourceInstrumentKey : String) (effective : EffectivePeriod)
    (instrument : VersionRef) : Except DataError InstrumentMappingEntry :=
  if ¬ properName sourceInstrumentKey ∨ 128 < (utf8 sourceInstrumentKey).length then
    .error .invalidConfiguration
  else .ok ⟨sourceInstrumentKey, effective, instrument⟩

namespace InstrumentMapping

/-- `append_market_time`. -/
def marketTimeBytes (value : MarketTime) : List UInt8 :=
  secondsBytes value.instant ++ nanosBytes value.instant ++ prefixedText value.marketTimezone ++
    prefixedText value.localTradingDate.text

/-- One entry of the content hash. -/
def entryBytes (entry : InstrumentMappingEntry) : List UInt8 :=
  prefixedText entry.sourceInstrumentKey ++ marketTimeBytes entry.effective.from_ ++
    marketTimeBytes entry.effective.to_ ++ prefixedText entry.instrument.id.text ++
    bigEndian 8 entry.instrument.version.value

/-- `mapping_content_hash`. -/
def mappingContentHash (digest : List UInt8 → ContentHash) (mappingId : Ulid) (owner : OwnerRef)
    (source : VersionRef) (entries : List InstrumentMappingEntry) : ContentHash :=
  digest (utf8 "ficant-instrument-mapping/v2" ++ [0] ++ prefixedText mappingId.text ++
    prefixedText owner.tenantId.text ++ prefixedText owner.ownerId.text ++
    prefixedText source.id.text ++ bigEndian 8 source.version.value ++ entries.flatMap entryBytes)

/-- What the entries are sorted by. -/
def entryKey (entry : InstrumentMappingEntry) : String ×ₗ DateTime :=
  toLex (entry.sourceInstrumentKey, entry.effective.from_.instant)

/-- The entries in the order of their keys and starts (a stable sort). -/
def sortEntries (entries : List InstrumentMappingEntry) : List InstrumentMappingEntry :=
  entries.insertionSort fun a b => entryKey a ≤ entryKey b

/-- Whether an entry reaches into the next one of the same key. -/
def overlaps (left right : InstrumentMappingEntry) : Bool :=
  decide (left.sourceInstrumentKey = right.sourceInstrumentKey) &&
    decide (right.effective.from_.instant < left.effective.to_.instant)

/-- `InstrumentMapping::new`. -/
def new (digest : List UInt8 → ContentHash) (mappingId : Ulid) (owner : OwnerRef)
    (source : VersionRef) (entries : List InstrumentMappingEntry) :
    Except DataError InstrumentMapping :=
  if entries.isEmpty then .error .invalidConfiguration
  else
    let entries := sortEntries entries
    if (entries.zip entries.tail).any fun pair => overlaps pair.1 pair.2 then
      .error .invalidConfiguration
    else .ok ⟨mappingId, owner, source, entries,
      mappingContentHash digest mappingId owner source entries⟩

/-! ### Neighbours -/

/-- One entry comes before another: its key is smaller, or it ends before the other begins. -/
def Apart (a b : InstrumentMappingEntry) : Prop :=
  a.sourceInstrumentKey < b.sourceInstrumentKey ∨
    (a.sourceInstrumentKey = b.sourceInstrumentKey ∧
      a.effective.to_.instant ≤ b.effective.from_.instant)

instance : DecidableRel Apart := fun _ _ => inferInstanceAs (Decidable (_ ∨ _))

/-- A period between two others keeps them apart, since it is not empty. -/
instance : IsTrans InstrumentMappingEntry Apart where
  trans a b c hab hbc := by
    rcases hab with hab | ⟨hab, hto⟩ <;> rcases hbc with hbc | ⟨hbc, hto'⟩
    · exact Or.inl (lt_trans hab hbc)
    · exact Or.inl (hbc ▸ hab)
    · exact Or.inl (hab ▸ hbc)
    · exact Or.inr ⟨hab.trans hbc, (hto.trans b.effective.ordered.le).trans hto'⟩

/-- Of two entries only one can lie apart before the other. -/
theorem not_apart_of_apart {a b : InstrumentMappingEntry} (hab : Apart a b) : ¬ Apart b a := by
  intro hba
  have hself : Apart a a := IsTrans.trans a b a hab hba
  rcases hself with h | ⟨-, h⟩
  · exact lt_irrefl _ h
  · exact absurd a.effective.ordered (not_lt.mpr h)

/-- The entries of one key are disjoint. -/
def Unambiguous (a b : InstrumentMappingEntry) : Prop :=
  a.sourceInstrumentKey = b.sourceInstrumentKey → a.effective.Disjoint b.effective

/-- That two entries cannot be confused is symmetric. -/
theorem unambiguous_symm {a b : InstrumentMappingEntry} (h : Unambiguous a b) : Unambiguous b a :=
  fun hkey => (h hkey.symm).symm

/-- In sorted order, apart and disjoint are the same. -/
theorem apart_iff_of_le {a b : InstrumentMappingEntry} (h : entryKey a ≤ entryKey b) :
    Apart a b ↔ Unambiguous a b := by
  rw [entryKey, entryKey, Prod.Lex.toLex_le_toLex] at h
  constructor
  · rintro (hlt | ⟨-, hto⟩) hkey
    · exact absurd hkey hlt.ne
    · rcases h with h | ⟨-, h⟩
      · exact absurd hkey h.ne
      · exact (EffectivePeriod.disjoint_iff_of_le h).mpr hto
  · intro hdisjoint
    rcases h with h | ⟨hkey, h⟩
    · exact Or.inl h
    · exact Or.inr ⟨hkey, (EffectivePeriod.disjoint_iff_of_le h).mp (hdisjoint hkey)⟩

/-- Entries in sorted order do not overlap exactly when they lie apart. -/
theorem overlaps_eq_false_iff {a b : InstrumentMappingEntry} (h : entryKey a ≤ entryKey b) :
    overlaps a b = false ↔ Apart a b := by
  rw [entryKey, entryKey, Prod.Lex.toLex_le_toLex] at h
  unfold overlaps Apart
  rw [Bool.and_eq_false_iff, decide_eq_false_iff_not, decide_eq_false_iff_not, not_lt]
  constructor
  · rintro (hkey | hto)
    · exact Or.inl (h.resolve_right fun h => hkey h.1)
    · rcases h with h | ⟨hkey, -⟩
      · exact Or.inl h
      · exact Or.inr ⟨hkey, hto⟩
  · rintro (hlt | ⟨-, hto⟩)
    · exact Or.inl hlt.ne
    · exact Or.inr hto

/-- **Comparing neighbours is enough.** In a list sorted by key and start, no entry reaches into
    the next one exactly when the periods of every key are pairwise disjoint. -/
theorem neighbours_apart_iff {entries : List InstrumentMappingEntry}
    (hsorted : entries.Pairwise fun a b => entryKey a ≤ entryKey b) :
    ((entries.zip entries.tail).any fun pair => overlaps pair.1 pair.2) = false ↔
      entries.Pairwise Unambiguous := by
  have hpairs : ∀ pair ∈ entries.zip entries.tail, entryKey pair.1 ≤ entryKey pair.2 := by
    intro pair hpair
    have hall := (all_zip_tail_iff_pairwise fun a b => entryKey a ≤ entryKey b).mpr hsorted
    exact of_decide_eq_true (List.all_eq_true.mp hall pair hpair)
  calc ((entries.zip entries.tail).any fun pair => overlaps pair.1 pair.2) = false
      ↔ ((entries.zip entries.tail).all fun pair => Apart pair.1 pair.2) = true := by
        rw [List.any_eq_false, List.all_eq_true]
        refine forall₂_congr fun pair hpair => ?_
        rw [Bool.not_eq_true, overlaps_eq_false_iff (hpairs pair hpair), decide_eq_true_eq]
    _ ↔ entries.Pairwise Apart := all_zip_tail_iff_pairwise Apart
    _ ↔ entries.Pairwise Unambiguous := by
        constructor
        · intro h
          exact hsorted.imp₂ (fun _ _ hle hapart => (apart_iff_of_le hle).mp hapart) h
        · intro h
          exact hsorted.imp₂ (fun _ _ hle hdisjoint => (apart_iff_of_le hle).mpr hdisjoint) h

/-- The sorted entries stand in order. -/
theorem pairwise_sortEntries (entries : List InstrumentMappingEntry) :
    (sortEntries entries).Pairwise fun a b => entryKey a ≤ entryKey b :=
  List.pairwise_insertionSort _ _

/-- Sorting the entries loses none and adds none. -/
theorem perm_sortEntries (entries : List InstrumentMappingEntry) :
    (sortEntries entries).Perm entries := List.perm_insertionSort _ _

/-- Sorting does not change which entries are disjoint. -/
theorem unambiguous_sortEntries {entries : List InstrumentMappingEntry} :
    (sortEntries entries).Pairwise Unambiguous ↔ entries.Pairwise Unambiguous :=
  (perm_sortEntries entries).pairwise_iff unambiguous_symm

/-- What the constructor does, with the check on neighbours replaced by what it means. -/
theorem new_eq_ok_iff {digest : List UInt8 → ContentHash} {mappingId : Ulid} {owner : OwnerRef}
    {source : VersionRef} {entries : List InstrumentMappingEntry} {mapping : InstrumentMapping} :
    new digest mappingId owner source entries = .ok mapping ↔
      entries ≠ [] ∧ entries.Pairwise Unambiguous ∧
      mapping = ⟨mappingId, owner, source, sortEntries entries,
        mappingContentHash digest mappingId owner source (sortEntries entries)⟩ := by
  unfold new
  rw [← unambiguous_sortEntries, ← neighbours_apart_iff (pairwise_sortEntries entries)]
  cases entries with
  | nil => simp
  | cons entry entries =>
    dsimp only
    rw [if_neg (by simp)]
    split
    · rename_i hany
      simp [hany]
    · rename_i hany
      simp only [Except.ok.injEq, ne_eq, reduceCtorEq, not_false_eq_true, true_and,
        Bool.eq_false_of_not_eq_true hany]
      exact eq_comm

/-- A mapping is refused for one reason only. -/
theorem error_of_new {digest : List UInt8 → ContentHash} {mappingId : Ulid} {owner : OwnerRef}
    {source : VersionRef} {entries : List InstrumentMappingEntry} {error : DataError}
    (h : new digest mappingId owner source entries = .error error) :
    error = .invalidConfiguration := by
  unfold new at h
  dsimp only at h
  split at h
  · cases h
    rfl
  · split at h
    · cases h
      rfl
    · cases h

/-- Disjoint entries are put into one order only. -/
theorem sortEntries_eq_of_perm {entries entries' : List InstrumentMappingEntry}
    (h : entries.Perm entries') (hdisjoint : entries.Pairwise Unambiguous) :
    sortEntries entries = sortEntries entries' := by
  have apart : ∀ {l : List InstrumentMappingEntry}, l.Pairwise Unambiguous →
      (sortEntries l).Pairwise Apart := fun hl =>
    (pairwise_sortEntries _).imp₂ (fun _ _ hle hdisjoint => (apart_iff_of_le hle).mpr hdisjoint)
      (unambiguous_sortEntries.mpr hl)
  have hperm : (sortEntries entries).Perm (sortEntries entries') :=
    (perm_sortEntries entries).trans (h.trans (perm_sortEntries entries').symm)
  refine hperm.eq_of_pairwise ?_ (apart hdisjoint)
    (apart ((h.pairwise_iff unambiguous_symm).mp hdisjoint))
  intro a b _ _ hab hba
  exact absurd hba (not_apart_of_apart hab)

/-- The order in which the entries are given does not matter. -/
theorem new_eq_of_perm (digest : List UInt8 → ContentHash) (mappingId : Ulid) (owner : OwnerRef)
    (source : VersionRef) {entries entries' : List InstrumentMappingEntry}
    (h : entries.Perm entries') :
    new digest mappingId owner source entries' = new digest mappingId owner source entries := by
  cases hnew : new digest mappingId owner source entries with
  | ok mapping =>
    obtain ⟨hne, hdisjoint, rfl⟩ := new_eq_ok_iff.mp hnew
    rw [new_eq_ok_iff, sortEntries_eq_of_perm h hdisjoint]
    refine ⟨?_, (h.pairwise_iff unambiguous_symm).mp hdisjoint, rfl⟩
    rintro rfl
    exact hne h.eq_nil
  | error error =>
    cases hnew' : new digest mappingId owner source entries' with
    | error error' => rw [error_of_new hnew, error_of_new hnew']
    | ok mapping =>
      -- What is accepted in one order is accepted in the other.
      obtain ⟨hne, hdisjoint, -⟩ := new_eq_ok_iff.mp hnew'
      have hok : new digest mappingId owner source entries = .ok _ := new_eq_ok_iff.mpr
        ⟨fun h' => hne (h' ▸ h).symm.eq_nil, (h.pairwise_iff unambiguous_symm).mpr hdisjoint, rfl⟩
      rw [hok] at hnew
      cases hnew

/-! ### Resolution -/

/-- The entry of a key in force at an instant. -/
def Matches (key : String) (t : DateTime) (entry : InstrumentMappingEntry) : Prop :=
  entry.sourceInstrumentKey = key ∧ entry.effective.Contains t

instance (key : String) (t : DateTime) : DecidablePred (Matches key t) :=
  fun _ => inferInstanceAs (Decidable (_ ∧ _ ∧ _))

/-- At most one entry of a mapping matches. -/
theorem length_matches_le {entries : List InstrumentMappingEntry}
    (h : entries.Pairwise Unambiguous) (key : String) (t : DateTime) :
    (entries.filter fun entry => Matches key t entry).length ≤ 1 := by
  by_contra hlt
  obtain ⟨a, b, rest, heq⟩ : ∃ a b rest,
      (entries.filter fun entry => Matches key t entry) = a :: b :: rest := by
    match hl : entries.filter fun entry => Matches key t entry with
    | [] => rw [hl] at hlt; simp at hlt
    | [a] => rw [hl] at hlt; simp at hlt
    | a :: b :: rest => exact ⟨a, b, rest, rfl⟩
  have hpair : (a :: b :: rest).Pairwise Unambiguous := heq ▸ h.filter _
  have hmatch : ∀ e ∈ a :: b :: rest, Matches key t e := by
    intro e he
    rw [← heq, List.mem_filter, decide_eq_true_eq] at he
    exact he.2
  have ha := hmatch a List.mem_cons_self
  have hb := hmatch b (List.mem_cons_of_mem _ List.mem_cons_self)
  -- Two matching entries would share the key and the instant.
  exact (List.pairwise_cons.mp hpair).1 b List.mem_cons_self (ha.1.trans hb.1.symm) t ⟨ha.2, hb.2⟩

/-- With disjoint entries, resolving finds the entry in force. -/
theorem resolve_eq_some_iff {mapping : InstrumentMapping}
    (h : mapping.entries.Pairwise Unambiguous) {key : String} {t : DateTime}
    {instrument : VersionRef} :
    mapping.resolve key t = some instrument ↔
      ∃ entry ∈ mapping.entries, Matches key t entry ∧ entry.instrument = instrument := by
  -- At most one entry matches, so resolving is looking at the list of matches.
  have hle := length_matches_le h key t
  have hmem : ∀ entry, entry ∈ (mapping.entries.filter fun entry => Matches key t entry) ↔
      entry ∈ mapping.entries ∧ Matches key t entry := fun entry => by
    rw [List.mem_filter, decide_eq_true_eq]
  obtain ⟨found, hl⟩ : ∃ found, (mapping.entries.filter fun entry => Matches key t entry) = found :=
    ⟨_, rfl⟩
  unfold resolve
  have hfound : (mapping.entries.filter fun entry => entry.sourceInstrumentKey = key ∧
      entry.effective.from_.instant ≤ t ∧ t < entry.effective.to_.instant) = found := hl
  rw [hfound]
  rcases found with _ | ⟨entry, _ | ⟨b, rest⟩⟩
  · rw [hl] at hmem
    constructor
    · intro hnone
      cases hnone
    · rintro ⟨entry, hentry, hmatch, -⟩
      exact absurd ((hmem entry).mpr ⟨hentry, hmatch⟩) List.not_mem_nil
  · rw [hl] at hmem
    constructor
    · intro hsome
      obtain ⟨hentry, hmatch⟩ := (hmem entry).mp List.mem_cons_self
      exact ⟨entry, hentry, hmatch, Option.some.inj hsome⟩
    · rintro ⟨other, hother, hmatch, rfl⟩
      obtain rfl := List.mem_singleton.mp ((hmem other).mpr ⟨hother, hmatch⟩)
      rfl
  · rw [hl] at hle
    simp at hle

end InstrumentMapping

open InstrumentMapping in
/-- **Mappings are unambiguous.** A non-empty list of entries is accepted exactly when the periods of
    each source key are pairwise disjoint; in an accepted mapping at most one entry matches a key and
    an instant, and resolving returns the instrument of the matching entry and fails only where there
    is none; the mapping does not depend on the order of the entries. -/
theorem instrumentMapping_unambiguous (digest : List UInt8 → ContentHash) (mappingId : Ulid)
    (owner : OwnerRef) (source : VersionRef) (entries : List InstrumentMappingEntry) :
    (entries ≠ [] → ((∃ mapping, new digest mappingId owner source entries = .ok mapping) ↔
      entries.Pairwise fun a b => a.sourceInstrumentKey = b.sourceInstrumentKey →
        a.effective.Disjoint b.effective)) ∧
    (∀ mapping, new digest mappingId owner source entries = .ok mapping →
      mapping.entries.Perm entries ∧
      ∀ (key : String) (t : DateTime),
        (mapping.entries.filter fun entry => Matches key t entry).length ≤ 1 ∧
        (∀ instrument, mapping.resolve key t = some instrument ↔
          ∃ entry ∈ mapping.entries, entry.sourceInstrumentKey = key ∧
            entry.effective.Contains t ∧ entry.instrument = instrument) ∧
        (mapping.resolve key t = none ↔
          ∀ entry ∈ mapping.entries, ¬ (entry.sourceInstrumentKey = key ∧
            entry.effective.Contains t))) ∧
    (∀ entries', entries.Perm entries' →
      new digest mappingId owner source entries' = new digest mappingId owner source entries) := by
  refine ⟨?_, ?_, fun _ h => new_eq_of_perm digest mappingId owner source h⟩
  · intro hne
    constructor
    · rintro ⟨mapping, hnew⟩
      exact (new_eq_ok_iff.mp hnew).2.1
    · intro hdisjoint
      exact ⟨_, new_eq_ok_iff.mpr ⟨hne, hdisjoint, rfl⟩⟩
  · intro mapping hnew
    obtain ⟨-, hdisjoint, rfl⟩ := new_eq_ok_iff.mp hnew
    -- Sorting puts neighbours next to each other and changes no entry.
    have hsorted := unambiguous_sortEntries.mpr hdisjoint
    refine ⟨perm_sortEntries entries, fun key t => ⟨length_matches_le hsorted key t, ?_, ?_⟩⟩
    · intro instrument
      rw [resolve_eq_some_iff hsorted]
      simp only [Matches, and_assoc]
    · rw [Option.eq_none_iff_forall_ne_some]
      constructor
      · intro hnone entry hentry hmatch
        exact hnone entry.instrument
          ((resolve_eq_some_iff hsorted).mpr ⟨entry, hentry, hmatch, rfl⟩)
      · intro hnone instrument hsome
        obtain ⟨entry, hentry, hmatch, -⟩ := (resolve_eq_some_iff hsorted).mp hsome
        exact hnone entry hentry hmatch

/-- A period of whole seconds of one day in UTC. -/
def secondsPeriod (from_ to_ : ℕ) (h : from_ < to_ ∧ to_ < 86400) : EffectivePeriod where
  from_ := ⟨.ofSeconds from_ (by omega) (by omega), "UTC", .epoch⟩
  to_ := ⟨.ofSeconds to_ (by omega) (by omega), "UTC", .epoch⟩
  ordered := DateTime.lt_iff.mpr (Or.inl (show (from_ : ℤ) < to_ by exact_mod_cast h.1))

/-- Two instruments of one key, the second from the end of the first on, given in the other order. -/
def sampleEntries : List InstrumentMappingEntry :=
  [⟨"T2406", secondsPeriod 20 30 (by decide), ⟨⟨2⟩, .first⟩⟩,
    ⟨"T2406", secondsPeriod 10 20 (by decide), ⟨⟨1⟩, .first⟩⟩]

theorem instrumentMapping_unambiguous_sample :
    ∃ mapping, InstrumentMapping.new (fun _ => (.filled 0)) ⟨7⟩ ⟨⟨8⟩, ⟨9⟩⟩
        ⟨⟨10⟩, .first⟩ sampleEntries = .ok mapping ∧
      mapping.resolve "T2406" (secondsPeriod 20 30 (by decide)).from_.instant =
        some ⟨⟨2⟩, .first⟩ := by
  obtain ⟨haccept, hresolve, -⟩ := instrumentMapping_unambiguous
    (fun _ => (.filled 0)) ⟨7⟩ ⟨⟨8⟩, ⟨9⟩⟩ ⟨⟨10⟩, .first⟩
    sampleEntries
  obtain ⟨mapping, hnew⟩ := (haccept (by simp [sampleEntries])).mpr (by
    refine List.pairwise_pair.mpr fun _ => EffectivePeriod.Disjoint.symm ?_
    exact (EffectivePeriod.disjoint_iff_of_le (by decide)).mpr (by decide))
  refine ⟨mapping, hnew, ?_⟩
  obtain ⟨hperm, hkey⟩ := hresolve mapping hnew
  exact ((hkey "T2406" (secondsPeriod 20 30 (by decide)).from_.instant).2.1 _).mpr
    ⟨_, hperm.mem_iff.mpr List.mem_cons_self, rfl, ⟨by decide, by decide⟩, rfl⟩

end Ficant
