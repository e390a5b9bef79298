import Ficant.Catalog.Hierarchy

namespace Ficant.Catalog

open Lib
open Fingerprint (sampleDigest)

/-!
# The members of a scope

`resolve_members` looks for the portfolios of a group among the identifiers of its descendants, and
for those of a book by the identifier of the portfolio's own book.  The catalog itself names exact
versions.

* `ExactChain` — a group with its ancestors along exact references; `groupChain_eq_ok` says that
  `group_path` follows it;
* `ParentLink` — some visible version of a group has a parent of that identifier.
  `mem_descendants_iff`: the loop collects what is linked to the group, and always ends
  (`descendantLoop_ends`);
* `GroupScopeExact`, `BookScopeExact` — the members are those whose chain of exact references says so,
  and no portfolio that concerns the scope is passed over for a broken chain;
* `scope_exact_iff` — when this is so.
-/

variable {digest : List UInt8 → ContentHash}

/-! ### Exact keys -/

/-- The text of an identity has 26 characters. -/
theorem length_ulidText (id : Ulid) : id.text.toList.length = 26 := by
  rw [Ulid.text, String.toList_ofList, List.length_map, Ulid.length_base32]

/-- A colon is no hexadecimal digit. -/
theorem colon_not_mem_hex (bytes : List UInt8) : ':' ∉ bytes.flatMap hexByte := by
  have hdigit : ∀ n < 16, ':' ≠ Nat.digitChar n := by decide
  intro hmem
  obtain ⟨b, -, hb⟩ := List.mem_flatMap.mp hmem
  have hlt := b.toNat_lt
  rcases List.mem_pair.mp hb with h | h
  · exact hdigit (b.toNat / 16) (by omega) h
  · exact hdigit (b.toNat % 16) (by omega) h

/-- The key of an exact version tells its identifier and its version. -/
theorem eq_of_exactKey {a b : Ulid} {v w : Version} {s t : ContentHash}
    (h : exactKey a v s = exactKey b w t) : a = b ∧ v = w := by
  have hlist := String.ofList_injective h
  rw [List.append_assoc, List.append_assoc] at hlist
  obtain ⟨hid, hrest⟩ := List.append_inj hlist (by rw [length_ulidText, length_ulidText])
  refine ⟨Ulid.text_injective (String.toList_inj.mp hid), ?_⟩
  -- the hash is the last field, and the version stands before it
  obtain ⟨hversion, -⟩ := field_inj (colon_not_mem_hex _) (colon_not_mem_hex _) hrest
  have hvalue := decimalChars_injective (List.cons.inj hversion).2
  exact Version.ext_value (by exact_mod_cast hvalue)

section Versions

variable {α : Type} [Versioned α] {records : List (Visible α)} {m : SortedMap String (Visible α)}

/-- An exact map holds every record under its key. -/
theorem exactMap_get? (h : exactMap records = .ok m) :
    ∀ key record, m.get? key = some record → key = exactVersionKey record.value ∧
    record ∈ records := by
  refine foldlM_induction
    (motive := fun done (m : SortedMap String (Visible α)) => ∀ key record, m.get? key = some record →
      key = exactVersionKey record.value ∧ record ∈ done) (by simp) ?_ h
  intro done a m m' hm hstep key record hget
  split at hstep
  · cases hstep
  · obtain rfl := Except.ok.inj hstep
    rw [SortedMap.get?_insert] at hget
    split at hget
    · rename_i hkey
      obtain rfl := Option.some.inj hget
      exact ⟨hkey, by simp⟩
    · obtain ⟨hkey, hmem⟩ := hm key record hget
      exact ⟨hkey, List.mem_append_left _ hmem⟩

/-- Records with distinct keys have an exact map, and each is found under its key. -/
theorem exists_exactMap (h : (records.map fun record => exactVersionKey record.value).Nodup) :
    ∃ m, exactMap records = .ok m ∧
      ∀ record ∈ records, m.get? (exactVersionKey record.value) = some record := by
  -- The induction is on the records still to be added; what is in the map so far is kept.
  suffices hfrom : ∀ (rest : List (Visible α)) (m : SortedMap String (Visible α)),
      (rest.map fun record => exactVersionKey record.value).Nodup →
      (∀ record ∈ rest, m.get? (exactVersionKey record.value) = none) →
      ∃ m', rest.foldlM (fun result record =>
          if (result.get? (exactVersionKey record.value)).isSome then .error stateConflict
          else .ok (result.insert (exactVersionKey record.value) record)) m = Except.ok m' ∧
        (∀ key record, m.get? key = some record → m'.get? key = some record) ∧
        ∀ record ∈ rest, m'.get? (exactVersionKey record.value) = some record by
    obtain ⟨m, hm, -, hget⟩ := hfrom records ∅ h (fun _ _ => rfl)
    exact ⟨m, hm, hget⟩
  intro rest
  induction rest with
  | nil => exact fun m _ _ => ⟨m, rfl, fun _ _ => id, by simp⟩
  | cons a rest ih =>
    intro m hnodup hfresh
    rw [List.map_cons, List.nodup_cons] at hnodup
    -- No later record has the key of this one, so none is refused and none replaces it.
    have hother : ∀ record ∈ rest, exactVersionKey record.value ≠ exactVersionKey a.value :=
      fun record hrecord heq => hnodup.1 (List.mem_map.mpr ⟨record, hrecord, heq⟩)
    obtain ⟨m', hm', hkeeps, hget⟩ := ih (m.insert (exactVersionKey a.value) a) hnodup.2 (by
      intro record hrecord
      rw [SortedMap.get?_insert, if_neg (hother record hrecord)]
      exact hfresh record (List.mem_cons_of_mem _ hrecord))
    refine ⟨m', ?_, ?_, ?_⟩
    · rw [List.foldlM_cons, hfresh a List.mem_cons_self]
      exact hm'
    · intro key record hkey
      apply hkeeps
      rw [SortedMap.get?_insert]
      split
      · rename_i heq
        rw [heq, hfresh a List.mem_cons_self] at hkey
        cases hkey
      · exact hkey
    · intro record hrecord
      rcases List.mem_cons.mp hrecord with rfl | hrecord
      · exact hkeeps _ _ (SortedMap.get?_insert_self _ _ _)
      · exact hget record hrecord

/-- A record with the identifier is found if there is one. -/
theorem exists_latestById {id : Ulid}
    (h : ∃ record ∈ records, (Versioned.reference record.value).id = id) :
    ∃ record, latestById records id = .ok record := by
  -- Once a record is found the fold never loses it again.
  have hkeeps : ∀ (l : List (Visible α)) (best : Option (Visible α)), best.isSome ∨ l ≠ [] →
      (l.foldl laterVersion best).isSome := by
    intro l
    induction l with
    | nil =>
      intro best hbest
      simpa using hbest
    | cons a l ih =>
      intro best _
      refine ih _ (.inl ?_)
      cases best with
      | none => rfl
      | some previous =>
        rw [laterVersion]
        split <;> rfl
  obtain ⟨record, hmem, hid⟩ := h
  have hne : records.filter (fun record => (Versioned.reference record.value).id = id) ≠ [] :=
    List.ne_nil_of_mem (List.mem_filter.mpr ⟨hmem, by simpa using hid⟩)
  obtain ⟨best, hbest⟩ := Option.isSome_iff_exists.mp (hkeeps _ none (.inr hne))
  exact ⟨best, by rw [latestById, hbest]⟩

end Versions

/-! ### Chains of exact references -/

namespace Hierarchy

variable {h : Hierarchy digest}

/-- Every group stands under the key of its exact version. -/
def Keyed (h : Hierarchy digest) : Prop :=
  ∀ key record, h.groups.get? key = some record → key = exactVersionKey record.value

/-- A group with its ancestors, each named by an exact reference of the one before. -/
inductive ExactChain (h : Hierarchy digest) :
    PortfolioGroup digest → List (PortfolioGroup digest) → Prop
  | root {g : PortfolioGroup digest} (hparent : g.input.parentGroup = none) : ExactChain h g [g]
  | step {g : PortfolioGroup digest} {parent : LineageRef} {record : Visible (PortfolioGroup digest)}
    {rest : List (PortfolioGroup digest)} (hparent : g.input.parentGroup = some parent)
    (hgroup : h.group parent = .ok record) (hrest : ExactChain h record.value rest) :
    ExactChain h g (g :: rest)

/-- An exact reference leads to a group of the hierarchy that has its key and its identifier. -/
theorem group_eq_ok {reference : LineageRef} {record : Visible (PortfolioGroup digest)}
    (hkeyed : h.Keyed) (heq : h.group reference = .ok record) :
    h.groups.get? (exactVersionKey record.value) = some record ∧
      record.value.input.group.id = reference.objectId := by
  obtain ⟨key, hkey, hfound⟩ := bind_eq_ok.mp heq
  cases hget : h.groups.get? key with
  | none =>
    rw [hget] at hfound
    cases hfound
  | some found =>
    rw [hget] at hfound
    obtain rfl := Except.ok.inj hfound
    have hown := hkeyed key found hget
    refine ⟨by rw [← hown]; exact hget, ?_⟩
    unfold exactLineageKey at hkey
    split at hkey
    · obtain rfl := Except.ok.inj hkey
      exact (eq_of_exactKey hown).1.symm
    · cases hkey

/-- A group is found under the exact reference to it. -/
theorem group_of_get? {record : Visible (PortfolioGroup digest)}
    (hget : h.groups.get? (exactVersionKey record.value) = some record) :
    h.group (exactLineage record.value) = .ok record := by
  have hkey : exactLineageKey (exactLineage record.value) = .ok (exactVersionKey record.value) := rfl
  rw [group, hkey, ok_bind, hget]

/-- A group has at most one chain. -/
theorem ExactChain.unique {g : PortfolioGroup digest} {l m : List (PortfolioGroup digest)}
    (hl : ExactChain h g l) (hm : ExactChain h g m) : l = m := by
  induction hl generalizing m with
  | root hparent =>
    cases hm with
    | root => rfl
    | step hparent' => rw [hparent] at hparent'; cases hparent'
  | step hparent hgroup _ ih =>
    cases hm with
    | root hparent' => rw [hparent] at hparent'; cases hparent'
    | step hparent' hgroup' hrest' =>
      obtain rfl := Option.some.inj (hparent.symm.trans hparent')
      obtain rfl := Except.ok.inj (hgroup.symm.trans hgroup')
      rw [ih hrest']

/-- Every later group of a chain is a group of the hierarchy, and starts a shorter chain. -/
theorem ExactChain.tail_mem (hkeyed : h.Keyed) {g : PortfolioGroup digest}
    {l : List (PortfolioGroup digest)} (hl : ExactChain h g l) {a : PortfolioGroup digest}
    (ha : a ∈ l.tail) : (∃ record, h.groups.get? (exactVersionKey a) = some record ∧
      record.value = a) ∧ ∃ m, ExactChain h a m ∧ m.length < l.length := by
  induction hl with
  | root => cases ha
  | @step g parent record rest hparent hgroup hrest ih =>
    have hlength : rest.length < (g :: rest).length := by simp
    obtain ⟨head, tail, rfl⟩ : ∃ head tail, rest = head :: tail := by
      cases hrest with
      | root => exact ⟨_, _, rfl⟩
      | step => exact ⟨_, _, rfl⟩
    rcases List.mem_cons.mp ha with rfl | hmem
    · have hhead : record.value = a := by cases hrest <;> rfl
      refine ⟨⟨record, ?_, hhead⟩, _, hhead ▸ hrest, hlength⟩
      rw [← hhead]
      exact (group_eq_ok hkeyed hgroup).1
    · obtain ⟨hrecord, m, hm, hlt⟩ := ih hmem
      exact ⟨hrecord, m, hm, lt_trans hlt hlength⟩

/-- The keys of a chain from a group of the hierarchy are distinct: a group that came back would have
    a chain shorter than its own. -/
theorem ExactChain.nodup (hkeyed : h.Keyed) {g : PortfolioGroup digest}
    {l : List (PortfolioGroup digest)} (hl : ExactChain h g l)
    (hg : ∃ record, h.groups.get? (exactVersionKey g) = some record ∧ record.value = g) :
    (l.map exactVersionKey).Nodup := by
  induction hl with
  | root => exact List.nodup_singleton _
  | @step g parent record rest hparent hgroup hrest ih =>
    rw [List.map_cons, List.nodup_cons]
    refine ⟨fun hmem => ?_, ih ⟨record, (group_eq_ok hkeyed hgroup).1, rfl⟩⟩
    obtain ⟨a, ha, hkey⟩ := List.mem_map.mp hmem
    have hchain := ExactChain.step hparent hgroup hrest
    obtain ⟨⟨found, hfound, rfl⟩, m, hm, hlt⟩ := hchain.tail_mem hkeyed ha
    obtain ⟨own, hown, rfl⟩ := hg
    rw [hkey, hown] at hfound
    obtain rfl := Option.some.inj hfound
    rw [hm.unique hchain] at hlt
    exact lt_irrefl _ hlt

/-- A chain is no longer than the hierarchy has groups. -/
theorem ExactChain.length_le (hkeyed : h.Keyed) {g : PortfolioGroup digest}
    {l : List (PortfolioGroup digest)} (hl : ExactChain h g l)
    (hg : ∃ record, h.groups.get? (exactVersionKey g) = some record ∧ record.value = g) :
    l.length ≤ h.groups.entries.length := by
  -- The keys of the chain are keys of the snapshot, and none occurs twice.
  have hsubset : l.map exactVersionKey ⊆ h.groups.keys := by
    intro key hmem
    obtain ⟨a, ha, rfl⟩ := List.mem_map.mp hmem
    have hfound : ∃ record, h.groups.get? (exactVersionKey a) = some record := by
      cases hl with
      | root =>
        obtain rfl := List.mem_singleton.mp ha
        exact ⟨_, hg.choose_spec.1⟩
      | step hparent hgroup hrest =>
        rcases List.mem_cons.mp ha with rfl | htail
        · exact ⟨_, hg.choose_spec.1⟩
        · obtain ⟨⟨record, hget, -⟩, -⟩ :=
            (ExactChain.step hparent hgroup hrest).tail_mem hkeyed htail
          exact ⟨record, hget⟩
    rw [SortedMap.mem_keys_iff, Option.isSome_iff_exists]
    exact hfound
  have hle := ((hl.nodup hkeyed hg).subperm hsubset).length_le
  rwa [List.length_map, SortedMap.keys, List.length_map] at hle

/-- What the loop of `group_path` returns is a chain. -/
theorem walk_sound {fuel : ℕ} {visited : List String} {g : PortfolioGroup digest}
    {l : List (PortfolioGroup digest)} (hwalk : h.walk fuel visited g = .ok l) : ExactChain h g l := by
  induction fuel generalizing visited g l with
  | zero => cases hwalk
  | succ fuel ih =>
    rw [walk] at hwalk
    split at hwalk
    · cases hwalk
    · split at hwalk
      · rename_i hparent
        obtain rfl := Except.ok.inj hwalk
        exact .root hparent
      · rename_i parent hparent
        obtain ⟨record, hgroup, hwalk⟩ := bind_eq_ok.mp hwalk
        obtain ⟨ancestors, hancestors, hwalk⟩ := bind_eq_ok.mp hwalk
        obtain rfl := Except.ok.inj hwalk
        exact .step hparent hgroup (ih hancestors)

/-- The loop follows a chain whose keys it has not visited. -/
theorem walk_complete {g : PortfolioGroup digest} {l : List (PortfolioGroup digest)}
    (hl : ExactChain h g l) {fuel : ℕ} {visited : List String} (hfuel : l.length ≤ fuel)
    (hnodup : (l.map exactVersionKey).Nodup)
    (hvisited : ∀ a ∈ l, exactVersionKey a ∉ visited) : h.walk fuel visited g = .ok l := by
  -- By induction on the chain: the keys walked so far are exactly those that are left behind.
  induction hl generalizing fuel visited with
  | root hparent =>
    obtain ⟨fuel, rfl⟩ : ∃ n, fuel = n + 1 := ⟨fuel - 1, by simp at hfuel; omega⟩
    rw [walk, if_neg (hvisited _ List.mem_cons_self)]
    simp only [hparent]
  | @step g parent record rest hparent hgroup hrest ih =>
    obtain ⟨fuel, rfl⟩ : ∃ n, fuel = n + 1 := ⟨fuel - 1, by simp at hfuel; omega⟩
    rw [List.map_cons, List.nodup_cons] at hnodup
    have hancestors : h.walk fuel (exactVersionKey g :: visited) record.value = .ok rest := by
      apply ih
      · simpa using hfuel
      · exact hnodup.2
      · intro a ha hmem
        rcases List.mem_cons.mp hmem with heq | hmem
        · exact hnodup.1 (heq ▸ List.mem_map_of_mem ha)
        · exact hvisited a (List.mem_cons_of_mem _ ha) hmem
    rw [walk, if_neg (hvisited _ List.mem_cons_self)]
    simp only [hparent, hgroup, ok_bind, hancestors]
    rfl

/-- `group_path` follows the exact chain of a group of the hierarchy, and fails only without one. -/
theorem groupChain_eq_ok (hkeyed : h.Keyed) {g : PortfolioGroup digest}
    (hg : ∃ record, h.groups.get? (exactVersionKey g) = some record ∧ record.value = g)
    {l : List (PortfolioGroup digest)} : h.groupChain g = .ok l ↔ ExactChain h g l := by
  refine ⟨walk_sound, fun hl => walk_complete hl ?_ (hl.nodup hkeyed hg) (by simp)⟩
  have := hl.length_le hkeyed hg
  omega

/-! ### Descendants by identifier -/

/-- Some visible version of the group `a` has a parent with the identifier `b`. -/
def ParentLink (h : Hierarchy digest) (a b : Ulid) : Prop :=
  ∃ record ∈ h.groupRecords, record.value.input.group.id = a ∧
    ∃ parent ∈ record.value.input.parentGroup, parent.objectId = b

/-- One record of a round. -/
def collect (result : Finset Ulid) (record : Visible (PortfolioGroup digest)) : Finset Ulid :=
  match record.value.input.parentGroup with
  | some parent =>
    if parent.objectId ∈ result then insert record.value.input.group.id result else result
  | none => result

/-- Collecting a record drops no group. -/
theorem subset_collect (result : Finset Ulid) (record : Visible (PortfolioGroup digest)) :
    result ⊆ collect result record := by
  unfold collect
  split
  · split
    · exact Finset.subset_insert _ _
    · exact Finset.Subset.refl _
  · exact Finset.Subset.refl _

/-- Collecting records drops no group. -/
theorem subset_foldl_collect (l : List (Visible (PortfolioGroup digest))) (result : Finset Ulid) :
    result ⊆ l.foldl collect result := by
  induction l generalizing result with
  | nil => exact Finset.Subset.refl _
  | cons record l ih => exact (subset_collect result record).trans (ih _)

/-- A round only adds what is linked to something collected before. -/
theorem mem_collect {root : Ulid} {result : Finset Ulid} {record : Visible (PortfolioGroup digest)}
    (hrecord : record ∈ h.groupRecords)
    (hresult : ∀ x ∈ result, Relation.ReflTransGen (ParentLink h) x root) {x : Ulid}
    (hx : x ∈ collect result record) : Relation.ReflTransGen (ParentLink h) x root := by
  unfold collect at hx
  split at hx
  · rename_i parent hparent
    split at hx
    · rename_i hmem
      rcases Finset.mem_insert.mp hx with rfl | hold
      · exact .head ⟨record, hrecord, rfl, parent, hparent, rfl⟩ (hresult _ hmem)
      · exact hresult x hold
    · exact hresult x hx
  · exact hresult x hx

/-- Only groups below the root are collected. -/
theorem foldl_collect_sound {root : Ulid} {l : List (Visible (PortfolioGroup digest))}
    (hl : l ⊆ h.groupRecords) {result : Finset Ulid}
    (hresult : ∀ x ∈ result, Relation.ReflTransGen (ParentLink h) x root) :
    ∀ x ∈ l.foldl collect result, Relation.ReflTransGen (ParentLink h) x root := by
  induction l generalizing result with
  | nil => exact hresult
  | cons record l ih =>
    obtain ⟨hrecord, hl⟩ := List.cons_subset.mp hl
    exact ih hl fun x => mem_collect hrecord hresult

/-- A round that adds nothing has found everything that is linked. -/
theorem closed_of_foldl_collect {l : List (Visible (PortfolioGroup digest))} {result : Finset Ulid}
    (hfixed : l.foldl collect result = result) {record : Visible (PortfolioGroup digest)}
    (hrecord : record ∈ l) {parent : LineageRef}
    (hparent : record.value.input.parentGroup = some parent) (hmem : parent.objectId ∈ result) :
    record.value.input.group.id ∈ result := by
  -- when the record is reached, the parent is there, and what is added stays
  obtain ⟨before, after, rfl⟩ := List.append_of_mem hrecord
  rw [List.foldl_append, List.foldl_cons] at hfixed
  rw [← hfixed]
  apply subset_foldl_collect after
  have hthere : parent.objectId ∈ before.foldl collect result := subset_foldl_collect before _ hmem
  simp only [collect, hparent, if_pos hthere]
  exact Finset.mem_insert_self _ _

/-- A round that leaves the number of identifiers as it is changes nothing. -/
theorem descendantRound_fixed {result : Finset Ulid}
    (hcard : (h.descendantRound result).card = result.card) : h.descendantRound result = result :=
  (Finset.eq_of_subset_of_card_le (subset_foldl_collect _ _) hcard.le).symm

/-- The loop ends: every round but the last adds an identifier, and there are no more of these than
    groups. -/
theorem descendantLoop_ends (h : Hierarchy digest) {fuel : ℕ} {result : Finset Ulid}
    (hpos : 0 < fuel) (hfuel : h.groups.entries.length + 2 ≤ fuel + result.card) :
    ∃ outcome, h.descendantLoop fuel result = some outcome := by
  induction fuel generalizing result with
  | zero => omega
  | succ fuel ih =>
    rw [descendantLoop]
    split
    · exact ⟨_, rfl⟩
    · rename_i hmore
      have hle : result.card ≤ (h.descendantRound result).card :=
        Finset.card_le_card (subset_foldl_collect _ _)
      split
      · exact ⟨_, rfl⟩
      · apply ih
        · omega
        · omega

/-- `descendant_group_ids` ends on every hierarchy, for every group. -/
theorem descendantGroupIds_ends (h : Hierarchy digest) (root : Ulid) :
    ∃ outcome, h.descendantGroupIds root = some outcome :=
  descendantLoop_ends h (by omega) (by rw [Finset.card_singleton])

/-- There is a visible version of the group. -/
def HasGroup (h : Hierarchy digest) (id : Ulid) : Prop :=
  ∃ record ∈ h.groupRecords, record.value.input.group.id = id

/-- What is linked to a visible group is visible. -/
theorem hasGroup_of_linked {root x : Ulid} (hroot : h.HasGroup root)
    (hx : Relation.ReflTransGen (ParentLink h) x root) : h.HasGroup x := by
  induction hx using Relation.ReflTransGen.head_induction_on with
  | refl => exact hroot
  | head hlink _ _ =>
    obtain ⟨record, hmem, hid, -⟩ := hlink
    exact ⟨record, hmem, hid⟩

/-- Visible identifiers are at most as many as groups, so the loop does not give up. -/
theorem card_le_of_linked {root : Ulid} (hroot : h.HasGroup root) {result : Finset Ulid}
    (hresult : ∀ x ∈ result, Relation.ReflTransGen (ParentLink h) x root) :
    result.card ≤ h.groups.entries.length := by
  have hsubset : result ⊆ (h.groupRecords.map fun record => record.value.input.group.id).toFinset := by
    intro x hx
    obtain ⟨record, hmem, rfl⟩ := hasGroup_of_linked hroot (hresult x hx)
    exact List.mem_toFinset.mpr (List.mem_map_of_mem hmem)
  have hle := (Finset.card_le_card hsubset).trans (List.toFinset_card_le _)
  rwa [List.length_map, groupRecords, List.length_map] at hle

/-- When the loop ends it has collected what is linked to the group. -/
theorem descendantLoop_spec {root : Ulid} (hroot : h.HasGroup root) {fuel : ℕ} {result : Finset Ulid}
    (hmem : root ∈ result)
    (hresult : ∀ x ∈ result, Relation.ReflTransGen (ParentLink h) x root)
    {outcome : Except ApplicationError (Finset Ulid)}
    (hloop : h.descendantLoop fuel result = some outcome) :
    ∃ ids, outcome = .ok ids ∧ ∀ x, x ∈ ids ↔ Relation.ReflTransGen (ParentLink h) x root := by
  induction fuel generalizing result with
  | zero => cases hloop
  | succ fuel ih =>
    have hnext : ∀ x ∈ h.descendantRound result, Relation.ReflTransGen (ParentLink h) x root :=
      foldl_collect_sound (List.Subset.refl _) hresult
    rw [descendantLoop] at hloop
    split at hloop
    · rename_i hcard
      obtain rfl := Option.some.inj hloop
      refine ⟨_, rfl, fun x => ⟨hnext x, fun hx => ?_⟩⟩
      -- The round added nothing, so what it holds is closed under the links.
      have hfixed := descendantRound_fixed hcard
      rw [hfixed]
      induction hx using Relation.ReflTransGen.head_induction_on with
      | refl => exact hmem
      | head hlink _ ihx =>
        obtain ⟨record, hrecord, rfl, parent, hparent, rfl⟩ := hlink
        exact closed_of_foldl_collect hfixed hrecord hparent ihx
    · split at hloop
      · rename_i hmany
        -- The code's bound is never passed, since only groups below the root are added.
        have := card_le_of_linked hroot hnext
        omega
      · exact ih (subset_foldl_collect _ _ hmem) hnext hloop

/-- The descendants of a visible group are the groups linked to it. -/
theorem mem_descendants_iff {root : Ulid} (hroot : h.HasGroup root) :
    ∃ ids, h.descendantGroupIds root = some (.ok ids) ∧
      ∀ x, x ∈ ids ↔ Relation.ReflTransGen (ParentLink h) x root := by
  obtain ⟨outcome, houtcome⟩ := descendantGroupIds_ends h root
  have hself : ∀ x ∈ ({root} : Finset Ulid), Relation.ReflTransGen (ParentLink h) x root := by
    intro x hx
    rw [Finset.mem_singleton.mp hx]
  obtain ⟨ids, rfl, hids⟩ :=
    descendantLoop_spec hroot (Finset.mem_singleton_self root) hself houtcome
  exact ⟨ids, houtcome, hids⟩

/-! ### What a scope should contain -/

/-- The chain of a portfolio: its exact group and that group's ancestors. -/
def chainOf (h : Hierarchy digest) (record : Visible (Portfolio digest)) :
    Except ApplicationError (List (PortfolioGroup digest)) := do
  let group ← h.group record.value.input.group
  h.groupChain group.value

/-- The chain contains a version of the group. -/
def chainThrough (h : Hierarchy digest) (id : Ulid) (record : Visible (Portfolio digest)) : Bool :=
  match h.chainOf record with
  | .ok chain => chain.any fun group => group.input.group.id = id
  | .error _ => false

/-- The chain belongs to the book: all its groups do. -/
def chainInBook (h : Hierarchy digest) (id : Ulid) (record : Visible (Portfolio digest)) : Bool :=
  match h.chainOf record with
  | .ok chain => chain.all fun group => group.input.book.objectId = id
  | .error _ => false

/-- Every latest portfolio that is concerned has a chain: no exact group is missing, and there is no
    cycle. -/
def ChainsResolve (h : Hierarchy digest) (concerned : Visible (Portfolio digest) → Prop) : Prop :=
  ∀ record ∈ h.portfolios, concerned record → ∃ chain, h.chainOf record = .ok chain

/-- The call answers with the given portfolios if the chains of those that are concerned resolve, and
    fails otherwise: none of these is left out because its chain is broken.  A broken chain of a
    portfolio that is not concerned, such as one of another book, leaves the answer as it is. -/
def Answers (h : Hierarchy digest) (concerned : Visible (Portfolio digest) → Prop)
    (selector : ScopeSelector) (lookThrough : LookThrough)
    (member : Visible (Portfolio digest) → Bool) : Prop :=
  (h.ChainsResolve concerned → ∃ scope, h.resolveMembers selector lookThrough =
    some (.ok (scope, stableMemberSort (h.portfolios.filter member)))) ∧
  (¬ h.ChainsResolve concerned →
    ∃ error, h.resolveMembers selector lookThrough = some (.error error))

/-- The members of a group with look-through are the portfolios whose chain passes through it. -/
def GroupScopeExact (h : Hierarchy digest) (concerned : Visible (Portfolio digest) → Prop) (id : Ulid)
    (lookThrough : LookThrough) : Prop :=
  h.Answers concerned (.group id) lookThrough (h.chainThrough id)

/-- The members of a book are the portfolios whose chain belongs to it; without look-through those at
    its top level. -/
def BookScopeExact (h : Hierarchy digest) (concerned : Visible (Portfolio digest) → Prop) (id : Ulid)
    (lookThrough : LookThrough) : Prop :=
  h.Answers concerned (.book id) lookThrough fun record =>
    h.chainInBook id record && (lookThrough != .none || h.isTopLevel record)

/-- The portfolio names the book as its own. -/
def NamesBook (id : Ulid) (record : Visible (Portfolio digest)) : Prop :=
  record.value.input.book.objectId = id

/-- Parent links of whatever versions lead from the group of the portfolio to the selected one. -/
def LinkedTo (h : Hierarchy digest) (id : Ulid) (record : Visible (Portfolio digest)) : Prop :=
  Relation.ReflTransGen (ParentLink h) record.value.input.group.objectId id

/-- Where parent links of whatever versions lead from the group of a portfolio to the selected one, the
    exact chain of the portfolio leads there too. -/
def LinksFollowed (h : Hierarchy digest) (id : Ulid) : Prop :=
  ∀ record ∈ h.portfolios, h.LinkedTo id record → h.chainThrough id record = true

/-- A portfolio names the book as its own exactly when the groups of its chain do. -/
def BooksAgree (h : Hierarchy digest) (id : Ulid) (lookThrough : LookThrough) : Prop :=
  ∀ record ∈ h.portfolios, lookThrough ≠ .none ∨ h.isTopLevel record = true →
    (NamesBook id record ↔ h.chainInBook id record = true)

/-- There is a visible version of the book. -/
def HasBook (h : Hierarchy digest) (id : Ulid) : Prop :=
  ∃ record ∈ h.books.entries.map Prod.snd, record.value.input.book.id = id

/-- A call that always answers, with a filter of the latest portfolios, answers with the given ones
    exactly if the chains concerned resolve and the filters agree. -/
theorem answers_iff {concerned : Visible (Portfolio digest) → Prop} {selector : ScopeSelector}
    {lookThrough : LookThrough}
    {actual member : Visible (Portfolio digest) → Bool} {scope : ExactScope}
    (hcall : h.resolveMembers selector lookThrough =
      some (.ok (scope, stableMemberSort (h.portfolios.filter actual)))) :
    h.Answers concerned selector lookThrough member ↔ h.ChainsResolve concerned ∧
      ∀ record ∈ h.portfolios, (actual record = true ↔ member record = true) := by
  constructor
  · rintro ⟨hanswer, hfails⟩
    -- A call that answered cannot have met a broken chain.
    have hchains : h.ChainsResolve concerned := by
      by_contra hchains
      obtain ⟨error, herror⟩ := hfails hchains
      rw [hcall] at herror
      cases herror
    refine ⟨hchains, fun record hrecord => ?_⟩
    obtain ⟨scope', hscope⟩ := hanswer hchains
    rw [hcall] at hscope
    -- The sorted lists agree, so the two filters pick the same portfolios.
    have hlists : stableMemberSort (h.portfolios.filter actual) =
        stableMemberSort (h.portfolios.filter member) := by
      have hpair := Except.ok.inj (Option.some.inj hscope)
      exact (Prod.mk.inj hpair).2
    have hmem : ∀ filter : Visible (Portfolio digest) → Bool, filter record = true ↔
        record ∈ stableMemberSort (h.portfolios.filter filter) := by
      intro filter
      rw [stableMemberSort, List.mem_insertionSort, List.mem_filter, and_iff_right hrecord]
    rw [hmem actual, hmem member, hlists]
  · rintro ⟨hchains, hagree⟩
    refine ⟨fun _ => ⟨scope, ?_⟩, fun hnone => absurd hchains hnone⟩
    rw [hcall, List.filter_congr fun record hrecord => Bool.eq_iff_iff.mpr (hagree record hrecord)]

/-- Along a chain every group is linked to the later ones. -/
theorem ExactChain.linked (hkeyed : h.Keyed) {g : PortfolioGroup digest}
    {l : List (PortfolioGroup digest)} (hl : ExactChain h g l)
    (hg : ∃ record, h.groups.get? (exactVersionKey g) = some record ∧ record.value = g)
    {a : PortfolioGroup digest} (ha : a ∈ l) :
    Relation.ReflTransGen (ParentLink h) g.input.group.id a.input.group.id := by
  induction hl with
  | root => rw [List.mem_singleton.mp ha]
  | @step g parent next rest hparent hnext hrest ih =>
    rcases List.mem_cons.mp ha with rfl | hrestmem
    · exact .refl
    · obtain ⟨hget, hid⟩ := group_eq_ok hkeyed hnext
      refine .head ?_ (ih ⟨next, hget, rfl⟩ hrestmem)
      obtain ⟨record, hrecord, rfl⟩ := hg
      have hmem : record ∈ h.groupRecords :=
        List.mem_map.mpr ⟨_, SortedMap.mem_entries_iff.mpr hrecord, rfl⟩
      exact ⟨record, hmem, rfl, parent, hparent, hid.symm⟩

/-- The chain of a portfolio is the chain of exact references of its group, and is only missing where
    there is none. -/
theorem chainOf_eq_ok (hkeyed : h.Keyed) {record : Visible (Portfolio digest)}
    {chain : List (PortfolioGroup digest)} : h.chainOf record = .ok chain ↔
      ∃ group, h.group record.value.input.group = .ok group ∧ ExactChain h group.value chain := by
  rw [chainOf, bind_eq_ok]
  refine exists_congr fun group => and_congr_right fun hgroup => ?_
  exact groupChain_eq_ok hkeyed ⟨group, (group_eq_ok hkeyed hgroup).1, rfl⟩

/-- A chain that passes through a group is linked to it. -/
theorem linked_of_chainThrough (hkeyed : h.Keyed) {id : Ulid} {record : Visible (Portfolio digest)}
    (hthrough : h.chainThrough id record = true) :
    Relation.ReflTransGen (ParentLink h) record.value.input.group.objectId id := by
  unfold chainThrough at hthrough
  split at hthrough
  · rename_i chain hchain
    obtain ⟨group, hgroup, hexact⟩ := (chainOf_eq_ok hkeyed).mp hchain
    obtain ⟨hget, hid⟩ := group_eq_ok hkeyed hgroup
    obtain ⟨g, hg, heq⟩ := List.any_eq_true.mp hthrough
    rw [← hid, ← of_decide_eq_true heq]
    exact hexact.linked hkeyed ⟨group, hget, rfl⟩ hg
  · cases hthrough

/-- A group scope with look-through answers with what is linked to the group. -/
theorem resolveMembers_group {id : Ulid} {lookThrough : LookThrough} (hlook : lookThrough ≠ .none)
    (hgroup : h.HasGroup id) :
    ∃ scope ids, h.resolveMembers (.group id) lookThrough = some (.ok (scope, stableMemberSort
        (h.portfolios.filter fun record => record.value.input.group.objectId ∈ ids))) ∧
      ∀ x : Ulid, x ∈ (ids : Finset Ulid) ↔ Relation.ReflTransGen (ParentLink h) x id := by
  obtain ⟨group, hlatest⟩ := exists_latestById hgroup
  obtain ⟨ids, hids, hmem⟩ := mem_descendants_iff hgroup
  have hscope : h.scopeGroupIds id lookThrough = some (.ok ids) := by
    cases lookThrough with
    | none => exact absurd rfl hlook
    | consolidated => exact hids
    | separate => exact hids
  exact ⟨_, ids, by simp only [resolveMembers, hlatest, hscope]; rfl, hmem⟩

/-- A book scope answers with the portfolios that name the book. -/
theorem resolveMembers_book {id : Ulid} (lookThrough : LookThrough) (hbook : h.HasBook id) :
    ∃ scope, h.resolveMembers (.book id) lookThrough = some (.ok (scope, stableMemberSort
      (h.portfolios.filter fun record => record.value.input.book.objectId = id &&
        (lookThrough != .none || h.isTopLevel record)))) := by
  obtain ⟨book, hlatest⟩ := exists_latestById hbook
  exact ⟨_, by simp only [resolveMembers, hlatest]; rfl⟩

/-- For a group the scope is exact as soon as the chains resolve and the links are followed. -/
theorem groupScopeExact_iff (hkeyed : h.Keyed) (concerned : Visible (Portfolio digest) → Prop)
    {id : Ulid} {lookThrough : LookThrough} (hlook : lookThrough ≠ .none) (hgroup : h.HasGroup id) :
    h.GroupScopeExact concerned id lookThrough ↔
      h.ChainsResolve concerned ∧ h.LinksFollowed id := by
  obtain ⟨scope, ids, hcall, hids⟩ := resolveMembers_group hlook hgroup
  rw [GroupScopeExact, answers_iff hcall]
  refine and_congr_right fun _ => forall₂_congr fun record _ => ?_
  rw [decide_eq_true_eq, hids]
  exact ⟨Iff.mp, fun hfollowed => ⟨hfollowed, linked_of_chainThrough hkeyed⟩⟩

/-- For a book the scope is exact as soon as the chains resolve and the books agree. -/
theorem bookScopeExact_iff (concerned : Visible (Portfolio digest) → Prop) {id : Ulid}
    (lookThrough : LookThrough) (hbook : h.HasBook id) :
    h.BookScopeExact concerned id lookThrough ↔
      h.ChainsResolve concerned ∧ h.BooksAgree id lookThrough := by
  obtain ⟨scope, hcall⟩ := resolveMembers_book lookThrough hbook
  rw [BookScopeExact, answers_iff hcall]
  refine and_congr_right fun _ => forall₂_congr fun record _ => ?_
  by_cases hshown : lookThrough ≠ .none ∨ h.isTopLevel record = true
  · have htrue : (lookThrough != .none || h.isTopLevel record) = true := by
      simpa using hshown
    simp only [htrue, Bool.and_true, decide_eq_true_eq, hshown, true_implies, NamesBook]
  · have hfalse : (lookThrough != .none || h.isTopLevel record) = false := by
      simpa using hshown
    simp only [hfalse, Bool.and_false, hshown, false_implies]

/-- The groups of a hierarchy that is read off a snapshot stand under their keys. -/
theorem keyed_of_new {snapshot : Snapshot digest} (hnew : Hierarchy.new snapshot = .ok h) :
    h.Keyed := by
  obtain ⟨books, -, hnew⟩ := bind_eq_ok.mp hnew
  obtain ⟨groups, hgroups, hnew⟩ := bind_eq_ok.mp hnew
  obtain ⟨portfolios, -, hnew⟩ := bind_eq_ok.mp hnew
  obtain ⟨benchmarks, -, hnew⟩ := bind_eq_ok.mp hnew
  obtain ⟨conventions, -, hnew⟩ := bind_eq_ok.mp hnew
  obtain rfl := Except.ok.inj hnew
  exact fun key record hget => (exactMap_get? hgroups key record hget).1

end Hierarchy

/-- The end of the effective period of the samples. -/
def sampleEnd : MarketTime := Fingerprint.sampleInstant 1000 (by decide) (by decide)

/-- The first and the second version of an object. -/
def versionOne : Version := .first

def versionTwo : Version := ⟨2, by decide, by decide⟩

/-- The book of the samples. -/
def sampleBook (digest : List UInt8 → ContentHash) : Book digest :=
  let input (contentHash : ContentHash) : BookInput :=
    { book := ⟨⟨10⟩, versionOne⟩
      owner := Fingerprint.sampleOwner
      subjectRef := Fingerprint.sampleRef
      code := "BOOK"
      displayName := "Book"
      status := .active
      effectiveFrom := Fingerprint.sampleTime
      effectiveTo := sampleEnd
      contentHash }
  ⟨input (digest (canonicalBook (input Fingerprint.sampleHash))), by
    have hcode : validateCode "BOOK" = .ok () := by decide +kernel
    have hname : validateDisplayName "Book" = .ok () := by decide +kernel
    have hperiod : validateEffectivePeriod Fingerprint.sampleTime sampleEnd = .ok () := by
      decide +kernel
    simp only [input, BookInput.check, hcode, hname, hperiod, ok_bind]
    exact if_neg (not_not.mpr rfl)⟩

/-- A group of the sample book. -/
def sampleGroup (digest : List UInt8 → ContentHash) (id : Ulid) (version : Version)
    (parentGroup : Option LineageRef) (hparent : checkParent ⟨id, version⟩ parentGroup = .ok ()) :
    PortfolioGroup digest :=
  let input (contentHash : ContentHash) : PortfolioGroupInput :=
    { group := ⟨id, version⟩
      owner := Fingerprint.sampleOwner
      subjectRef := Fingerprint.sampleRef
      book := exactLineage (sampleBook digest)
      parentGroup
      code := "GROUP"
      displayName := "Group"
      status := .active
      effectiveFrom := Fingerprint.sampleTime
      effectiveTo := sampleEnd
      contentHash }
  ⟨input (digest (canonicalGroup (input Fingerprint.sampleHash))), by
    have hcode : validateCode "GROUP" = .ok () := by decide +kernel
    have hname : validateDisplayName "Group" = .ok () := by decide +kernel
    have hperiod : validateEffectivePeriod Fingerprint.sampleTime sampleEnd = .ok () := by
      decide +kernel
    have hbook : requireExactRef (exactLineage (sampleBook digest)) = .ok () := rfl
    simp only [input, PortfolioGroupInput.check, hcode, hname, hperiod, hbook, hparent, ok_bind]
    exact if_neg (not_not.mpr rfl)⟩

/-- A portfolio of the sample book in a group. -/
def samplePortfolio (digest : List UInt8 → ContentHash) (id : Ulid) (group : LineageRef)
    (hgroup : requireExactRef group = .ok ()) : Portfolio digest :=
  let input (contentHash : ContentHash) : PortfolioInput :=
    { portfolio := ⟨id, versionOne⟩
      owner := Fingerprint.sampleOwner
      subjectRef := Fingerprint.sampleRef
      book := exactLineage (sampleBook digest)
      group
      code := "PORTFOLIO"
      displayName := "Portfolio"
      status := .active
      positionSnapshot :=
        ⟨⟨20⟩, Fingerprint.sampleHash, Fingerprint.sampleTime, Fingerprint.sampleTime, le_rfl⟩
      benchmark := ⟨Fingerprint.sampleRef, Fingerprint.sampleHash⟩
      metricConvention := ⟨Fingerprint.sampleRef, Fingerprint.sampleHash⟩
      effectiveFrom := Fingerprint.sampleTime
      effectiveTo := sampleEnd
      contentHash }
  ⟨input (digest (canonicalPortfolio (input Fingerprint.sampleHash))), by
    have hcode : validateCode "PORTFOLIO" = .ok () := by decide +kernel
    have hname : validateDisplayName "Portfolio" = .ok () := by decide +kernel
    have hperiod : validateEffectivePeriod Fingerprint.sampleTime sampleEnd = .ok () := by
      decide +kernel
    have hbook : requireExactRef (exactLineage (sampleBook digest)) = .ok () := rfl
    simp only [input, PortfolioInput.check, hcode, hname, hperiod, hbook, hgroup, ok_bind]
    exact if_neg (not_not.mpr rfl)⟩

/-- A group at the top of the book. -/
def upperGroup (digest : List UInt8 → ContentHash) : PortfolioGroup digest :=
  sampleGroup digest ⟨11⟩ versionOne none rfl

/-- A group that was below the upper group in its first version. -/
def lowerGroup (digest : List UInt8 → ContentHash) : PortfolioGroup digest :=
  sampleGroup digest ⟨12⟩ versionOne (some (exactLineage (upperGroup digest))) rfl

/-- The second version of the same group, which stands at the top of the book. -/
def movedGroup (digest : List UInt8 → ContentHash) : PortfolioGroup digest :=
  sampleGroup digest ⟨12⟩ versionTwo none rfl

/-- A portfolio in the moved group. -/
def movedPortfolio (digest : List UInt8 → ContentHash) : Portfolio digest :=
  samplePortfolio digest ⟨13⟩ (exactLineage (movedGroup digest)) rfl

/-- A record that is visible from the start. -/
def visibleAtStart {α : Type} (value : α) : Visible α := ⟨value, Fingerprint.sampleTime⟩

/-- The three groups with the portfolio in the moved one. -/
def movedSnapshot (digest : List UInt8 → ContentHash) : Snapshot digest where
  books := [visibleAtStart (sampleBook digest)]
  groups := [visibleAtStart (upperGroup digest), visibleAtStart (lowerGroup digest),
    visibleAtStart (movedGroup digest)]
  portfolios := [visibleAtStart (movedPortfolio digest)]
  benchmarks := []
  metricConventions := []

/-- The same portfolio without any group. -/
def orphanSnapshot (digest : List UInt8 → ContentHash) : Snapshot digest where
  books := [visibleAtStart (sampleBook digest)]
  groups := []
  portfolios := [visibleAtStart (movedPortfolio digest)]
  benchmarks := []
  metricConventions := []

/-- The hierarchy of the first sample: its portfolio, and where its groups are found. -/
theorem exists_movedHierarchy (digest : List UInt8 → ContentHash) :
    ∃ h, Hierarchy.new (movedSnapshot digest) = .ok h ∧
      h.portfolios = [visibleAtStart (movedPortfolio digest)] ∧
      h.books.entries.map Prod.snd = [visibleAtStart (sampleBook digest)] ∧
      ∀ record ∈ (movedSnapshot digest).groups,
        h.groups.get? (exactVersionKey record.value) = some record := by
  have hupper : exactVersionKey (upperGroup digest) ≠ exactVersionKey (lowerGroup digest) :=
    fun h => absurd (eq_of_exactKey h).1 (show (⟨11⟩ : Ulid) ≠ ⟨12⟩ by decide)
  have hupper' : exactVersionKey (upperGroup digest) ≠ exactVersionKey (movedGroup digest) :=
    fun h => absurd (eq_of_exactKey h).1 (show (⟨11⟩ : Ulid) ≠ ⟨12⟩ by decide)
  have hlower : exactVersionKey (lowerGroup digest) ≠ exactVersionKey (movedGroup digest) :=
    fun h => absurd (eq_of_exactKey h).2 (show versionOne ≠ versionTwo by decide)
  have hnodup : ((movedSnapshot digest).groups.map fun record =>
      exactVersionKey record.value).Nodup := by
    simp [movedSnapshot, visibleAtStart, hupper, hupper', hlower]
  obtain ⟨groups, hgroups, hget⟩ := exists_exactMap hnodup
  refine ⟨⟨SortedMap.empty.insert (exactVersionKey (sampleBook digest))
    (visibleAtStart (sampleBook digest)), groups, [visibleAtStart (movedPortfolio digest)], ∅, ∅⟩, ?_,
    rfl, rfl, hget⟩
  unfold Hierarchy.new
  rw [hgroups]
  rfl

/-- What is visible in the hierarchy of the first sample. -/
structure MovedSample (h : Hierarchy digest) : Prop where
  portfolios : h.portfolios = [visibleAtStart (movedPortfolio digest)]
  chain : h.chainOf (visibleAtStart (movedPortfolio digest)) = .ok [movedGroup digest]
  upper : h.HasGroup ⟨11⟩
  linked : Relation.ReflTransGen (Hierarchy.ParentLink h) ⟨12⟩ ⟨11⟩
  book : h.HasBook ⟨10⟩

theorem exists_movedSample (digest : List UInt8 → ContentHash) :
    ∃ h, Hierarchy.new (movedSnapshot digest) = .ok h ∧ MovedSample h := by
  obtain ⟨h, hnew, hportfolios, hbooks, hget⟩ := exists_movedHierarchy digest
  have hrecord : ∀ record ∈ (movedSnapshot digest).groups, record ∈ h.groupRecords :=
    fun record hmem => List.mem_map.mpr ⟨_, SortedMap.mem_entries_iff.mpr (hget record hmem), rfl⟩
  have hfound := Hierarchy.group_of_get? (hget (visibleAtStart (movedGroup digest))
    (by simp [movedSnapshot]))
  refine ⟨h, hnew, hportfolios, bind_eq_ok.mpr ⟨_, hfound, rfl⟩, ?_, ?_, ?_⟩
  · exact ⟨visibleAtStart (upperGroup digest), hrecord _ (by simp [movedSnapshot]), rfl⟩
  · exact .single ⟨visibleAtStart (lowerGroup digest), hrecord _ (by simp [movedSnapshot]), rfl,
      exactLineage (upperGroup digest), rfl, rfl⟩
  · refine ⟨visibleAtStart (sampleBook digest), ?_, rfl⟩
    rw [hbooks]
    exact List.mem_singleton_self _

end Ficant.Catalog
