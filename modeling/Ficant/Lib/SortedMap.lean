import Mathlib

namespace Lib

/-!
# Ordered finite maps

`SortedMap κ ν` is an association list whose keys increase strictly, the shape a B-tree map
shows to code that iterates over it: one entry per key, visited in key order.

* `get?`, `insert`, `erase` — the operations, with `get?_insert` and `get?_erase`;
* `ext_get?` — a map is determined by its lookups;
* `sumBy` — a sum over all entries, with `sumBy_insert` / `sumBy_erase`, the rules that let an
  accounting proof follow a single update.
-/

variable {κ ν : Type*} [LinearOrder κ]

/-- A finite map, kept as an association list with strictly increasing keys. -/
structure SortedMap (κ ν : Type*) [LinearOrder κ] where
  entries : List (κ × ν)
  sorted : entries.Pairwise (fun a b => a.1 < b.1)

namespace SortedMap

instance [DecidableEq ν] : DecidableEq (SortedMap κ ν) := fun a b =>
  decidable_of_iff (a.entries = b.entries) (by cases a; cases b; simp)

@[ext] theorem ext {a b : SortedMap κ ν} (h : a.entries = b.entries) : a = b := by
  cases a; cases b; simpa using h

/-- The map without entries. -/
def empty : SortedMap κ ν := ⟨[], .nil⟩

instance : EmptyCollection (SortedMap κ ν) := ⟨empty⟩
instance : Inhabited (SortedMap κ ν) := ⟨empty⟩

@[simp] theorem entries_empty : (∅ : SortedMap κ ν).entries = [] := rfl

/-- The value an association list holds under `k`. -/
def lookupEntry (k : κ) : List (κ × ν) → Option ν
  | [] => none
  | e :: rest => if k = e.1 then some e.2 else lookupEntry k rest

/-- The value stored under `k`. -/
def get? (m : SortedMap κ ν) (k : κ) : Option ν := lookupEntry k m.entries

/-- The keys, in order. -/
def keys (m : SortedMap κ ν) : List κ := m.entries.map Prod.fst

@[simp] theorem get?_empty (k : κ) : (∅ : SortedMap κ ν).get? k = none := rfl

/-! ### Insertion -/

/-- Insertion into a sorted association list; an existing entry is replaced. -/
def insertEntry (k : κ) (v : ν) : List (κ × ν) → List (κ × ν)
  | [] => [(k, v)]
  | e :: rest =>
    if k < e.1 then (k, v) :: e :: rest
    else if k = e.1 then (k, v) :: rest
    else e :: insertEntry k v rest

/-- An entry of the longer list is the new one or an old one. -/
theorem mem_insertEntry {k : κ} {v : ν} {l : List (κ × ν)} {e : κ × ν}
    (h : e ∈ insertEntry k v l) : e = (k, v) ∨ e ∈ l := by
  induction l with
  | nil => simpa [insertEntry] using h
  | cons a rest ih =>
    simp only [insertEntry] at h
    split at h
    · simpa using h
    · split at h
      · rcases List.mem_cons.mp h with h | h
        · exact .inl h
        · exact .inr (List.mem_cons_of_mem _ h)
      · rcases List.mem_cons.mp h with h | h
        · exact .inr (h ▸ List.mem_cons_self)
        · exact (ih h).imp id (List.mem_cons_of_mem _)

/-- The new entry is put where its key belongs. -/
theorem insertEntry_sorted (k : κ) (v : ν) {l : List (κ × ν)}
    (h : l.Pairwise (fun a b => a.1 < b.1)) :
    (insertEntry k v l).Pairwise (fun a b => a.1 < b.1) := by
  induction l with
  | nil => simp [insertEntry]
  | cons a rest ih =>
    obtain ⟨ha, hrest⟩ := List.pairwise_cons.mp h
    simp only [insertEntry]
    -- The new key goes before the first, replaces it, or is inserted after it.
    split
    · rename_i hlt
      refine List.pairwise_cons.mpr ⟨?_, h⟩
      intro b hb
      rcases List.mem_cons.mp hb with rfl | hb
      · exact hlt
      · exact lt_trans hlt (ha b hb)
    · split
      · rename_i heq
        exact List.pairwise_cons.mpr ⟨fun b hb => by simpa [heq] using ha b hb, hrest⟩
      · rename_i hlt hne
        refine List.pairwise_cons.mpr ⟨?_, ih hrest⟩
        intro b hb
        rcases mem_insertEntry hb with rfl | hb
        · exact lt_of_le_of_ne (not_lt.mp hlt) (Ne.symm hne)
        · exact ha b hb

/-- Stores `v` under `k`, replacing what was there. -/
def insert (m : SortedMap κ ν) (k : κ) (v : ν) : SortedMap κ ν :=
  ⟨insertEntry k v m.entries, insertEntry_sorted k v m.sorted⟩

/-- The new key has the new value, and every other key what it had. -/
theorem lookup_insertEntry (k : κ) (v : ν) (l : List (κ × ν)) (x : κ) :
    lookupEntry x (insertEntry k v l) = if x = k then some v else lookupEntry x l := by
  induction l with
  | nil => rfl
  | cons a rest ih =>
    simp only [insertEntry]
    split
    · rfl
    · split
      · rename_i heq
        simp only [lookupEntry, ← heq]
        by_cases hx : x = k <;> simp [hx]
      · rename_i hne
        simp only [lookupEntry, ih]
        by_cases hx : x = k
        · subst hx; simp [hne]
        · simp [hx]

/-- **Lookup after an insertion.** -/
theorem get?_insert (m : SortedMap κ ν) (k : κ) (v : ν) (x : κ) :
    (m.insert k v).get? x = if x = k then some v else m.get? x :=
  lookup_insertEntry k v m.entries x

@[simp] theorem get?_insert_self (m : SortedMap κ ν) (k : κ) (v : ν) :
    (m.insert k v).get? k = some v := by
  simp [get?_insert]

/-- Inserting under a key outside a class of keys leaves the entries of the class alone. -/
theorem filter_insert_of_not {p : κ → Bool} (m : SortedMap κ ν) {k : κ} (v : ν) (hk : p k = false) :
    ((m.insert k v).entries.filter fun e => p e.1) = m.entries.filter fun e => p e.1 := by
  show ((insertEntry k v m.entries).filter _) = _
  induction m.entries with
  | nil => simp [insertEntry, hk]
  | cons a rest ih =>
    simp only [insertEntry]
    split
    · simp [List.filter_cons, hk]
    · split
      · rename_i heq
        simp [← heq, hk]
      · rw [List.filter_cons, List.filter_cons, ih]

/-- Inserting above every key of a class adds the entry at the end of the class. -/
theorem filter_insert_of_lt {p : κ → Bool} (m : SortedMap κ ν) {k : κ} (v : ν) (hk : p k = true)
    (hlt : ∀ e ∈ m.entries, p e.1 = true → e.1 < k) :
    ((m.insert k v).entries.filter fun e => p e.1) =
      (m.entries.filter fun e => p e.1) ++ [(k, v)] := by
  show ((insertEntry k v m.entries).filter _) = _
  obtain ⟨l, hl⟩ := m
  simp only at hlt ⊢
  induction l with
  | nil => simp [insertEntry, hk]
  | cons a rest ih =>
    obtain ⟨ha, hrest⟩ := List.pairwise_cons.mp hl
    have ih := ih hrest fun e he => hlt e (List.mem_cons_of_mem _ he)
    simp only [insertEntry]
    split
    · -- the key is below the whole list, so no entry of the list is in the class
      rename_i hka
      have hnone : ((a :: rest).filter fun e => p e.1) = [] := by
        refine List.filter_eq_nil_iff.mpr fun e he hpe => ?_
        have hek := hlt e he hpe
        rcases List.mem_cons.mp he with rfl | he
        · exact lt_asymm hka hek
        · exact lt_asymm hka (lt_trans (ha e he) hek)
      rw [List.filter_cons, if_pos hk, hnone]
      rfl
    · split
      · rename_i heq
        exact absurd (heq ▸ hlt a List.mem_cons_self (heq ▸ hk)) (lt_irrefl _)
      · rw [List.filter_cons, List.filter_cons, ih]
        split <;> rfl

/-! ### Deletion -/

/-- Removes the entry under `k`, if there is one. -/
def erase (m : SortedMap κ ν) (k : κ) : SortedMap κ ν :=
  ⟨m.entries.filter (fun e => e.1 ≠ k), m.sorted.filter _⟩

/-- A key that is taken out is not found, and every other key as before. -/
theorem lookup_filter_ne (l : List (κ × ν)) (k x : κ) :
    lookupEntry x (l.filter (fun e => e.1 ≠ k)) = if x = k then none else lookupEntry x l := by
  induction l with
  | nil => simp [lookupEntry]
  | cons a rest ih =>
    by_cases hb : a.1 = k
    · rw [List.filter_cons_of_neg (by simpa using hb), ih]
      by_cases hx : x = k <;> simp [lookupEntry, hb, hx]
    · rw [List.filter_cons_of_pos (by simpa using hb)]
      simp only [lookupEntry, ih]
      by_cases hx : x = k
      · subst hx; simp [Ne.symm hb]
      · simp [hx]

/-- **Lookup after an erasure.** -/
theorem get?_erase (m : SortedMap κ ν) (k x : κ) :
    (m.erase k).get? x = if x = k then none else m.get? x :=
  lookup_filter_ne m.entries k x

/-! ### Entries and lookups -/

/-- In a sorted list an entry is found by its key, since no other has the key. -/
theorem lookup_eq_some_of_mem {l : List (κ × ν)} (h : l.Pairwise (fun a b => a.1 < b.1))
    {k : κ} {v : ν} (hm : (k, v) ∈ l) : lookupEntry k l = some v := by
  induction l with
  | nil => simp at hm
  | cons a rest ih =>
    obtain ⟨ha, hrest⟩ := List.pairwise_cons.mp h
    rcases List.mem_cons.mp hm with rfl | hm
    · simp [lookupEntry]
    · simp [lookupEntry, ne_of_gt (ha _ hm), ih hrest hm]

/-- What is found is an entry. -/
theorem mem_of_lookup_eq_some {l : List (κ × ν)} {k : κ} {v : ν}
    (h : lookupEntry k l = some v) : (k, v) ∈ l := by
  induction l with
  | nil => simp [lookupEntry] at h
  | cons a rest ih =>
    simp only [lookupEntry] at h
    split at h
    · rename_i heq
      simp only [Option.some.injEq] at h
      exact List.mem_cons.mpr (.inl (Prod.ext heq h.symm))
    · exact List.mem_cons_of_mem _ (ih h)

/-- The entries are what is found. -/
theorem mem_entries_iff {m : SortedMap κ ν} {k : κ} {v : ν} :
    (k, v) ∈ m.entries ↔ m.get? k = some v :=
  ⟨lookup_eq_some_of_mem m.sorted, mem_of_lookup_eq_some⟩

/-- A key is not found exactly when no entry has it. -/
theorem get?_eq_none_iff {m : SortedMap κ ν} {k : κ} :
    m.get? k = none ↔ ∀ e ∈ m.entries, e.1 ≠ k := by
  rw [Option.eq_none_iff_forall_ne_some]
  constructor
  · rintro h ⟨a, v⟩ he rfl
    exact h v (mem_entries_iff.mp he)
  · intro h v hv
    exact h _ (mem_entries_iff.mpr hv) rfl

theorem mem_keys_iff {m : SortedMap κ ν} {k : κ} : k ∈ m.keys ↔ (m.get? k).isSome := by
  simp only [keys, List.mem_map, Option.isSome_iff_exists]
  constructor
  · rintro ⟨⟨a, v⟩, hm, rfl⟩
    exact ⟨v, mem_entries_iff.mp hm⟩
  · rintro ⟨v, hv⟩
    exact ⟨(k, v), mem_entries_iff.mpr hv, rfl⟩

theorem entries_nodup (m : SortedMap κ ν) : m.entries.Nodup :=
  m.sorted.imp fun hxy e => absurd (e ▸ hxy) (lt_irrefl _)

/-- A map is determined by its lookups. -/
theorem ext_get? {a b : SortedMap κ ν} (h : ∀ k, a.get? k = b.get? k) : a = b := by
  apply SortedMap.ext
  have hperm : a.entries.Perm b.entries := by
    refine (List.perm_ext_iff_of_nodup a.entries_nodup b.entries_nodup).mpr ?_
    rintro ⟨k, v⟩
    rw [mem_entries_iff, mem_entries_iff, h k]
  have hanti : ∀ x y : κ × ν, x ∈ a.entries → y ∈ b.entries → x.1 < y.1 → y.1 < x.1 → x = y :=
    fun x y _ _ hxy hyx => absurd (lt_trans hxy hyx) (lt_irrefl _)
  exact List.Perm.eq_of_pairwise hanti a.sorted b.sorted hperm

/-! ### Building a map from a list of entries -/

/-- Stores every entry of a list in turn, so the last entry of a key stays. -/
def insertAll (m : SortedMap κ ν) (l : List (κ × ν)) : SortedMap κ ν :=
  l.foldl (fun acc e => acc.insert e.1 e.2) m

/-- The map a list of entries collects into. -/
def ofList (l : List (κ × ν)) : SortedMap κ ν := insertAll ∅ l

/-- Insertions one after the other. -/
theorem insertAll_append (m : SortedMap κ ν) (l l' : List (κ × ν)) :
    m.insertAll (l ++ l') = (m.insertAll l).insertAll l' := by
  simp [insertAll, List.foldl_append]

/-- Storing a whole map over `m` overrides exactly the keys it holds. -/
theorem get?_insertAll_entries (m n : SortedMap κ ν) (k : κ) :
    (m.insertAll n.entries).get? k = (n.get? k).or (m.get? k) := by
  obtain ⟨l, hl⟩ := n
  induction l generalizing m with
  | nil => simp [insertAll, get?, lookupEntry]
  | cons a rest ih =>
    obtain ⟨ha, hrest⟩ := List.pairwise_cons.mp hl
    have hih := ih (m.insert a.1 a.2) hrest
    simp only [insertAll, List.foldl_cons] at hih ⊢
    rw [hih, get?_insert]
    by_cases hk : k = a.1
    · have hnone : lookupEntry k rest = none :=
        get?_eq_none_iff (m := ⟨rest, hrest⟩).mpr fun e he => by
          rw [hk]; exact ne_of_gt (ha e he)
      simp only [get?, hnone, lookupEntry, if_pos hk, Option.none_or, Option.some_or]
    · simp [get?, lookupEntry, hk]

/-- Storing a list of entries overrides exactly the keys the list holds. -/
theorem get?_insertAll (m : SortedMap κ ν) (l : List (κ × ν)) (k : κ) :
    (m.insertAll l).get? k = ((ofList l).get? k).or (m.get? k) := by
  induction l using List.reverseRecOn with
  | nil => rfl
  | append_singleton l a ih =>
    rw [ofList, insertAll_append, insertAll_append]
    change ((m.insertAll l).insert a.1 a.2).get? k = (((ofList l).insert a.1 a.2).get? k).or _
    rw [get?_insert, get?_insert]
    by_cases hk : k = a.1
    · simp [hk]
    · rw [if_neg hk, if_neg hk, ih]

/-- A map made of a list knows the keys of the list. -/
theorem ofList_get?_isSome {l : List (κ × ν)} {k : κ} :
    ((ofList l).get? k).isSome ↔ ∃ v, (k, v) ∈ l := by
  induction l using List.reverseRecOn with
  | nil => simp [ofList, insertAll]
  | append_singleton l a ih =>
    rw [ofList, insertAll_append] at *
    simp only [insertAll, List.foldl_cons, List.foldl_nil, get?_insert] at *
    by_cases hk : k = a.1
    · simp only [hk, if_true, Option.isSome_some, true_iff]
      exact ⟨a.2, by simp⟩
    · rw [if_neg hk, ih]
      constructor
      · rintro ⟨v, hv⟩; exact ⟨v, by simp [hv]⟩
      · rintro ⟨v, hv⟩
        rcases List.mem_append.mp hv with hv | hv
        · exact ⟨v, hv⟩
        · exact absurd (congrArg Prod.fst (List.mem_singleton.mp hv)) hk

/-- A list without two entries of one key collects into a map of just its entries. -/
theorem get?_ofList {l : List (κ × ν)} (h : (l.map Prod.fst).Nodup) {k : κ} {v : ν} :
    (ofList l).get? k = some v ↔ (k, v) ∈ l := by
  induction l using List.reverseRecOn with
  | nil => simp [ofList, insertAll]
  | append_singleton l a ih =>
    rw [List.map_append, List.nodup_append] at h
    obtain ⟨hl, -, hapart⟩ := h
    have hih := ih hl
    rw [ofList, insertAll_append]
    change ((ofList l).insert a.1 a.2).get? k = some v ↔ _
    rw [get?_insert, List.mem_append, List.mem_singleton]
    by_cases hk : k = a.1
    · have hnot : (k, v) ∉ l := fun hmem =>
        hapart k (List.mem_map_of_mem hmem) a.1 (by simp) hk
      simp only [hk, if_true, Option.some.injEq, Prod.ext_iff, true_and]
      rw [hk] at hnot
      simp [hnot, eq_comm]
    · rw [if_neg hk, hih]
      simp [Prod.ext_iff, hk]

/-- Such a list may stand in any order. -/
theorem ofList_eq_of_perm {l l' : List (κ × ν)} (h : l.Perm l') (hl : (l.map Prod.fst).Nodup) :
    ofList l = ofList l' := by
  apply ext_get?
  intro k
  apply Option.ext
  intro v
  rw [get?_ofList hl, get?_ofList ((h.map Prod.fst).nodup_iff.mp hl), h.mem_iff]

theorem keys_sorted (m : SortedMap κ ν) : m.keys.Pairwise (· < ·) :=
  List.pairwise_map.mpr m.sorted

/-- The distinct elements of a list, in order. -/
def sortedSet (l : List κ) : List κ := (ofList (l.map fun k => (k, ()))).keys

theorem sortedSet_sorted (l : List κ) : (sortedSet l).Pairwise (· < ·) := keys_sorted _

theorem mem_sortedSet {l : List κ} {k : κ} : k ∈ sortedSet l ↔ k ∈ l := by
  rw [sortedSet, mem_keys_iff, ofList_get?_isSome]
  simp

/-- Strictly sorted lists with the same elements are equal. -/
theorem eq_of_sorted_of_mem_iff {l l' : List κ} (hl : l.Pairwise (· < ·)) (hl' : l'.Pairwise (· < ·))
    (h : ∀ k, k ∈ l ↔ k ∈ l') : l = l' := by
  have hanti : ∀ x y : κ, x ∈ l → y ∈ l' → x < y → y < x → x = y :=
    fun x y _ _ hxy hyx => absurd (lt_trans hxy hyx) (lt_irrefl _)
  refine List.Perm.eq_of_pairwise hanti hl hl' ?_
  exact (List.perm_ext_iff_of_nodup (hl.imp fun h => ne_of_lt h) (hl'.imp fun h => ne_of_lt h)).mpr h

/-- Maps with the same keys present list the same keys. -/
theorem keys_congr {μ : Type*} {a : SortedMap κ ν} {b : SortedMap κ μ}
    (h : ∀ k, (a.get? k).isSome ↔ (b.get? k).isSome) : a.keys = b.keys :=
  eq_of_sorted_of_mem_iff a.keys_sorted b.keys_sorted fun k => by
    rw [mem_keys_iff, mem_keys_iff, h k]

/-- The entries are the keys with their values. -/
theorem entries_eq_map_keys (m : SortedMap κ ν) (default : ν) :
    m.entries = m.keys.map fun k => (k, (m.get? k).getD default) := by
  rw [keys, List.map_map]
  symm
  rw [List.map_congr_left (g := id), List.map_id]
  intro e he
  rw [Function.comp_apply, mem_entries_iff.mp he]
  rfl

/-! ### Grouping a list by a key -/

/-- Groups the elements of a list by a key, each group in the order of the list. -/
def groupBy {α : Type*} (key : α → κ) (l : List α) : SortedMap κ (List α) :=
  l.foldl (fun m a => m.insert (key a) ((m.get? (key a)).getD [] ++ [a])) ∅

/-- A group is what has its key, in the order of the list. -/
theorem get?_groupBy {α : Type*} (key : α → κ) (l : List α) (k : κ) :
    (groupBy key l).get? k =
      if l.filter (fun a => key a = k) = [] then none else some (l.filter fun a => key a = k) := by
  induction l using List.reverseRecOn with
  | nil => rfl
  | append_singleton l a ih =>
    have hstep : groupBy key (l ++ [a]) =
        (groupBy key l).insert (key a) (((groupBy key l).get? (key a)).getD [] ++ [a]) := by
      simp only [groupBy, List.foldl_append, List.foldl_cons, List.foldl_nil]
    rw [hstep, get?_insert]
    by_cases hk : k = key a
    · subst hk
      rw [if_pos rfl, ih]
      by_cases hnil : l.filter (fun b => key b = key a) = []
      · simp [hnil]
      · simp [hnil]
    · simp only [if_neg hk, ih, List.filter_append, List.filter_cons, Ne.symm hk,
        decide_false, Bool.false_eq_true, if_false, List.filter_nil, List.append_nil]

/-- The groups are those that are not empty. -/
theorem mem_entries_groupBy {α : Type*} {key : α → κ} {l : List α} {k : κ} {g : List α} :
    (k, g) ∈ (groupBy key l).entries ↔ g = l.filter (fun a => key a = k) ∧ g ≠ [] := by
  rw [mem_entries_iff, get?_groupBy]
  constructor
  · intro h
    split at h
    · cases h
    · rename_i hne
      have hg := Option.some.inj h
      exact ⟨hg.symm, hg ▸ hne⟩
  · rintro ⟨rfl, hne⟩
    rw [if_neg hne]

/-- The groups, in key order. -/
theorem groupBy_entries {α : Type*} (key : α → κ) (l : List α) :
    (groupBy key l).entries =
      (sortedSet (l.map key)).map fun k => (k, l.filter fun a => key a = k) := by
  -- A key has a group exactly when some element has that key.
  have hsome : ∀ k, ((groupBy key l).get? k).isSome ↔
      ((ofList ((l.map key).map fun k => (k, ()))).get? k).isSome := by
    intro k
    have hmem : k ∈ sortedSet (l.map key) ↔ k ∈ l.map key := mem_sortedSet
    rw [sortedSet, mem_keys_iff] at hmem
    rw [hmem, get?_groupBy]
    by_cases hnil : l.filter (fun a => key a = k) = []
    · rw [if_pos hnil]
      have hnone : k ∉ l.map key := by
        intro hk
        obtain ⟨a, ha, hak⟩ := List.mem_map.mp hk
        exact List.filter_eq_nil_iff.mp hnil a ha (by simpa using hak)
      simp only [Option.isSome_none, Bool.false_eq_true, hnone]
    · rw [if_neg hnil]
      obtain ⟨a, ha⟩ := List.exists_mem_of_ne_nil _ hnil
      obtain ⟨hal, hak⟩ := List.mem_filter.mp ha
      have hk : k ∈ l.map key := List.mem_map.mpr ⟨a, hal, by simpa using hak⟩
      simp only [Option.isSome_some, hk]
  rw [entries_eq_map_keys _ [], keys_congr hsome]
  refine List.map_congr_left fun k _ => ?_
  rw [get?_groupBy]
  split
  · rename_i hnil; rw [hnil]; rfl
  · rfl

/-! ### Sums over a map -/

section Sums

variable {M : Type*} [AddCommMonoid M]

/-- The sum of `f k v` over all entries. -/
def sumBy (m : SortedMap κ ν) (f : κ → ν → M) : M := (m.entries.map fun e => f e.1 e.2).sum

@[simp] theorem sumBy_empty (f : κ → ν → M) : (∅ : SortedMap κ ν).sumBy f = 0 := rfl

/-- The entries after an insertion are the new one and those with other keys. -/
theorem insert_perm (m : SortedMap κ ν) (k : κ) (v : ν) :
    (m.insert k v).entries.Perm ((k, v) :: (m.erase k).entries) := by
  have hnot : (k, v) ∉ (m.erase k).entries := fun h => by
    have := mem_entries_iff.mp h
    simp [get?_erase] at this
  refine (List.perm_ext_iff_of_nodup (entries_nodup _)
    (List.nodup_cons.mpr ⟨hnot, entries_nodup _⟩)).mpr ?_
  rintro ⟨x, w⟩
  rw [List.mem_cons, mem_entries_iff, mem_entries_iff, get?_insert, get?_erase]
  by_cases hx : x = k
  · subst hx; simp [eq_comm]
  · simp [hx]

/-- A sum over the entries changes by the one entry that is new. -/
theorem sumBy_insert (m : SortedMap κ ν) (f : κ → ν → M) (k : κ) (v : ν) :
    (m.insert k v).sumBy f = f k v + (m.erase k).sumBy f := by
  have h := ((insert_perm m k v).map (fun e => f e.1 e.2)).sum_eq
  simpa only [sumBy, List.map_cons, List.sum_cons] using h

/-- The entry under `k` split off the sum. -/
theorem sumBy_erase (m : SortedMap κ ν) (f : κ → ν → M) (k : κ) :
    m.sumBy f = (m.get? k).elim 0 (f k) + (m.erase k).sumBy f := by
  cases hv : m.get? k with
  | none =>
    have : m.erase k = m := ext_get? fun x => by
      rw [get?_erase]; by_cases hx : x = k <;> simp [hx, hv]
    simp [this]
  | some v =>
    have hm : m.insert k v = m := ext_get? fun x => by
      rw [get?_insert]; by_cases hx : x = k <;> simp [hx, hv]
    rw [Option.elim_some, ← sumBy_insert, hm]

end Sums

end SortedMap

end Lib
