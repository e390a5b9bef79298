import Ficant.Lib.SortedMap

namespace Lib

/-!
# Indexing a list

A list is put into a map, each value under its own key.  When no key comes twice the map does not
depend on the order of the list, and a list that is as long as a grid and stays inside it covers
the grid.

* `SortedMap.index`, `SortedMap.index_perm` — every value under its key, the last one kept;
* `SortedMap.gather`, `SortedMap.gather_perm` — every entry under its key, the first one kept;
* `perm_product_of_nodup` — as many pairs as a grid has cells, none twice, are the grid.
-/

namespace SortedMap

variable {κ ν : Type*} [LinearOrder κ] {key : ν → κ} {l l' : List ν}

/-! ### The last value of a key -/

/-- Every value of a list under its key. -/
def index (key : ν → κ) (l : List ν) : SortedMap κ ν := ofList (l.map fun v => (key v, v))

/-- The last value of a list is indexed last. -/
theorem index_append_singleton (l : List ν) (v : ν) :
    index key (l ++ [v]) = (index key l).insert (key v) v := by
  rw [index, ofList, List.map_append, insertAll_append]
  rfl

/-- What is found is a value of the list, under its own key. -/
theorem of_get?_index {k : κ} {v : ν} (h : (index key l).get? k = some v) : v ∈ l ∧ key v = k := by
  induction l using List.reverseRecOn with
  | nil => cases h
  | append_singleton l w ih =>
    rw [index_append_singleton, get?_insert] at h
    split at h
    · rename_i hk
      obtain rfl := Option.some.inj h
      exact ⟨List.mem_append_right _ List.mem_cons_self, hk.symm⟩
    · obtain ⟨hmem, hkey⟩ := ih h
      exact ⟨List.mem_append_left _ hmem, hkey⟩

/-- A value whose key comes once is found. -/
theorem get?_index_of_mem (hnodup : (l.map key).Nodup) {v : ν} (hv : v ∈ l) :
    (index key l).get? (key v) = some v := by
  induction l using List.reverseRecOn with
  | nil => cases hv
  | append_singleton l w ih =>
    rw [List.map_append, List.nodup_append] at hnodup
    obtain ⟨hl, -, hdisjoint⟩ := hnodup
    rw [index_append_singleton, get?_insert]
    rcases List.mem_append.mp hv with hmem | hmem
    · have hne : key v ≠ key w :=
        hdisjoint (key v) (List.mem_map_of_mem hmem) (key w) List.mem_cons_self
      rw [if_neg hne]
      exact ih hl hmem
    · obtain rfl := List.mem_singleton.mp hmem
      exact if_pos rfl

/-- Over keys without repetition the index finds exactly the values of the list. -/
theorem get?_index_iff (hnodup : (l.map key).Nodup) {k : κ} {v : ν} :
    (index key l).get? k = some v ↔ v ∈ l ∧ key v = k := by
  constructor
  · exact of_get?_index
  · rintro ⟨hv, rfl⟩
    exact get?_index_of_mem hnodup hv

/-- A key that no value has is not found. -/
theorem get?_index_eq_none {k : κ} : (index key l).get? k = none ↔ k ∉ l.map key := by
  induction l using List.reverseRecOn with
  | nil => exact iff_of_true rfl List.not_mem_nil
  | append_singleton l w ih =>
    rw [index_append_singleton, get?_insert, List.map_append, List.mem_append, not_or, ← ih]
    by_cases hk : k = key w
    · rw [if_pos hk]
      exact iff_of_false (fun h => nomatch h) fun h => h.2 (List.mem_singleton.mpr hk)
    · rw [if_neg hk]
      exact ⟨fun h => ⟨h, fun hmem => hk (List.mem_singleton.mp hmem)⟩, fun h => h.1⟩

/-- **The order does not matter** when no key comes twice. -/
theorem index_perm (h : l.Perm l') (hnodup : (l.map key).Nodup) : index key l = index key l' := by
  have hnodup' : (l'.map key).Nodup := (h.map key).nodup_iff.mp hnodup
  apply ext_get?
  intro k
  apply Option.ext
  intro v
  rw [get?_index_iff hnodup, get?_index_iff hnodup', h.mem_iff]

/-! ### The first entry of a key -/

/-- `entry(key).or_insert(value)`. -/
def orInsert (m : SortedMap κ ν) (k : κ) (v : ν) : SortedMap κ ν :=
  if (m.get? k).isSome then m else m.insert k v

/-- Inserting only where nothing stands keeps what stands. -/
theorem get?_orInsert (m : SortedMap κ ν) (k : κ) (v : ν) (x : κ) :
    (m.orInsert k v).get? x = (m.get? x).or (if x = k then some v else none) := by
  unfold orInsert
  split
  · rename_i hsome
    by_cases hx : x = k
    · obtain ⟨w, hw⟩ := Option.isSome_iff_exists.mp hsome
      rw [hx, hw, Option.some_or]
    · rw [if_neg hx, Option.or_none]
  · rename_i hnone
    rw [get?_insert]
    by_cases hx : x = k
    · have hget : m.get? k = none := by simpa using hnone
      rw [if_pos hx, if_pos hx, hx, hget, Option.none_or]
    · rw [if_neg hx, if_neg hx, Option.or_none]

/-- Every entry of a list under its key, an earlier one kept. -/
def gather (l : List (κ × ν)) : SortedMap κ ν := l.foldl (fun m e => m.orInsert e.1 e.2) ∅

/-- The last entry of a list is gathered last. -/
theorem gather_append_singleton (l : List (κ × ν)) (e : κ × ν) :
    gather (l ++ [e]) = (gather l).orInsert e.1 e.2 := by
  rw [gather, List.foldl_append]
  rfl

/-- One key leads to one entry. -/
def Functional (l : List (κ × ν)) : Prop := ∀ e ∈ l, ∀ e' ∈ l, e.1 = e'.1 → e = e'

/-- Over a functional list gathering finds exactly its entries. -/
theorem get?_gather_iff {l : List (κ × ν)} (h : Functional l) {k : κ} {v : ν} :
    (gather l).get? k = some v ↔ (k, v) ∈ l := by
  induction l using List.reverseRecOn generalizing v with
  | nil => exact iff_of_false (fun h => nomatch h) List.not_mem_nil
  | append_singleton l e ih =>
    have hl : Functional l := fun a ha b hb =>
      h a (List.mem_append_left _ ha) b (List.mem_append_left _ hb)
    rw [gather_append_singleton, get?_orInsert, List.mem_append, List.mem_singleton, ← ih hl]
    cases hget : (gather l).get? k with
    | none =>
      rw [Option.none_or]
      by_cases hk : k = e.1
      · rw [if_pos hk]
        constructor
        · rintro hv
          obtain rfl := Option.some.inj hv
          exact .inr (Prod.ext hk rfl)
        · rintro (hv | rfl)
          · cases hv
          · rfl
      · rw [if_neg hk]
        exact iff_of_false (fun h => nomatch h)
          (fun h => h.elim (fun hv => nomatch hv) fun he => hk (congrArg Prod.fst he))
    | some w =>
      rw [Option.some_or]
      constructor
      · exact .inl
      · rintro (hv | rfl)
        · exact hv
        -- an earlier entry of the key is the same entry
        · have hmem := (ih hl).mp hget
          have heq := h (k, w) (List.mem_append_left _ hmem) (k, v)
            (List.mem_append_right _ List.mem_cons_self) rfl
          rw [(Prod.mk.inj heq).2]

/-- Over a functional list gathering does not depend on the order. -/
theorem gather_perm {l l' : List (κ × ν)} (hperm : l.Perm l') (h : Functional l) :
    gather l = gather l' := by
  have h' : Functional l' := fun e he e' he' =>
    h e (hperm.mem_iff.mpr he) e' (hperm.mem_iff.mpr he')
  apply ext_get?
  intro k
  apply Option.ext
  intro v
  rw [get?_gather_iff h, get?_gather_iff h', hperm.mem_iff]

end SortedMap

/-! ### Covering a grid -/

/-- **A full grid.** As many pairs as a grid has cells, all of them cells and none twice, are the
    cells of the grid. -/
theorem perm_product_of_nodup {α β : Type*} {pairs : List (α × β)} {xs : List α} {ys : List β}
    (hnodup : pairs.Nodup) (hmem : ∀ p ∈ pairs, p.1 ∈ xs ∧ p.2 ∈ ys)
    (hcount : xs.length * ys.length ≤ pairs.length) : pairs.Perm (xs ×ˢ ys) := by
  have hsubset : pairs ⊆ xs ×ˢ ys := fun p hp => List.mem_product.mpr (hmem p hp)
  apply (List.subperm_of_subset hnodup hsubset).perm_of_length_le
  rw [List.length_product]
  exact hcount

end Lib
