import Mathlib

namespace Lib

/-!
# Stable sorting and selection

Insertion sort keeps elements of equal rank in their order, so selecting elements from a sorted list
is sorting the selection (`filter_insertionSort`), and lists related element by element stay related
(`forall₂_insertionSort`).
-/

variable {α : Type*} (r : α → α → Prop) [DecidableRel r]

/-- An element below all others is inserted first. -/
theorem orderedInsert_of_le_all {a : α} {l : List α} (h : ∀ b ∈ l, r a b) :
    l.orderedInsert r a = a :: l := by
  cases l with
  | nil => rfl
  | cons b rest => rw [List.orderedInsert_cons, if_pos (h b List.mem_cons_self)]

/-- Filtering and inserting commute. -/
theorem filter_orderedInsert (htrans : ∀ a b c, r a b → r b c → r a c) (p : α → Bool) (a : α)
    {l : List α} (hl : l.Pairwise r) :
    (l.orderedInsert r a).filter p =
      if p a then (l.filter p).orderedInsert r a else l.filter p := by
  induction l with
  | nil => by_cases hp : p a <;> simp [hp]
  | cons b rest ih =>
    obtain ⟨hb, hrest⟩ := List.pairwise_cons.mp hl
    rw [List.orderedInsert_cons]
    by_cases hab : r a b
    · -- `a` goes in front, also of whatever the selection leaves.
      have hall : ∀ c ∈ (b :: rest).filter p, r a c := by
        intro c hc
        rcases List.mem_cons.mp (List.mem_of_mem_filter hc) with rfl | hc
        · exact hab
        · exact htrans a b c hab (hb c hc)
      rw [if_pos hab, List.filter_cons]
      by_cases hp : p a
      · rw [if_pos hp, if_pos hp, orderedInsert_of_le_all r hall]
      · rw [if_neg hp, if_neg hp]
    · rw [if_neg hab, List.filter_cons, ih hrest, List.filter_cons]
      by_cases hpb : p b
      · rw [if_pos hpb, if_pos hpb]
        by_cases hp : p a
        · rw [if_pos hp, if_pos hp, List.orderedInsert_cons, if_neg hab]
        · rw [if_neg hp, if_neg hp]
      · rw [if_neg hpb, if_neg hpb]

/-- **Selecting from a sorted list is sorting the selection.** -/
theorem filter_insertionSort [Std.Total r] [IsTrans α r] (p : α → Bool) (l : List α) :
    (l.insertionSort r).filter p = (l.filter p).insertionSort r := by
  induction l with
  | nil => rfl
  | cons a rest ih =>
    have hsorted := List.pairwise_insertionSort r rest
    rw [List.insertionSort_cons, filter_orderedInsert r (fun _ _ _ => IsTrans.trans _ _ _) p a hsorted,
      ih, List.filter_cons]
    split <;> rfl

/-- A list sorted by a key, cut at a value of the key. -/
theorem filter_le_append_filter_lt {κ : Type*} [LinearOrder κ] {key : α → κ} {l : List α}
    (hl : l.Pairwise fun a b => key a < key b) (t : κ) :
    l.filter (fun a => key a ≤ t) ++ l.filter (fun a => t < key a) = l := by
  induction l with
  | nil => rfl
  | cons a rest ih =>
    obtain ⟨ha, hrest⟩ := List.pairwise_cons.mp hl
    by_cases hle : key a ≤ t
    · rw [List.filter_cons_of_pos (by simpa using hle),
        List.filter_cons_of_neg (by simpa using hle), List.cons_append, ih hrest]
    · -- Everything after `a` lies beyond the cut too.
      have hlt : t < key a := lt_of_not_ge hle
      have hnone : (a :: rest).filter (fun a => key a ≤ t) = [] := by
        refine List.filter_eq_nil_iff.mpr fun b hb => ?_
        rcases List.mem_cons.mp hb with rfl | hb
        · simpa using hlt
        · simpa using lt_trans hlt (ha b hb)
      have hall : (a :: rest).filter (fun a => t < key a) = a :: rest := by
        refine List.filter_eq_self.mpr fun b hb => ?_
        rcases List.mem_cons.mp hb with rfl | hb
        · simpa using hlt
        · simpa using lt_trans hlt (ha b hb)
      rw [hnone, hall, List.nil_append]

/-! ### Sorting related lists -/

section Related

variable {β : Type*} {R : α → β → Prop} {r' : β → β → Prop} [DecidableRel r']

/-- Inserting related elements into related lists gives related lists. -/
theorem forall₂_orderedInsert (hr : ∀ a b a' b', R a a' → R b b' → (r a b ↔ r' a' b')) {a : α}
    {a' : β} (ha : R a a') {l : List α} {l' : List β} (h : List.Forall₂ R l l') :
    List.Forall₂ R (l.orderedInsert r a) (l'.orderedInsert r' a') := by
  induction h with
  | nil => exact .cons ha .nil
  | @cons b b' rest rest' hb hrest ih =>
    rw [List.orderedInsert_cons, List.orderedInsert_cons]
    by_cases hab : r a b
    · rw [if_pos hab, if_pos ((hr a b a' b' ha hb).mp hab)]
      exact .cons ha (.cons hb hrest)
    · rw [if_neg hab, if_neg fun h => hab ((hr a b a' b' ha hb).mpr h)]
      exact .cons hb ih

/-- Lists that are related element by element, by a relation that the order cannot tell apart, are
    still so after sorting. -/
theorem forall₂_insertionSort (hr : ∀ a b a' b', R a a' → R b b' → (r a b ↔ r' a' b'))
    {l : List α} {l' : List β} (h : List.Forall₂ R l l') :
    List.Forall₂ R (l.insertionSort r) (l'.insertionSort r') := by
  induction h with
  | nil => exact .nil
  | cons hb _ ih => exact forall₂_orderedInsert r hr hb ih

/-- Filtering related lists alike gives related lists. -/
theorem forall₂_filter {p : α → Bool} {p' : β → Bool} (hp : ∀ a a', R a a' → p a = p' a')
    {l : List α} {l' : List β} (h : List.Forall₂ R l l') :
    List.Forall₂ R (l.filter p) (l'.filter p') := by
  induction h with
  | nil => exact .nil
  | @cons a a' _ _ ha _ ih =>
    rw [List.filter_cons, List.filter_cons, hp a a' ha]
    split
    · exact .cons ha ih
    · exact ih

/-- Every element of the first list has a related one in the second. -/
theorem exists_right_of_forall₂ {l : List α} {l' : List β} (h : List.Forall₂ R l l') {a : α}
    (ha : a ∈ l) : ∃ b ∈ l', R a b := by
  induction h with
  | nil => cases ha
  | @cons a' b _ _ hab _ ih =>
    rcases List.mem_cons.mp ha with rfl | ha
    · exact ⟨b, List.mem_cons_self, hab⟩
    · obtain ⟨c, hc, hac⟩ := ih ha
      exact ⟨c, List.mem_cons_of_mem _ hc, hac⟩

/-- A list has no more of something than the other has of what it comes from. -/
theorem length_filter_le_of_forall₂ {p : α → Bool} {q : β → Bool} {l : List α} {l' : List β}
    (h : List.Forall₂ (fun a b => q b = true → p a = true) l l') :
    (l'.filter q).length ≤ (l.filter p).length := by
  induction h with
  | nil => exact le_refl _
  | @cons a b _ _ hab _ ih =>
    cases hq : q b with
    | true =>
      rw [List.filter_cons_of_pos hq, List.filter_cons_of_pos (hab hq), List.length_cons,
        List.length_cons]
      exact Nat.succ_le_succ ih
    | false =>
      rw [List.filter_cons_of_neg (by rw [hq]; exact Bool.false_ne_true)]
      exact ih.trans (List.Sublist.length_le ((List.sublist_cons_self _ _).filter _))

/-- Related lists are related to the same lists. -/
theorem forall₂_iff_of_forall₂ {γ : Type*} {P : β → γ → Prop} {Q : α → γ → Prop} {l : List α}
    {l' : List β} (h : List.Forall₂ R l l') (hpq : ∀ a ∈ l, ∀ b, R a b → ∀ c, P b c ↔ Q a c)
    {out : List γ} : List.Forall₂ P l' out ↔ List.Forall₂ Q l out := by
  induction h generalizing out with
  | nil => rw [List.forall₂_nil_left_iff, List.forall₂_nil_left_iff]
  | @cons a b rest rest' hab _ ih =>
    have hrest := fun a ha => hpq a (List.mem_cons_of_mem _ ha)
    rw [List.forall₂_cons_left_iff, List.forall₂_cons_left_iff]
    constructor
    · rintro ⟨c, out, hc, hout, rfl⟩
      exact ⟨c, out, (hpq a List.mem_cons_self b hab c).mp hc, (ih hrest).mp hout, rfl⟩
    · rintro ⟨c, out, hc, hout, rfl⟩
      exact ⟨c, out, (hpq a List.mem_cons_self b hab c).mpr hc, (ih hrest).mpr hout, rfl⟩

/-- A property of all pairs carries over to a related list. -/
theorem forall₂_pairwise {P : α → α → Prop} {Q : β → β → Prop}
    (hpq : ∀ a b a' b', R a a' → R b b' → (P a b ↔ Q a' b')) {l : List α} {l' : List β}
    (h : List.Forall₂ R l l') : l.Pairwise P ↔ l'.Pairwise Q := by
  induction h with
  | nil => simp
  | @cons a a' rest rest' ha hrest ih =>
    rw [List.pairwise_cons, List.pairwise_cons, ih]
    refine and_congr_left fun _ => ⟨fun hall b' hb' => ?_, fun hall b hb => ?_⟩
    · obtain ⟨b, hb, hbb⟩ := exists_right_of_forall₂ hrest.flip hb'
      exact (hpq a b a' b' ha hbb).mp (hall b hb)
    · obtain ⟨b', hb', hbb⟩ := exists_right_of_forall₂ hrest hb
      exact (hpq a b a' b' ha hbb).mpr (hall b' hb')

/-- Every element of the second list has a related one in the first. -/
theorem exists_left_of_forall₂ {l : List α} {l' : List β} (h : List.Forall₂ R l l') {b : β}
    (hb : b ∈ l') : ∃ a ∈ l, R a b :=
  exists_right_of_forall₂ h.flip hb

end Related

/-! ### Distinct keys -/

section Keys

variable {κ : Type*} [LinearOrder κ] {key : α → κ}

/-- In a list sorted by a key, equal keys stand next to each other. -/
theorem any_zip_tail_iff {l : List α} (h : l.Pairwise fun a b => key a ≤ key b) :
    ((l.zip l.tail).any fun pair => key pair.1 = key pair.2) = true ↔ ¬(l.map key).Nodup := by
  induction l with
  | nil => simp
  | cons a rest ih =>
    obtain ⟨ha, hrest⟩ := List.pairwise_cons.mp h
    cases rest with
    | nil => simp
    | cons b rest =>
      -- an element further on with the first key forces the second one to have it
      have hmem : key a ∈ (b :: rest).map key ↔ key a = key b := by
        constructor
        · intro hmem
          obtain ⟨c, hc, heq⟩ := List.mem_map.mp hmem
          rcases List.mem_cons.mp hc with rfl | hc
          · exact heq.symm
          · exact le_antisymm (ha b List.mem_cons_self)
              (heq ▸ (List.pairwise_cons.mp hrest).1 c hc)
        · intro heq
          rw [heq]
          exact List.mem_map_of_mem List.mem_cons_self
      have hih := ih hrest
      rw [List.tail_cons, List.zip_cons_cons, List.any_cons, Bool.or_eq_true, decide_eq_true_eq,
        List.map_cons, List.nodup_cons, hmem]
      rw [List.tail_cons] at hih
      rw [hih]
      tauto

omit [LinearOrder κ] in
/-- A search by a key that no two elements share finds the element. -/
theorem find?_key_of_mem [DecidableEq κ] {l : List α} (hkeys : (l.map key).Nodup) {a : α}
    (ha : a ∈ l) : l.find? (fun b => key b = key a) = some a := by
  have hsome : (l.find? fun b => key b = key a).isSome :=
    List.find?_isSome.mpr ⟨a, ha, by simp⟩
  obtain ⟨b, hb⟩ := Option.isSome_iff_exists.mp hsome
  have hkey : key b = key a := by simpa using List.find?_some hb
  rw [hb, List.inj_on_of_nodup_map hkeys (List.mem_of_find?_eq_some hb) ha hkey]

omit [LinearOrder κ] in
/-- Sorting forgets the order of the list, when no two elements share a key. -/
theorem insertionSort_eq_of_perm [Std.Total r] [IsTrans α r] {l l' : List α} (h : l.Perm l')
    (hkeys : (l.map key).Nodup) (hr : ∀ a b, r a b → r b a → key a = key b) :
    l.insertionSort r = l'.insertionSort r := by
  have hinj := List.inj_on_of_nodup_map hkeys
  have hperm : (l.insertionSort r).Perm (l'.insertionSort r) :=
    (List.perm_insertionSort r l).trans (h.trans (List.perm_insertionSort r l').symm)
  refine hperm.eq_of_pairwise ?_ (List.pairwise_insertionSort r l) (List.pairwise_insertionSort r l')
  intro a b ha hb hab hba
  rw [List.mem_insertionSort] at ha hb
  exact hinj ha (h.mem_iff.mpr hb) (hr a b hab hba)

end Keys

/-- Where the order is antisymmetric, sorting forgets the order of the list and nothing else. -/
theorem insertionSort_eq_iff_perm [Std.Total r] [IsTrans α r] (hr : ∀ a b, r a b → r b a → a = b)
    {l m : List α} : l.insertionSort r = m.insertionSort r ↔ l.Perm m := by
  constructor
  · intro h
    have hperm := List.perm_insertionSort r l
    rw [h] at hperm
    exact hperm.symm.trans (List.perm_insertionSort r m)
  · intro h
    have hperm : (l.insertionSort r).Perm (m.insertionSort r) :=
      (List.perm_insertionSort r l).trans (h.trans (List.perm_insertionSort r m).symm)
    exact hperm.eq_of_pairwise (fun a b _ _ => hr a b) (List.pairwise_insertionSort r l)
      (List.pairwise_insertionSort r m)

/-- Comparing neighbours is enough for a transitive relation. -/
theorem all_zip_tail_iff_pairwise [IsTrans α r] {l : List α} :
    ((l.zip l.tail).all fun pair => r pair.1 pair.2) = true ↔ l.Pairwise r := by
  induction l with
  | nil => simp
  | cons a rest ih =>
    cases rest with
    | nil => simp
    | cons b rest =>
      rw [List.tail_cons] at ih
      rw [List.tail_cons, List.zip_cons_cons, List.all_cons, Bool.and_eq_true, ih,
        decide_eq_true_eq, List.pairwise_cons (a := a)]
      refine and_congr_left fun hrest => ⟨fun hab c hc => ?_, fun hall => hall b List.mem_cons_self⟩
      rcases List.mem_cons.mp hc with rfl | hc
      · exact hab
      · exact IsTrans.trans a b c hab ((List.pairwise_cons.mp hrest).1 c hc)

/-- Elements whose key occurs only once keep distinct keys, in whatever order they are put. -/
theorem pairwise_key_ne_of_countP_le_one {κ : Type*} [DecidableEq κ] {key : α → κ} {l l' : List α}
    {p : α → Bool} (hperm : l'.Perm (l.filter p))
    (h : ∀ a ∈ l, p a = true → l.countP (fun b => key b = key a) ≤ 1) :
    l'.Pairwise fun a b => key a ≠ key b := by
  have hnodup : ((l.filter p).map key).Nodup := by
    rw [List.nodup_iff_count_le_one]
    intro k
    by_cases hk : k ∈ (l.filter p).map key
    · obtain ⟨a, ha, rfl⟩ := List.mem_map.mp hk
      obtain ⟨hmem, hp⟩ := List.mem_filter.mp ha
      calc ((l.filter p).map key).count (key a)
          = (l.filter p).countP (fun b => key b = key a) := by
            rw [List.count, List.countP_map]
            congr 1
        _ ≤ l.countP (fun b => key b = key a) := List.filter_sublist.countP_le
        _ ≤ 1 := h a hmem hp
    · rw [List.count_eq_zero_of_not_mem hk]
      omega
  have hkeys : (l'.map key).Nodup := (hperm.map key).nodup_iff.mpr hnodup
  exact List.pairwise_map.mp hkeys

end Lib
