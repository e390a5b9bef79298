import Mathlib

namespace Lib

/-!
# Grids

The index vectors of a grid in lexicographic order, the last axis fastest, and the list that is
built by going through the axes one after the other.

* `gridIndices` — the index vectors, each once (`mem_gridIndices`, `pairwise_gridIndices`);
* `foldl_flatMap_eq` — extending every element of a list by every value of one axis after the other
  is going through the index vectors in that order.
-/

/-- The index vectors below the given sizes. -/
def gridIndices : List ℕ → List (List ℕ)
  | [] => [[]]
  | size :: sizes => (List.range size).flatMap fun i => (gridIndices sizes).map (i :: ·)

theorem mem_gridIndices {sizes indices : List ℕ} :
    indices ∈ gridIndices sizes ↔ List.Forall₂ (· < ·) indices sizes := by
  induction sizes generalizing indices with
  | nil => simp [gridIndices]
  | cons size sizes ih =>
    rw [gridIndices, List.mem_flatMap, List.forall₂_cons_right_iff]
    simp only [List.mem_range, List.mem_map, ih]
    constructor
    · rintro ⟨i, hi, rest, hrest, rfl⟩
      exact ⟨i, rest, hi, hrest, rfl⟩
    · rintro ⟨i, rest, hi, hrest, rfl⟩
      exact ⟨i, hi, rest, hrest, rfl⟩

theorem length_gridIndices (sizes : List ℕ) : (gridIndices sizes).length = sizes.prod := by
  induction sizes with
  | nil => rfl
  | cons size sizes ih =>
    rw [gridIndices, List.length_flatMap, List.prod_cons]
    simp [ih]

/-- The index vectors are in strictly increasing lexicographic order. -/
theorem pairwise_gridIndices (sizes : List ℕ) :
    (gridIndices sizes).Pairwise (List.Lex (· < ·)) := by
  induction sizes with
  | nil => exact List.pairwise_singleton _ _
  | cons size sizes ih =>
    rw [gridIndices, List.pairwise_flatMap]
    constructor
    · intro i _
      exact List.pairwise_map.mpr (ih.imp fun h => .cons h)
    · refine List.pairwise_lt_range.imp ?_
      rintro i j hij a ha b hb
      obtain ⟨a, -, rfl⟩ := List.mem_map.mp ha
      obtain ⟨b, -, rfl⟩ := List.mem_map.mp hb
      exact .rel hij

theorem nodup_gridIndices (sizes : List ℕ) : (gridIndices sizes).Nodup :=
  (pairwise_gridIndices sizes).imp fun h =>
    (List.Lex.imp (fun _ _ hlt => ne_of_lt hlt) _ _ h).to_ne

section Extend

variable {α β σ : Type*} [Inhabited β] (values : α → List β) (extend : σ → α → β → σ)

/-- An element extended, axis by axis, by the values at the given indices. -/
def extendAt : List α → List ℕ → σ → σ
  | axis :: axes, i :: indices, s =>
    extendAt axes indices (extend s axis ((values axis).getD i default))
  | _, _, s => s

theorem map_range_getD (l : List β) {γ : Type*} (f : β → γ) :
    l.map f = (List.range l.length).map fun i => f (l.getD i default) := by
  apply List.ext_getElem
  · simp
  · intro i h _
    rw [List.length_map] at h
    simp [h]

/-- **Axis by axis.** Extending a list by every value of each axis in turn goes through the index
    vectors in lexicographic order. -/
theorem foldl_flatMap_eq (axes : List α) (start : List σ) :
    axes.foldl (fun found axis => found.flatMap fun s => (values axis).map (extend s axis)) start =
      start.flatMap fun s => (gridIndices (axes.map fun axis => (values axis).length)).map
        fun indices => extendAt values extend axes indices s := by
  induction axes generalizing start with
  | nil => simp [gridIndices, extendAt]
  | cons axis axes ih =>
    rw [List.foldl_cons, ih, List.flatMap_assoc]
    congr 1
    funext s
    rw [map_range_getD (values axis) (extend s axis), List.flatMap_map, List.map_cons, gridIndices,
      List.map_flatMap]
    simp only [List.map_map]
    rfl

end Extend

end Lib
