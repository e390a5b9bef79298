import Mathlib.Algebra.BigOperators.Fin
import Mathlib.Data.List.Basic
import Mathlib.Data.Finset.Card
import Mathlib.Tactic.Ring

namespace Lib

/-!
# Interpolation between neighbours

Values at positions in increasing order, and between two of them a mean of the two.

* `interpolate` — the value at a position, for any weight of the right neighbour;
* `Brackets` — a position that nothing separates from the one asked for; `brackets_le_two`: there are
  at most two;
* `interpolate_eq` — the value is a mean of the values at two positions that bracket, and which two and
  with which weight does not depend on the values.
-/

variable {ι K α : Type} [LinearOrder ι] [CommRing K]

/-- The search for the interval of a position, from a left neighbour on. -/
def interpolateFrom (weight : ι → ι → ι → K) (q : ι) (lower : ι × K) : List (ι × K) → Option K
  | [] => none
  | upper :: rest =>
    if q = upper.1 then some upper.2
    else if q < upper.1 then some (lower.2 + weight lower.1 q upper.1 * (upper.2 - lower.2))
    else interpolateFrom weight q upper rest

/-- The value at a position between the first and the last of two or more. -/
def interpolate (weight : ι → ι → ι → K) (nodes : List (ι × K)) (q : ι) : Option K :=
  match nodes with
  | first :: second :: rest =>
    if q < first.1 ∨ ((second :: rest).getLast (List.cons_ne_nil _ _)).1 < q then none
    else if q = first.1 then some first.2
    else interpolateFrom weight q first (second :: rest)
  | _ => none

/-- The last position that is not after another, or the first one not before it. -/
def Brackets (positions : List ι) (q p : ι) : Prop :=
  (p ≤ q ∧ ∀ e ∈ positions, p < e → q < e) ∨ (q ≤ p ∧ ∀ e ∈ positions, e < p → e < q)

instance (positions : List ι) (q p : ι) : Decidable (Brackets positions q p) :=
  inferInstanceAs (Decidable (_ ∨ _))

omit [CommRing K] in
/-- Whether a position brackets depends on which positions there are, not on their order. -/
theorem brackets_congr {positions positions' : List ι} {q p : ι}
    (h : ∀ e, e ∈ positions ↔ e ∈ positions') : Brackets positions q p ↔ Brackets positions' q p := by
  unfold Brackets
  simp only [h]

omit [CommRing K] in
/-- A position that is left of all that bracket changes nothing. -/
theorem Brackets.cons {positions : List ι} {q p a : ι} (h : Brackets positions q p) (ha : a < q)
    (hp : a ≤ p) : Brackets (a :: positions) q p := by
  rcases h with ⟨hle, hnext⟩ | ⟨hle, hprevious⟩
  · refine .inl ⟨hle, fun e he hlt => ?_⟩
    rcases List.mem_cons.mp he with rfl | he
    · exact absurd hlt (not_lt.mpr hp)
    · exact hnext e he hlt
  · refine .inr ⟨hle, fun e he hlt => ?_⟩
    rcases List.mem_cons.mp he with rfl | he
    · exact ha
    · exact hprevious e he hlt

/-- **At most two positions bracket.** -/
theorem brackets_le_two (positions : List ι) (q : ι) (h : positions.Nodup) :
    (positions.filter fun p => Brackets positions q p).length ≤ 2 := by
  -- at most one is not after the position asked for, and at most one not before it
  have hleft : ∀ p p', p ∈ positions → p' ∈ positions → p ≤ q → p' ≤ q →
      (∀ e ∈ positions, p < e → q < e) → (∀ e ∈ positions, p' < e → q < e) → p = p' := by
    intro p p' hp hp' hle hle' hnext hnext'
    rcases lt_trichotomy p p' with hlt | heq | hgt
    · exact absurd (hnext p' hp' hlt) (not_lt.mpr hle')
    · exact heq
    · exact absurd (hnext' p hp hgt) (not_lt.mpr hle)
  have hright : ∀ p p', p ∈ positions → p' ∈ positions → q ≤ p → q ≤ p' →
      (∀ e ∈ positions, e < p → e < q) → (∀ e ∈ positions, e < p' → e < q) → p = p' := by
    intro p p' hp hp' hle hle' hprevious hprevious'
    rcases lt_trichotomy p p' with hlt | heq | hgt
    · exact absurd (hprevious' p hp hlt) (not_lt.mpr hle)
    · exact heq
    · exact absurd (hprevious p' hp' hgt) (not_lt.mpr hle')
  obtain ⟨left, hleftEq⟩ : ∃ left, ∀ p ∈ positions, p ≤ q → (∀ e ∈ positions, p < e → q < e) →
      p = left := by
    by_cases hex : ∃ p ∈ positions, p ≤ q ∧ ∀ e ∈ positions, p < e → q < e
    · obtain ⟨left, hmem, hle, hnext⟩ := hex
      exact ⟨left, fun p hp hple hpnext => hleft p left hp hmem hple hle hpnext hnext⟩
    · exact ⟨q, fun p hp hple hpnext => absurd ⟨p, hp, hple, hpnext⟩ hex⟩
  obtain ⟨right, hrightEq⟩ : ∃ right, ∀ p ∈ positions, q ≤ p → (∀ e ∈ positions, e < p → e < q) →
      p = right := by
    by_cases hex : ∃ p ∈ positions, q ≤ p ∧ ∀ e ∈ positions, e < p → e < q
    · obtain ⟨right, hmem, hle, hprevious⟩ := hex
      exact ⟨right, fun p hp hple hpprevious => hright p right hp hmem hple hle hpprevious hprevious⟩
    · exact ⟨q, fun p hp hple hpprevious => absurd ⟨p, hp, hple, hpprevious⟩ hex⟩
  have hsub : (positions.filter fun p => Brackets positions q p).toFinset ⊆ {left, right} := by
    intro p hp
    obtain ⟨hmem, hbrackets⟩ := List.mem_filter.mp (List.mem_toFinset.mp hp)
    rcases of_decide_eq_true hbrackets with ⟨hle, hnext⟩ | ⟨hle, hprevious⟩
    · simp [hleftEq p hmem hle hnext]
    · simp [hrightEq p hmem hle hprevious]
  have hcard := (Finset.card_le_card hsub).trans Finset.card_le_two
  rwa [List.toFinset_card_of_nodup (h.filter _)] at hcard

/-! ### The value -/

section Values

variable (weight : ι → ι → ι → K) (position : α → ι)

/-- The value right of an item: a mean of two that bracket. -/
theorem interpolateFrom_eq {q : ι} {a : α} {rest : List α} (ha : position a < q)
    (hsorted : (a :: rest).Pairwise fun x y => position x < position y)
    (hlast : ∃ x ∈ rest, q ≤ position x) :
    ∃ lo ∈ a :: rest, ∃ hi ∈ a :: rest, Brackets ((a :: rest).map position) q (position lo) ∧
      Brackets ((a :: rest).map position) q (position hi) ∧ ∃ w : K, ∀ value : α → K,
        interpolateFrom weight q (position a, value a) (rest.map fun x => (position x, value x)) =
          some (value lo + w * (value hi - value lo)) := by
  induction rest generalizing a with
  | nil =>
    obtain ⟨x, hx, -⟩ := hlast
    cases hx
  | cons b rest ih =>
    obtain ⟨hfirst, hrest⟩ := List.pairwise_cons.mp hsorted
    have hab : position a < position b := hfirst b (.head _)
    -- nothing lies between the first two
    have hright : ∀ e ∈ (a :: b :: rest).map position, e < position b → e = position a := by
      intro e he hlt
      obtain ⟨x, hx, rfl⟩ := List.mem_map.mp he
      rcases List.mem_cons.mp hx with rfl | hx
      · rfl
      rcases List.mem_cons.mp hx with rfl | hx
      · exact absurd hlt (lt_irrefl _)
      · exact absurd hlt ((List.pairwise_cons.mp hrest).1 x hx).not_gt
    by_cases heq : q = position b
    · have hbrackets : Brackets ((a :: b :: rest).map position) q (position b) :=
        .inr ⟨heq.le, fun e he hlt => hright e he hlt ▸ ha⟩
      refine ⟨b, by simp, b, by simp, hbrackets, hbrackets, 0, fun value => ?_⟩
      rw [List.map_cons, interpolateFrom, if_pos heq, zero_mul, add_zero]
    by_cases hlt : q < position b
    · refine ⟨a, by simp, b, by simp, .inl ⟨ha.le, fun e he hlt' => ?_⟩,
        .inr ⟨hlt.le, fun e he hlt' => hright e he hlt' ▸ ha⟩, weight (position a) q (position b),
        fun value => ?_⟩
      · refine lt_of_lt_of_le hlt ?_
        by_contra hgt
        have heq := hright e he (not_le.mp hgt)
        exact absurd hlt' (heq ▸ lt_irrefl _)
      · rw [List.map_cons, interpolateFrom, if_neg heq, if_pos hlt]
    · -- the interval is further right
      have hbq : position b < q := lt_of_le_of_ne (not_lt.mp hlt) (Ne.symm heq)
      have hlater : ∃ x ∈ rest, q ≤ position x := by
        obtain ⟨x, hx, hle⟩ := hlast
        rcases List.mem_cons.mp hx with rfl | hx
        · exact absurd hle (not_le.mpr hbq)
        · exact ⟨x, hx, hle⟩
      obtain ⟨lo, hlo, hi, hhi, hloBrackets, hhiBrackets, w, hw⟩ := ih hbq hrest hlater
      refine ⟨lo, .tail _ hlo, hi, .tail _ hhi, hloBrackets.cons ha (hfirst lo hlo).le,
        hhiBrackets.cons ha (hfirst hi hhi).le, w, fun value => ?_⟩
      rw [List.map_cons, interpolateFrom, if_neg heq, if_neg hlt]
      exact hw value

/-- **The value is a mean of two values at positions that bracket**, with a weight that does not depend
    on the values. -/
theorem interpolate_eq {q : ι} {items : List α}
    (hsorted : items.Pairwise fun x y => position x < position y) (htwo : 2 ≤ items.length)
    (hfirst : ∃ x ∈ items, position x ≤ q) (hlast : ∃ x ∈ items, q ≤ position x) :
    ∃ lo ∈ items, ∃ hi ∈ items, Brackets (items.map position) q (position lo) ∧
      Brackets (items.map position) q (position hi) ∧ ∃ w : K, ∀ value : α → K,
        interpolate weight (items.map fun x => (position x, value x)) q =
          some (value lo + w * (value hi - value lo)) := by
  match items, htwo with
  | a :: b :: rest, _ =>
    obtain ⟨hbefore, -⟩ := List.pairwise_cons.mp hsorted
    have haq : position a ≤ q := by
      obtain ⟨x, hx, hle⟩ := hfirst
      rcases List.mem_cons.mp hx with rfl | hx
      · exact hle
      · exact (hbefore x hx).le.trans hle
    -- the position asked for is inside
    have hinside : ∀ value : α → K, ¬(q < position a ∨ (((position b, value b) :: rest.map fun x =>
        (position x, value x)).getLast (List.cons_ne_nil _ _)).1 < q) := by
      intro value
      have hmap : (position b, value b) :: rest.map (fun x => (position x, value x)) =
          (b :: rest).map fun x => (position x, value x) := rfl
      simp only [hmap, List.getLast_map]
      rintro (hlt | hlt)
      · exact absurd haq (not_le.mpr hlt)
      · obtain ⟨x, hx, hle⟩ := hlast
        have hend := (hsorted.imp le_of_lt).rel_getLast_of_rel_getLast_getLast hx (le_refl _)
        rw [List.getLast_cons (List.cons_ne_nil b rest)] at hend
        exact absurd (lt_of_le_of_lt (hle.trans hend) hlt) (lt_irrefl _)
    by_cases heq : q = position a
    · have hbrackets : Brackets ((a :: b :: rest).map position) q (position a) := by
        refine .inr ⟨heq.le, fun e he hlt => ?_⟩
        rw [heq]
        exact hlt
      refine ⟨a, by simp, a, by simp, hbrackets, hbrackets, 0, fun value => ?_⟩
      rw [List.map_cons, List.map_cons, interpolate, if_neg (hinside value), if_pos heq, zero_mul,
        add_zero]
    · have hlater : ∃ x ∈ b :: rest, q ≤ position x := by
        obtain ⟨x, hx, hle⟩ := hlast
        rcases List.mem_cons.mp hx with rfl | hx
        · exact absurd (le_antisymm hle haq) heq
        · exact ⟨x, hx, hle⟩
      obtain ⟨lo, hlo, hi, hhi, hloBrackets, hhiBrackets, w, hw⟩ :=
        interpolateFrom_eq weight position (lt_of_le_of_ne haq (Ne.symm heq)) hsorted hlater
      refine ⟨lo, hlo, hi, hhi, hloBrackets, hhiBrackets, w, fun value => ?_⟩
      rw [List.map_cons, List.map_cons, interpolate, if_neg (hinside value), if_neg heq]
      exact hw value

end Values

end Lib
