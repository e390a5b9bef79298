import Ficant.Lib.Decimal

namespace Lib

/-!
# Weighted means

The mean of some values with positive weights, over any ordered field, and what is left of it after
rounding.

* `weightedMean_scale` — a common factor of the weights does not matter;
* `le_weightedMean`, `weightedMean_le` — it lies between the values;
* `Decimal.nearestEven_mono` — so does the rounded mean between the rounded values;
* `foldl_gcd`, `gcd_scale` — the common divisor of some numbers.
-/

section Mean

variable {K : Type*} [Field K]

/-- The mean of the second components, weighted with the first. -/
def weightedMean (l : List (K × K)) : K := (l.map fun p => p.1 * p.2).sum / (l.map Prod.fst).sum

/-- A common factor of the weights cancels. -/
theorem weightedMean_scale {c : K} (hc : c ≠ 0) (l : List (K × K)) :
    weightedMean (l.map fun p => (c * p.1, p.2)) = weightedMean l := by
  unfold weightedMean
  have hproducts : (l.map fun p : K × K => (c * p.1, p.2)).map (fun p => p.1 * p.2) =
      l.map fun p => c * (p.1 * p.2) := by
    rw [List.map_map]
    apply List.map_congr_left
    intro p _
    exact mul_assoc c p.1 p.2
  have hweights : (l.map fun p : K × K => (c * p.1, p.2)).map Prod.fst = l.map fun p => c * p.1 := by
    rw [List.map_map]
    rfl
  rw [hproducts, hweights, List.sum_map_mul_left, List.sum_map_mul_left]
  exact mul_div_mul_left _ _ hc

/-- A common divisor of the values stays one of the mean. -/
theorem weightedMean_div (d : K) (l : List (K × K)) :
    weightedMean (l.map fun p => (p.1, p.2 / d)) = weightedMean l / d := by
  unfold weightedMean
  have hproducts : (l.map fun p : K × K => (p.1, p.2 / d)).map (fun p => p.1 * p.2) =
      l.map fun p => p.1 * p.2 * d⁻¹ := by
    rw [List.map_map]
    apply List.map_congr_left
    intro p _
    show p.1 * (p.2 / d) = p.1 * p.2 * d⁻¹
    rw [div_eq_mul_inv, mul_assoc]
  have hweights : (l.map fun p : K × K => (p.1, p.2 / d)).map Prod.fst = l.map Prod.fst := by
    rw [List.map_map]
    rfl
  rw [hproducts, hweights, List.sum_map_mul_right, div_right_comm, div_eq_mul_inv _ d]

variable [LinearOrder K] [IsStrictOrderedRing K]

theorem sum_weights_pos {l : List (K × K)} (hne : l ≠ []) (hpos : ∀ p ∈ l, 0 < p.1) :
    0 < (l.map Prod.fst).sum := by
  apply List.sum_pos
  · intro w hw
    obtain ⟨p, hp, rfl⟩ := List.mem_map.mp hw
    exact hpos p hp
  · rwa [ne_eq, List.map_eq_nil_iff]

/-- What is below all values is below their mean. -/
theorem le_weightedMean {l : List (K × K)} (hne : l ≠ []) (hpos : ∀ p ∈ l, 0 < p.1) {m : K}
    (hm : ∀ p ∈ l, m ≤ p.2) : m ≤ weightedMean l := by
  unfold weightedMean
  rw [le_div_iff₀ (sum_weights_pos hne hpos), ← List.sum_map_mul_left]
  apply List.sum_le_sum
  intro p hp
  rw [mul_comm]
  exact mul_le_mul_of_nonneg_left (hm p hp) (hpos p hp).le

/-- What is above all values is above their mean. -/
theorem weightedMean_le {l : List (K × K)} (hne : l ≠ []) (hpos : ∀ p ∈ l, 0 < p.1) {m : K}
    (hm : ∀ p ∈ l, p.2 ≤ m) : weightedMean l ≤ m := by
  unfold weightedMean
  rw [div_le_iff₀ (sum_weights_pos hne hpos), ← List.sum_map_mul_left]
  apply List.sum_le_sum
  intro p hp
  rw [mul_comm m]
  exact mul_le_mul_of_nonneg_left (hm p hp) (hpos p hp).le

end Mean

/-! ### Rounding -/

/-- A larger number never rounds to a smaller one. -/
theorem Decimal.nearestEven_mono : Monotone Decimal.nearestEven := by
  intro p q hpq
  obtain ⟨hp, hpe⟩ := Decimal.nearestEven_spec p
  obtain ⟨hq, hqe⟩ := Decimal.nearestEven_spec q
  rw [abs_le] at hp hq
  by_contra hlt
  have hsucc : Decimal.nearestEven q + 1 ≤ Decimal.nearestEven p := by omega
  have hsuccQ : (Decimal.nearestEven q : ℚ) + 1 ≤ Decimal.nearestEven p := by exact_mod_cast hsucc
  -- both are half way between two neighbours, and each goes to an even one
  have hpeq : p - Decimal.nearestEven p = -(1 / 2) := by linarith
  have hqeq : q - Decimal.nearestEven q = 1 / 2 := by linarith
  have heq : (Decimal.nearestEven p : ℚ) = Decimal.nearestEven q + 1 := by linarith
  have heqZ : Decimal.nearestEven p = Decimal.nearestEven q + 1 := by exact_mod_cast heq
  have hp2 := hpe (by rw [hpeq, abs_neg, abs_of_pos (by norm_num)])
  have hq2 := hqe (by rw [hqeq, abs_of_pos (by norm_num)])
  rw [Int.even_iff] at hp2 hq2
  omega

/-! ### Common divisors -/

/-- Divisors that are taken one number after the other make the common divisor of all of them. -/
theorem foldl_gcd (l : List ℤ) {a : ℤ} (ha : 0 ≤ a) :
    l.foldl (fun d v => (Int.gcd d v : ℤ)) a = Multiset.gcd ↑(a :: l) := by
  induction l generalizing a with
  | nil =>
    show a = Multiset.gcd {a}
    rw [Multiset.gcd_singleton, Int.normalize_of_nonneg ha]
  | cons v rest ih =>
    rw [List.foldl_cons, ih (Int.natCast_nonneg _), ← Multiset.cons_coe, ← Multiset.cons_coe,
      ← Multiset.cons_coe, Multiset.gcd_cons, Multiset.gcd_cons, Multiset.gcd_cons, ← gcd_assoc,
      Int.coe_gcd]

/-- The common divisor of positive numbers is positive. -/
theorem gcd_pos_of_pos {l : List ℤ} (hne : l ≠ []) (h : ∀ v ∈ l, 0 < v) :
    0 < Multiset.gcd (l : Multiset ℤ) := by
  obtain ⟨v, rest, rfl⟩ := List.exists_cons_of_ne_nil hne
  have hnonneg : 0 ≤ Multiset.gcd ((v :: rest : List ℤ) : Multiset ℤ) := by
    rw [← Multiset.normalize_gcd]
    exact Int.nonneg_of_normalize_eq_self (normalize_idem _)
  have hv := h v List.mem_cons_self
  have hzero : Multiset.gcd ((v :: rest : List ℤ) : Multiset ℤ) ≠ 0 :=
    (Multiset.gcd_ne_zero_iff _).mpr ⟨v, List.mem_cons_self, hv.ne'⟩
  omega

/-- A common factor comes out. -/
theorem gcd_scale {m : ℤ} (hm : 0 ≤ m) (l : List ℤ) :
    Multiset.gcd ((l.map (m * ·) : List ℤ) : Multiset ℤ) = m * Multiset.gcd (l : Multiset ℤ) := by
  rw [← Multiset.map_coe, Multiset.gcd_map_mul, Int.normalize_of_nonneg hm]

end Lib
