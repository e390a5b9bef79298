import Mathlib

namespace Lib

/-!
# Running products that round

A running product whose factors and whose partial products are each rounded to a grid of step `u`.
The error of a partial product is bounded step by step, from the rounded factors the computation
has at hand and the exact product so far.

* `RoundedRun` — one step of the computation beside the exact factor;
* `RoundedRun.step` — how one step carries the error;
* `RoundedRun.error_le` — the bound along a whole run.
-/

/-- The bound on the error after `n` steps: the previous error is stretched by the rounded factor,
    and the two roundings of the step add half a grid step each, the first one stretched by the
    exact product. -/
def errorBound (u : ℚ) (p f : ℕ → ℚ) : ℕ → ℚ
  | 0 => 0
  | n + 1 => errorBound u p f n * f n + (∏ i ∈ Finset.range n, p i + 1) * u / 2

/-- The first `n` steps of a rounded running product: `F k` after `k` steps, `f k` the rounded
    factor of step `k` and `p k` the exact one. -/
structure RoundedRun (u : ℚ) (p f F : ℕ → ℚ) (n : ℕ) : Prop where
  start : F 0 = 1
  factor_pos : ∀ k < n, 0 < f k
  exact_nonneg : ∀ k < n, 0 ≤ p k
  factor_error : ∀ k < n, |f k - p k| ≤ u / 2
  product_error : ∀ k < n, |F (k + 1) - F k * f k| ≤ u / 2

namespace RoundedRun

variable {u : ℚ} {p f F : ℕ → ℚ} {n : ℕ}

theorem mono {m : ℕ} (h : RoundedRun u p f F n) (hmn : m ≤ n) : RoundedRun u p f F m where
  start := h.start
  factor_pos k hk := h.factor_pos k (lt_of_lt_of_le hk hmn)
  exact_nonneg k hk := h.exact_nonneg k (lt_of_lt_of_le hk hmn)
  factor_error k hk := h.factor_error k (lt_of_lt_of_le hk hmn)
  product_error k hk := h.product_error k (lt_of_lt_of_le hk hmn)

/-- The exact product so far is not negative. -/
theorem prod_nonneg (h : RoundedRun u p f F n) : 0 ≤ ∏ i ∈ Finset.range n, p i :=
  Finset.prod_nonneg fun k hk => h.exact_nonneg k (Finset.mem_range.mp hk)

/-- **One step.** The error before the step is stretched by the rounded factor. -/
theorem step (h : RoundedRun u p f F (n + 1)) {E : ℚ}
    (hE : |F n - ∏ i ∈ Finset.range n, p i| ≤ E) :
    |F (n + 1) - ∏ i ∈ Finset.range (n + 1), p i|
      ≤ E * f n + (∏ i ∈ Finset.range n, p i + 1) * u / 2 := by
  have hn : n < n + 1 := Nat.lt_succ_self n
  set P := ∏ i ∈ Finset.range n, p i with hP
  have hnonneg : 0 ≤ P := (h.mono hn.le).prod_nonneg
  have hfactor : |f n - p n| * P ≤ u / 2 * P :=
    mul_le_mul_of_nonneg_right (h.factor_error n hn) hnonneg
  have hstretch : |F n - P| * f n ≤ E * f n :=
    mul_le_mul_of_nonneg_right hE (h.factor_pos n hn).le
  -- the rounding of the product, the error so far, and the rounding of the factor
  have hsplit : F (n + 1) - P * p n
      = (F (n + 1) - F n * f n) + ((F n - P) * f n + (f n - p n) * P) := by
    ring
  rw [Finset.prod_range_succ, ← hP, hsplit]
  calc |(F (n + 1) - F n * f n) + ((F n - P) * f n + (f n - p n) * P)|
      ≤ |F (n + 1) - F n * f n| + |(F n - P) * f n + (f n - p n) * P| := abs_add_le _ _
    _ ≤ |F (n + 1) - F n * f n| + (|(F n - P) * f n| + |(f n - p n) * P|) := by
        apply add_le_add_right
        exact abs_add_le _ _
    _ = |F (n + 1) - F n * f n| + (|F n - P| * f n + |f n - p n| * P) := by
        rw [abs_mul, abs_mul, abs_of_pos (h.factor_pos n hn), abs_of_nonneg hnonneg]
    _ ≤ u / 2 + (E * f n + u / 2 * P) := by
        apply add_le_add (h.product_error n hn)
        exact add_le_add hstretch hfactor
    _ = E * f n + (P + 1) * u / 2 := by ring

/-- **The error of a run.** -/
theorem error_le (h : RoundedRun u p f F n) :
    |F n - ∏ i ∈ Finset.range n, p i| ≤ errorBound u p f n := by
  induction n with
  | zero =>
    rw [h.start, Finset.prod_range_zero, sub_self, abs_zero]
    exact le_rfl
  | succ n ih => exact h.step (ih (h.mono (Nat.le_succ n)))

end RoundedRun

end Lib
