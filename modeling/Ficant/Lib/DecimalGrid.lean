import Ficant.Lib.Decimal

namespace Lib

/-!
# Decimals with a fixed number of places

The decimals with at most `places` digits after the point, and cutting off a quotient as the
largest of them below it.

* `Decimal.OnGrid` — the decimal has at most that many places;
* `Decimal.le_truncate_iff` — a decimal of the grid is below a quotient if and only if it is below
  the cut-off quotient;
* `Decimal.OnGrid.le_of_pos` — no positive decimal of the grid is below one unit in the last place.
-/

namespace Decimal

variable {places : ℕ} {x : Decimal}

/-- The decimal has at most `places` digits after the point. -/
def OnGrid (places : ℕ) (x : Decimal) : Prop := ∃ n : ℤ, x = scaled n places

theorem coe_pos : (0 : ℚ) < (x : ℚ) ↔ 0 < x := Iff.rfl

/-- Numbers of one grid are ordered by their integers. -/
theorem scaled_le_scaled {m n : ℤ} : scaled m places ≤ scaled n places ↔ m ≤ n := by
  rw [← coe_le]
  show (m : ℚ) / 10 ^ places ≤ (n : ℚ) / 10 ^ places ↔ m ≤ n
  rw [div_le_div_iff_of_pos_right (by positivity)]
  exact Int.cast_le

theorem scaled_zero (places : ℕ) : scaled 0 places = 0 := by
  apply ext
  show ((0 : ℤ) : ℚ) / 10 ^ places = 0
  simp

theorem neg_scaled (n : ℤ) : -scaled n places = scaled (-n) places := by
  apply ext
  show -((n : ℚ) / 10 ^ places) = ((-n : ℤ) : ℚ) / 10 ^ places
  rw [Int.cast_neg, neg_div]

theorem onGrid_scaled (n : ℤ) : OnGrid places (scaled n places) := ⟨n, rfl⟩

/-- The grid is the same on both sides of zero. -/
theorem OnGrid.neg (h : OnGrid places x) : OnGrid places (-x) := by
  obtain ⟨n, rfl⟩ := h
  exact ⟨-n, neg_scaled n⟩

theorem OnGrid.abs (h : OnGrid places x) : OnGrid places |x| := by
  rcases abs_choice x with hx | hx
  · rwa [hx]
  · rw [hx]
    exact h.neg

/-- What is cut to a scale lies on its grid. -/
theorem onGrid_truncate (q : ℚ) : OnGrid places (truncate places q) := ⟨_, rfl⟩

/-- One unit in the last place is the smallest positive decimal of the grid. -/
theorem OnGrid.le_of_pos (h : OnGrid places x) (hx : 0 < x) : scaled 1 places ≤ x := by
  obtain ⟨n, rfl⟩ := h
  rw [← scaled_zero places] at hx
  have hn : 0 < n := not_le.mp (mt scaled_le_scaled.mpr (not_le.mpr hx))
  exact scaled_le_scaled.mpr (by omega)

/-- A step of the grid is positive. -/
theorem scaled_one_pos : 0 < scaled 1 places := by
  rw [← scaled_zero places]
  exact lt_of_not_ge (mt scaled_le_scaled.mp (by omega))

/-- Cutting off keeps exactly the decimals of the grid that were below. -/
theorem le_truncate_iff (h : OnGrid places x) {q : ℚ} (hq : 0 ≤ q) :
    x ≤ truncate places q ↔ (x : ℚ) ≤ q := by
  obtain ⟨n, rfl⟩ := h
  rw [truncate, if_pos hq, scaled_le_scaled, Int.le_floor]
  show (n : ℚ) ≤ q * 10 ^ places ↔ (n : ℚ) / 10 ^ places ≤ q
  rw [div_le_iff₀ (by positivity)]

/-- What is left after cutting off is not more. -/
theorem truncate_le {q : ℚ} (hq : 0 ≤ q) : (truncate places q : ℚ) ≤ q :=
  (le_truncate_iff (onGrid_truncate q) hq).mp le_rfl

theorem truncate_zero : truncate places 0 = 0 := by
  rw [truncate, if_pos le_rfl, zero_mul, Int.floor_zero, scaled_zero]

end Decimal

end Lib
