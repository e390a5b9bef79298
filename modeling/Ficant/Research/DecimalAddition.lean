import Ficant.Research.Coverage

namespace Ficant

open Lib

/-!
# Sums of decimals

What the documentation of `rust_decimal` says of `checked_add`: the exact sum where 96 bits and 28
decimal places hold it, otherwise a sum rounded to fewer places, and nothing only on overflow.

* `DocumentedAdd` — these three properties;
* `roundingAdd` — a function that has them (`documentedAdd_roundingAdd`).
-/

open RustDecimal

/-- What `Decimal::checked_add` is documented to do. -/
structure DocumentedAdd (add : DecimalAdd) : Prop where
  exact : ∀ {a b : RustDecimal}, a.Valid → b.Valid → Fits (a.rat + b.rat) →
    ∃ sum, add a b = some sum ∧ sum.rat = a.rat + b.rat
  rounded : ∀ {a b sum : RustDecimal}, a.Valid → b.Valid → add a b = some sum →
    sum.Valid ∧ sum.scale ≤ max a.scale b.scale ∧ |sum.rat - (a.rat + b.rat)| ≤ 1 / 2 / 10 ^ sum.scale
  overflow : ∀ {a b : RustDecimal}, a.Valid → b.Valid → add a b = none → 2 ^ 96 - 1 < |a.rat + b.rat|

/-- The exact sum at the larger of two scales. -/
def sumMantissa (a b : RustDecimal) : ℤ :=
  a.mantissa * 10 ^ (max a.scale b.scale - a.scale) + b.mantissa * 10 ^ (max a.scale b.scale - b.scale)

/-- The sum at the larger scale without the given number of places, rounded half to even. -/
def sumWithout (a b : RustDecimal) (places : ℕ) : ℤ :=
  Decimal.nearestEven ((sumMantissa a b : ℚ) / 10 ^ places)

/-- The fewest places that leave a mantissa of 96 bits. -/
def droppedPlaces (a b : RustDecimal) : Option ℕ :=
  (List.range (max a.scale b.scale + 1)).find? fun places => (sumWithout a b places).natAbs < 2 ^ 96

/-- A sum that gives up as few places as it must. -/
def roundingAdd : DecimalAdd := fun a b =>
  (droppedPlaces a b).map fun places => ⟨sumWithout a b places, max a.scale b.scale - places⟩

theorem droppedPlaces_eq_some {a b : RustDecimal} {places : ℕ} (h : droppedPlaces a b = some places) :
    places ≤ max a.scale b.scale ∧ (sumWithout a b places).natAbs < 2 ^ 96 ∧
      ∀ k < places, 2 ^ 96 ≤ (sumWithout a b k).natAbs := by
  unfold droppedPlaces at h
  rw [List.find?_range_eq_some] at h
  obtain ⟨hfits, hmem, hbefore⟩ := h
  refine ⟨Nat.lt_succ_iff.mp (List.mem_range.mp hmem), of_decide_eq_true hfits, fun k hk => ?_⟩
  have hk := hbefore k hk
  rw [Bool.not_eq_true', decide_eq_false_iff_not, not_lt] at hk
  exact hk

theorem droppedPlaces_eq_none {a b : RustDecimal} (h : droppedPlaces a b = none) {places : ℕ}
    (hplaces : places ≤ max a.scale b.scale) : 2 ^ 96 ≤ (sumWithout a b places).natAbs := by
  have hnot := List.find?_eq_none.mp h places (List.mem_range.mpr (Nat.lt_succ_of_le hplaces))
  rw [decide_eq_true_eq, not_lt] at hnot
  exact hnot

theorem sumMantissa_rat (a b : RustDecimal) :
    (sumMantissa a b : ℚ) / 10 ^ max a.scale b.scale = a.rat + b.rat := by
  have hscale : ∀ {m : ℤ} {s t : ℕ}, s ≤ t → (m : ℚ) * 10 ^ (t - s) / 10 ^ t = m / 10 ^ s := by
    intro m s t hst
    rw [div_eq_div_iff (by positivity) (by positivity), mul_assoc, ← pow_add, Nat.sub_add_cancel hst]
  unfold sumMantissa RustDecimal.rat
  push_cast
  rw [add_div, hscale (le_max_left _ _), hscale (le_max_right _ _)]

/-- A sum without some places, and the sum that it stands for. -/
theorem sumWithout_error {a b : RustDecimal} {places : ℕ} (h : places ≤ max a.scale b.scale) :
    |(⟨sumWithout a b places, max a.scale b.scale - places⟩ : RustDecimal).rat - (a.rat + b.rat)| ≤
      1 / 2 / 10 ^ (max a.scale b.scale - places) := by
  obtain ⟨hspec, -⟩ := Decimal.nearestEven_spec ((sumMantissa a b : ℚ) / 10 ^ places)
  have hsum : a.rat + b.rat =
      (sumMantissa a b : ℚ) / 10 ^ places / 10 ^ (max a.scale b.scale - places) := by
    rw [div_div, ← pow_add, Nat.add_sub_cancel' h, sumMantissa_rat]
  rw [hsum]
  unfold RustDecimal.rat sumWithout
  simp only
  rw [← sub_div, abs_div, abs_of_pos (a := (10 : ℚ) ^ (max a.scale b.scale - places)) (by positivity),
    abs_sub_comm]
  gcongr

/-- A sum that can be represented does so without some of its places, none of which is lost. -/
theorem exists_whole {a b : RustDecimal} (h : Fits (a.rat + b.rat)) :
    ∃ k ≤ max a.scale b.scale, ∃ m : ℤ, m.natAbs < 2 ^ 96 ∧
      ∀ j ≤ k, sumWithout a b j = m * 10 ^ (k - j) := by
  obtain ⟨d, ⟨hd, -⟩, hrat⟩ := h
  rw [← sumMantissa_rat] at hrat
  unfold RustDecimal.rat at hrat
  rw [div_eq_div_iff (by positivity) (by positivity)] at hrat
  have hcross : d.mantissa * 10 ^ max a.scale b.scale = sumMantissa a b * 10 ^ d.scale := by
    exact_mod_cast hrat
  -- Where the decimal has more places than the terms nothing has to be dropped.
  have hfits : ∃ k ≤ max a.scale b.scale, ∃ m : ℤ,
    m.natAbs < 2 ^ 96 ∧ sumMantissa a b = m * 10 ^ k := by
    rcases le_total (max a.scale b.scale) d.scale with hle | hle
    · refine ⟨0, Nat.zero_le _, sumMantissa a b, ?_, by rw [pow_zero, mul_one]⟩
      obtain ⟨j, hj⟩ := Nat.exists_eq_add_of_le hle
      rw [hj, pow_add, mul_comm (10 ^ _) (10 ^ j), ← mul_assoc] at hcross
      have hmantissa : d.mantissa = sumMantissa a b * 10 ^ j :=
        mul_right_cancel₀ (by positivity) hcross
      rw [hmantissa, Int.natAbs_mul] at hd
      exact lt_of_le_of_lt (Nat.le_mul_of_pos_right _ (by simp [Int.natAbs_pow])) hd
    · obtain ⟨j, hj⟩ := Nat.exists_eq_add_of_le hle
      rw [hj, pow_add, mul_comm (10 ^ d.scale), ← mul_assoc] at hcross
      exact ⟨j, by omega, d.mantissa, hd, (mul_right_cancel₀ (by positivity) hcross).symm⟩
  obtain ⟨k, hk, m, hm, hsum⟩ := hfits
  refine ⟨k, hk, m, hm, fun j hj => ?_⟩
  have hvalue : (sumMantissa a b : ℚ) / 10 ^ j = ((m * 10 ^ (k - j) : ℤ) : ℚ) := by
    rw [hsum, div_eq_iff (by positivity)]
    push_cast
    rw [mul_assoc, ← pow_add, Nat.sub_add_cancel hj]
  unfold sumWithout
  rw [hvalue, Decimal.nearestEven_eq_iff]
  simp

/-- The documentation can be met. -/
theorem documentedAdd_roundingAdd : DocumentedAdd roundingAdd where
  exact := by
    intro a b _ _ h
    obtain ⟨k, hk, m, hm, hwhole⟩ := exists_whole h
    have hkept : sumWithout a b k = m := by rw [hwhole k le_rfl, Nat.sub_self, pow_zero, mul_one]
    cases hplaces : droppedPlaces a b with
    | none =>
      have hbig := droppedPlaces_eq_none hplaces hk
      rw [hkept] at hbig
      omega
    | some j =>
      obtain ⟨hj, -, hbefore⟩ := droppedPlaces_eq_some hplaces
      -- The first number of places that fits is not beyond the exact one.
      have hle : j ≤ k := by
        by_contra hlt
        have hbig := hbefore k (not_le.mp hlt)
        rw [hkept] at hbig
        omega
      refine ⟨⟨sumWithout a b j, max a.scale b.scale - j⟩, ?_, ?_⟩
      · unfold roundingAdd
        rw [hplaces]
        rfl
      · have hzero : sumMantissa a b = m * 10 ^ k := by
          have hstart := hwhole 0 (Nat.zero_le k)
          unfold sumWithout at hstart
          rw [pow_zero, div_one, Nat.sub_zero] at hstart
          rw [← hstart, eq_comm, Decimal.nearestEven_eq_iff]
          simp
        rw [← sumMantissa_rat, hzero]
        unfold RustDecimal.rat
        rw [hwhole j hle, div_eq_div_iff (by positivity) (by positivity)]
        push_cast
        rw [mul_assoc, mul_assoc, ← pow_add, ← pow_add]
        congr 2
        omega
  rounded := by
    intro a b sum ha hb h
    unfold roundingAdd at h
    obtain ⟨places, hplaces, rfl⟩ := Option.map_eq_some_iff.mp h
    obtain ⟨hle, hfits, -⟩ := droppedPlaces_eq_some hplaces
    have hscale : max a.scale b.scale ≤ 28 := max_le ha.scale hb.scale
    exact ⟨⟨hfits, (Nat.sub_le _ _).trans hscale⟩, Nat.sub_le _ _, sumWithout_error hle⟩
  overflow := by
    intro a b _ _ h
    unfold roundingAdd at h
    rw [Option.map_eq_none_iff] at h
    have hbig := droppedPlaces_eq_none h le_rfl
    have herror := sumWithout_error (a := a) (b := b) le_rfl
    rw [Nat.sub_self, pow_zero, div_one] at herror
    unfold RustDecimal.rat at herror ⊢
    simp only [pow_zero, div_one] at herror
    have hbigQ : (2 : ℚ) ^ 96 ≤ |(sumWithout a b (max a.scale b.scale) : ℚ)| := by
      rw [← Int.cast_abs, Int.abs_eq_natAbs]
      exact_mod_cast hbig
    have htriangle := abs_sub_abs_le_abs_sub (sumWithout a b (max a.scale b.scale) : ℚ)
      ((a.mantissa : ℚ) / 10 ^ a.scale + b.mantissa / 10 ^ b.scale)
    linarith

end Ficant
