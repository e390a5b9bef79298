import Ficant.Primitives

namespace Ficant

open Lib

/-!
# Arithmetic of decimals

`rust_decimal::Decimal` is a third-party type: a mantissa of 96 bits with at most 28 decimal places.

* `RustDecimal.Fits` — the numbers that it can hold;
* `DecimalArithmetic` — its operators: exact where the result fits, and rounded in some way where not;
* `ExactDecimals.exact` — operators that never round;
* `RoundedDecimals.rounded` — operators that round half to even, to as many places as fit.

An operator panics on overflow, and no run goes on after that: what an arithmetic says of an overflow
does not matter.
-/

/-! ### Numbers that fit -/

/-- `rust_decimal::Decimal`, as its mantissa and its scale. -/
structure RustDecimal where
  mantissa : ℤ
  scale : ℕ
  deriving DecidableEq

namespace RustDecimal

/-- The number of a decimal. -/
def rat (d : RustDecimal) : ℚ := d.mantissa / 10 ^ d.scale

/-- A mantissa of 96 bits and at most 28 decimal places. -/
structure Valid (d : RustDecimal) : Prop where
  mantissa : d.mantissa.natAbs < 2 ^ 96
  scale : d.scale ≤ 28

/-- Whether a number can be represented. -/
def Fits (q : ℚ) : Prop := ∃ d : RustDecimal, d.Valid ∧ d.rat = q

end RustDecimal

open RustDecimal

/-! ### Operators -/

/-- The operators of `Decimal`, on numbers.  A sum, a difference and a product are exact where they
    can be represented; a quotient by a power of ten is again a decimal. -/
class DecimalArithmetic where
  plus : Decimal → Decimal → Decimal
  minus : Decimal → Decimal → Decimal
  times : Decimal → Decimal → Decimal
  quotient : Decimal → Decimal → ℚ
  plus_exact : ∀ {a b : Decimal}, Fits ((a + b : Decimal) : ℚ) → plus a b = a + b
  minus_exact : ∀ {a b : Decimal}, Fits ((a - b : Decimal) : ℚ) → minus a b = a - b
  times_exact : ∀ {a b : Decimal}, Fits ((a * b : Decimal) : ℚ) → times a b = a * b
  quotient_mem : ∀ (a : Decimal) (s : ℕ), quotient a (10 ^ s) ∈ decimals

namespace DecimalArithmetic

variable [DecimalArithmetic]

/-- The quotient by a power of ten. -/
def shifted (a : Decimal) (s : ℕ) : Decimal := ⟨quotient a (10 ^ s), quotient_mem a s⟩

/-- `Iterator::sum`. -/
def sum (values : List Decimal) : Decimal := values.foldl plus 0

/-- A sum adds the last value last. -/
theorem sum_append (values : List Decimal) (a : Decimal) :
    sum (values ++ [a]) = plus (sum values) a :=
  List.foldl_concat ..

/-- **A sum is exact** where all sums on the way to it can be represented. -/
theorem sum_exact {values : List Decimal}
    (h : ∀ part, part <+: values → Fits (part.sum : Decimal)) : sum values = values.sum := by
  induction values using List.reverseRecOn with
  | nil => rfl
  | append_singleton values a ih =>
    have hall := h _ (List.prefix_refl _)
    rw [List.sum_append, List.sum_singleton] at hall
    rw [sum_append, ih fun part hpart => h part (hpart.trans (List.prefix_append _ _)),
      plus_exact hall, List.sum_append, List.sum_singleton]

end DecimalArithmetic

/-! ### Operators that never round -/

namespace ExactDecimals

open DecimalArithmetic

/-- A quotient by a power of ten is exact. -/
theorem shift_eq_div (a : Decimal) (s : ℕ) :
    ((a.shift s : Decimal) : ℚ) = a / ((10 ^ s : Decimal) : ℚ) := by
  have hpow : ((10 ^ s : Decimal) : ℚ) = 10 ^ s := by
    induction s with
    | zero => rfl
    | succ n ih => rw [pow_succ, pow_succ, Decimal.coe_mul, ih]; rfl
  rw [hpow]
  show (a : ℚ) * ((1 : ℤ) / 10 ^ s) = a / 10 ^ s
  push_cast
  ring

/-- Decimals with exact operators. -/
scoped instance exact : DecimalArithmetic where
  plus a b := a + b
  minus a b := a - b
  times a b := a * b
  quotient a b := a / b
  plus_exact _ := rfl
  minus_exact _ := rfl
  times_exact _ := rfl
  quotient_mem a s := by
    rw [← shift_eq_div]
    exact (a.shift s).2

/-- Exact addition is addition. -/
@[simp] theorem plus_eq (a b : Decimal) : plus a b = a + b := rfl

/-- Exact subtraction is subtraction. -/
@[simp] theorem minus_eq (a b : Decimal) : minus a b = a - b := rfl

/-- Exact multiplication is multiplication. -/
@[simp] theorem times_eq (a b : Decimal) : times a b = a * b := rfl

/-- An exact quotient is the rational one. -/
@[simp] theorem quotient_eq (a b : Decimal) : quotient a b = (a : ℚ) / b := rfl

/-- An exact shift is the shift. -/
@[simp] theorem shifted_eq (a : Decimal) (s : ℕ) : shifted a s = a.shift s :=
  Decimal.ext (shift_eq_div a s).symm

/-- An exact sum is the sum. -/
@[simp] theorem sum_eq (values : List Decimal) : sum values = values.sum :=
  List.sum_eq_foldl.symm

end ExactDecimals

/-! ### Operators that round -/

/-- The most decimal places, up to 28, at which 96 bits hold a number. -/
def placesOf (q : ℚ) : ℕ :=
  28 - ((List.range 29).find? fun dropped =>
    (Decimal.nearestEven (q * 10 ^ (28 - dropped))).natAbs < 2 ^ 96).getD 28

/-- A number rounded to as many places as fit. -/
def fitted (q : ℚ) : Decimal := Decimal.roundTiesEven (placesOf q) q

/-- The mantissa that is left of a number with that many places. -/
def mantissaOf (q : ℚ) : ℤ := Decimal.nearestEven (q * 10 ^ placesOf q)

/-- A number that fits has no more places than are kept, and a mantissa of 96 bits is left of it. -/
theorem placesOf_spec {m : ℤ} {s : ℕ} (hm : m.natAbs < 2 ^ 96) (hs : s ≤ 28) :
    s ≤ placesOf ((m : ℚ) / 10 ^ s) ∧ (mantissaOf ((m : ℚ) / 10 ^ s)).natAbs < 2 ^ 96 := by
  have hkept : (m : ℚ) / 10 ^ s * 10 ^ (28 - (28 - s)) = m := by
    rw [Nat.sub_sub_self hs, div_mul_cancel₀ _ (by positivity)]
  unfold mantissaOf placesOf
  cases hfind : (List.range 29).find? fun dropped =>
      decide ((Decimal.nearestEven ((m : ℚ) / 10 ^ s * 10 ^ (28 - dropped))).natAbs < 2 ^ 96) with
  | none =>
    have hnot := List.find?_eq_none.mp hfind (28 - s) (List.mem_range.mpr (by omega))
    rw [hkept, Decimal.nearestEven_intCast, decide_eq_true_eq] at hnot
    exact absurd hm hnot
  | some dropped =>
    -- the search stops at the latest where the mantissa itself is reached
    obtain ⟨hsmall, -, hbefore⟩ := List.find?_range_eq_some.mp hfind
    have hle : dropped ≤ 28 - s := by
      by_contra hlt
      have hbig := hbefore (28 - s) (not_le.mp hlt)
      rw [hkept, Decimal.nearestEven_intCast, Bool.not_eq_true', decide_eq_false_iff_not] at hbig
      exact hbig hm
    refine ⟨?_, of_decide_eq_true hsmall⟩
    show s ≤ 28 - dropped
    omega

/-- **A number that fits** is not rounded. -/
theorem fitted_of_fits {q : ℚ} (h : Fits q) : ((fitted q : Decimal) : ℚ) = q := by
  obtain ⟨⟨m, s⟩, ⟨hm, hs⟩, rfl⟩ := h
  show (Decimal.nearestEven ((m : ℚ) / 10 ^ s * 10 ^ placesOf ((m : ℚ) / 10 ^ s)) : ℚ)
    / 10 ^ placesOf ((m : ℚ) / 10 ^ s) = (m : ℚ) / 10 ^ s
  obtain ⟨k, hk⟩ := Nat.exists_eq_add_of_le (placesOf_spec hm hs).1
  have hwhole : (m : ℚ) / 10 ^ s * 10 ^ placesOf ((m : ℚ) / 10 ^ s) = ((m * 10 ^ k : ℤ) : ℚ) := by
    rw [hk, pow_add]
    push_cast
    field_simp
  rw [hwhole, Decimal.nearestEven_intCast, ← hwhole, mul_div_assoc, div_self (by positivity), mul_one]

/-- Whether a number can be represented can be computed. -/
theorem fits_iff {q : ℚ} :
    Fits q ↔ (mantissaOf q).natAbs < 2 ^ 96 ∧ ((fitted q : Decimal) : ℚ) = q := by
  constructor
  · intro h
    refine ⟨?_, fitted_of_fits h⟩
    obtain ⟨⟨m, s⟩, ⟨hm, hs⟩, rfl⟩ := h
    exact (placesOf_spec hm hs).2
  · rintro ⟨hmantissa, hq⟩
    exact ⟨⟨mantissaOf q, placesOf q⟩, ⟨hmantissa, Nat.sub_le _ _⟩, hq⟩

instance decidableFits (q : ℚ) : Decidable (Fits q) := decidable_of_iff' _ fits_iff

namespace RoundedDecimals

/-- Decimals with operators that round their exact result. -/
scoped instance rounded : DecimalArithmetic where
  plus a b := fitted (a + b)
  minus a b := fitted (a - b)
  times a b := fitted (a * b)
  quotient a b := fitted (a / b)
  plus_exact h := Decimal.ext (fitted_of_fits h)
  minus_exact h := Decimal.ext (fitted_of_fits h)
  times_exact h := Decimal.ext (fitted_of_fits h)
  quotient_mem _ _ := (fitted _).2

end RoundedDecimals

end Ficant
