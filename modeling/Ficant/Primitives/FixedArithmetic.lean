import Ficant.Primitives.FixedDecimal
import Ficant.Lib.Bytes

namespace Ficant

open Lib

/-!
# Arithmetic of fixed decimals

The operations of `FixedDecimal` that round nothing, and the two that round, as their callers see
them: each is `tryFrom` of one whole number.

* `checkedAdd_eq_ok`, `checkedSub_eq_ok`, `checkedMul_eq_ok` — what an exact result is;
* `divRoundTiesEven_eq` — a quotient is the rounded value or an error, and never stops the program;
* `quotient_scale` — a common positive factor of both operands changes nothing.
-/

namespace FixedDecimal

/-! ### The operations -/

/-- `FixedDecimal::ZERO`. -/
def zero : FixedDecimal := ⟨0, by decide⟩

/-- The value of a literal; zero when it is outside the range. -/
def ofScaled (scaled : ℤ) : FixedDecimal := if h : InI128 scaled then ⟨scaled, h⟩ else zero

/-- `FixedDecimal::ONE`. -/
def one : FixedDecimal := ⟨1000000000000, by decide⟩

/-- `FixedDecimal::is_positive`. -/
def isPositive (self : FixedDecimal) : Bool := 0 < self.scaled

/-- `FixedDecimal::is_non_negative`. -/
def isNonNegative (self : FixedDecimal) : Bool := 0 ≤ self.scaled

/-- `FixedDecimal::checked_add`. -/
def checkedAdd (self other : FixedDecimal) : Except DomainErrorCode FixedDecimal :=
  tryFrom (self.scaled + other.scaled)

/-- `FixedDecimal::checked_sub`. -/
def checkedSub (self other : FixedDecimal) : Except DomainErrorCode FixedDecimal :=
  tryFrom (self.scaled - other.scaled)

/-- `FixedDecimal::checked_mul`.  The `%` and `/` of an `i128` are cut off toward zero. -/
def checkedMul (self other : FixedDecimal) : Except DomainErrorCode FixedDecimal := do
  let product ← tryFrom (self.scaled * other.scaled)
  rejectIf (product.scaled.tmod factor ≠ 0) .invalidValue
  tryFrom (product.scaled.tdiv factor)

/-- `FixedDecimal::checked_div_round_ties_even`, which always returns
    (`checkedDivRoundTiesEven_run`). -/
def divRoundTiesEven (self divisor : FixedDecimal) : Except DomainErrorCode FixedDecimal :=
  (self.checkedDivRoundTiesEven divisor).run.getD (.error .invalidValue)

/-- The sixteen bytes of `scaled().to_be_bytes()`. -/
def scaledBytes (self : FixedDecimal) : List UInt8 := bigEndian 16 (self.scaled % 2 ^ 128).toNat

/-- The number itself. -/
def toRat (self : FixedDecimal) : ℚ := self.scaled / 10 ^ 12

/-! ### What a result is -/

/-- A number that is accepted is the one that was given. -/
theorem tryFrom_eq_ok {value : ℤ} {x : FixedDecimal} : tryFrom value = .ok x ↔ x.scaled = value := by
  constructor
  · intro h
    unfold tryFrom at h
    split at h
    · obtain rfl := Except.ok.inj h
      rfl
    · cases h
  · rintro rfl
    exact dif_pos x.range

@[simp] theorem scaled_one : one.scaled = 1000000000000 := rfl

/-- The sign of a number is that of its integer. -/
theorem isPositive_iff {x : FixedDecimal} : x.isPositive = true ↔ 0 < x.scaled := decide_eq_true_iff

theorem isNonNegative_iff {x : FixedDecimal} : x.isNonNegative = true ↔ 0 ≤ x.scaled :=
  decide_eq_true_iff

/-- A sum that is accepted is exact. -/
theorem checkedAdd_eq_ok {a b x : FixedDecimal} :
    a.checkedAdd b = .ok x ↔ x.scaled = a.scaled + b.scaled := tryFrom_eq_ok

/-- So is a difference. -/
theorem checkedSub_eq_ok {a b x : FixedDecimal} :
    a.checkedSub b = .ok x ↔ x.scaled = a.scaled - b.scaled := tryFrom_eq_ok

/-- A quotient of a whole product stays in range, so that the second conversion never fails. -/
theorem checkedMul_eq_ok {a b x : FixedDecimal} :
    a.checkedMul b = .ok x ↔
      InI128 (a.scaled * b.scaled) ∧ x.scaled * factor = a.scaled * b.scaled := by
  unfold checkedMul
  rw [bind_eq_ok]
  constructor
  · rintro ⟨product, hproduct, h⟩
    -- The product is divided by the factor only when nothing remains.
    obtain ⟨⟨⟩, hexact, h⟩ := bind_eq_ok.mp h
    rw [tryFrom_eq_ok] at hproduct h
    rw [rejectIf_eq_ok, not_not] at hexact
    refine ⟨hproduct ▸ product.range, ?_⟩
    rw [h, ← hproduct]
    exact Int.tdiv_mul_cancel (Int.dvd_of_tmod_eq_zero hexact)
  · rintro ⟨hrange, hx⟩
    refine ⟨⟨_, hrange⟩, tryFrom_eq_ok.mpr rfl, ?_⟩
    have hfactor : (factor : ℤ) ≠ 0 := by decide
    rw [bind_eq_ok]
    refine ⟨(), rejectIf_eq_ok.mpr (not_not.mpr ?_), tryFrom_eq_ok.mpr ?_⟩
    · show (a.scaled * b.scaled).tmod factor = 0
      rw [← hx]
      exact Int.mul_tmod_left _ _
    · show x.scaled = (a.scaled * b.scaled).tdiv factor
      rw [← hx]
      exact (Int.mul_tdiv_cancel _ hfactor).symm

/-- A division always returns. -/
theorem checkedDivRoundTiesEven_run (self divisor : FixedDecimal) :
    (self.checkedDivRoundTiesEven divisor).run = some (self.divRoundTiesEven divisor) := by
  rw [divRoundTiesEven, checkedDivRoundTiesEven_eq]
  rfl

/-- **A quotient** is rounded once, if it is not by zero and fits. -/
theorem divRoundTiesEven_eq (self divisor : FixedDecimal) :
    self.divRoundTiesEven divisor =
      if divisor.scaled = 0 then .error .invalidValue else tryFrom (self.quotient divisor) := by
  have hrun := checkedDivRoundTiesEven_run self divisor
  rw [checkedDivRoundTiesEven_eq] at hrun
  exact (Option.some.inj hrun).symm

/-- A quotient that is accepted is the rounded one. -/
theorem divRoundTiesEven_eq_ok {a b x : FixedDecimal} :
    a.divRoundTiesEven b = .ok x ↔ b.scaled ≠ 0 ∧ x.scaled = a.quotient b := by
  rw [divRoundTiesEven_eq]
  by_cases hzero : b.scaled = 0
  · rw [if_pos hzero]
    exact iff_of_false (fun h => nomatch h) (fun h => h.1 hzero)
  · rw [if_neg hzero, tryFrom_eq_ok]
    exact ⟨fun h => ⟨hzero, h⟩, fun h => h.2⟩

/-- A product that is accepted is the rounded one, of two magnitudes with a 128-bit product. -/
theorem checkedMulRoundTiesEven_eq_ok {a b x : FixedDecimal} :
    a.checkedMulRoundTiesEven b = .ok x ↔
      a.scaled.natAbs * b.scaled.natAbs < 2 ^ 128 ∧ x.scaled = a.product b := by
  rw [checkedMulRoundTiesEven_eq]
  by_cases hlt : a.scaled.natAbs * b.scaled.natAbs < 2 ^ 128
  · rw [if_pos hlt, tryFrom_eq_ok]
    exact ⟨fun h => ⟨hlt, h⟩, fun h => h.2⟩
  · rw [if_neg hlt]
    exact iff_of_false (fun h => nomatch h) (fun h => hlt h.1)

/-! ### Common factors -/

/-- **A common factor** of both operands does not change a quotient. -/
theorem quotient_scale {a b a' b' : FixedDecimal} {m : ℤ} (hm : 0 < m)
    (ha : a'.scaled = m * a.scaled) (hb : b'.scaled = m * b.scaled) :
    a'.quotient b' = a.quotient b := by
  have hmq : (m : ℚ) ≠ 0 := by exact_mod_cast hm.ne'
  unfold quotient
  rw [ha, hb]
  push_cast
  rw [mul_assoc, mul_div_mul_left _ _ hmq]

/-- A common factor changes no quotient. -/
theorem divRoundTiesEven_scale {a b a' b' : FixedDecimal} {m : ℤ} (hm : 0 < m)
    (ha : a'.scaled = m * a.scaled) (hb : b'.scaled = m * b.scaled) :
    a'.divRoundTiesEven b' = a.divRoundTiesEven b := by
  have hzero : b'.scaled = 0 ↔ b.scaled = 0 := by
    rw [hb, mul_eq_zero]
    exact or_iff_right hm.ne'
  rw [divRoundTiesEven_eq, divRoundTiesEven_eq, quotient_scale hm ha hb]
  simp only [hzero]

/-! ### Bytes -/

theorem length_scaledBytes (a : FixedDecimal) : a.scaledBytes.length = 16 := length_bigEndian 16 _

/-- Two's complement loses nothing of a 128-bit number. -/
theorem scaledBytes_injective : Function.Injective scaledBytes := by
  intro a b h
  have hbound : ∀ x : ℤ, (x % 2 ^ 128).toNat < 256 ^ 16 := fun x => by omega
  have hmod := bigEndian_inj (hbound _) (hbound _) h
  have hrange : ∀ x : FixedDecimal, -2 ^ 127 ≤ x.scaled ∧ x.scaled < 2 ^ 127 := fun x => x.range
  have ha := hrange a
  have hb := hrange b
  apply FixedDecimal.ext
  omega

end FixedDecimal

end Ficant
