import Ficant.Application.Governance
import Ficant.Lib.WeightedMean
import Ficant.Primitives.FixedArithmetic

namespace Ficant.Tax

open Lib FixedDecimal

/-!
# Coupon tax treatments

What is left of a coupon after tax (`ficant-application/src/ports/tax_rule_parser.rs`).

* `CouponTaxTreatment` — the rates with the basis, the rounding and the scope they are meant for;
* `adjustCoupon` — the net amount of a gross coupon;
* `adjust_legacy`, `adjust_vat` — the two kinds of treatments, against the exact values.
-/

/-- `GrossCouponTaxBasis`. -/
inductive GrossCouponTaxBasis
  | legacyRetainedRate | vatIncluded
  deriving DecidableEq, Repr

/-- `TaxRoundingMode`. -/
inductive TaxRoundingMode
  | exact | tiesToEven
  deriving DecidableEq, Repr

/-- `CouponTaxClaimScope`. -/
inductive CouponTaxClaimScope
  | legacySyntheticRetainedRate | couponOutputVatBeforeInputCredit
  deriving DecidableEq, Repr

/-- `CouponTaxTreatment`. -/
structure CouponTaxTreatment where
  valueAddedTaxRate : FixedDecimal
  incomeTaxRate : FixedDecimal
  unit : UnitRef
  grossCouponBasis : GrossCouponTaxBasis
  rounding : TaxRoundingMode
  claimScope : CouponTaxClaimScope
  authoritySemanticHash : Option ContentHash
  deriving DecidableEq

namespace CouponTaxTreatment

/-- `legacy_retained_rate`. -/
def legacyRetainedRate (couponTaxRate : FixedDecimal) (unit : UnitRef) : CouponTaxTreatment :=
  ⟨couponTaxRate, .zero, unit, .legacyRetainedRate, .exact, .legacySyntheticRetainedRate, none⟩

/-- `CouponTaxTreatment::new`. -/
def new (couponTaxRate : FixedDecimal) (unit : UnitRef) : CouponTaxTreatment :=
  legacyRetainedRate couponTaxRate unit

/-- A rate in the closed interval from zero to one. -/
def InUnitInterval (rate : FixedDecimal) : Prop := 0 ≤ rate.scaled ∧ rate.scaled ≤ one.scaled

instance (rate : FixedDecimal) : Decidable (InUnitInterval rate) := inferInstanceAs (Decidable (_ ∧ _))

/-- `vat_included`. -/
def vatIncluded (valueAddedTaxRate incomeTaxRate : FixedDecimal) (unit : UnitRef)
    (authoritySemanticHash : ContentHash) : Except ApplicationError CouponTaxTreatment := do
  rejectIf (¬InUnitInterval valueAddedTaxRate ∨ ¬InUnitInterval incomeTaxRate)
    (mapDomainError .invalidValue)
  return ⟨valueAddedTaxRate, incomeTaxRate, unit, .vatIncluded, .tiesToEven,
    .couponOutputVatBeforeInputCredit, some authoritySemanticHash⟩

/-- `adjust_coupon`. -/
def adjustCoupon (self : CouponTaxTreatment) (gross : FixedDecimal) :
    Except ApplicationError FixedDecimal := do
  rejectIf (gross.isNonNegative = false) (mapDomainError .invalidValue)
  match self.grossCouponBasis, self.rounding with
  | .legacyRetainedRate, .exact => do
    let retained ← (one.checkedSub self.valueAddedTaxRate).mapError mapDomainError
    (gross.checkedMul retained).mapError mapDomainError
  | .vatIncluded, .tiesToEven => do
    let denominator ← (one.checkedAdd self.valueAddedTaxRate).mapError mapDomainError
    (gross.divRoundTiesEven denominator).mapError mapDomainError
  | _, _ => .error (mapDomainError .invalidValue)

/-- A net amount lies between zero and its gross amount, and grows with it. -/
structure Bounded (self : CouponTaxTreatment) : Prop where
  within : ∀ gross net, self.adjustCoupon gross = .ok net →
    0 ≤ gross.scaled ∧ 0 ≤ net.scaled ∧ net.scaled ≤ gross.scaled
  monotone : ∀ gross gross' net net', self.adjustCoupon gross = .ok net →
    self.adjustCoupon gross' = .ok net' → gross.scaled ≤ gross'.scaled → net.scaled ≤ net'.scaled

/-! ### Retained rates -/

section Legacy

variable {rate gross net : FixedDecimal} {unit : UnitRef}

theorem adjustCoupon_legacy (h : (legacyRetainedRate rate unit).adjustCoupon gross = .ok net) :
    0 ≤ gross.scaled ∧ net.scaled * factor = gross.scaled * (one.scaled - rate.scaled) := by
  obtain ⟨⟨⟩, hgross, h⟩ := bind_eq_ok.mp h
  obtain ⟨retained, hretained, h⟩ := bind_eq_ok.mp h
  rw [rejectIf_eq_ok, Bool.not_eq_false, isNonNegative_iff] at hgross
  rw [mapError_eq_ok, checkedSub_eq_ok] at hretained
  rw [mapError_eq_ok, checkedMul_eq_ok, hretained] at h
  exact ⟨hgross, h.2⟩

/-- **A retained rate is exact**: the net amount is the gross amount without the tax. -/
theorem adjust_legacy (h : (legacyRetainedRate rate unit).adjustCoupon gross = .ok net) :
    net.toRat = gross.toRat * (1 - rate.toRat) := by
  obtain ⟨-, hproduct⟩ := adjustCoupon_legacy h
  have hcast : (net.scaled : ℚ) * 10 ^ 12 = gross.scaled * (10 ^ 12 - rate.scaled) := by
    exact_mod_cast hproduct
  unfold toRat
  field_simp
  linarith

theorem bounded_legacy (hrate : InUnitInterval rate) : (legacyRetainedRate rate unit).Bounded := by
  have hfactor : (0 : ℤ) < factor := by decide
  have hretained : 0 ≤ one.scaled - rate.scaled := sub_nonneg.mpr hrate.2
  refine ⟨fun gross net h => ?_, fun gross gross' net net' h h' hle => ?_⟩
  · obtain ⟨hgross, hproduct⟩ := adjustCoupon_legacy h
    refine ⟨hgross, ?_, ?_⟩
    · have hnonneg : 0 ≤ net.scaled * factor := hproduct ▸ mul_nonneg hgross hretained
      exact nonneg_of_mul_nonneg_left hnonneg hfactor
    · -- no more than all of it is retained
      refine le_of_mul_le_mul_right ?_ hfactor
      rw [hproduct]
      exact mul_le_mul_of_nonneg_left (sub_le_self _ hrate.1) hgross
  · obtain ⟨-, hproduct⟩ := adjustCoupon_legacy h
    obtain ⟨-, hproduct'⟩ := adjustCoupon_legacy h'
    refine le_of_mul_le_mul_right ?_ hfactor
    rw [hproduct, hproduct']
    exact mul_le_mul_of_nonneg_right hle hretained

end Legacy

/-! ### Included tax -/

section Vat

variable {rate income gross net : FixedDecimal} {unit : UnitRef} {hash : ContentHash}
  {treatment : CouponTaxTreatment}

/-- What the constructor makes. -/
theorem vatIncluded_eq_ok : vatIncluded rate income unit hash = .ok treatment ↔
    InUnitInterval rate ∧ InUnitInterval income ∧ treatment = ⟨rate, income, unit, .vatIncluded,
      .tiesToEven, .couponOutputVatBeforeInputCredit, some hash⟩ := by
  unfold vatIncluded
  rw [bind_eq_ok]
  constructor
  · rintro ⟨⟨⟩, hchecks, h⟩
    rw [rejectIf_eq_ok, not_or, not_not, not_not] at hchecks
    exact ⟨hchecks.1, hchecks.2, (Except.ok.inj h).symm⟩
  · rintro ⟨hrate, hincome, rfl⟩
    refine ⟨(), rejectIf_eq_ok.mpr ?_, rfl⟩
    rw [not_or, not_not, not_not]
    exact ⟨hrate, hincome⟩

theorem adjustCoupon_vat (htreatment : vatIncluded rate income unit hash = .ok treatment)
    (h : treatment.adjustCoupon gross = .ok net) :
    0 ≤ gross.scaled ∧
      net.scaled = Decimal.nearestEven ((gross.scaled : ℚ) * 10 ^ 12 / (10 ^ 12 + rate.scaled)) := by
  obtain ⟨-, -, rfl⟩ := vatIncluded_eq_ok.mp htreatment
  obtain ⟨⟨⟩, hgross, h⟩ := bind_eq_ok.mp h
  obtain ⟨denominator, hdenominator, h⟩ := bind_eq_ok.mp h
  rw [rejectIf_eq_ok, Bool.not_eq_false, isNonNegative_iff] at hgross
  rw [mapError_eq_ok, checkedAdd_eq_ok] at hdenominator
  rw [mapError_eq_ok, divRoundTiesEven_eq_ok] at h
  refine ⟨hgross, ?_⟩
  rw [h.2, quotient, hdenominator, scaled_one]
  push_cast
  norm_num

/-- **Included tax is taken out to the nearest amount.** -/
theorem adjust_vat (htreatment : vatIncluded rate income unit hash = .ok treatment)
    (h : treatment.adjustCoupon gross = .ok net) :
    |net.toRat * (1 + rate.toRat) - gross.toRat| ≤ (1 + rate.toRat) / 2 * (1 / 10 ^ 12) := by
  obtain ⟨-, hnet⟩ := adjustCoupon_vat htreatment h
  obtain ⟨⟨hrate, -⟩, -, -⟩ := vatIncluded_eq_ok.mp htreatment
  have hpos : (0 : ℚ) < 10 ^ 12 + rate.scaled := by
    have : (0 : ℚ) ≤ rate.scaled := Int.cast_nonneg hrate
    linarith [show (0 : ℚ) < 10 ^ 12 by norm_num]
  obtain ⟨hnear, -⟩ := Decimal.nearestEven_eq_iff.mp hnet.symm
  -- one plus the rate, in units
  have hfactor : (1 : ℚ) + rate.toRat = (10 ^ 12 + rate.scaled) / 10 ^ 12 := by
    unfold toRat
    field_simp
  have hsplit : net.toRat * (1 + rate.toRat) - gross.toRat =
      (net.scaled - (gross.scaled : ℚ) * 10 ^ 12 / (10 ^ 12 + rate.scaled)) *
        ((10 ^ 12 + rate.scaled) / 10 ^ 12 / 10 ^ 12) := by
    rw [hfactor]
    unfold toRat
    field_simp
  have hscale : (0 : ℚ) < (10 ^ 12 + rate.scaled) / 10 ^ 12 / 10 ^ 12 := by positivity
  rw [hsplit, abs_mul, abs_of_pos hscale, hfactor]
  calc _ ≤ 1 / 2 * ((10 ^ 12 + (rate.scaled : ℚ)) / 10 ^ 12 / 10 ^ 12) :=
        mul_le_mul_of_nonneg_right (by rw [abs_sub_comm]; exact hnear) hscale.le
    _ = _ := by ring

theorem bounded_vat (htreatment : vatIncluded rate income unit hash = .ok treatment) :
    treatment.Bounded := by
  obtain ⟨⟨hrate, -⟩, -, -⟩ := vatIncluded_eq_ok.mp htreatment
  have hrateCast : (0 : ℚ) ≤ rate.scaled := Int.cast_nonneg hrate
  have hpos : (0 : ℚ) < 10 ^ 12 + rate.scaled := by
    linarith [show (0 : ℚ) < 10 ^ 12 by norm_num]
  refine ⟨fun gross net h => ?_, fun gross gross' net net' h h' hle => ?_⟩
  · obtain ⟨hgross, hnet⟩ := adjustCoupon_vat htreatment h
    have hgrossCast : (0 : ℚ) ≤ gross.scaled := Int.cast_nonneg hgross
    -- Rounding is monotone and keeps whole numbers, so the bounds survive it.
    have hwhole : ∀ n : ℤ, Decimal.nearestEven n = n := by
      intro n
      exact Decimal.nearestEven_eq_iff.mpr ⟨by norm_num, by norm_num⟩
    refine ⟨hgross, ?_, ?_⟩
    · rw [hnet, ← hwhole 0]
      apply Decimal.nearestEven_mono
      rw [Int.cast_zero]
      positivity
    · rw [hnet, ← hwhole gross.scaled]
      apply Decimal.nearestEven_mono
      rw [div_le_iff₀ hpos, hwhole]
      nlinarith
  · obtain ⟨-, hnet⟩ := adjustCoupon_vat htreatment h
    obtain ⟨-, hnet'⟩ := adjustCoupon_vat htreatment h'
    rw [hnet, hnet']
    apply Decimal.nearestEven_mono
    have hcast : (gross.scaled : ℚ) ≤ gross'.scaled := Int.cast_le.mpr hle
    gcongr

end Vat

end CouponTaxTreatment

end Ficant.Tax
