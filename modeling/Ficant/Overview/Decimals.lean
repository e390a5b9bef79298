import Ficant.Lib.WeightedMean
import Ficant.Overview.Context
import Ficant.Research.Exposure
import Ficant.Primitives.FixedArithmetic

namespace Ficant.Overview

open Lib

/-!
# The numbers of an overview

Conversions and roundings of `portfolio_aggregation.rs`, on `i128` values with checked operations.

* `roundDivTiesEven_eq` — one division rounds to the nearest whole number, ties to even;
* `expandRationalScale_eq_ok` — a long division digit by digit does the same at a finer scale;
* `of_rationalWeightedAverageToDecimal` — either way an average is rounded once;
* `decimalToFixed_eq_ok`, `fixedToDecimal_eq_ok` — the conversions between the two kinds of decimals.
-/

/-- `FIXED_DECIMAL_SCALE`. -/
def fixedDecimalScale : ℕ := 12

/-! ### Checked operations -/

/-- `checked_add`, `checked_sub` and `checked_mul` of `i128` values, given the exact result. -/
def checkedI128 (value : ℤ) : Except ApplicationError ℤ :=
  if InI128 value then .ok value else .error validation

/-- The range check passes a value on exactly when it lies in the range. -/
theorem checkedI128_eq_ok {value x : ℤ} : checkedI128 value = .ok x ↔ InI128 value ∧ x = value := by
  unfold checkedI128
  split
  · rename_i h
    rw [Except.ok.injEq]
    exact ⟨fun hx => ⟨h, hx.symm⟩, fun hx => hx.2.symm⟩
  · rename_i h
    exact iff_of_false (fun hx => nomatch hx) (fun hx => h hx.1)

/-- A value in the range passes the check. -/
theorem checkedI128_of_inI128 {value : ℤ} (h : InI128 value) : checkedI128 value = .ok value :=
  if_pos h

/-- A value outside the range is refused. -/
theorem checkedI128_of_not {value : ℤ} (h : ¬ InI128 value) : checkedI128 value = .error validation :=
  if_neg h

/-- A value outside the range ends the computation. -/
theorem checkedI128_bind_of_not {β : Type} {value : ℤ} (h : ¬ InI128 value)
    (f : ℤ → Except ApplicationError β) : (checkedI128 value >>= f) = .error validation := by
  rw [checkedI128_of_not h]
  rfl

/-- `checked_power_of_ten`. -/
def checkedPowerOfTen (exponent : ℕ) : Except ApplicationError ℤ :=
  (List.range exponent).foldlM (fun value _ => checkedI128 (value * 10)) 1

/-- Powers of ten up to the thirty-eighth are in the range. -/
theorem checkedPowerOfTen_eq {exponent : ℕ} (h : exponent ≤ 38) :
    checkedPowerOfTen exponent = .ok (10 ^ exponent) := by
  induction exponent with
  | zero => rfl
  | succ n ih =>
    have hrange : InI128 ((10 : ℤ) ^ n * 10) := by
      have hle : (10 : ℤ) ^ n * 10 ≤ 10 ^ 38 := by
        rw [← pow_succ]
        exact pow_le_pow_right₀ (by norm_num) h
      have hpos : (0 : ℤ) < 10 ^ n * 10 := by positivity
      exact ⟨by omega, lt_of_le_of_lt hle (by norm_num)⟩
    unfold checkedPowerOfTen at ih ⊢
    rw [List.range_succ, List.foldlM_append, ih (by omega), ok_bind, List.foldlM_cons,
      checkedI128_of_inI128 hrange, pow_succ]
    rfl

/-! ### One division -/

/-- The quotient of the magnitudes in `round_div_ties_even`, as `u128` values. -/
def roundMagnitude (magnitude divisor : ℕ) : Except ApplicationError ℕ :=
  let quotient := magnitude / divisor
  let remainder := magnitude % divisor
  let distanceToDivisor := divisor - remainder
  if distanceToDivisor < remainder ∨ (remainder = distanceToDivisor ∧ quotient % 2 = 1) then
    (checkedU128 (quotient + 1)).mapError mapDomainError
  else .ok quotient

/-- `round_div_ties_even`. -/
def roundDivTiesEven (value divisor : ℤ) : Except ApplicationError ℤ := do
  rejectIf (divisor ≤ 0) validation
  let quotient ← roundMagnitude value.natAbs divisor.toNat
  if 0 ≤ value then checkedI128 quotient
  else if quotient = 2 ^ 127 then return -2 ^ 127
  else do
    let quotient ← checkedI128 quotient
    checkedI128 (-quotient)

/-- The magnitudes are divided and rounded; the result is no greater than the first. -/
theorem roundMagnitude_eq {m d : ℕ} (hm : m ≤ 2 ^ 127) (hd : 0 < d) :
    ∃ q ≤ m, roundMagnitude m d = .ok q ∧ Decimal.nearestEven ((m : ℚ) / d) = q := by
  have hmod : m % d < d := Nat.mod_lt _ hd
  have hdiv : m / d * d + m % d = m := Nat.div_add_mod' _ _
  have hrounded := Decimal.nearestEven_div hdiv hmod
  unfold roundMagnitude
  by_cases hup : d < 2 * (m % d) ∨ (2 * (m % d) = d ∧ m / d % 2 = 1)
  · -- something is left over, so the quotient is not the magnitude
    have hlt : m / d + 1 ≤ m := by
      rcases Nat.eq_zero_or_pos (m / d) with hzero | hpos
      · omega
      · have : m / d * 1 ≤ m / d * d := Nat.mul_le_mul_left _ hd
        omega
    refine ⟨m / d + 1, hlt, ?_, ?_⟩
    · simp only
      rw [if_pos (by omega), checkedU128_of_lt (by omega)]
      rfl
    · rw [hrounded, if_pos hup]
  · refine ⟨m / d, Nat.div_le_self _ _, ?_, ?_⟩
    · simp only
      rw [if_neg (by omega)]
    · rw [hrounded, if_neg hup]

/-- **One division** rounds to the nearest whole number, ties to even, and never fails. -/
theorem roundDivTiesEven_eq {value divisor : ℤ} (hvalue : InI128 value) (hdivisor : 0 < divisor) :
    roundDivTiesEven value divisor = .ok (Decimal.nearestEven ((value : ℚ) / divisor)) := by
  obtain ⟨d, rfl⟩ := Int.eq_ofNat_of_zero_le hdivisor.le
  obtain ⟨hlow, hhigh⟩ := hvalue
  obtain ⟨q, hqle, hq, hrounded⟩ := roundMagnitude_eq (m := value.natAbs) (d := d) (by omega)
    (by exact_mod_cast hdivisor)
  have hcast : ((d : ℤ) : ℚ) = (d : ℚ) := Int.cast_natCast d
  unfold roundDivTiesEven
  rw [rejectIf_of_not (by omega), ok_bind, Int.toNat_natCast, hq, ok_bind, hcast]
  -- The magnitude is rounded first, then the sign is put back.
  by_cases hnonneg : 0 ≤ value
  · have habs : value = (value.natAbs : ℤ) := (Int.natAbs_of_nonneg hnonneg).symm
    have hvalue : (value : ℚ) = (value.natAbs : ℚ) := by
      rw [← Int.cast_natCast, ← habs]
    rw [if_pos hnonneg, hvalue, hrounded, checkedI128_of_inI128 ⟨by omega, by omega⟩]
  · have habs : value = -(value.natAbs : ℤ) := by omega
    have hvalue : (value : ℚ) = -(value.natAbs : ℚ) := by
      rw [← Int.cast_natCast, ← Int.cast_neg, ← habs]
    rw [if_neg hnonneg, hvalue, neg_div, Decimal.nearestEven_neg, hrounded]
    -- Only the least number has a magnitude without a positive counterpart.
    by_cases hmin : q = 2 ^ 127
    · rw [if_pos hmin, hmin]
      rfl
    · rw [if_neg hmin, checkedI128_of_inI128 ⟨by omega, by omega⟩, ok_bind,
        checkedI128_of_inI128 ⟨by omega, by omega⟩]

/-! ### A long division -/

/-- One digit of `expand_rational_scale`. -/
def expandDigit (denominator : ℤ) (state : ℤ × ℤ) : Except ApplicationError (ℤ × ℤ) := do
  let coefficient ← checkedI128 (state.1 * 10)
  let expandedRemainder ← checkedI128 (state.2 * 10)
  let coefficient ← checkedI128 (coefficient + expandedRemainder.tdiv denominator)
  return (coefficient, expandedRemainder.tmod denominator)

/-- `expand_rational_scale`.  Its callers pass a positive denominator. -/
def expandRationalScale (numerator denominator : ℤ) (additionalScale : ℕ) :
    Except ApplicationError ℤ := do
  rejectIf (denominator = 0) validation
  let quotient ← checkedI128 (numerator.tdiv denominator)
  let (coefficient, remainder) ← (List.range additionalScale).foldlM
    (fun state _ => expandDigit denominator state) (quotient, numerator.tmod denominator)
  let distanceToDenominator ← checkedI128 (denominator - remainder)
  if distanceToDenominator < remainder ∨
      (remainder = distanceToDenominator ∧ coefficient.tmod 2 = 1) then checkedI128 (coefficient + 1)
  else return coefficient

/-- A digit of a long division, from the quotient and the remainder so far. -/
theorem expandDigit_eq {n d i : ℕ} (hd : 0 < d) :
    expandDigit d ((n * 10 ^ i / d : ℕ), (n * 10 ^ i % d : ℕ)) = (do
      let _ ← checkedI128 ((n * 10 ^ i / d : ℕ) * 10)
      let _ ← checkedI128 ((n * 10 ^ i % d : ℕ) * 10)
      let _ ← checkedI128 (n * 10 ^ (i + 1) / d : ℕ)
      return (((n * 10 ^ (i + 1) / d : ℕ) : ℤ), ((n * 10 ^ (i + 1) % d : ℕ) : ℤ))) := by
  -- ten times what is left over is the next digit and what it leaves over
  have hsplit : n * 10 ^ (i + 1) = n * 10 ^ i % d * 10 + d * (n * 10 ^ i / d * 10) := by
    have hdiv := Nat.div_add_mod (n * 10 ^ i) d
    calc n * 10 ^ (i + 1) = n * 10 ^ i * 10 := by ring
      _ = (d * (n * 10 ^ i / d) + n * 10 ^ i % d) * 10 := by rw [hdiv]
      _ = n * 10 ^ i % d * 10 + d * (n * 10 ^ i / d * 10) := by ring
  have hquotient : n * 10 ^ (i + 1) / d = n * 10 ^ i / d * 10 + n * 10 ^ i % d * 10 / d := by
    rw [hsplit, Nat.add_mul_div_left _ _ hd, Nat.add_comm]
  have hremainder : n * 10 ^ (i + 1) % d = n * 10 ^ i % d * 10 % d := by
    rw [hsplit, Nat.add_mul_mod_self_left]
  rw [hquotient, hremainder]
  generalize n * 10 ^ i / d = c
  generalize n * 10 ^ i % d = r
  have hdigit : ((r : ℤ) * 10).tdiv d = ((r * 10 / d : ℕ) : ℤ) := by
    rw [Int.tdiv_eq_ediv_of_nonneg (by positivity)]
    push_cast
    rfl
  have hrest : ((r : ℤ) * 10).tmod d = ((r * 10 % d : ℕ) : ℤ) := by
    rw [Int.tmod_eq_emod_of_nonneg (by positivity)]
    push_cast
    rfl
  have hsum : ((c * 10 + r * 10 / d : ℕ) : ℤ) = (c : ℤ) * 10 + ((r * 10 / d : ℕ) : ℤ) := by
    push_cast
    rfl
  show (checkedI128 ((c : ℤ) * 10) >>= fun coefficient =>
    checkedI128 ((r : ℤ) * 10) >>= fun expanded =>
    checkedI128 (coefficient + expanded.tdiv d) >>= fun coefficient =>
      .ok (coefficient, expanded.tmod d)) = _
  by_cases hc : InI128 ((c : ℤ) * 10)
  · by_cases hr : InI128 ((r : ℤ) * 10)
    · rw [checkedI128_of_inI128 hc, checkedI128_of_inI128 hr, ok_bind, ok_bind, ok_bind, ok_bind,
        hdigit, hrest, hsum]
      by_cases hs : InI128 ((c : ℤ) * 10 + ((r * 10 / d : ℕ) : ℤ))
      · rw [checkedI128_of_inI128 hs]
        rfl
      · rw [checkedI128_bind_of_not hs, checkedI128_bind_of_not hs]
    · rw [checkedI128_of_inI128 hc, ok_bind, ok_bind, checkedI128_bind_of_not hr,
        checkedI128_bind_of_not hr]
  · rw [checkedI128_bind_of_not hc, checkedI128_bind_of_not hc]

/-- Ten times each remainder of a long division can be represented. -/
def DigitsFit (n d k : ℕ) : Prop := ∀ i < k, InI128 (((n * 10 ^ i % d : ℕ) : ℤ) * 10)

/-- The digits of a long division. -/
theorem of_expandDigits {n d k : ℕ} (hd : 0 < d) {state : ℤ × ℤ}
    (h : (List.range k).foldlM (fun state _ => expandDigit d state)
      (((n / d : ℕ) : ℤ), ((n % d : ℕ) : ℤ)) = .ok state) :
    state = (((n * 10 ^ k / d : ℕ) : ℤ), ((n * 10 ^ k % d : ℕ) : ℤ)) ∧ DigitsFit n d k := by
  -- One digit more: the remainder times ten, divided again.
  induction k generalizing state with
  | zero =>
    rw [List.range_zero, List.foldlM_nil] at h
    obtain rfl := Except.ok.inj h
    rw [pow_zero, mul_one]
    exact ⟨rfl, fun i hi => absurd hi (Nat.not_lt_zero i)⟩
  | succ k ih =>
    rw [List.range_succ, List.foldlM_append] at h
    obtain ⟨before, hbefore, h⟩ := bind_eq_ok.mp h
    obtain ⟨rfl, hfit⟩ := ih hbefore
    rw [List.foldlM_cons] at h
    simp only [List.foldlM_nil, bind_pure, expandDigit_eq hd] at h
    obtain ⟨-, -, h⟩ := bind_eq_ok.mp h
    obtain ⟨_, hremainder, h⟩ := bind_eq_ok.mp h
    obtain ⟨-, -, h⟩ := bind_eq_ok.mp h
    refine ⟨(Except.ok.inj h).symm, fun i hi => ?_⟩
    rcases Nat.lt_succ_iff_lt_or_eq.mp hi with hlt | rfl
    · exact hfit i hlt
    · exact (checkedI128_eq_ok.mp hremainder).1

/-- No digit overflows unless the quotient does, or ten times a remainder. -/
theorem expandDigits_eq {n d k : ℕ} (hd : 0 < d) (hfit : DigitsFit n d k)
    (hquotient : InI128 ((n * 10 ^ k / d : ℕ) : ℤ)) :
    (List.range k).foldlM (fun state _ => expandDigit d state)
      (((n / d : ℕ) : ℤ), ((n % d : ℕ) : ℤ)) =
      .ok (((n * 10 ^ k / d : ℕ) : ℤ), ((n * 10 ^ k % d : ℕ) : ℤ)) := by
  induction k with
  | zero =>
    rw [pow_zero, mul_one]
    rfl
  | succ k ih =>
    have hgrow : n * 10 ^ k / d * 10 ≤ n * 10 ^ (k + 1) / d := by
      rw [Nat.le_div_iff_mul_le hd]
      calc n * 10 ^ k / d * 10 * d = n * 10 ^ k / d * d * 10 := by ring
        _ ≤ n * 10 ^ k * 10 := Nat.mul_le_mul_right _ (Nat.div_mul_le_self _ _)
        _ = n * 10 ^ (k + 1) := by ring
    obtain ⟨-, hq⟩ := hquotient
    have hcoefficient : InI128 (((n * 10 ^ k / d : ℕ) : ℤ) * 10) := ⟨by omega, by omega⟩
    have hbefore := ih (fun i hi => hfit i (Nat.lt_succ_of_lt hi)) ⟨by omega, by omega⟩
    rw [List.range_succ, List.foldlM_append, hbefore, ok_bind, List.foldlM_cons, expandDigit_eq hd,
      checkedI128_of_inI128 hcoefficient, checkedI128_of_inI128 (hfit k (Nat.lt_succ_self k)),
      checkedI128_of_inI128 ⟨by omega, hq⟩]
    rfl

/-- The whole part of a quotient is no greater than the rounded quotient. -/
theorem div_le_nearestEven (n d : ℕ) :
    ((n / d : ℕ) : ℤ) ≤ Decimal.nearestEven ((n : ℚ) / d) := by
  rcases Nat.eq_zero_or_pos d with rfl | hd
  · simp [Decimal.nearestEven]
  · rw [Decimal.nearestEven_div (Nat.div_add_mod' n d) (Nat.mod_lt n hd)]
    split <;> push_cast <;> omega

/-- **A long division** rounds to the nearest whole number, ties to even. -/
theorem expandRationalScale_eq_ok {n d k : ℕ} (hd : 0 < d) {c : ℤ}
    (h : expandRationalScale n d k = .ok c) :
    c = Decimal.nearestEven ((n : ℚ) * 10 ^ k / d) ∧ DigitsFit n d k := by
  unfold expandRationalScale at h
  obtain ⟨⟨⟩, -, h⟩ := bind_eq_ok.mp h
  obtain ⟨quotient, hquotient, h⟩ := bind_eq_ok.mp h
  obtain ⟨state, hstate, h⟩ := bind_eq_ok.mp h
  obtain ⟨distance, hdistance, h⟩ := bind_eq_ok.mp h
  rw [checkedI128_eq_ok] at hquotient hdistance
  have hstart : (quotient, (n : ℤ).tmod d) = (((n / d : ℕ) : ℤ), ((n % d : ℕ) : ℤ)) := by
    rw [hquotient.2, Int.tdiv_eq_ediv_of_nonneg (by positivity),
      Int.tmod_eq_emod_of_nonneg (by positivity)]
    push_cast
    rfl
  rw [hstart] at hstate
  obtain ⟨rfl, hfit⟩ := of_expandDigits hd hstate
  refine ⟨?_, hfit⟩
  -- What is left after the last digit decides how the value is rounded.
  have hrounded := Decimal.nearestEven_div (Nat.div_add_mod' (n * 10 ^ k) d)
    (Nat.mod_lt (n * 10 ^ k) hd)
  rw [show (((n * 10 ^ k : ℕ) : ℚ) / d) = (n : ℚ) * 10 ^ k / d by push_cast; rfl] at hrounded
  have hless : n * 10 ^ k % d < d := Nat.mod_lt _ hd
  rw [hrounded]
  simp only at hdistance h
  rw [hdistance.2, Int.tmod_eq_emod_of_nonneg (by positivity)] at h
  generalize n * 10 ^ k / d = q at h
  generalize n * 10 ^ k % d = r at h hless
  split at h
  · rename_i hup
    rw [checkedI128_eq_ok] at h
    rw [h.2, if_pos (by omega)]
    push_cast
    rfl
  · rename_i hdown
    obtain rfl := Except.ok.inj h
    rw [if_neg (by omega)]

/-- A long division fails only when the result does not fit, or ten times a remainder. -/
theorem expandRationalScale_eq {n d k : ℕ} (hd : 0 < d) (hdivisor : InI128 d) (hfit : DigitsFit n d k)
    (hresult : InI128 (Decimal.nearestEven ((n : ℚ) * 10 ^ k / d))) :
    expandRationalScale n d k = .ok (Decimal.nearestEven ((n : ℚ) * 10 ^ k / d)) := by
  have hfloor := div_le_nearestEven (n * 10 ^ k) d
  rw [show (((n * 10 ^ k : ℕ) : ℚ) / d) = (n : ℚ) * 10 ^ k / d by push_cast; rfl] at hfloor
  have hquotient : InI128 ((n * 10 ^ k / d : ℕ) : ℤ) :=
    ⟨(by norm_num : -(2 : ℤ) ^ 127 ≤ 0).trans (Int.natCast_nonneg _), lt_of_le_of_lt hfloor hresult.2⟩
  have hstart : InI128 ((n / d : ℕ) : ℤ) := by
    have hle : n / d ≤ n * 10 ^ k / d :=
      Nat.div_le_div_right (Nat.le_mul_of_pos_right n (by positivity))
    exact ⟨(by norm_num : -(2 : ℤ) ^ 127 ≤ 0).trans (Int.natCast_nonneg _),
      lt_of_le_of_lt (by exact_mod_cast hle) hquotient.2⟩
  have hstate := expandDigits_eq hd hfit hquotient
  have hless : n * 10 ^ k % d < d := Nat.mod_lt _ hd
  have hdistance : InI128 ((d : ℤ) - ((n * 10 ^ k % d : ℕ) : ℤ)) := by
    obtain ⟨-, hd127⟩ := hdivisor
    exact ⟨by omega, by omega⟩
  have htdiv : (n : ℤ).tdiv d = ((n / d : ℕ) : ℤ) := by
    rw [Int.tdiv_eq_ediv_of_nonneg (by positivity)]
    push_cast
    rfl
  have htmod : (n : ℤ).tmod d = ((n % d : ℕ) : ℤ) := by
    rw [Int.tmod_eq_emod_of_nonneg (by positivity)]
    push_cast
    rfl
  obtain ⟨c, hc⟩ : ∃ c, expandRationalScale n d k = .ok c := by
    unfold expandRationalScale
    rw [rejectIf_of_not (by omega), ok_bind, htdiv, htmod, checkedI128_of_inI128 hstart, ok_bind,
      hstate, ok_bind]
    show ∃ c, (checkedI128 ((d : ℤ) - ((n * 10 ^ k % d : ℕ) : ℤ)) >>= fun distance =>
      if distance < ((n * 10 ^ k % d : ℕ) : ℤ) ∨
        (((n * 10 ^ k % d : ℕ) : ℤ) = distance ∧ ((n * 10 ^ k / d : ℕ) : ℤ).tmod 2 = 1) then
        checkedI128 (((n * 10 ^ k / d : ℕ) : ℤ) + 1)
      else .ok ((n * 10 ^ k / d : ℕ) : ℤ)) = .ok c
    rw [checkedI128_of_inI128 hdistance, ok_bind]
    split
    · rename_i hup
      -- the rounded quotient is one more, and fits
      rw [Int.tmod_eq_emod_of_nonneg (by positivity)] at hup
      rw [show (n : ℚ) * 10 ^ k / d = ((n * 10 ^ k : ℕ) : ℚ) / d by push_cast; rfl,
        Decimal.nearestEven_div (Nat.div_add_mod' (n * 10 ^ k) d) hless, if_pos (by omega)] at hresult
      refine ⟨_, checkedI128_of_inI128 ?_⟩
      exact_mod_cast hresult
    · exact ⟨_, rfl⟩
  rw [hc, (expandRationalScale_eq_ok hd hc).1]

/-! ### Decimal values -/

/-- The number of a decimal value. -/
def rational (v : StoredDecimal) : ℚ := v.coefficient / 10 ^ v.scale

/-- `DecimalValue::new` of the text of an `i128` value. -/
def newDecimal (coefficient : ℤ) (scale : ℕ) (unit : UnitRef) :
    Except ApplicationError StoredDecimal :=
  (StoredDecimal.new (String.ofList (decimalChars coefficient)) scale unit).mapError mapDomainError

/-- What `DecimalValue::new` makes of a whole number. -/
theorem of_newDecimal {coefficient : ℤ} {scale : ℕ} {unit : UnitRef} {v : StoredDecimal}
    (h : newDecimal coefficient scale unit = .ok v) :
    coefficient.natAbs < 10 ^ 28 ∧ scale ≤ 28 ∧ v.unit = unit ∧
      rational v = (coefficient : ℚ) / 10 ^ scale := by
  obtain hnew := mapError_eq_ok.mp h
  have hunit := StoredDecimal.unit_of_new hnew
  unfold StoredDecimal.new at hnew
  split at hnew
  · rename_i value hvalue
    obtain rfl := Except.ok.inj hnew
    obtain ⟨hc, hs⟩ := DecimalValue.new_decimalChars_iff.mp ⟨value, hvalue⟩
    have htext := DecimalValue.textValue_of_new hvalue
    rw [DecimalValue.textValue, DecimalValue.coefficientValue_decimalChars] at htext
    exact ⟨hc, hs, hunit, htext.symm⟩
  · cases hnew

/-- Which whole numbers `DecimalValue::new` takes. -/
theorem exists_newDecimal {coefficient : ℤ} {scale : ℕ} (unit : UnitRef)
    (hcoefficient : coefficient.natAbs < 10 ^ 28) (hscale : scale ≤ 28) :
    ∃ v, newDecimal coefficient scale unit = .ok v := by
  have hnew : ∃ value, DecimalValue.new (String.ofList (decimalChars coefficient)) scale unit =
    .ok value :=
    DecimalValue.new_decimalChars_iff.mpr ⟨hcoefficient, hscale⟩
  obtain ⟨value, hvalue⟩ := hnew
  unfold newDecimal StoredDecimal.new
  split
  · exact ⟨_, rfl⟩
  · rename_i error herror
    rw [hvalue] at herror
    cases herror

/-- The coefficient that `rational_weighted_average_to_decimal` computes. -/
def coefficientAtScale (numerator denominator : ℤ) (outputScale : ℕ) : Except ApplicationError ℤ :=
  if outputScale ≤ fixedDecimalScale then do
    let scaleDivisor ← checkedPowerOfTen (fixedDecimalScale - outputScale)
    let finalDenominator ← checkedI128 (denominator * scaleDivisor)
    roundDivTiesEven numerator finalDenominator
  else expandRationalScale numerator denominator (outputScale - fixedDecimalScale)

/-- `rational_weighted_average_to_decimal`. -/
def rationalWeightedAverageToDecimal (numerator denominator : ℤ) (outputScale : ℕ) (unit : UnitRef) :
    Except ApplicationError StoredDecimal := do
  rejectIf (numerator < 0 ∨ denominator ≤ 0 ∨ maxDecimalScale < outputScale) validation
  let coefficient ← coefficientAtScale numerator denominator outputScale
  newDecimal coefficient outputScale unit

/-- The coefficient of an average of fixed decimals at an output scale. -/
def averageCoefficient (numerator denominator : ℕ) (outputScale : ℕ) : ℤ :=
  Decimal.nearestEven ((numerator : ℚ) / denominator / 10 ^ 12 * 10 ^ outputScale)

/-- The ways in which an average overflows: the scaled denominator, ten times a remainder, or the
    digits of the result. -/
def AverageOverflows (numerator denominator outputScale : ℕ) : Prop :=
  (outputScale ≤ 12 ∧ ¬ InI128 ((denominator : ℤ) * 10 ^ (12 - outputScale))) ∨
  (12 < outputScale ∧ ¬ DigitsFit numerator denominator (outputScale - 12)) ∨
  10 ^ 28 ≤ averageCoefficient numerator denominator outputScale

/-- The coefficient that a denominator with the missing places makes. -/
theorem averageCoefficient_of_le {n d s : ℕ} (hs : s ≤ 12) :
    averageCoefficient n d s = Decimal.nearestEven ((n : ℚ) / (d * 10 ^ (12 - s) : ℕ)) := by
  obtain ⟨k, hk⟩ := Nat.exists_eq_add_of_le hs
  unfold averageCoefficient
  rw [hk, Nat.add_sub_cancel_left, pow_add]
  congr 1
  push_cast
  field_simp

/-- The coefficient that further digits make. -/
theorem averageCoefficient_of_lt {n d s : ℕ} (hs : 12 < s) :
    averageCoefficient n d s = Decimal.nearestEven ((n : ℚ) * 10 ^ (s - 12) / d) := by
  obtain ⟨k, rfl⟩ := Nat.exists_eq_add_of_le hs.le
  unfold averageCoefficient
  rw [Nat.add_sub_cancel_left, pow_add]
  congr 1
  field_simp

/-- An average of natural numbers is not negative. -/
theorem averageCoefficient_nonneg (n d s : ℕ) : 0 ≤ averageCoefficient n d s := by
  unfold averageCoefficient
  have hzero : Decimal.nearestEven 0 = 0 := by simp [Decimal.nearestEven]
  rw [← hzero]
  apply Decimal.nearestEven_mono
  positivity

/-- **A weighted average** comes out rounded once at the output scale. -/
theorem of_rationalWeightedAverageToDecimal {n d s : ℕ} {unit : UnitRef} {v : StoredDecimal}
    (hn : InI128 n) (hd : 0 < d)
    (h : rationalWeightedAverageToDecimal n d s unit = .ok v) :
    newDecimal (averageCoefficient n d s) s unit = .ok v ∧ ¬ AverageOverflows n d s := by
  unfold rationalWeightedAverageToDecimal at h
  obtain ⟨⟨⟩, hcheck, h⟩ := bind_eq_ok.mp h
  obtain ⟨coefficient, hcoefficient, h⟩ := bind_eq_ok.mp h
  have hsmall : coefficient < 10 ^ 28 := by
    have := (of_newDecimal h).1
    omega
  unfold AverageOverflows
  unfold coefficientAtScale fixedDecimalScale at hcoefficient
  -- Up to the scale of the inputs one division suffices, beyond it digits are expanded.
  by_cases hs : s ≤ 12
  · rw [if_pos hs, checkedPowerOfTen_eq (by omega), ok_bind] at hcoefficient
    obtain ⟨final, hfinal, hcoefficient⟩ := bind_eq_ok.mp hcoefficient
    rw [checkedI128_eq_ok] at hfinal
    have hcast : (d : ℤ) * 10 ^ (12 - s) = ((d * 10 ^ (12 - s) : ℕ) : ℤ) := by push_cast; rfl
    have hpos : 0 < d * 10 ^ (12 - s) := by positivity
    rw [hfinal.2, hcast, roundDivTiesEven_eq hn (by exact_mod_cast hpos)] at hcoefficient
    have heq : averageCoefficient n d s = coefficient := by
      rw [averageCoefficient_of_le hs, ← Except.ok.inj hcoefficient]
      push_cast
      rfl
    rw [heq]
    refine ⟨h, ?_⟩
    rintro (⟨-, hbad⟩ | ⟨hbad, -⟩ | hbad)
    · exact hbad hfinal.1
    · omega
    · omega
  · rw [if_neg hs] at hcoefficient
    obtain ⟨hvalue, hfit⟩ := expandRationalScale_eq_ok hd hcoefficient
    have heq : averageCoefficient n d s = coefficient := by
      rw [averageCoefficient_of_lt (by omega), hvalue]
    rw [heq]
    refine ⟨h, ?_⟩
    rintro (⟨hbad, -⟩ | ⟨-, hbad⟩ | hbad)
    · exact hs hbad
    · exact hbad hfit
    · omega

/-- An average fails only by an overflow. -/
theorem rationalWeightedAverageToDecimal_of_not_overflows {n d s : ℕ} (unit : UnitRef)
    (hn : InI128 n) (hd : 0 < d) (hd128 : InI128 d) (hs : s ≤ 28) (h : ¬ AverageOverflows n d s) :
    ∃ v, rationalWeightedAverageToDecimal n d s unit = .ok v := by
  unfold AverageOverflows at h
  rw [not_or, not_or, not_and, not_not, not_and, not_not, not_le] at h
  obtain ⟨hscaled, hfit, hsmall⟩ := h
  have hnonneg := averageCoefficient_nonneg n d s
  obtain ⟨v, hv⟩ : ∃ v, newDecimal (averageCoefficient n d s) s unit = .ok v :=
    exists_newDecimal unit (by omega) hs
  have hcheck : ¬ ((n : ℤ) < 0 ∨ (d : ℤ) ≤ 0 ∨ maxDecimalScale < s) := by
    unfold maxDecimalScale
    omega
  refine ⟨v, ?_⟩
  unfold rationalWeightedAverageToDecimal coefficientAtScale fixedDecimalScale
  rw [rejectIf_of_not hcheck, ok_bind]
  -- The same two ways of computing, read forwards.
  by_cases hs12 : s ≤ 12
  · have hcast : (d : ℤ) * 10 ^ (12 - s) = ((d * 10 ^ (12 - s) : ℕ) : ℤ) := by push_cast; rfl
    have hpos : 0 < d * 10 ^ (12 - s) := by positivity
    have hround : roundDivTiesEven n ((d * 10 ^ (12 - s) : ℕ) : ℤ) = _ :=
      roundDivTiesEven_eq hn (by exact_mod_cast hpos)
    rw [if_pos hs12, checkedPowerOfTen_eq (by omega), ok_bind,
      checkedI128_of_inI128 (hscaled hs12), ok_bind, hcast, hround, ok_bind, ← hv,
      averageCoefficient_of_le hs12]
    push_cast
    rfl
  · have hlt : 12 < s := by omega
    rw [averageCoefficient_of_lt hlt] at hv hsmall hnonneg
    have hresult : InI128 (Decimal.nearestEven ((n : ℚ) * 10 ^ (s - 12) / d)) := ⟨by omega, by omega⟩
    rw [if_neg hs12, expandRationalScale_eq hd hd128 (hfit hlt) hresult, ok_bind, hv]

/-! ### Fixed decimals -/

/-- `FixedDecimal::from_scaled` of a checked product or quotient. -/
def fromScaled (value : ℤ) : Except ApplicationError FixedDecimal :=
  (FixedDecimal.tryFrom value).mapError mapDomainError

/-- A scaled integer that is accepted is kept as it is. -/
theorem fromScaled_eq_ok {value : ℤ} {x : FixedDecimal} :
    fromScaled value = .ok x ↔ x.scaled = value := by
  unfold fromScaled
  rw [mapError_eq_ok, FixedDecimal.tryFrom_eq_ok]

/-- `decimal_to_fixed`. -/
def decimalToFixed (value : StoredDecimal) : Except ApplicationError FixedDecimal :=
  if value.scale ≤ fixedDecimalScale then do
    let factor ← checkedPowerOfTen (fixedDecimalScale - value.scale)
    fromScaled (value.coefficient * factor)
  else do
    let divisor ← checkedPowerOfTen (value.scale - fixedDecimalScale)
    rejectIf (value.coefficient.tmod divisor ≠ 0) validation
    fromScaled (value.coefficient.tdiv divisor)

/-- **The fixed decimal of a decimal value** is the same number, where there is one. -/
theorem decimalToFixed_eq_ok {value : StoredDecimal} {x : FixedDecimal} :
    decimalToFixed value = .ok x ↔ x.toRat = rational value := by
  have hscale := value.normal.scale
  have hcross : x.toRat = rational value ↔
    x.scaled * 10 ^ value.scale = value.coefficient * 10 ^ 12 := by
    unfold FixedDecimal.toRat rational
    rw [div_eq_div_iff (by positivity) (by positivity)]
    exact_mod_cast Iff.rfl
  rw [hcross]
  unfold decimalToFixed fixedDecimalScale
  by_cases hs : value.scale ≤ 12
  · -- the missing places are zeros
    have hpow : (10 : ℤ) ^ 12 = 10 ^ (12 - value.scale) * 10 ^ value.scale := by
      rw [← pow_add, Nat.sub_add_cancel hs]
    rw [if_pos hs, checkedPowerOfTen_eq (by omega), ok_bind, fromScaled_eq_ok, hpow, ← mul_assoc]
    exact (mul_left_inj' (by positivity)).symm
  · -- the places that go must be zeros
    have hpow : (10 : ℤ) ^ value.scale = 10 ^ (value.scale - 12) * 10 ^ 12 := by
      rw [← pow_add, Nat.sub_add_cancel (by omega)]
    have hdivisor : (10 : ℤ) ^ (value.scale - 12) ≠ 0 := by positivity
    rw [if_neg hs, checkedPowerOfTen_eq (by omega), ok_bind, hpow, ← mul_assoc,
      mul_left_inj' (by positivity)]
    constructor
    · intro h
      obtain ⟨⟨⟩, hzero, h⟩ := bind_eq_ok.mp h
      rw [rejectIf_eq_ok, not_not] at hzero
      rw [fromScaled_eq_ok] at h
      rw [h]
      exact Int.tdiv_mul_cancel (Int.dvd_of_tmod_eq_zero hzero)
    · intro h
      have hzero : value.coefficient.tmod (10 ^ (value.scale - 12)) = 0 := by
        rw [← h]
        exact Int.mul_tmod_left _ _
      rw [rejectIf_of_not (not_not.mpr hzero), ok_bind, fromScaled_eq_ok, ← h]
      exact (Int.mul_tdiv_cancel _ hdivisor).symm

/-- The coefficient that `fixed_to_decimal` computes. -/
def fixedCoefficient (value : FixedDecimal) (outputScale : ℕ) : Except ApplicationError ℤ :=
  if outputScale ≤ fixedDecimalScale then do
    let divisor ← checkedPowerOfTen (fixedDecimalScale - outputScale)
    roundDivTiesEven value.scaled divisor
  else do
    let factor ← checkedPowerOfTen (outputScale - fixedDecimalScale)
    checkedI128 (value.scaled * factor)

/-- `fixed_to_decimal`. -/
def fixedToDecimal (value : FixedDecimal) (outputScale : ℕ) (unit : UnitRef) :
    Except ApplicationError StoredDecimal := do
  rejectIf (maxDecimalScale < outputScale) validation
  let coefficient ← fixedCoefficient value outputScale
  newDecimal coefficient outputScale unit

/-- **The decimal value of a fixed decimal** is rounded once at the output scale. -/
theorem fixedToDecimal_eq_ok {value : FixedDecimal} {outputScale : ℕ} {unit : UnitRef}
    {v : StoredDecimal} :
    fixedToDecimal value outputScale unit = .ok v ↔
      newDecimal (Decimal.nearestEven (value.toRat * 10 ^ outputScale)) outputScale unit = .ok v := by
  have hscale : ∀ {c : ℤ}, newDecimal c outputScale unit = .ok v →
    ¬ maxDecimalScale < outputScale := by
    intro c h
    have := (of_newDecimal h).2.1
    unfold maxDecimalScale
    omega
  unfold fixedToDecimal fixedCoefficient fixedDecimalScale
  -- Fewer places are rounded to, more places are filled with zeros.
  by_cases hs : outputScale ≤ 12
  · have hvalue : value.toRat * 10 ^ outputScale =
      (value.scaled : ℚ) / ((10 ^ (12 - outputScale) : ℤ) : ℚ) := by
      have hpow : (10 : ℚ) ^ 12 = 10 ^ (12 - outputScale) * 10 ^ outputScale := by
        rw [← pow_add, Nat.sub_add_cancel hs]
      unfold FixedDecimal.toRat
      rw [hpow, div_mul_eq_mul_div, mul_div_mul_right _ _ (by positivity)]
      push_cast
      rfl
    have hmax : ¬ maxDecimalScale < outputScale := by
      unfold maxDecimalScale
      omega
    rw [rejectIf_of_not hmax, ok_bind, if_pos hs, checkedPowerOfTen_eq (by omega), ok_bind,
      roundDivTiesEven_eq value.range (by positivity), ok_bind, hvalue]
  · have hvalue : value.toRat * 10 ^ outputScale =
      ((value.scaled * 10 ^ (outputScale - 12) : ℤ) : ℚ) := by
      have hpow : (10 : ℚ) ^ outputScale = 10 ^ (outputScale - 12) * 10 ^ 12 := by
        rw [← pow_add, Nat.sub_add_cancel (by omega)]
      unfold FixedDecimal.toRat
      rw [hpow, ← mul_assoc, div_mul_eq_mul_div, div_mul_cancel₀ _ (by positivity)]
      push_cast
      rfl
    have hwhole : Decimal.nearestEven ((value.scaled * 10 ^ (outputScale - 12) : ℤ) : ℚ) =
        value.scaled * 10 ^ (outputScale - 12) := by
      rw [Decimal.nearestEven_eq_iff]
      simp
    rw [hvalue, hwhole]
    constructor
    · intro h
      obtain ⟨⟨⟩, hmax, h⟩ := bind_eq_ok.mp h
      rw [rejectIf_eq_ok] at hmax
      unfold maxDecimalScale at hmax
      rw [if_neg hs, checkedPowerOfTen_eq (by omega), ok_bind] at h
      obtain ⟨coefficient, hcoefficient, h⟩ := bind_eq_ok.mp h
      rwa [(checkedI128_eq_ok.mp hcoefficient).2] at h
    · intro h
      have hmax := hscale h
      have hsmall := (of_newDecimal h).1
      rw [rejectIf_of_not hmax, ok_bind]
      unfold maxDecimalScale at hmax
      rw [if_neg hs, checkedPowerOfTen_eq (by omega), ok_bind,
        checkedI128_of_inI128 ⟨by omega, by omega⟩, ok_bind, h]

end Ficant.Overview
