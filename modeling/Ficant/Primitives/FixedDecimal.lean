import Ficant.Lib.Decimal
import Ficant.Lib.Except
import Ficant.Primitives

namespace Ficant

open Lib

/-!
# Fixed decimals

`FixedDecimal` is an `i128` counting units of `10⁻¹²`.  A product or a quotient of two of them is
rounded to the nearest unit, ties to even, without ever forming `self * 10¹²`: the quotient is a
long division, one decimal digit at a time, and each digit comes from ten steps that add the
remainder or take the denominator away.

* `decimalDigit_eq` — a digit and the next remainder;
* `longDivision_spec` — the digits of a quotient;
* `fixedDecimal_rounding` — both operations return the rounded value.
-/

/-! ### Machine integers -/

/-- The values of an `i128`. -/
def InI128 (value : ℤ) : Prop := -2 ^ 127 ≤ value ∧ value < 2 ^ 127

instance (value : ℤ) : Decidable (InI128 value) := inferInstanceAs (Decidable (_ ∧ _))

/-- A plain `-` of two `u128` values; `none` is the overflow that stops the program. -/
def subU128 (x y : ℕ) : Option ℕ := if y ≤ x then some (x - y) else none

/-- A plain `+` of two `u128` values. -/
def addU128 (x y : ℕ) : Option ℕ := if x + y < 2 ^ 128 then some (x + y) else none

/-- A plain `+` of two `u8` values. -/
def addU8 (x y : ℕ) : Option ℕ := if x + y < 2 ^ 8 then some (x + y) else none

/-- `checked_mul` and `checked_add` of `u128` values, given the exact result. -/
def checkedU128 (value : ℕ) : Except DomainErrorCode ℕ :=
  if value < 2 ^ 128 then .ok value else .error .invalidValue

/-- A number that fits is kept. -/
theorem checkedU128_of_lt {value : ℕ} (h : value < 2 ^ 128) : checkedU128 value = .ok value :=
  if_pos h

/-- One that does not is refused. -/
theorem checkedU128_of_le {value : ℕ} (h : 2 ^ 128 ≤ value) :
    checkedU128 value = .error .invalidValue :=
  if_neg (not_lt.mpr h)

/-! ### The type and its operations -/

/-- `FixedDecimal`. -/
@[ext]
structure FixedDecimal where
  scaled : ℤ
  range : InI128 scaled
  deriving DecidableEq

namespace FixedDecimal

/-- `DECIMAL_SCALE`. -/
def decimalScale : ℕ := 12

/-- `FIXED_DECIMAL_FACTOR`. -/
def factor : ℕ := 1000000000000

theorem factor_pos : 0 < factor := by decide

/-- `i128::try_from`, as a fixed decimal. -/
def tryFrom (value : ℤ) : Except DomainErrorCode FixedDecimal :=
  if h : InI128 value then .ok ⟨value, h⟩ else .error .invalidValue

/-- `signed_magnitude`. -/
def signedMagnitude (magnitude : ℕ) (negative : Bool) : Except DomainErrorCode FixedDecimal :=
  if !negative then tryFrom magnitude
  else if magnitude = 2 ^ 127 then .ok ⟨-2 ^ 127, by decide⟩
  else do
    let value ← tryFrom magnitude
    -- `checked_neg` fails on `i128::MIN` only.
    tryFrom (-value.scaled)

/-- The increment of a magnitude whose remainder rounds up. -/
def roundMagnitude (magnitude remainder distance : ℕ) : Except DomainErrorCode ℕ :=
  if remainder > distance ∨ (remainder = distance ∧ magnitude % 2 = 1) then
    checkedU128 (magnitude + 1)
  else .ok magnitude

/-- One of the ten steps of `decimal_digit`, on the digit and the accumulated remainder. -/
def decimalDigitStep (remainder denominator : ℕ) (state : ℕ × ℕ) : Option (ℕ × ℕ) := do
  let gap ← subU128 denominator remainder
  if gap ≤ state.2 then
    let accumulated ← subU128 state.2 gap
    let digit ← addU8 state.1 1
    return (digit, accumulated)
  else
    let accumulated ← addU128 state.2 remainder
    return (state.1, accumulated)

/-- The loop of `decimal_digit`. -/
def decimalDigitLoop (remainder denominator : ℕ) : ℕ → ℕ × ℕ → Option (ℕ × ℕ)
  | 0, state => some state
  | steps + 1, state => do
    let state ← decimalDigitStep remainder denominator state
    decimalDigitLoop remainder denominator steps state

/-- `decimal_digit`. -/
def decimalDigit (remainder denominator : ℕ) : Option (ℕ × ℕ) :=
  decimalDigitLoop remainder denominator 10 (0, 0)

/-- The loop of `checked_div_round_ties_even` over the decimal places, on the digits so far and
    the remainder. -/
def longDivision (denominator : ℕ) :
    ℕ → ℕ × ℕ → ExceptT DomainErrorCode Option (ℕ × ℕ)
  | 0, state => pure state
  | places + 1, (fractional, remainder) => do
    let (digit, next) ← (decimalDigit remainder denominator : Option (ℕ × ℕ))
    let shifted ← ExceptT.mk (some (checkedU128 (fractional * 10)))
    let fractional ← ExceptT.mk (some (checkedU128 (shifted + digit)))
    longDivision denominator places (fractional, next)

/-- `FixedDecimal::checked_div_round_ties_even`.  The outer `none` is an arithmetic overflow in an
    unchecked operation. -/
def checkedDivRoundTiesEven (self divisor : FixedDecimal) :
    ExceptT DomainErrorCode Option FixedDecimal := do
  if divisor.scaled = 0 then
    throw .invalidValue
  let negative := decide (self.scaled < 0) != decide (divisor.scaled < 0)
  let numerator := self.scaled.natAbs
  let denominator := divisor.scaled.natAbs
  let whole ← ExceptT.mk (some (checkedU128 (numerator / denominator * factor)))
  let (fractional, remainder) ← longDivision denominator decimalScale (0, numerator % denominator)
  let magnitude ← ExceptT.mk (some (checkedU128 (whole + fractional)))
  let distance ← (subU128 denominator remainder : Option ℕ)
  let magnitude ← ExceptT.mk (some (roundMagnitude magnitude remainder distance))
  ExceptT.mk (some (signedMagnitude magnitude negative))

/-- `FixedDecimal::checked_mul_round_ties_even`. -/
def checkedMulRoundTiesEven (self other : FixedDecimal) : Except DomainErrorCode FixedDecimal := do
  let negative := decide (self.scaled < 0) != decide (other.scaled < 0)
  let product ← checkedU128 (self.scaled.natAbs * other.scaled.natAbs)
  let remainder := product % factor
  let magnitude ← roundMagnitude (product / factor) remainder (factor - remainder)
  signedMagnitude magnitude negative

/-! ### Digits -/

/-- One step adds the remainder, modulo the denominator, and never overflows. -/
theorem decimalDigitStep_spec {remainder denominator digit accumulated : ℕ}
    (hr : remainder < denominator) (hd : denominator < 2 ^ 128) (ha : accumulated < denominator)
    (hdigit : digit < 255) :
    ∃ digit' accumulated',
      decimalDigitStep remainder denominator (digit, accumulated) = some (digit', accumulated') ∧
      digit' * denominator + accumulated' = digit * denominator + (accumulated + remainder) ∧
      accumulated' < denominator ∧ digit' ≤ digit + 1 := by
  have hgap : subU128 denominator remainder = some (denominator - remainder) := if_pos hr.le
  unfold decimalDigitStep
  rw [hgap]
  by_cases hge : denominator - remainder ≤ accumulated
  · -- Adding the remainder passes the denominator: take it off and count it.
    refine ⟨digit + 1, accumulated - (denominator - remainder), ?_, ?_, by omega, le_rfl⟩
    · have hadd : addU8 digit 1 = some (digit + 1) := if_pos (by omega)
      have hsub : subU128 accumulated (denominator - remainder)
          = some (accumulated - (denominator - remainder)) := if_pos hge
      simp only [Option.bind_eq_bind, Option.bind_some, if_pos hge, hsub, hadd]
      rfl
    · rw [Nat.add_mul, one_mul]
      omega
  · refine ⟨digit, accumulated + remainder, ?_, rfl, by omega, by omega⟩
    have hadd : addU128 accumulated remainder = some (accumulated + remainder) :=
      if_pos (by omega)
    simp only [Option.bind_eq_bind, Option.bind_some, if_neg hge, hadd]
    rfl

/-- The accumulated remainder stays below the denominator through every step. -/
theorem decimalDigitLoop_spec {remainder denominator : ℕ} (hr : remainder < denominator)
    (hd : denominator < 2 ^ 128) (steps : ℕ) {digit accumulated : ℕ}
    (ha : accumulated < denominator) (hdigit : digit + steps ≤ 255) :
    ∃ digit' accumulated',
      decimalDigitLoop remainder denominator steps (digit, accumulated)
        = some (digit', accumulated') ∧
      digit' * denominator + accumulated'
        = digit * denominator + (accumulated + steps * remainder) ∧
      accumulated' < denominator := by
  induction steps generalizing digit accumulated with
  | zero => exact ⟨digit, accumulated, rfl, by simp, ha⟩
  | succ steps ih =>
    have hsmall : digit < 255 := by omega
    obtain ⟨digit₁, accumulated₁, hstep, hsum, ha₁, hle⟩ :=
      decimalDigitStep_spec hr hd ha hsmall
    have hroom : digit₁ + steps ≤ 255 := by omega
    obtain ⟨digit', accumulated', hrun, hsum', ha'⟩ := ih ha₁ hroom
    refine ⟨digit', accumulated', ?_, ?_, ha'⟩
    · show (decimalDigitStep remainder denominator (digit, accumulated)).bind _ = _
      rw [hstep]
      exact hrun
    · rw [hsum', ← Nat.add_assoc, hsum, Nat.add_mul]
      omega

/-- **One digit.** `decimal_digit` divides ten times the remainder, without an overflow. -/
theorem decimalDigit_eq {remainder denominator : ℕ} (hr : remainder < denominator)
    (hd : denominator < 2 ^ 128) :
    decimalDigit remainder denominator
      = some (10 * remainder / denominator, 10 * remainder % denominator) := by
  obtain ⟨digit, accumulated, hrun, hsum, ha⟩ :=
    decimalDigitLoop_spec hr hd 10 (Nat.zero_lt_of_lt hr) (by norm_num : 0 + 10 ≤ 255)
  have hsum' : accumulated + denominator * digit = 10 * remainder := by
    rw [Nat.mul_comm denominator]
    omega
  obtain ⟨hq, hm⟩ := (Nat.div_mod_unique (Nat.zero_lt_of_lt hr)).mpr ⟨hsum', ha⟩
  rw [decimalDigit, hrun, hq, hm]

/-- **Long division.** The digits found so far and the remainder make up the numerator, and no
    intermediate value overflows. -/
theorem longDivision_spec {denominator : ℕ} (hd : denominator < 2 ^ 128) (places : ℕ)
    {fractional remainder : ℕ} (hr : remainder < denominator)
    (hf : (fractional + 1) * 10 ^ places ≤ 2 ^ 128) :
    ∃ fractional' remainder',
      longDivision denominator places (fractional, remainder) = pure (fractional', remainder') ∧
      fractional' * denominator + remainder'
        = (fractional * denominator + remainder) * 10 ^ places ∧
      remainder' < denominator := by
  induction places generalizing fractional remainder with
  | zero => exact ⟨fractional, remainder, rfl, by simp, hr⟩
  | succ places ih =>
    have hpos : 0 < denominator := Nat.zero_lt_of_lt hr
    have hdigit : 10 * remainder / denominator < 10 := by
      rw [Nat.div_lt_iff_lt_mul hpos]
      omega
    -- The digits that are still to come leave room for this one.
    have hroom : (fractional * 10 + 10 * remainder / denominator + 1) * 10 ^ places ≤ 2 ^ 128 := by
      refine le_trans ?_ hf
      rw [pow_succ', ← mul_assoc]
      exact Nat.mul_le_mul_right _ (by omega)
    have hlt : fractional * 10 + 10 * remainder / denominator < 2 ^ 128 :=
      lt_of_lt_of_le (Nat.lt_succ_self _)
        (le_trans (Nat.le_mul_of_pos_right _ (by positivity)) hroom)
    obtain ⟨fractional', remainder', hrun, hsum, hr'⟩ := ih (Nat.mod_lt (10 * remainder) hpos) hroom
    refine ⟨fractional', remainder', ?_, ?_, hr'⟩
    · unfold longDivision
      have hlt' : fractional * 10 < 2 ^ 128 := lt_of_le_of_lt (Nat.le_add_right _ _) hlt
      rw [decimalDigit_eq hr hd, show checkedU128 (fractional * 10) = .ok (fractional * 10) from
        if_pos hlt']
      show (ExceptT.mk (some (checkedU128 (fractional * 10 + 10 * remainder / denominator))) >>=
        fun f => longDivision denominator places (f, 10 * remainder % denominator)) = _
      rw [show checkedU128 (fractional * 10 + 10 * remainder / denominator)
        = .ok (fractional * 10 + 10 * remainder / denominator) from if_pos hlt]
      exact hrun
    · rw [hsum, pow_succ', ← mul_assoc]
      congr 1
      calc (fractional * 10 + 10 * remainder / denominator) * denominator
            + 10 * remainder % denominator
          = fractional * denominator * 10 + (10 * remainder / denominator * denominator
            + 10 * remainder % denominator) := by ring
        _ = (fractional * denominator + remainder) * 10 := by rw [Nat.div_add_mod']; ring

/-! ### Signs and ranges -/

theorem mk_bind {α β : Type} (x : Except DomainErrorCode α)
    (f : α → Except DomainErrorCode β) :
    (ExceptT.mk (some x) >>= fun a => ExceptT.mk (some (f a)))
      = (ExceptT.mk (some (x >>= f)) : ExceptT DomainErrorCode Option β) := by
  cases x <;> rfl

theorem mk_ok_bind {α β : Type} (a : α) (f : α → ExceptT DomainErrorCode Option β) :
    (ExceptT.mk (some (.ok a)) >>= f) = f a := rfl

/-- So is a number outside of 128 bits. -/
theorem tryFrom_of_not_range {value : ℤ} (h : ¬ InI128 value) :
    tryFrom value = .error .invalidValue := dif_neg h

/-- The magnitude of a number fits into 128 bits. -/
theorem natAbs_scaled_lt (value : FixedDecimal) : value.scaled.natAbs < 2 ^ 128 := by
  have := value.range
  unfold InI128 at this
  omega

/-- A sign and a magnitude make an `i128` exactly when the signed value is in range. -/
theorem signedMagnitude_eq (magnitude : ℕ) (negative : Bool) :
    signedMagnitude magnitude negative
      = tryFrom (if negative then -(magnitude : ℤ) else magnitude) := by
  cases negative with
  | false =>
    unfold signedMagnitude
    simp only [Bool.not_false, Bool.false_eq_true, if_false, if_true]
  | true =>
    unfold signedMagnitude
    simp only [Bool.not_true, Bool.false_eq_true, if_false, if_true]
    -- The least number is built without negating, as its magnitude is out of range.
    by_cases hmin : magnitude = 2 ^ 127
    · have hrange : InI128 (-(magnitude : ℤ)) := by
        unfold InI128
        omega
      have hvalue : (-2 ^ 127 : ℤ) = -(magnitude : ℤ) := by omega
      rw [if_pos hmin, tryFrom, dif_pos hrange]
      simp only [hvalue]
    · rw [if_neg hmin]
      by_cases hfit : InI128 magnitude
      · rw [show tryFrom magnitude = .ok ⟨magnitude, hfit⟩ from dif_pos hfit]
        rfl
      · rw [tryFrom_of_not_range hfit, tryFrom_of_not_range]
        · rfl
        · unfold InI128 at hfit ⊢
          omega

/-- A magnitude past `u128` is out of range whatever its sign. -/
theorem tryFrom_overflow {magnitude : ℕ} (negative : Bool) (h : 2 ^ 128 ≤ magnitude) :
    tryFrom (if negative then -(magnitude : ℤ) else magnitude) = .error .invalidValue := by
  apply tryFrom_of_not_range
  unfold InI128
  cases negative <;> simp only [Bool.false_eq_true, if_true, if_false] <;> omega

/-- The magnitude after rounding, before the sign. -/
def rounded (magnitude remainder denominator : ℕ) : ℕ :=
  if denominator < 2 * remainder ∨ (2 * remainder = denominator ∧ magnitude % 2 = 1) then
    magnitude + 1
  else magnitude

/-- Rounding goes away from zero, or nowhere. -/
theorem le_rounded (magnitude remainder denominator : ℕ) :
    magnitude ≤ rounded magnitude remainder denominator := by
  unfold rounded
  split <;> omega

/-- The tail both operations share: round by the remainder, then attach the sign. -/
theorem round_signed {magnitude remainder denominator : ℕ} (hr : remainder < denominator)
    (negative : Bool) :
    (roundMagnitude magnitude remainder (denominator - remainder) >>=
        fun magnitude => signedMagnitude magnitude negative)
      = tryFrom (if negative then -(rounded magnitude remainder denominator : ℤ)
          else rounded magnitude remainder denominator) := by
  have hiff : (remainder > denominator - remainder ∨
        (remainder = denominator - remainder ∧ magnitude % 2 = 1)) ↔
      (denominator < 2 * remainder ∨ (2 * remainder = denominator ∧ magnitude % 2 = 1)) := by
    omega
  unfold rounded roundMagnitude
  simp only [hiff]
  split
  · by_cases hover : magnitude + 1 < 2 ^ 128
    · rw [checkedU128_of_lt hover, ok_bind, signedMagnitude_eq]
    · rw [checkedU128_of_le (not_lt.mp hover), tryFrom_overflow negative (not_lt.mp hover)]
      rfl
  · rw [ok_bind, signedMagnitude_eq]

/-- An operation that is odd in both arguments, from the magnitudes and the sign the code
    computes. -/
theorem signed_of_odd {f : ℚ → ℚ → ℤ} (hl : ∀ p q, f (-p) q = -f p q)
    (hr : ∀ p q, f p (-q) = -f p q) (x y : ℤ) :
    f x y = if decide (x < 0) != decide (y < 0) then -f x.natAbs y.natAbs
      else f x.natAbs y.natAbs := by
  rw [Nat.cast_natAbs, Nat.cast_natAbs]
  by_cases hx : x < 0 <;> by_cases hy : y < 0 <;>
    simp only [hx, hy, decide_true, decide_false, bne_self_eq_false, Bool.false_eq_true,
      Bool.true_bne, Bool.false_bne, Bool.not_false, if_true, if_false]
  · rw [abs_of_neg hx, abs_of_neg hy, Int.cast_neg, Int.cast_neg, hl, hr, neg_neg]
  · rw [abs_of_neg hx, abs_of_nonneg (not_lt.mp hy), Int.cast_neg, hl, neg_neg]
  · rw [abs_of_nonneg (not_lt.mp hx), abs_of_neg hy, Int.cast_neg, hr, neg_neg]
  · rw [abs_of_nonneg (not_lt.mp hx), abs_of_nonneg (not_lt.mp hy)]

/-! ### The rounded value -/

/-- `self / divisor` in units of `10⁻¹²`, rounded. -/
def quotient (self divisor : FixedDecimal) : ℤ :=
  Decimal.nearestEven ((self.scaled : ℚ) * 10 ^ 12 / divisor.scaled)

/-- `self * other` in units of `10⁻¹²`, rounded. -/
def product (self other : FixedDecimal) : ℤ :=
  Decimal.nearestEven ((self.scaled : ℚ) * other.scaled / 10 ^ 12)

/-- **The quotient** by a division with remainder of the magnitudes. -/
theorem quotient_eq {self divisor : FixedDecimal} {magnitude remainder : ℕ}
    (hsum : magnitude * divisor.scaled.natAbs + remainder = self.scaled.natAbs * factor)
    (hr : remainder < divisor.scaled.natAbs) :
    self.quotient divisor = if decide (self.scaled < 0) != decide (divisor.scaled < 0) then
      -(rounded magnitude remainder divisor.scaled.natAbs : ℤ)
      else rounded magnitude remainder divisor.scaled.natAbs := by
  have hnear : Decimal.nearestEven ((self.scaled.natAbs : ℚ) * 10 ^ 12 / divisor.scaled.natAbs)
      = rounded magnitude remainder divisor.scaled.natAbs := by
    rw [rounded, ← Decimal.nearestEven_div hsum hr, factor]
    push_cast
    norm_num
  rw [quotient, ← hnear]
  exact signed_of_odd (f := fun p q => Decimal.nearestEven (p * 10 ^ 12 / q))
    (fun p q => by rw [neg_mul, neg_div, Decimal.nearestEven_neg])
    (fun p q => by rw [div_neg, Decimal.nearestEven_neg]) _ _

/-- **The product** by a division with remainder of the product of the magnitudes. -/
theorem product_eq (self other : FixedDecimal) :
    self.product other = if decide (self.scaled < 0) != decide (other.scaled < 0) then
      -(rounded (self.scaled.natAbs * other.scaled.natAbs / factor)
        (self.scaled.natAbs * other.scaled.natAbs % factor) factor : ℤ)
      else rounded (self.scaled.natAbs * other.scaled.natAbs / factor)
        (self.scaled.natAbs * other.scaled.natAbs % factor) factor := by
  have hnear : Decimal.nearestEven ((self.scaled.natAbs : ℚ) * other.scaled.natAbs / 10 ^ 12)
      = rounded (self.scaled.natAbs * other.scaled.natAbs / factor)
        (self.scaled.natAbs * other.scaled.natAbs % factor) factor := by
    rw [rounded, ← Decimal.nearestEven_div (Nat.div_add_mod' _ factor)
      (Nat.mod_lt _ factor_pos), factor]
    push_cast
    norm_num
  rw [product, ← hnear]
  exact signed_of_odd (f := fun p q => Decimal.nearestEven (p * q / 10 ^ 12))
    (fun p q => by rw [neg_mul, neg_div, Decimal.nearestEven_neg])
    (fun p q => by rw [mul_neg, neg_div, Decimal.nearestEven_neg]) _ _

/-- A product is refused only when it does not fit a `u128` before the division. -/
theorem checkedMulRoundTiesEven_eq (self other : FixedDecimal) :
    self.checkedMulRoundTiesEven other =
      if self.scaled.natAbs * other.scaled.natAbs < 2 ^ 128 then tryFrom (self.product other)
      else .error .invalidValue := by
  unfold checkedMulRoundTiesEven
  split
  · rename_i hlt
    rw [checkedU128_of_lt hlt, product_eq, ok_bind]
    exact round_signed (Nat.mod_lt _ factor_pos) _
  · rename_i hge
    rw [checkedU128_of_le (not_lt.mp hge)]
    rfl

/-- **Exact division.** A quotient is refused only when the divisor is zero or the rounded value
    does not fit. -/
theorem checkedDivRoundTiesEven_eq (self divisor : FixedDecimal) :
    self.checkedDivRoundTiesEven divisor = ExceptT.mk (some (
      if divisor.scaled = 0 then .error .invalidValue else tryFrom (self.quotient divisor))) := by
  by_cases hzero : divisor.scaled = 0
  · rw [if_pos hzero]
    unfold checkedDivRoundTiesEven
    rw [if_pos hzero]
    rfl
  have hpos : 0 < divisor.scaled.natAbs := Int.natAbs_pos.mpr hzero
  have hd : divisor.scaled.natAbs < 2 ^ 128 := natAbs_scaled_lt divisor
  set numerator := self.scaled.natAbs with hnum
  set denominator := divisor.scaled.natAbs with hden
  obtain ⟨fractional, remainder, hrun, hsum, hr⟩ :=
    longDivision_spec hd decimalScale (Nat.mod_lt numerator hpos)
      (by norm_num [decimalScale] : (0 + 1) * 10 ^ decimalScale ≤ 2 ^ 128)
  -- The whole part and the digits after the point make up the magnitude.
  have htotal : (numerator / denominator * factor + fractional) * denominator + remainder
      = numerator * factor := by
    have hfactor : 10 ^ decimalScale = factor := by norm_num [decimalScale, factor]
    rw [hfactor, zero_mul, zero_add] at hsum
    calc (numerator / denominator * factor + fractional) * denominator + remainder
        = numerator / denominator * denominator * factor
          + (fractional * denominator + remainder) := by ring
      _ = (numerator / denominator * denominator + numerator % denominator) * factor := by
          rw [hsum]; ring
      _ = numerator * factor := by rw [Nat.div_add_mod']
  have hquot := quotient_eq htotal hr
  have hdist : subU128 denominator remainder = some (denominator - remainder) := if_pos hr.le
  rw [if_neg hzero, hquot, ← hden]
  unfold checkedDivRoundTiesEven
  simp only [if_neg hzero, ← hnum, ← hden, hrun, pure_bind]
  -- A whole part or a magnitude past `u128` is out of range once it is rounded.
  have hle := le_rounded (numerator / denominator * factor + fractional) remainder denominator
  by_cases hwhole : numerator / denominator * factor < 2 ^ 128
  · rw [checkedU128_of_lt hwhole, mk_ok_bind]
    by_cases hmag : numerator / denominator * factor + fractional < 2 ^ 128
    · rw [checkedU128_of_lt hmag, mk_ok_bind, hdist, ← round_signed hr]
      exact mk_bind _ _
    · rw [checkedU128_of_le (not_lt.mp hmag), tryFrom_overflow _ (by omega)]
      rfl
  · rw [checkedU128_of_le (not_lt.mp hwhole), tryFrom_overflow _ (by omega)]
    rfl

/-- The remainders of a division stay below the denominator, so that each digit is found without
    an overflow. -/
theorem remainder_lt (numerator : ℕ) {denominator : ℕ} (hpos : 0 < denominator)
    (hd : denominator < 2 ^ 128) {place : ℕ} (hplace : place < decimalScale) :
    ∃ fractional remainder,
      longDivision denominator place (0, numerator % denominator) = pure (fractional, remainder) ∧
      remainder < denominator := by
  have hroom : (0 + 1) * 10 ^ place ≤ 2 ^ 128 := by
    rw [zero_add, one_mul]
    calc 10 ^ place ≤ 10 ^ decimalScale := Nat.pow_le_pow_right (by norm_num) hplace.le
      _ ≤ 2 ^ 128 := by norm_num [decimalScale]
  obtain ⟨fractional, remainder, hrun, -, hr⟩ :=
    longDivision_spec hd place (Nat.mod_lt numerator hpos) hroom
  exact ⟨fractional, remainder, hrun, hr⟩

end FixedDecimal

open FixedDecimal in
/-- **Rounding arithmetic is exact.** A quotient is the nearest whole number of units, ties to
    even, whenever the divisor is not zero and that number fits, and an error otherwise; no
    unchecked operation overflows on the way.  A product is rounded the same way whenever it is
    returned, and it is returned when the product of the magnitudes fits a `u128` and the rounded
    value an `i128`. -/
theorem fixedDecimal_rounding (a b : FixedDecimal) :
    (b.scaled ≠ 0 →
      ∀ h : InI128 (Decimal.nearestEven ((a.scaled : ℚ) * 10 ^ 12 / b.scaled)),
        a.checkedDivRoundTiesEven b = ExceptT.mk (some (.ok ⟨_, h⟩))) ∧
    (b.scaled = 0 ∨ ¬ InI128 (Decimal.nearestEven ((a.scaled : ℚ) * 10 ^ 12 / b.scaled)) →
      a.checkedDivRoundTiesEven b = ExceptT.mk (some (.error .invalidValue))) ∧
    (∀ value, a.checkedMulRoundTiesEven b = .ok value →
      value.scaled = Decimal.nearestEven ((a.scaled : ℚ) * b.scaled / 10 ^ 12)) ∧
    (a.scaled.natAbs * b.scaled.natAbs < 2 ^ 128 →
      ∀ h : InI128 (Decimal.nearestEven ((a.scaled : ℚ) * b.scaled / 10 ^ 12)),
        a.checkedMulRoundTiesEven b = .ok ⟨_, h⟩) ∧
    (b.scaled ≠ 0 → ∀ place < decimalScale, ∃ fractional remainder,
      longDivision b.scaled.natAbs place (0, a.scaled.natAbs % b.scaled.natAbs)
        = pure (fractional, remainder) ∧
      (decimalDigit remainder b.scaled.natAbs).isSome) := by
  -- Both operations are one rounding of the exact value.
  have hdiv := checkedDivRoundTiesEven_eq a b
  have hmul := checkedMulRoundTiesEven_eq a b
  rw [show a.quotient b = _ from rfl, quotient] at hdiv
  rw [show a.product b = _ from rfl, product] at hmul
  refine ⟨?_, ?_, ?_, ?_, ?_⟩
  · intro hzero h
    rw [hdiv, if_neg hzero, tryFrom, dif_pos h]
  · intro hbad
    by_cases hzero : b.scaled = 0
    · rw [hdiv, if_pos hzero]
    · rw [hdiv, if_neg hzero, tryFrom_of_not_range (hbad.resolve_left hzero)]
  · intro value hok
    rw [hmul] at hok
    split at hok
    · unfold tryFrom at hok
      split at hok
      · obtain rfl := Except.ok.inj hok
        rfl
      · cases hok
    · cases hok
  · intro hlt h
    rw [hmul, if_pos hlt, tryFrom, dif_pos h]
  · intro hzero place hplace
    have hpos : 0 < b.scaled.natAbs := Int.natAbs_pos.mpr hzero
    obtain ⟨fractional, remainder, hrun, hr⟩ :=
      remainder_lt a.scaled.natAbs hpos (natAbs_scaled_lt b) hplace
    refine ⟨fractional, remainder, hrun, ?_⟩
    rw [decimalDigit_eq hr (natAbs_scaled_lt b)]
    rfl

/-- Two thirds are rounded up in the last place, and `0.000001²` is one unit. -/
theorem fixedDecimal_rounding_samples :
    (⟨2000000000000, by decide⟩ : FixedDecimal).checkedDivRoundTiesEven ⟨3000000000000, by decide⟩
      = ExceptT.mk (some (.ok ⟨666666666667, by decide⟩)) ∧
    (⟨1000000, by decide⟩ : FixedDecimal).checkedMulRoundTiesEven ⟨1000000, by decide⟩
      = .ok ⟨1, by decide⟩ := by
  have hdiv : Decimal.nearestEven (((2000000000000 : ℤ) : ℚ) * 10 ^ 12 / (3000000000000 : ℤ))
      = 666666666667 := by decide +kernel
  have hmul : Decimal.nearestEven (((1000000 : ℤ) : ℚ) * (1000000 : ℤ) / 10 ^ 12) = 1 := by
    decide +kernel
  constructor
  · rw [(fixedDecimal_rounding ⟨2000000000000, by decide⟩ ⟨3000000000000, by decide⟩).1
      (by decide) (by rw [hdiv]; decide)]
    simp only [hdiv]
  · rw [(fixedDecimal_rounding ⟨1000000, by decide⟩ ⟨1000000, by decide⟩).2.2.2.1
      (by decide) (by rw [hmul]; decide)]
    simp only [hmul]

end Ficant
