import Ficant.Lib.LowestTerms
import Ficant.Primitives.FixedArithmetic

namespace Ficant

open Lib FixedDecimal

/-!
# Sensitivities to one key rate

The arithmetic of a single key-rate sensitivity (`ficant-domain/src/research/exposure.rs`).

* `keyRateDv01` — the exact price sensitivity per basis point, or an error;
* `bondPositionKeyRateDv01` — the sensitivity of a bond position, rounded once at the end;
* `scaleFuturesKeyRateDv01` — the exact sensitivity of a futures position, or an error;
* `bondPositionKeyRateDv01_eq` — the bond path from the exact fraction in lowest terms;
* `key_rate_dv01_exact` — all three paths against the exact values.
-/

/-! ### The operations -/

/-- `SensitivityDirection`. -/
inductive SensitivityDirection
  | central | up | down
  deriving DecidableEq, Repr

/-- How many bumps lie between the two prices of a direction. -/
def SensitivityDirection.bumps : SensitivityDirection → ℕ
  | .central => 2
  | .up => 1
  | .down => 1

/-- The price difference of a direction. -/
def directionalDifference (base up down : FixedDecimal) :
    SensitivityDirection → Except DomainErrorCode FixedDecimal
  | .central => down.checkedSub up
  | .up => base.checkedSub up
  | .down => down.checkedSub base

/-- The bump, once for each bump between the two prices. -/
def directionalDivisor (bumpBp : FixedDecimal) :
    SensitivityDirection → Except DomainErrorCode FixedDecimal
  | .central => tryFrom (bumpBp.scaled * 2)
  | .up | .down => .ok bumpBp

/-- `key_rate_dv01`. -/
def keyRateDv01 (base up down bumpBp : FixedDecimal) (direction : SensitivityDirection) :
    Except DomainErrorCode FixedDecimal := do
  rejectIf (bumpBp.isPositive = false) .invalidValue
  let numerator ← directionalDifference base up down direction
  let divisor ← directionalDivisor bumpBp direction
  let scaledNumerator ← tryFrom (numerator.scaled * factor)
  rejectIf (divisor.scaled = 0 ∨ scaledNumerator.scaled.tmod divisor.scaled ≠ 0) .invalidValue
  tryFrom (scaledNumerator.scaled.tdiv divisor.scaled)

/-- The loop of `greatest_common_divisor`. -/
def euclid (left right : ℕ) : ℕ :=
  if right = 0 then left else euclid right (left % right)
termination_by right
decreasing_by exact Nat.mod_lt left (Nat.pos_of_ne_zero ‹_›)

/-- `greatest_common_divisor`. -/
def greatestCommonDivisor (left right : ℕ) : ℕ := max (euclid left right) 1

/-- `checked_product`. -/
def checkedProduct (values : List ℕ) : Except DomainErrorCode ℕ :=
  values.foldlM (fun product value => checkedU128 (product * value)) 1

/-- `bond_position_key_rate_dv01`.  `cross_cancel` is `Lib.crossCancel`. -/
def bondPositionKeyRateDv01 (base up down bumpBp : FixedDecimal) (direction : SensitivityDirection)
    (signedQuantity registeredFace : FixedDecimal) : Except DomainErrorCode FixedDecimal := do
  rejectIf (bumpBp.isPositive = false ∨ registeredFace.isPositive = false) .invalidValue
  let difference ← directionalDifference base up down direction
  if difference = .zero ∨ signedQuantity = .zero then .ok .zero
  else
    let negative := decide (difference.scaled < 0) != decide (signedQuantity.scaled < 0)
    let cancelled := crossCancel greatestCommonDivisor
      [difference.scaled.natAbs, signedQuantity.scaled.natAbs]
      [direction.bumps, bumpBp.scaled.natAbs, registeredFace.scaled.natAbs]
    let numerator ← checkedProduct cancelled.1
    let denominator ← checkedProduct cancelled.2
    let numerator ← signedMagnitude numerator negative
    let denominator ← tryFrom denominator
    numerator.divRoundTiesEven denominator

/-- `exact_div`. -/
def exactDiv (numerator denominator : FixedDecimal) : Except DomainErrorCode FixedDecimal := do
  rejectIf (denominator.scaled = 0) .invalidValue
  let scaled ← tryFrom (numerator.scaled * factor)
  rejectIf (scaled.scaled.tmod denominator.scaled ≠ 0) .invalidValue
  tryFrom (scaled.scaled.tdiv denominator.scaled)

/-- `scale_futures_key_rate_dv01`. -/
def scaleFuturesKeyRateDv01 (ctdRegisteredFaceKrd registeredFace faceQuoteBasis : FixedDecimal)
    (contractSizeInQuoteUnits : UInt32) (conversionFactor : FixedDecimal)
    (signedContractCount : Int64) : Except DomainErrorCode FixedDecimal := do
  rejectIf (registeredFace.isPositive = false ∨ faceQuoteBasis.isPositive = false ∨
    contractSizeInQuoteUnits = 0 ∨ conversionFactor.isPositive = false ∨
    signedContractCount = 0) .invalidValue
  let faceKrd ← ctdRegisteredFaceKrd.checkedMul faceQuoteBasis
  let quoteKrd ← exactDiv faceKrd registeredFace
  let contractSize ← tryFrom (contractSizeInQuoteUnits.toNat * factor)
  let sized ← quoteKrd.checkedMul contractSize
  let oneContract ← exactDiv sized conversionFactor
  let count ← tryFrom (signedContractCount.toInt * factor)
  oneContract.checkedMul count

/-! ### The parts -/

/-- The loop of the algorithm computes the greatest common divisor. -/
theorem euclid_eq_gcd (left right : ℕ) : euclid left right = Nat.gcd left right := by
  induction right using Nat.strong_induction_on generalizing left with
  | _ right ih =>
    rw [euclid]
    split
    · rename_i hzero
      rw [hzero, Nat.gcd_zero_right]
    · rename_i hne
      rw [ih (left % right) (Nat.mod_lt left (Nat.pos_of_ne_zero hne)), Nat.gcd_comm,
        ← Nat.gcd_rec, Nat.gcd_comm]

/-- Over a positive first number the code computes the greatest common divisor. -/
theorem greatestCommonDivisor_eq (left right : ℕ) (hleft : 0 < left) :
    greatestCommonDivisor left right = Nat.gcd left right := by
  have hpos : 0 < Nat.gcd left right := Nat.gcd_pos_of_pos_left right hleft
  rw [greatestCommonDivisor, euclid_eq_gcd]
  omega

/-- A product of positive factors overflows on the way only when it overflows at the end. -/
theorem checkedProduct_eq {values : List ℕ} (hpos : ∀ value ∈ values, 0 < value) :
    checkedProduct values = checkedU128 values.prod := by
  suffices hfold : ∀ product, product < 2 ^ 128 →
      values.foldlM (fun product value => checkedU128 (product * value)) product
        = checkedU128 (product * values.prod) by
    rw [checkedProduct, hfold 1 (by norm_num), one_mul]
  induction values with
  | nil =>
    intro product hlt
    rw [List.foldlM_nil, List.prod_nil, mul_one, checkedU128_of_lt hlt]
    rfl
  | cons value rest ih =>
    intro product hlt
    rw [List.forall_mem_cons] at hpos
    rw [List.foldlM_cons, List.prod_cons, ← mul_assoc]
    -- A product that has left the range never comes back, since every factor is positive.
    by_cases hfits : product * value < 2 ^ 128
    · rw [checkedU128_of_lt hfits]
      exact ih hpos.2 (product * value) hfits
    · rw [checkedU128_of_le (not_lt.mp hfits), checkedU128_of_le]
      · rfl
      · calc 2 ^ 128 ≤ product * value := not_lt.mp hfits
          _ ≤ product * value * rest.prod := Nat.le_mul_of_pos_right _ (List.prod_pos hpos.2)

/-- The difference of two prices, as a whole number of units. -/
def exactDifference (base up down : FixedDecimal) : SensitivityDirection → ℤ
  | .central => down.scaled - up.scaled
  | .up => base.scaled - up.scaled
  | .down => down.scaled - base.scaled

/-- A directional difference is the exact one, if it is in the range. -/
theorem directionalDifference_eq (base up down : FixedDecimal) (direction : SensitivityDirection) :
    directionalDifference base up down direction =
    tryFrom (exactDifference base up down direction) := by
  cases direction <;> rfl

/-- A direction bumps at least once. -/
theorem bumps_pos (direction : SensitivityDirection) : 0 < direction.bumps := by
  cases direction <;> decide

/-! ### The bond path -/

/-- The exact sensitivity of a bond position: the difference times the quantity, over the bumps and
    the face. -/
def exactBondDv01 (base up down bumpBp : FixedDecimal) (direction : SensitivityDirection)
    (signedQuantity registeredFace : FixedDecimal) : ℚ :=
  (exactDifference base up down direction * signedQuantity.scaled : ℤ)
    / (direction.bumps * bumpBp.scaled * registeredFace.scaled : ℤ)

/-- The sign that the code attaches to a product of magnitudes. -/
theorem mul_eq_signed (d q : ℤ) :
    d * q = if decide (d < 0) != decide (q < 0) then -((d.natAbs * q.natAbs : ℕ) : ℤ)
      else ((d.natAbs * q.natAbs : ℕ) : ℤ) := by
  rw [Nat.cast_mul, Int.natCast_natAbs, Int.natCast_natAbs]
  by_cases hd : d < 0 <;> by_cases hq : q < 0 <;>
    simp only [hd, hq, decide_true, decide_false, bne_self_eq_false, Bool.false_eq_true,
      Bool.true_bne, Bool.false_bne, Bool.not_false, if_true, if_false]
  · rw [abs_of_neg hd, abs_of_neg hq, neg_mul_neg]
  · rw [abs_of_neg hd, abs_of_nonneg (not_lt.mp hq), neg_mul, neg_neg]
  · rw [abs_of_nonneg (not_lt.mp hd), abs_of_neg hq, mul_neg, neg_neg]
  · rw [abs_of_nonneg (not_lt.mp hd), abs_of_nonneg (not_lt.mp hq)]

/-- The numerator and the denominator of a signed fraction. -/
theorem num_den_signed (negative : Bool) {n d n' d' : ℕ} (hnum : ((n : ℚ) / d).num = n')
    (hden : ((n : ℚ) / d).den = d') :
    (((if negative then -(n : ℤ) else n : ℤ) : ℚ) / (d : ℤ)).num
      = (if negative then -(n' : ℤ) else n') ∧
    (((if negative then -(n : ℤ) else n : ℤ) : ℚ) / (d : ℤ)).den = d' := by
  cases negative with
  | false =>
    simp only [Bool.false_eq_true, if_false, Int.cast_natCast]
    exact ⟨hnum, hden⟩
  | true =>
    simp only [if_true, Int.cast_neg, Int.cast_natCast, neg_div]
    rw [Rat.neg_num, Rat.neg_den, hnum, hden]
    exact ⟨rfl, rfl⟩

/-- The tail of the bond path: two products, the sign, and one rounding. -/
def roundFraction (numerators denominators : List ℕ) (negative : Bool) :
    Except DomainErrorCode FixedDecimal := do
  let numerator ← checkedProduct numerators
  let denominator ← checkedProduct denominators
  let numerator ← signedMagnitude numerator negative
  let denominator ← tryFrom denominator
  numerator.divRoundTiesEven denominator

/-- The tail returns the rounded fraction when both of its parts fit. -/
theorem roundFraction_eq {numerators denominators : List ℕ} {negative : Bool} {exact : ℚ}
    (hn : ∀ n ∈ numerators, 0 < n) (hd : ∀ d ∈ denominators, 0 < d)
    (hnum : exact.num = if negative then -(numerators.prod : ℤ) else numerators.prod)
    (hden : exact.den = denominators.prod) :
    roundFraction numerators denominators negative =
      if InI128 exact.num ∧ InI128 exact.den then tryFrom (Decimal.nearestEven (exact * 10 ^ 12))
      else .error .invalidValue := by
  have hlarge : ∀ n : ℕ, 2 ^ 128 ≤ n → ¬ InI128 n := by
    intro n hle hrange
    unfold InI128 at hrange
    omega
  unfold roundFraction
  rw [checkedProduct_eq hn, checkedProduct_eq hd, hden]
  by_cases hnfits : numerators.prod < 2 ^ 128
  · rw [checkedU128_of_lt hnfits, ok_bind]
    by_cases hdfits : denominators.prod < 2 ^ 128
    · rw [checkedU128_of_lt hdfits, ok_bind, signedMagnitude_eq, ← hnum]
      by_cases hnrange : InI128 exact.num
      · by_cases hdrange : InI128 (denominators.prod : ℤ)
        · rw [if_pos (And.intro hnrange hdrange), tryFrom, dif_pos hnrange, ok_bind, tryFrom,
            dif_pos hdrange, ok_bind, divRoundTiesEven_eq, quotient]
          have hpos : 0 < denominators.prod := List.prod_pos hd
          have hne : (denominators.prod : ℤ) ≠ 0 := by exact_mod_cast hpos.ne'
          rw [if_neg hne]
          -- the fraction is its numerator over its denominator
          have hvalue : (exact.num : ℚ) * 10 ^ 12 / ((denominators.prod : ℤ) : ℚ)
              = exact * 10 ^ 12 := by
            rw [mul_div_right_comm, Int.cast_natCast, ← hden, Rat.num_div_den]
          rw [hvalue]
        · rw [if_neg (fun h => hdrange h.2), tryFrom, dif_pos hnrange, ok_bind,
            tryFrom_of_not_range hdrange]
          rfl
      · rw [if_neg (fun h => hnrange h.1), tryFrom_of_not_range hnrange]
        rfl
    · rw [checkedU128_of_le (not_lt.mp hdfits), if_neg (fun h => hlarge _ (not_lt.mp hdfits) h.2)]
      rfl
  · have hout := tryFrom_overflow negative (not_lt.mp hnfits)
    rw [checkedU128_of_le (not_lt.mp hnfits), if_neg]
    · rfl
    · rintro ⟨hrange, -⟩
      rw [← hnum, tryFrom, dif_pos hrange] at hout
      cases hout

/-- **The bond path** from the exact fraction: it is refused by an input check, by a difference
    that does not fit, by a numerator or a denominator that does not fit in lowest terms, or by a
    rounded value that does not fit, and otherwise it returns the rounded value. -/
theorem bondPositionKeyRateDv01_eq (base up down bumpBp : FixedDecimal)
    (direction : SensitivityDirection) (signedQuantity registeredFace : FixedDecimal) :
    bondPositionKeyRateDv01 base up down bumpBp direction signedQuantity registeredFace =
      if 0 < bumpBp.scaled ∧ 0 < registeredFace.scaled ∧
          InI128 (exactDifference base up down direction) ∧
          InI128 (exactBondDv01 base up down bumpBp direction signedQuantity registeredFace).num ∧
          InI128 (exactBondDv01 base up down bumpBp direction signedQuantity registeredFace).den then
        tryFrom (Decimal.nearestEven
          (exactBondDv01 base up down bumpBp direction signedQuantity registeredFace * 10 ^ 12))
      else .error .invalidValue := by
  set exact := exactBondDv01 base up down bumpBp direction signedQuantity registeredFace with hdef
  unfold bondPositionKeyRateDv01
  by_cases hchecks : 0 < bumpBp.scaled ∧ 0 < registeredFace.scaled
  · obtain ⟨hbump, hface⟩ := hchecks
    have hpass : rejectIf (bumpBp.isPositive = false ∨ registeredFace.isPositive = false)
        DomainErrorCode.invalidValue = .ok () := by
      rw [rejectIf_eq_ok, not_or, Bool.not_eq_false, Bool.not_eq_false, isPositive_iff,
        isPositive_iff]
      exact ⟨hbump, hface⟩
    rw [hpass, ok_bind, directionalDifference_eq]
    by_cases hdifference : InI128 (exactDifference base up down direction)
    · set d := exactDifference base up down direction with hd
      rw [tryFrom, dif_pos hdifference, ok_bind]
      simp only [hbump, hface, hdifference, true_and]
      have hzero : ∀ x : FixedDecimal, x = .zero ↔ x.scaled = 0 := fun x => FixedDecimal.ext_iff
      by_cases hsmall : d = 0 ∨ signedQuantity.scaled = 0
      · -- nothing to multiply: the value is zero
        have hexact : exact = 0 := by
          have hproduct : d * signedQuantity.scaled = 0 := mul_eq_zero.mpr hsmall
          rw [hdef, exactBondDv01, ← hd, hproduct, Int.cast_zero, zero_div]
        rw [if_pos (by rw [hzero, hzero]; exact hsmall), hexact]
        rw [if_pos ⟨by decide, by decide⟩, zero_mul]
        have hnearest : Decimal.nearestEven 0 = 0 :=
          Decimal.nearestEven_eq_iff.mpr ⟨by norm_num, fun _ => by decide⟩
        rw [hnearest]
        rfl
      · rw [if_neg (by rw [hzero, hzero]; exact hsmall)]
        rw [not_or] at hsmall
        set ns := [d.natAbs, signedQuantity.scaled.natAbs] with hns
        set ds := [direction.bumps, bumpBp.scaled.natAbs, registeredFace.scaled.natAbs] with hds
        have hnpos : ∀ n ∈ ns, 0 < n := by
          simp only [hns, List.forall_mem_cons, Int.natAbs_pos]
          exact ⟨hsmall.1, hsmall.2, by simp⟩
        have hdpos : ∀ n ∈ ds, 0 < n := by
          simp only [hds, List.forall_mem_cons, Int.natAbs_pos]
          exact ⟨bumps_pos direction, hbump.ne', hface.ne', by simp⟩
        obtain ⟨-, hbelow, habove, -⟩ := crossCancel_spec greatestCommonDivisor_eq hnpos ds
        obtain ⟨hnum, hden⟩ := crossCancel_num_den greatestCommonDivisor_eq hnpos hdpos
        have hexact : exact = ((if decide (d < 0) != decide (signedQuantity.scaled < 0) then
            -(ns.prod : ℤ) else ns.prod : ℤ) : ℚ) / (ds.prod : ℤ) := by
          have hnsprod : ns.prod = d.natAbs * signedQuantity.scaled.natAbs := by simp [hns]
          have hdsprod : (ds.prod : ℤ)
              = direction.bumps * bumpBp.scaled * registeredFace.scaled := by
            simp only [hds, List.prod_cons, List.prod_nil, mul_one, Nat.cast_mul,
              Int.natCast_natAbs, abs_of_pos hbump, abs_of_pos hface, mul_assoc]
          rw [hnsprod, ← mul_eq_signed, hdsprod, hdef, exactBondDv01]
        obtain ⟨hnum', hden'⟩ :=
          num_den_signed (decide (d < 0) != decide (signedQuantity.scaled < 0)) hnum hden
        rw [← hexact] at hnum' hden'
        apply roundFraction_eq _ _ hnum' hden'
        · intro n hn
          obtain ⟨m, hm, hdvd⟩ := habove n hn
          exact Nat.pos_of_dvd_of_pos hdvd (hnpos m hm)
        · intro n hn
          obtain ⟨m, hm, hdvd⟩ := hbelow n hn
          exact Nat.pos_of_dvd_of_pos hdvd (hdpos m hm)
    · rw [tryFrom_of_not_range hdifference, if_neg fun h => hdifference h.2.2.1]
      rfl
  · have hfail : rejectIf (bumpBp.isPositive = false ∨ registeredFace.isPositive = false)
        DomainErrorCode.invalidValue = .error .invalidValue := by
      apply if_pos
      by_contra hpass
      rw [not_or, Bool.not_eq_false, Bool.not_eq_false, isPositive_iff, isPositive_iff] at hpass
      exact hchecks hpass
    rw [hfail, if_neg fun h => hchecks ⟨h.1, h.2.1⟩]
    rfl

/-! ### The exact paths -/

/-- The divisor is the bump, once for each time the direction bumps. -/
theorem directionalDivisor_eq_ok {bumpBp divisor : FixedDecimal} {direction : SensitivityDirection}
    (h : directionalDivisor bumpBp direction = .ok divisor) :
    divisor.scaled = direction.bumps * bumpBp.scaled := by
  cases direction with
  | central =>
    rw [directionalDivisor, tryFrom_eq_ok] at h
    rw [h, mul_comm]
    rfl
  | up =>
    obtain rfl := Except.ok.inj h
    exact (one_mul _).symm
  | down =>
    obtain rfl := Except.ok.inj h
    exact (one_mul _).symm

/-- The exact price sensitivity: its product with the divisor is the difference. -/
theorem keyRateDv01_eq_ok {base up down bumpBp value : FixedDecimal}
    {direction : SensitivityDirection} (h : keyRateDv01 base up down bumpBp direction = .ok value) :
    0 < bumpBp.scaled ∧ InI128 (exactDifference base up down direction) ∧
    InI128 (direction.bumps * bumpBp.scaled) ∧
    value.scaled * (direction.bumps * bumpBp.scaled)
      = exactDifference base up down direction * 10 ^ 12 := by
  obtain ⟨⟨⟩, hbump, h⟩ := bind_eq_ok.mp h
  obtain ⟨numerator, hnumerator, h⟩ := bind_eq_ok.mp h
  obtain ⟨divisor, hdivisor, h⟩ := bind_eq_ok.mp h
  obtain ⟨scaled, hscaled, h⟩ := bind_eq_ok.mp h
  obtain ⟨⟨⟩, hexact, h⟩ := bind_eq_ok.mp h
  have hd := directionalDivisor_eq_ok hdivisor
  rw [rejectIf_eq_ok, Bool.not_eq_false, isPositive_iff] at hbump
  rw [directionalDifference_eq, tryFrom_eq_ok] at hnumerator
  rw [tryFrom_eq_ok] at hscaled h
  rw [rejectIf_eq_ok, not_or, not_not] at hexact
  refine ⟨hbump, hnumerator ▸ numerator.range, hd ▸ divisor.range, ?_⟩
  rw [h, ← hd, Int.tdiv_mul_cancel (Int.dvd_of_tmod_eq_zero hexact.2), hscaled, hnumerator]
  rfl

/-- The parts of a fraction in lowest terms fit when the parts it was written with do. -/
theorem inI128_of_fraction {a b : ℤ} (hb : 0 < b) (ha : InI128 a) (hb' : InI128 b) :
    InI128 ((a : ℚ) / b).num ∧ InI128 ((a : ℚ) / b).den := by
  have hnum : ((a : ℚ) / b).num ∣ a := by
    rw [← Rat.divInt_eq_div]
    exact Rat.num_dvd a hb.ne'
  have hden : (((a : ℚ) / b).den : ℤ) ∣ b := by
    rw [← Rat.divInt_eq_div]
    exact Rat.den_dvd a b
  have hpos : (0 : ℤ) < ((a : ℚ) / b).den := by exact_mod_cast ((a : ℚ) / b).den_pos
  have hle := Int.le_of_dvd hb hden
  unfold InI128 at ha hb' ⊢
  refine ⟨?_, by omega, by omega⟩
  have hbq : (0 : ℚ) < b := by exact_mod_cast hb
  -- the numerator has the sign of `a` and divides it
  by_cases hsign : 0 ≤ a
  · have hnonneg : 0 ≤ ((a : ℚ) / b).num := by
      rw [Rat.num_nonneg]
      exact div_nonneg (by exact_mod_cast hsign) hbq.le
    by_cases hzero : a = 0
    · rw [hzero, Int.cast_zero, zero_div]
      decide
    · have hnumle := Int.le_of_dvd (by omega) hnum
      omega
  · have hneg : ((a : ℚ) / b).num ≤ 0 := by
      rw [Rat.num_nonpos]
      apply div_nonpos_of_nonpos_of_nonneg _ hbq.le
      exact_mod_cast (not_le.mp hsign).le
    have hnumle := Int.le_of_dvd (by omega : 0 < -a) ((dvd_neg (α := ℤ)).mpr hnum)
    have hdvd' : -((a : ℚ) / b).num ≤ -a := by
      apply Int.le_of_dvd (by omega)
      rw [neg_dvd, dvd_neg]
      exact hnum
    omega

/-- **The two bond paths agree** on a position of one registered face. -/
theorem bondPosition_of_keyRateDv01 {base up down bumpBp face value : FixedDecimal}
    {direction : SensitivityDirection} (hface : 0 < face.scaled)
    (h : keyRateDv01 base up down bumpBp direction = .ok value) :
    bondPositionKeyRateDv01 base up down bumpBp direction face face = .ok value := by
  obtain ⟨hbump, hdifference, hdivisor, hvalue⟩ := keyRateDv01_eq_ok h
  set d := exactDifference base up down direction with hd
  have hpos : (0 : ℤ) < direction.bumps * bumpBp.scaled :=
    mul_pos (by exact_mod_cast bumps_pos direction) hbump
  -- At full face the exact value is the key rate's own fraction, and it is a whole number of units.
  have hexact : exactBondDv01 base up down bumpBp direction face face
      = (d : ℚ) / (direction.bumps * bumpBp.scaled : ℤ) := by
    have hfaceq : (face.scaled : ℚ) ≠ 0 := by exact_mod_cast hface.ne'
    rw [exactBondDv01, ← hd, Int.cast_mul, Int.cast_mul (_ * _), mul_div_mul_right _ _ hfaceq]
  obtain ⟨hnum, hden⟩ := inI128_of_fraction hpos hdifference hdivisor
  have hrounded : Decimal.nearestEven ((d : ℚ) / (direction.bumps * bumpBp.scaled : ℤ) * 10 ^ 12)
      = value.scaled := by
    have hposq : ((direction.bumps * bumpBp.scaled : ℤ) : ℚ) ≠ 0 := by exact_mod_cast hpos.ne'
    have hwhole : (d : ℚ) / (direction.bumps * bumpBp.scaled : ℤ) * 10 ^ 12 = value.scaled := by
      rw [div_mul_eq_mul_div, div_eq_iff hposq]
      exact_mod_cast hvalue.symm
    rw [hwhole, Decimal.nearestEven_eq_iff, sub_self, abs_zero]
    exact ⟨by norm_num, fun h => by norm_num at h⟩
  rw [bondPositionKeyRateDv01_eq, hexact, if_pos ⟨hbump, hface, hdifference, hnum, hden⟩, hrounded]
  exact tryFrom_eq_ok.mpr rfl

/-- A quotient that is given is exact. -/
theorem exactDiv_eq_ok {numerator denominator value : FixedDecimal}
    (h : exactDiv numerator denominator = .ok value) :
    value.scaled * denominator.scaled = numerator.scaled * 10 ^ 12 := by
  obtain ⟨⟨⟩, -, h⟩ := bind_eq_ok.mp h
  obtain ⟨scaled, hscaled, h⟩ := bind_eq_ok.mp h
  obtain ⟨⟨⟩, hexact, h⟩ := bind_eq_ok.mp h
  rw [tryFrom_eq_ok] at hscaled h
  rw [rejectIf_eq_ok, not_not] at hexact
  rw [h, Int.tdiv_mul_cancel (Int.dvd_of_tmod_eq_zero hexact), hscaled]
  rfl

section
variable {krd face basis conversionFactor value : FixedDecimal} {size : UInt32} {count : Int64}

/-- What the futures path computes before it knows the number of contracts. -/
theorem scaleFutures_eq_ok (h : scaleFuturesKeyRateDv01 krd face basis size conversionFactor count
      = .ok value) :
    count ≠ 0 ∧ ∃ oneContract : FixedDecimal,
      oneContract.toRat = krd.toRat * basis.toRat / face.toRat * size.toNat / conversionFactor.toRat ∧
      value.scaled = oneContract.scaled * count.toInt ∧
      InI128 (oneContract.scaled * count.toInt * 10 ^ 12) ∧
      ∀ other : Int64, other ≠ 0 → ∀ scaled, tryFrom (other.toInt * factor) = .ok scaled →
        scaleFuturesKeyRateDv01 krd face basis size conversionFactor other
          = oneContract.checkedMul scaled := by
  obtain ⟨⟨⟩, hchecks, h⟩ := bind_eq_ok.mp h
  obtain ⟨faceKrd, hfaceKrd, h⟩ := bind_eq_ok.mp h
  obtain ⟨quoteKrd, hquoteKrd, h⟩ := bind_eq_ok.mp h
  obtain ⟨contractSize, hsize, h⟩ := bind_eq_ok.mp h
  obtain ⟨sized, hsized, h⟩ := bind_eq_ok.mp h
  obtain ⟨oneContract, hone, h⟩ := bind_eq_ok.mp h
  obtain ⟨scaledCount, hcount, h⟩ := bind_eq_ok.mp h
  rw [rejectIf_eq_ok] at hchecks
  simp only [not_or, Bool.not_eq_false, isPositive_iff] at hchecks
  obtain ⟨hface, hbasis, hsizePos, hfactor, hcountNe⟩ := hchecks
  refine ⟨hcountNe, oneContract, ?_, ?_, ?_, ?_⟩
  · -- each step is exact, so that the steps multiply out
    have hquote : quoteKrd.scaled * face.scaled = krd.scaled * basis.scaled := by
      rw [exactDiv_eq_ok hquoteKrd]
      exact (checkedMul_eq_ok.mp hfaceKrd).2
    have hsizedExact : sized.scaled = quoteKrd.scaled * size.toNat := by
      have hproduct := (checkedMul_eq_ok.mp hsized).2
      rw [tryFrom_eq_ok.mp hsize, ← mul_assoc] at hproduct
      exact mul_right_cancel₀ (by decide) hproduct
    have honeExact : oneContract.scaled * conversionFactor.scaled
        = quoteKrd.scaled * size.toNat * 10 ^ 12 := by
      rw [exactDiv_eq_ok hone, hsizedExact]
    have hfaceq : (face.scaled : ℚ) ≠ 0 := by exact_mod_cast hface.ne'
    have hfactorq : (conversionFactor.scaled : ℚ) ≠ 0 := by exact_mod_cast hfactor.ne'
    have hquoteq : (quoteKrd.scaled : ℚ) = krd.scaled * basis.scaled / face.scaled := by
      rw [eq_div_iff hfaceq]
      exact_mod_cast hquote
    have honeq : (oneContract.scaled : ℚ)
        = quoteKrd.scaled * size.toNat * 10 ^ 12 / conversionFactor.scaled := by
      rw [eq_div_iff hfactorq]
      exact_mod_cast honeExact
    unfold toRat
    rw [honeq, hquoteq]
    field_simp
  · have hvalue := (checkedMul_eq_ok.mp h).2
    rw [tryFrom_eq_ok.mp hcount, ← mul_assoc] at hvalue
    exact mul_right_cancel₀ (by decide) hvalue
  · have hrange := (checkedMul_eq_ok.mp h).1
    rw [tryFrom_eq_ok.mp hcount, ← mul_assoc] at hrange
    exact hrange
  · intro other hother scaled hscaled
    have hpass : rejectIf (face.isPositive = false ∨ basis.isPositive = false ∨ size = 0 ∨
        conversionFactor.isPositive = false ∨ other = 0) DomainErrorCode.invalidValue = .ok () := by
      rw [rejectIf_eq_ok]
      simp only [not_or, Bool.not_eq_false, isPositive_iff]
      exact ⟨hface, hbasis, hsizePos, hfactor, hother⟩
    unfold scaleFuturesKeyRateDv01
    rw [hpass, ok_bind, hfaceKrd, ok_bind, hquoteKrd, ok_bind, hsize, ok_bind, hsized, ok_bind, hone,
      ok_bind, hscaled, ok_bind]

/-- **The futures path is exact**: a value is the product of its inputs. -/
theorem scaleFutures_exact (h : scaleFuturesKeyRateDv01 krd face basis size conversionFactor count
      = .ok value) :
    value.toRat = krd.toRat * basis.toRat / face.toRat * size.toNat / conversionFactor.toRat
      * count.toInt := by
  obtain ⟨-, oneContract, hone, hvalue, -, -⟩ := scaleFutures_eq_ok h
  rw [← hone, toRat, toRat, hvalue]
  push_cast
  ring

/-- A multiple of `10¹²` is not the least `i128`. -/
theorem inI128_neg {n : ℤ} (h : InI128 (n * 10 ^ 12)) : InI128 (-n * 10 ^ 12) := by
  unfold InI128 at h ⊢
  omega

/-- The opposite number of contracts has the opposite value. -/
theorem scaleFutures_neg {opposite : Int64} (hopposite : opposite.toInt = -count.toInt)
    (h : scaleFuturesKeyRateDv01 krd face basis size conversionFactor count = .ok value) :
    ∃ value', scaleFuturesKeyRateDv01 krd face basis size conversionFactor opposite = .ok value' ∧
      value'.scaled = -value.scaled := by
  obtain ⟨hcount, oneContract, -, hvalue, hrange, hother⟩ := scaleFutures_eq_ok h
  have hne : opposite ≠ 0 := by
    rintro rfl
    apply hcount
    apply Int64.toInt_inj.mp
    rw [Int64.toInt_zero] at hopposite ⊢
    omega
  have hscaledRange : InI128 (opposite.toInt * factor) := by
    have hlow := Int64.le_toInt opposite
    have hhigh := Int64.toInt_lt opposite
    unfold InI128 factor
    omega
  -- The ranges are symmetric but for the least number, which is not reached.
  have hproductRange : InI128 (oneContract.scaled * (opposite.toInt * factor)) := by
    have hneg := inI128_neg hrange
    rw [hopposite]
    convert hneg using 1
    rw [factor]
    push_cast
    ring
  have hvalueRange : InI128 (-value.scaled) := by
    have hneg := inI128_neg hrange
    rw [← hvalue] at hneg
    unfold InI128 at hneg ⊢
    omega
  refine ⟨⟨-value.scaled, hvalueRange⟩, ?_, rfl⟩
  rw [hother opposite hne ⟨_, hscaledRange⟩ (tryFrom_eq_ok.mpr rfl), checkedMul_eq_ok]
  refine ⟨hproductRange, ?_⟩
  show -value.scaled * factor = oneContract.scaled * (opposite.toInt * factor)
  rw [hvalue, hopposite]
  ring

end

/-- **Key-rate arithmetic is exact.** A bond position is the exact fraction rounded once, and it is
    refused only by an input check, by a difference that does not fit, by a numerator or a
    denominator that does not fit in lowest terms, or by a rounded value that does not fit; a
    position of one registered face has the price sensitivity itself; and a futures position is the
    exact product, odd and additive in the number of contracts. -/
theorem key_rate_dv01_exact (base up down bumpBp : FixedDecimal) (direction : SensitivityDirection)
    (quantity face : FixedDecimal) :
    (∀ value, bondPositionKeyRateDv01 base up down bumpBp direction quantity face = .ok value →
      value.scaled = Decimal.nearestEven
        (exactBondDv01 base up down bumpBp direction quantity face * 10 ^ 12)) ∧
    (∀ error, bondPositionKeyRateDv01 base up down bumpBp direction quantity face = .error error →
      bumpBp.scaled ≤ 0 ∨ face.scaled ≤ 0 ∨
      ¬ InI128 (exactDifference base up down direction) ∨
      ¬ InI128 (exactBondDv01 base up down bumpBp direction quantity face).num ∨
      ¬ InI128 (exactBondDv01 base up down bumpBp direction quantity face).den ∨
      ¬ InI128 (Decimal.nearestEven
        (exactBondDv01 base up down bumpBp direction quantity face * 10 ^ 12))) ∧
    (∀ value, keyRateDv01 base up down bumpBp direction = .ok value → 0 < face.scaled →
      bondPositionKeyRateDv01 base up down bumpBp direction face face = .ok value) ∧
    (∀ krd basis size conversionFactor count value,
      scaleFuturesKeyRateDv01 krd face basis size conversionFactor count = .ok value →
      value.toRat = krd.toRat * basis.toRat / face.toRat * size.toNat / conversionFactor.toRat
          * count.toInt ∧
      (∀ opposite : Int64, opposite.toInt = -count.toInt → ∃ value',
        scaleFuturesKeyRateDv01 krd face basis size conversionFactor opposite = .ok value' ∧
        value'.scaled = -value.scaled) ∧
      ∀ (other sum : Int64) (value' value'' : FixedDecimal), sum.toInt = count.toInt + other.toInt →
        scaleFuturesKeyRateDv01 krd face basis size conversionFactor other = .ok value' →
        scaleFuturesKeyRateDv01 krd face basis size conversionFactor sum = .ok value'' →
        value''.scaled = value.scaled + value'.scaled) := by
  refine ⟨?_, ?_, ?_, ?_⟩
  · intro value h
    rw [bondPositionKeyRateDv01_eq] at h
    split at h
    · exact tryFrom_eq_ok.mp h
    · cases h
  · intro error h
    rw [bondPositionKeyRateDv01_eq] at h
    by_contra hgood
    simp only [not_or, not_le, not_not] at hgood
    obtain ⟨hbump, hface, hdifference, hnum, hden, hrounded⟩ := hgood
    rw [if_pos ⟨hbump, hface, hdifference, hnum, hden⟩, tryFrom, dif_pos hrounded] at h
    cases h
  · intro value h hface
    exact bondPosition_of_keyRateDv01 hface h
  · intro krd basis size conversionFactor count value h
    refine ⟨scaleFutures_exact h, fun opposite hopposite => scaleFutures_neg hopposite h, ?_⟩
    -- Contracts add, so their values do.
    intro other sum value' value'' hsum h' h''
    have hadd : value''.toRat = value.toRat + value'.toRat := by
      rw [scaleFutures_exact h, scaleFutures_exact h', scaleFutures_exact h'', hsum]
      push_cast
      ring
    unfold toRat at hadd
    rw [← add_div, div_left_inj' (by positivity)] at hadd
    exact_mod_cast hadd

theorem key_rate_dv01_exact_sample :
    bondPositionKeyRateDv01 ⟨100000000000000, by decide⟩ ⟨99000000000000, by decide⟩
      ⟨101000000000000, by decide⟩ .one .central ⟨100000000000000, by decide⟩
      ⟨100000000000000, by decide⟩ = .ok .one :=
  (key_rate_dv01_exact ⟨100000000000000, by decide⟩ ⟨99000000000000, by decide⟩
    ⟨101000000000000, by decide⟩ .one .central .zero ⟨100000000000000, by decide⟩).2.2.1 .one
    (by decide +kernel) (by decide)

end Ficant
