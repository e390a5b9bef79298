import Ficant.Lib.Fields
import Ficant.Primitives

namespace Ficant

open Lib

/-!
# Decimal values and their texts

`DecimalValue::new` reads a coefficient from text and normalises it
(`ficant-domain/src/primitives/decimal.rs`).

* `DecimalValue.Normal` — what the constructor makes (`normal_of_new`);
* `new_coefficientText` — a normal value is read back from its own text, except that the loop over
  trailing zeros takes the one digit of a zero and with it one decimal place;
* `decimalValue_canonical_iff` — one value for each number, zeros apart.
-/

namespace DecimalValue

/-! ### The constructor -/

/-- Whether the digits end in a zero that the scale can give up. -/
def trimZeros : ℕ → List Char → List Char × ℕ
  | 0, digits => (digits, 0)
  | scale + 1, digits =>
    if digits.getLast? = some '0' then trimZeros scale digits.dropLast else (digits, scale + 1)

/-- The digits, or a zero where there are none. -/
def orZero (digits : List Char) : List Char := if digits.isEmpty then ['0'] else digits

/-- `DecimalValue::new`: at most 28 digits and decimal places; leading zeros go, and trailing ones
    as far as the scale allows. -/
def new (coefficient : String) (scale : ℕ) (unit : UnitRef) : Except DomainErrorCode DecimalValue :=
  let (negative, unsigned) := match coefficient.toList with
    | '-' :: rest => (true, rest)
    | '+' :: rest => (false, rest)
    | chars => (false, chars)
  if unsigned.isEmpty || !unsigned.all Char.isDigit || 28 < unsigned.length || 28 < scale then
    .error .invalidValue
  else
    let (digits, normalizedScale) := trimZeros scale (orZero (unsigned.dropWhile (· = '0')))
    let magnitude : ℤ := Nat.ofDigitChars 10 (orZero digits) 0
    .ok ⟨if negative then -magnitude else magnitude, normalizedScale, unit⟩

/-- `DecimalValue::coefficient`. -/
def coefficientText (v : DecimalValue) : String :=
  String.ofList ((if v.coefficient < 0 then ['-'] else []) ++ Nat.toDigits 10 v.coefficient.natAbs)

/-- What the constructor makes: at most 28 digits and places, and no digit that the scale could give
    up. -/
structure Normal (v : DecimalValue) : Prop where
  digits : v.coefficient.natAbs < 10 ^ 28
  scale : v.scale ≤ 28
  trimmed : v.coefficient ≠ 0 → v.scale = 0 ∨ v.coefficient.natAbs % 10 ≠ 0

/-- **What the loop over the zeros leaves**: a scale and digits that are no more than before,
    without a zero that the scale could give up. -/
theorem trimZeros_spec (scale : ℕ) (digits : List Char) :
    (trimZeros scale digits).2 ≤ scale ∧ (trimZeros scale digits).1.length ≤ digits.length ∧
    (∀ c ∈ (trimZeros scale digits).1, c ∈ digits) ∧
    ((trimZeros scale digits).2 = 0 ∨ (trimZeros scale digits).1.getLast? ≠ some '0') := by
  induction scale generalizing digits with
  | zero => simp [trimZeros]
  | succ scale ih =>
    rw [trimZeros]
    split
    · obtain ⟨h1, h2, h3, h4⟩ := ih digits.dropLast
      refine ⟨by omega, ?_, fun c hc => List.dropLast_subset _ (h3 c hc), h4⟩
      rw [List.length_dropLast] at h2
      omega
    · rename_i hlast
      exact ⟨le_rfl, le_rfl, fun _ h => h, .inr hlast⟩

/-- The last digit is the lowest one. -/
theorem ofDigitChars_concat (l : List Char) (c : Char) :
    Nat.ofDigitChars 10 (l ++ [c]) 0 = 10 * Nat.ofDigitChars 10 l 0 + (c.toNat - 48) := by
  rw [Nat.ofDigitChars_append, Nat.ofDigitChars_cons, Nat.ofDigitChars_nil]
  rfl

/-- A digit lies between `0` and `9`. -/
theorem digit_le {c : Char} (h : c.isDigit = true) : 48 ≤ c.toNat ∧ c.toNat ≤ 57 := by
  simp only [Char.isDigit, Bool.and_eq_true, decide_eq_true_eq, ge_iff_le] at h
  exact ⟨UInt32.le_iff_toNat_le.mp h.1, UInt32.le_iff_toNat_le.mp h.2⟩

/-- The number of some digits fits into as many. -/
theorem ofDigitChars_lt {l : List Char} (h : ∀ c ∈ l, c.isDigit) :
    Nat.ofDigitChars 10 l 0 < 10 ^ l.length := by
  induction l using List.reverseRecOn with
  | nil => simp
  | append_singleton l c ih =>
    have hc := digit_le (h c (by simp))
    have hl := ih fun d hd => h d (by simp [hd])
    rw [ofDigitChars_concat, List.length_append, List.length_singleton, pow_succ]
    omega

/-- The number of digits that do not end in a zero does not either. -/
theorem ofDigitChars_mod {l : List Char} (h : ∀ c ∈ l, c.isDigit) (hne : l ≠ [])
    (hlast : l.getLast? ≠ some '0') : Nat.ofDigitChars 10 l 0 % 10 ≠ 0 := by
  induction l using List.reverseRecOn with
  | nil => exact absurd rfl hne
  | append_singleton l c _ =>
    have hc := digit_le (h c (by simp))
    have hzero : c.toNat ≠ 48 := by
      intro heq
      apply hlast
      rw [List.getLast?_concat, Option.some.injEq]
      exact Char.toNat_inj.mp heq
    rw [ofDigitChars_concat]
    omega

/-- A zero in the place of no digits is a digit. -/
theorem isDigit_orZero {digits : List Char} (h : ∀ c ∈ digits, c.isDigit) :
    ∀ c ∈ orZero digits, c.isDigit := by
  rw [orZero]
  split
  · simp
  · exact h

theorem length_orZero_le {digits : List Char} {n : ℕ} (hn : 0 < n) (h : digits.length ≤ n) :
    (orZero digits).length ≤ n := by
  rw [orZero]
  split
  · show 1 ≤ n
    omega
  · exact h

/-- The constructor makes normal values. -/
theorem normal_of_new {coefficient : String} {scale : ℕ} {unit : UnitRef} {v : DecimalValue}
    (h : new coefficient scale unit = .ok v) : v.Normal := by
  rw [new] at h
  generalize (match coefficient.toList with
    | '-' :: rest => (true, rest)
    | '+' :: rest => (false, rest)
    | chars => (false, chars)) = sign at h
  obtain ⟨negative, unsigned⟩ := sign
  simp only at h
  split at h
  · cases h
  rename_i hcheck
  simp only [Bool.or_eq_true, List.isEmpty_iff, Bool.not_eq_true', List.all_eq_false,
    decide_eq_true_eq, not_or, not_lt] at hcheck
  obtain ⟨⟨⟨hne, hdigits⟩, hlength⟩, hscale⟩ := hcheck
  have hunsigned : ∀ c ∈ unsigned, c.isDigit = true := by
    intro c hc
    by_contra hbad
    exact hdigits ⟨c, hc, hbad⟩
  -- Leading zeros go first, then trailing ones are traded against the scale.
  have hstart : ∀ c ∈ orZero (unsigned.dropWhile (· = '0')), c.isDigit = true :=
    isDigit_orZero fun c hc => hunsigned c (List.dropWhile_suffix _ |>.subset hc)
  have hshort : (orZero (unsigned.dropWhile (· = '0'))).length ≤ 28 :=
    length_orZero_le (by decide) (le_trans (List.dropWhile_suffix _).length_le hlength)
  obtain ⟨hs, hl, hm, ht⟩ := trimZeros_spec scale (orZero (unsigned.dropWhile (· = '0')))
  generalize trimZeros scale (orZero (unsigned.dropWhile (· = '0'))) = trimmed at *
  obtain ⟨digits, normalizedScale⟩ := trimmed
  simp only at h hs hl hm ht
  obtain rfl := Except.ok.inj h
  have hfinal : ∀ c ∈ orZero digits, c.isDigit = true :=
    isDigit_orZero fun c hc => hstart c (hm c hc)
  have habs : (if negative = true then -(Nat.ofDigitChars 10 (orZero digits) 0 : ℤ)
      else (Nat.ofDigitChars 10 (orZero digits) 0 : ℤ)).natAbs =
      Nat.ofDigitChars 10 (orZero digits) 0 := by
    split <;> simp
  refine ⟨?_, ?_, ?_⟩
  · simp only [habs]
    calc Nat.ofDigitChars 10 (orZero digits) 0 < 10 ^ (orZero digits).length := ofDigitChars_lt hfinal
      _ ≤ 10 ^ 28 := Nat.pow_le_pow_right (by decide)
        (length_orZero_le (by decide) (le_trans hl hshort))
  · exact le_trans hs hscale
  · intro hcoefficient
    simp only [habs]
    -- Trimming stops at scale zero or at a last digit that is not zero.
    rcases ht with ht | ht
    · exact .inl ht
    · right
      by_cases hempty : digits = []
      · subst hempty
        exact absurd (by split <;> simp [orZero, Nat.ofDigitChars]) hcoefficient
      · rw [orZero, if_neg (by simpa using hempty)] at hfinal ⊢
        exact ofDigitChars_mod hfinal hempty ht

/-- The constructor keeps the unit. -/
theorem unit_of_new {coefficient : String} {scale : ℕ} {unit : UnitRef} {v : DecimalValue}
    (h : new coefficient scale unit = .ok v) : v.unit = unit := by
  rw [new] at h
  generalize (match coefficient.toList with
    | '-' :: rest => (true, rest)
    | '+' :: rest => (false, rest)
    | chars => (false, chars)) = sign at h
  simp only at h
  split at h
  · cases h
  · obtain rfl := Except.ok.inj h
    rfl

/-- The digits of a positive number start with none that is zero. -/
theorem head_toDigits {n : ℕ} (h : 0 < n) : (Nat.toDigits 10 n).head? ≠ some '0' := by
  induction n using Nat.strongRecOn with
  | ind n ih =>
    by_cases hn : n < 10
    · rw [Nat.toDigits_of_lt_base hn]
      simp
      omega
    · rw [Nat.toDigits_of_base_le (by decide) (by omega), List.head?_append]
      have := ih (n / 10) (by omega) (by omega)
      rw [Option.or_of_isSome]
      · exact this
      · simp [Nat.toDigits_ne_nil]

/-- The last digit is the remainder. -/
theorem getLast_toDigits (n : ℕ) : (Nat.toDigits 10 n).getLast? = some (n % 10).digitChar := by
  by_cases hn : n < 10
  · rw [Nat.toDigits_of_lt_base hn, Nat.mod_eq_of_lt hn]
    rfl
  · rw [Nat.toDigits_of_base_le (by decide) (by omega), List.getLast?_concat]

/-- There is nothing to drop in front of the digits of a positive number. -/
theorem dropWhile_toDigits {n : ℕ} (h : 0 < n) :
    (Nat.toDigits 10 n).dropWhile (· = '0') = Nat.toDigits 10 n := by
  have hhead := head_toDigits h
  cases hd : Nat.toDigits 10 n with
  | nil => rfl
  | cons c l =>
    rw [hd] at hhead
    rw [List.dropWhile_cons, if_neg]
    simpa using hhead

/-- The sign and the digits of the text of an integer. -/
theorem sign_decimalChars (n : ℤ) :
    (match (String.ofList (decimalChars n)).toList with
      | '-' :: rest => (true, rest)
      | '+' :: rest => (false, rest)
      | chars => (false, chars)) = (decide (n < 0), Nat.toDigits 10 n.natAbs) := by
  rw [String.toList_ofList, decimalChars]
  by_cases hneg : n < 0
  · simp [hneg]
  · rw [if_neg hneg, List.nil_append, decide_eq_false hneg]
    cases hd : Nat.toDigits 10 n.natAbs with
    | nil => rfl
    | cons c l =>
      have hc : c.isDigit = true := isDigit_of_mem_toDigits (hd ▸ List.mem_cons_self)
      split
      · rename_i heq
        cases heq
        exact absurd hc (by decide)
      · rename_i heq
        cases heq
        exact absurd hc (by decide)
      · rfl

/-- The parse of the text of a normal value: nothing changes, except that a zero loses one place. -/
theorem new_coefficientText {v : DecimalValue} (h : v.Normal) :
    new v.coefficientText v.scale v.unit =
      .ok (if v.coefficient = 0 then { v with scale := v.scale - 1 } else v) := by
  obtain ⟨coefficient, scale, unit⟩ := v
  obtain ⟨hdigits, hscale, htrimmed⟩ := h
  simp only at hdigits hscale htrimmed
  have hlength : (Nat.toDigits 10 coefficient.natAbs).length ≤ 28 :=
    (Nat.length_toDigits_le_iff (by decide) (by decide)).mpr hdigits
  have hall : (Nat.toDigits 10 coefficient.natAbs).all Char.isDigit = true :=
    List.all_eq_true.mpr fun c hc => Nat.isDigit_of_mem_toDigits (by decide) (by decide) hc
  have hsign : (match (coefficientText ⟨coefficient, scale, unit⟩).toList with
      | '-' :: rest => (true, rest)
      | '+' :: rest => (false, rest)
      | chars => (false, chars)) =
      (decide (coefficient < 0), Nat.toDigits 10 coefficient.natAbs) := sign_decimalChars coefficient
  rw [new, hsign]
  simp only
  rw [if_neg (by simp [hall, Nat.toDigits_ne_nil]; omega)]
  -- Zero loses its scale; of any other coefficient no zero can be trimmed.
  by_cases hzero : coefficient = 0
  · subst hzero
    cases scale with
    | zero => rfl
    | succ scale =>
      cases scale with
      | zero => rfl
      | succ scale => rfl
  · have hpos : 0 < coefficient.natAbs := Int.natAbs_pos.mpr hzero
    have hne : orZero (Nat.toDigits 10 coefficient.natAbs) = Nat.toDigits 10 coefficient.natAbs := by
      rw [orZero, if_neg (by simp [Nat.toDigits_ne_nil])]
    have htrim : trimZeros scale (Nat.toDigits 10 coefficient.natAbs) =
        (Nat.toDigits 10 coefficient.natAbs, scale) := by
      cases scale with
      | zero => rfl
      | succ scale =>
        rw [trimZeros, if_neg]
        rw [getLast_toDigits]
        have := htrimmed hzero
        simp
        omega
    rw [dropWhile_toDigits hpos, hne, htrim, if_neg hzero]
    simp only [hne, Nat.ofDigitChars_toDigits (show 1 < 10 by decide) (show 10 ≤ 10 by decide)]
    congr 2
    by_cases hneg : coefficient < 0
    · simp only [hneg, decide_true, if_true]
      omega
    · simp only [hneg, decide_false]
      simp
      omega

/-! ### Canonical values -/

/-- The number a coefficient spells, sign and digits. -/
def coefficientValue (coefficient : String) : ℤ :=
  let (negative, unsigned) := match coefficient.toList with
    | '-' :: rest => (true, rest)
    | '+' :: rest => (false, rest)
    | chars => (false, chars)
  if negative then -(Nat.ofDigitChars 10 unsigned 0 : ℤ) else Nat.ofDigitChars 10 unsigned 0

/-- `coefficient × 10⁻ˢᶜᵃˡᵉ`. -/
def textValue (coefficient : String) (scale : ℕ) : ℚ := coefficientValue coefficient / 10 ^ scale

/-- A number comes back from its text. -/
theorem coefficientValue_decimalChars (n : ℤ) :
    coefficientValue (String.ofList (decimalChars n)) = n := by
  rw [coefficientValue, sign_decimalChars]
  simp only [Nat.ofDigitChars_toDigits (show 1 < 10 by decide) (show 10 ≤ 10 by decide),
    decide_eq_true_eq]
  split <;> omega

/-- Which integers the constructor takes. -/
theorem new_decimalChars_iff {n : ℤ} {scale : ℕ} {unit : UnitRef} :
    (∃ v, new (String.ofList (decimalChars n)) scale unit = .ok v) ↔ n.natAbs < 10 ^ 28 ∧
    scale ≤ 28 := by
  have hlength : (Nat.toDigits 10 n.natAbs).length ≤ 28 ↔ n.natAbs < 10 ^ 28 :=
    Nat.length_toDigits_le_iff (by decide) (by decide)
  have hall : (Nat.toDigits 10 n.natAbs).all Char.isDigit = true :=
    List.all_eq_true.mpr fun c hc => isDigit_of_mem_toDigits hc
  have hne : (Nat.toDigits 10 n.natAbs).isEmpty = false := by simp [Nat.toDigits_ne_nil]
  rw [new, sign_decimalChars, ← hlength]
  simp only [hall, hne, Bool.not_true, Bool.false_or, Bool.or_false, Bool.or_eq_true,
    decide_eq_true_eq]
  split
  · rename_i hbad
    exact iff_of_false (fun ⟨_, h⟩ => nomatch h) (by omega)
  · rename_i hgood
    exact iff_of_true ⟨_, rfl⟩ (by omega)

theorem ofDigitChars_orZero (digits : List Char) :
    Nat.ofDigitChars 10 (orZero digits) 0 = Nat.ofDigitChars 10 digits 0 := by
  rw [orZero]
  split
  · rename_i h
    rw [List.isEmpty_iff.mp h]
    rfl
  · rfl

/-- Leading zeros do not change a number. -/
theorem ofDigitChars_dropZeros (digits : List Char) :
    Nat.ofDigitChars 10 (digits.dropWhile (· = '0')) 0 = Nat.ofDigitChars 10 digits 0 := by
  induction digits with
  | nil => rfl
  | cons c digits ih =>
    rw [List.dropWhile_cons]
    split
    · rename_i hc
      obtain rfl : c = '0' := of_decide_eq_true hc
      rw [ih, Nat.ofDigitChars_cons]
      rfl
    · rfl

/-- Each zero that goes takes one decimal place with it. -/
theorem ofDigitChars_trimZeros (scale : ℕ) (digits : List Char) :
    Nat.ofDigitChars 10 digits 0 =
      Nat.ofDigitChars 10 (trimZeros scale digits).1 0 *
        10 ^ (scale - (trimZeros scale digits).2) := by
  induction scale generalizing digits with
  | zero => simp [trimZeros]
  | succ scale ih =>
    rw [trimZeros]
    split
    · rename_i hlast
      obtain ⟨front, rfl⟩ := List.getLast?_eq_some_iff.mp hlast
      have hle := (trimZeros_spec scale front).1
      rw [List.dropLast_concat, ofDigitChars_concat, ih front,
        Nat.succ_sub hle, pow_succ]
      simp only [Char.reduceToNat]
      ring
    · simp

/-- Only zeros make zero. -/
theorem zeros_of_ofDigitChars {digits : List Char} (hdigits : ∀ c ∈ digits, c.isDigit)
    (h : Nat.ofDigitChars 10 digits 0 = 0) : ∀ c ∈ digits, c = '0' := by
  induction digits using List.reverseRecOn with
  | nil => simp
  | append_singleton l c ih =>
    have hc := digit_le (hdigits c (by simp))
    rw [ofDigitChars_concat] at h
    intro d hd
    rcases List.mem_append.mp hd with hd | hd
    · exact ih (fun e he => hdigits e (by simp [he])) (by omega) d hd
    · obtain rfl := List.mem_singleton.mp hd
      exact Char.toNat_inj.mp (show d.toNat = 48 by omega)

/-- A zero keeps its scale but for the one place its digit takes. -/
theorem trimZeros_zero (scale : ℕ) : (trimZeros scale ['0']).2 = scale - 1 := by
  cases scale with
  | zero => rfl
  | succ scale =>
    show (trimZeros scale []).2 = scale
    cases scale <;> rfl

/-- What the constructor makes of its text: the same number, and for a zero one decimal place
    less. -/
theorem value_of_new {coefficient : String} {scale : ℕ} {unit : UnitRef} {v : DecimalValue}
    (h : new coefficient scale unit = .ok v) :
    v.scale ≤ scale ∧ coefficientValue coefficient = v.coefficient * 10 ^ (scale - v.scale) ∧
    (coefficientValue coefficient = 0 → v.scale = scale - 1) := by
  rw [new] at h
  rw [coefficientValue]
  generalize (match coefficient.toList with
    | '-' :: rest => (true, rest)
    | '+' :: rest => (false, rest)
    | chars => (false, chars)) = sign at h ⊢
  obtain ⟨negative, unsigned⟩ := sign
  simp only at h ⊢
  split at h
  · cases h
  rename_i hcheck
  have hunsigned : ∀ c ∈ unsigned, c.isDigit = true := by
    simp only [Bool.or_eq_true, Bool.not_eq_true', not_or, Bool.not_eq_false] at hcheck
    exact List.all_eq_true.mp hcheck.1.1.2
  obtain rfl := Except.ok.inj h
  -- Neither the leading zeros nor the trimmed ones change the value.
  have hvalue := ofDigitChars_trimZeros scale (orZero (unsigned.dropWhile (· = '0')))
  rw [ofDigitChars_orZero, ofDigitChars_dropZeros] at hvalue
  refine ⟨(trimZeros_spec _ _).1, ?_, ?_⟩
  · simp only [ofDigitChars_orZero, hvalue]
    push_cast
    split <;> ring
  -- A text that reads as zero has nothing but zeros in it.
  · intro hzero
    have hnumber : Nat.ofDigitChars 10 unsigned 0 = 0 := by
      split at hzero <;> omega
    have hnil : unsigned.dropWhile (· = '0') = [] := by
      rw [List.dropWhile_eq_nil_iff]
      intro c hc
      exact decide_eq_true (zeros_of_ofDigitChars hunsigned hnumber c hc)
    simp only [hnil]
    exact trimZeros_zero scale

/-- Normal values of the same number have the same coefficient and scale, zeros apart. -/
theorem Normal.unique {v w : DecimalValue} (hv : v.Normal) (hw : w.Normal)
    (hne : v.coefficient ≠ 0)
    (h : v.coefficient * 10 ^ w.scale = w.coefficient * 10 ^ v.scale) :
    v.coefficient = w.coefficient ∧ v.scale = w.scale := by
  -- A larger scale would leave a zero at the end of the coefficient.
  have key : ∀ {a b : DecimalValue}, b.Normal → b.coefficient ≠ 0 →
      a.coefficient * 10 ^ b.scale = b.coefficient * 10 ^ a.scale → b.scale ≤ a.scale := by
    intro a b hb hbne hab
    by_contra hlt
    obtain ⟨k, hk⟩ := Nat.exists_eq_add_of_lt (not_le.mp hlt)
    have hdvd : b.coefficient = a.coefficient * 10 ^ k * 10 := by
      have : b.coefficient * 10 ^ a.scale = a.coefficient * 10 ^ k * 10 * 10 ^ a.scale := by
        rw [← hab, hk]
        ring
      exact mul_right_cancel₀ (by positivity) this
    rcases hb.trimmed hbne with h0 | h0
    · omega
    · omega
  have hwne : w.coefficient ≠ 0 := by
    intro h0
    rw [h0, zero_mul] at h
    exact (mul_ne_zero hne (by positivity)) h
  have hscale : v.scale = w.scale := le_antisymm (key hv hne h.symm) (key hw hwne h)
  rw [hscale] at h
  exact ⟨mul_right_cancel₀ (by positivity) h, hscale⟩

theorem textValue_of_new {coefficient : String} {scale : ℕ} {unit : UnitRef} {v : DecimalValue}
    (h : new coefficient scale unit = .ok v) :
    textValue coefficient scale = (v.coefficient : ℚ) / 10 ^ v.scale := by
  obtain ⟨hle, hvalue, -⟩ := value_of_new h
  obtain ⟨k, rfl⟩ := Nat.exists_eq_add_of_le hle
  rw [textValue, hvalue, Nat.add_sub_cancel_left, pow_add]
  push_cast
  rw [mul_div_mul_right _ _ (by positivity)]

theorem coefficient_eq_zero_iff {coefficient : String} {scale : ℕ} {unit : UnitRef}
    {v : DecimalValue} (h : new coefficient scale unit = .ok v) :
    v.coefficient = 0 ↔ coefficientValue coefficient = 0 := by
  obtain ⟨-, hvalue, -⟩ := value_of_new h
  rw [hvalue]
  constructor
  · intro h0
    rw [h0, zero_mul]
  · intro h0
    exact (mul_eq_zero.mp h0).resolve_right (by positivity)

/-- The constructor makes one value of a number, except of zero: there the scale of the text
    decides. -/
theorem new_eq_iff {c₁ c₂ : String} {s₁ s₂ : ℕ} {unit : UnitRef} {v w : DecimalValue}
    (hv : new c₁ s₁ unit = .ok v) (hw : new c₂ s₂ unit = .ok w) :
    v = w ↔ textValue c₁ s₁ = textValue c₂ s₂ ∧
      (coefficientValue c₁ = 0 → s₁ - 1 = s₂ - 1) := by
  rw [textValue_of_new hv, textValue_of_new hw, ← coefficient_eq_zero_iff hv]
  have hunit : v.unit = w.unit := (unit_of_new hv).trans (unit_of_new hw).symm
  constructor
  · rintro rfl
    refine ⟨rfl, fun hzero => ?_⟩
    have h₁ := (value_of_new hv).2.2 ((coefficient_eq_zero_iff hv).mp hzero)
    have h₂ := (value_of_new hw).2.2 ((coefficient_eq_zero_iff hw).mp hzero)
    omega
  rintro ⟨hvalue, hscale⟩
  have hcross : v.coefficient * 10 ^ w.scale = w.coefficient * 10 ^ v.scale := by
    rw [div_eq_div_iff (by positivity) (by positivity)] at hvalue
    exact_mod_cast hvalue
  -- Two zeros agree in scale by assumption, two other values by their normal form.
  have hsame : v.coefficient = w.coefficient ∧ v.scale = w.scale := by
    by_cases hzero : v.coefficient = 0
    · rw [hzero, zero_mul, eq_comm] at hcross
      have hzero' : w.coefficient = 0 := (mul_eq_zero.mp hcross).resolve_right (by positivity)
      have h₁ := (value_of_new hv).2.2 ((coefficient_eq_zero_iff hv).mp hzero)
      have h₂ := (value_of_new hw).2.2 ((coefficient_eq_zero_iff hw).mp hzero')
      have := hscale hzero
      exact ⟨hzero.trans hzero'.symm, by omega⟩
    · exact (normal_of_new hv).unique (normal_of_new hw) hzero hcross
  obtain ⟨coefficient, scale, _⟩ := v
  obtain ⟨coefficient', scale', _⟩ := w
  obtain ⟨rfl, rfl⟩ := hsame
  cases hunit
  rfl

/-- **Canonical but for zeros.** Two accepted texts of one unit make equal values exactly when they
    spell the same number, unless both spell zero and keep different scales (a zero gives up one
    decimal place, not all of them); and a value is read back from its own coefficient and scale
    unless it was a zero with two decimal places or more. -/
theorem decimalValue_canonical_iff {c : String} {s : ℕ} {unit : UnitRef} {v : DecimalValue}
    (hv : new c s unit = .ok v) :
    (∀ (c' : String) (s' : ℕ) (w : DecimalValue), new c' s' unit = .ok w →
      ((v = w ↔ textValue c s = textValue c' s') ↔
        ¬ (coefficientValue c = 0 ∧ coefficientValue c' = 0 ∧ s - 1 ≠ s' - 1))) ∧
    (new v.coefficientText v.scale unit = .ok v ↔ ¬ (coefficientValue c = 0 ∧ 2 ≤ s)) := by
  constructor
  · intro c' s' w hw
    rw [new_eq_iff hv hw]
    -- Values that are equal are both zero or neither is.
    have hzeros : textValue c s = textValue c' s' → coefficientValue c = 0 →
        coefficientValue c' = 0 := by
      intro h h₁
      rw [textValue, textValue, h₁, Int.cast_zero, zero_div, eq_comm, div_eq_zero_iff] at h
      exact_mod_cast h.resolve_right (by positivity)
    have hequal : coefficientValue c = 0 → coefficientValue c' = 0 →
        textValue c s = textValue c' s' := by
      intro h₁ h₂
      rw [textValue, textValue, h₁, h₂, Int.cast_zero, zero_div, zero_div]
    constructor
    · rintro hiff ⟨h₁, h₂, hne⟩
      exact hne ((hiff.mpr (hequal h₁ h₂)).2 h₁)
    · intro hnot
      refine ⟨fun h => h.1, fun h => ⟨h, fun h₁ => ?_⟩⟩
      by_contra hne
      exact hnot ⟨h₁, hzeros h h₁, hne⟩
  -- The text is read back as it is, unless zero carries a scale.
  · obtain rfl := unit_of_new hv
    rw [new_coefficientText (normal_of_new hv), Except.ok.injEq, ← coefficient_eq_zero_iff hv]
    by_cases hzero : v.coefficient = 0
    · have hscale := (value_of_new hv).2.2 ((coefficient_eq_zero_iff hv).mp hzero)
      have heq : { v with scale := v.scale - 1 } = v ↔ v.scale - 1 = v.scale :=
        ⟨fun h => congrArg DecimalValue.scale h, fun h => by rw [h]⟩
      rw [if_pos hzero, heq]
      omega
    · simp [hzero]

/-- The unit of the samples below. -/
def sampleUnit : UnitRef := ⟨⟨0⟩, .first⟩

theorem decimalValue_canonical_samples :
    ∃ v w : DecimalValue, new "+0001000" 3 sampleUnit = .ok v ∧ new "1" 0 sampleUnit = .ok w ∧
      (v = w ↔ textValue "+0001000" 3 = textValue "1" 0) ∧
      new v.coefficientText v.scale sampleUnit = .ok v := by
  refine ⟨⟨1, 0, sampleUnit⟩, ⟨1, 0, sampleUnit⟩, by decide +kernel, by decide +kernel, ?_, ?_⟩
  · have hv : new "+0001000" 3 sampleUnit = .ok ⟨1, 0, sampleUnit⟩ := by decide +kernel
    exact ((decimalValue_canonical_iff hv).1 "1" 0 ⟨1, 0, sampleUnit⟩ (by decide +kernel)).mpr
      (by decide +kernel)
  · have hv : new "1" 0 sampleUnit = .ok ⟨1, 0, sampleUnit⟩ := by decide +kernel
    exact (decimalValue_canonical_iff hv).2.mpr (by decide +kernel)

/-- Zeros with one and with two decimal places spell the same number and make different values,
    and the zero with three places is not read back. -/
theorem zero_not_canonical :
    (∃ v w : DecimalValue, new "0" 1 sampleUnit = .ok v ∧ new "0" 2 sampleUnit = .ok w ∧
      textValue "0" 1 = textValue "0" 2 ∧ v ≠ w) ∧
    (∃ v : DecimalValue, new "0" 3 sampleUnit = .ok v ∧
      new v.coefficientText v.scale sampleUnit ≠ .ok v) :=
  ⟨⟨⟨0, 0, sampleUnit⟩, ⟨0, 1, sampleUnit⟩, by decide +kernel, by decide +kernel,
    by decide +kernel, by decide +kernel⟩,
   ⟨⟨0, 2, sampleUnit⟩, by decide +kernel, by decide +kernel⟩⟩

end DecimalValue
end Ficant
