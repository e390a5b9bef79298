import Mathlib

namespace Lib

/-!
# Exact decimals

`Decimal` is the ring of rationals with a finite decimal expansion.  Sums, differences and
products of decimals are decimals; a quotient is not, so a division is either by a power of ten
(`shift`) or is rounded to a fixed number of places (`truncate`, `roundTiesEven`).

* `decimals` — the subring of `ℚ`, from which `Decimal` inherits its ring and its order;
* `Decimal.nearestEven_eq_iff` — the whole number a rounding to even picks;
* `Decimal.canonical` — the plain text of a decimal without trailing zeros;
* `Decimal.canonical_injective` — two decimals with the same text are equal.
-/

/-! ### Digits of a whole number -/

/-- A whole number in decimal, padded with zeros to `width` digits. -/
def paddedDigits (width n : ℕ) : List Char := (Nat.toDigits 10 n).leftpad width '0'

/-- Only digits are written. -/
theorem paddedDigits_isDigit (width n : ℕ) : ∀ c ∈ paddedDigits width n, c.isDigit := by
  intro c hc
  rw [paddedDigits, List.leftpad, List.mem_append, List.mem_replicate] at hc
  rcases hc with ⟨-, rfl⟩ | hc
  · decide
  · exact Nat.isDigit_of_mem_toDigits (by decide) (by decide) hc

/-- The zeros in front do not change the number. -/
theorem paddedDigits_value (width n : ℕ) : Nat.ofDigitChars 10 (paddedDigits width n) 0 = n := by
  rw [paddedDigits, List.leftpad, Nat.ofDigitChars_append, Nat.ofDigitChars_replicate_zero,
    Nat.mul_zero]
  exact Nat.ofDigitChars_toDigits (by decide) (by decide)

/-- Digits of one width tell numbers apart. -/
theorem paddedDigits_inj {width m n : ℕ} (h : paddedDigits width m = paddedDigits width n) :
    m = n := by
  rw [← paddedDigits_value width m, ← paddedDigits_value width n, h]

/-- A number below `10 ^ width` takes exactly `width` characters. -/
theorem length_paddedDigits {width n : ℕ} (hw : 0 < width) (h : n < 10 ^ width) :
    (paddedDigits width n).length = width := by
  rw [paddedDigits, List.leftpad, List.length_append, List.length_replicate]
  have hle : (Nat.toDigits 10 n).length ≤ width :=
    (Nat.length_toDigits_le_iff (by decide) hw).mpr h
  omega

/-! ### The ring of decimals -/

/-- The rationals that become whole after multiplication by a power of ten. -/
def decimals : Subring ℚ where
  carrier := {q | ∃ s : ℕ, (q * 10 ^ s).den = 1}
  one_mem' := ⟨0, by norm_num⟩
  zero_mem' := ⟨0, by norm_num⟩
  mul_mem' := by
    rintro a b ⟨s, hs⟩ ⟨t, ht⟩
    refine ⟨s + t, ?_⟩
    have ha := Rat.den_eq_one_iff _ |>.mp hs
    have hb := Rat.den_eq_one_iff _ |>.mp ht
    rw [show a * b * 10 ^ (s + t) = (a * 10 ^ s) * (b * 10 ^ t) by ring, ← ha, ← hb,
      ← Int.cast_mul]
    exact Rat.den_intCast _
  add_mem' := by
    rintro a b ⟨s, hs⟩ ⟨t, ht⟩
    refine ⟨s + t, ?_⟩
    have ha := Rat.den_eq_one_iff _ |>.mp hs
    have hb := Rat.den_eq_one_iff _ |>.mp ht
    rw [show (a + b) * 10 ^ (s + t) = (a * 10 ^ s) * 10 ^ t + (b * 10 ^ t) * 10 ^ s by ring,
      ← ha, ← hb]
    exact_mod_cast Rat.den_intCast ((a * 10 ^ s).num * 10 ^ t + (b * 10 ^ t).num * 10 ^ s)
  neg_mem' := by
    rintro a ⟨s, hs⟩
    exact ⟨s, by rw [neg_mul, Rat.neg_den]; exact hs⟩

/-- Exact decimal numbers. -/
def Decimal : Type := decimals

namespace Decimal

instance : CommRing Decimal := inferInstanceAs (CommRing decimals)
instance : LinearOrder Decimal := inferInstanceAs (LinearOrder decimals)
instance : IsStrictOrderedRing Decimal := inferInstanceAs (IsStrictOrderedRing decimals)
instance : Coe Decimal ℚ := ⟨Subtype.val⟩
instance : Inhabited Decimal := ⟨0⟩

/-- The literals of the models below. -/
instance two_atLeastTwo : Nat.AtLeastTwo 2 := ⟨le_rfl⟩

instance ten_atLeastTwo : Nat.AtLeastTwo 10 := ⟨by decide⟩

@[ext] theorem ext {x y : Decimal} (h : (x : ℚ) = y) : x = y := Subtype.ext h

@[simp, norm_cast] theorem coe_add (x y : Decimal) : ((x + y : Decimal) : ℚ) = x + y := rfl
@[simp, norm_cast] theorem coe_mul (x y : Decimal) : ((x * y : Decimal) : ℚ) = x * y := rfl
@[simp, norm_cast] theorem coe_le {x y : Decimal} : (x : ℚ) ≤ y ↔ x ≤ y := Iff.rfl

/-- An integer over a power of ten is a decimal. -/
theorem scaled_mem (m : ℤ) (s : ℕ) : (m : ℚ) / 10 ^ s ∈ decimals := by
  refine ⟨s, ?_⟩
  rw [div_mul_cancel₀ _ (by positivity)]
  exact Rat.den_intCast _

/-- The decimal `m · 10⁻ˢ`. -/
def scaled (m : ℤ) (s : ℕ) : Decimal := ⟨(m : ℚ) / 10 ^ s, scaled_mem m s⟩

/-- Division by `10ˢ`, which is exact. -/
def shift (x : Decimal) (s : ℕ) : Decimal := x * scaled 1 s

theorem shift_add (x y : Decimal) (s : ℕ) : (x + y).shift s = x.shift s + y.shift s :=
  add_mul x y _

theorem shift_zero (s : ℕ) : (0 : Decimal).shift s = 0 := zero_mul _

/-- A shift may be done before or after a product. -/
theorem shift_mul (x y : Decimal) (s : ℕ) : (x * y).shift s = x * y.shift s := mul_assoc x y _

/-! ### Rounding to a number of places -/

/-- `q` cut off after `places` decimal places (toward zero). -/
def truncate (places : ℕ) (q : ℚ) : Decimal :=
  scaled (if 0 ≤ q then ⌊q * 10 ^ places⌋ else ⌈q * 10 ^ places⌉) places

/-- The whole number nearest to `q`, the even one of two equally near ones. -/
def nearestEven (q : ℚ) : ℤ :=
  let below := ⌊q⌋
  if q - below < 1 / 2 then below
  else if 1 / 2 < q - below then below + 1
  else if below % 2 = 0 then below else below + 1

/-- The nearest whole number is within one half, and even when it is exactly one half away. -/
theorem nearestEven_spec (q : ℚ) :
    |q - nearestEven q| ≤ 1 / 2 ∧ (|q - nearestEven q| = 1 / 2 → Even (nearestEven q)) := by
  have hlow : (⌊q⌋ : ℚ) ≤ q := Int.floor_le q
  have hhigh : q < ⌊q⌋ + 1 := Int.lt_floor_add_one q
  unfold nearestEven
  dsimp only
  split
  · rename_i hlt
    rw [abs_of_nonneg (sub_nonneg.mpr hlow)]
    exact ⟨hlt.le, fun h => absurd h hlt.ne⟩
  split
  · rename_i _ hgt
    push_cast
    rw [abs_of_nonpos (by linarith)]
    exact ⟨by linarith, fun h => absurd h (by linarith)⟩
  -- Exactly half way: the even neighbour.
  rename_i hge hle
  have half : q - ⌊q⌋ = 1 / 2 := le_antisymm (not_lt.mp hle) (not_lt.mp hge)
  split
  · rename_i heven
    rw [half, abs_of_pos (by norm_num)]
    exact ⟨le_rfl, fun _ => Int.even_iff.mpr heven⟩
  · rename_i hodd
    push_cast
    rw [show q - (⌊q⌋ + 1) = -(1 / 2) by linarith, abs_neg, abs_of_pos (by norm_num)]
    exact ⟨le_rfl, fun _ => Int.even_iff.mpr (by omega)⟩

/-- **Nearest even.** No other whole number is as near, or as near and even. -/
theorem nearestEven_eq_iff {q : ℚ} {n : ℤ} :
    nearestEven q = n ↔ |q - n| ≤ 1 / 2 ∧ (|q - n| = 1 / 2 → Even n) := by
  constructor
  · rintro rfl
    exact nearestEven_spec q
  rintro ⟨hn, htie⟩
  obtain ⟨hm, htie'⟩ := nearestEven_spec q
  set m := nearestEven q
  obtain ⟨hn1, hn2⟩ := abs_le.mp hn
  obtain ⟨hm1, hm2⟩ := abs_le.mp hm
  have hle : |m - n| ≤ 1 := by
    have : |(m : ℚ) - n| ≤ 1 := abs_le.mpr ⟨by linarith, by linarith⟩
    exact_mod_cast this
  -- Two different candidates are neighbours, both half way from `q`, and cannot both be even.
  by_contra hne
  have hcase : m = n + 1 ∨ n = m + 1 := by rw [abs_le] at hle; omega
  rcases hcase with h | h
  · have hmq : (m : ℚ) = n + 1 := by exact_mod_cast h
    have h1 : q - n = 1 / 2 := by linarith
    have h2 : q - m = -(1 / 2) := by linarith
    have e1 := htie (by rw [h1, abs_of_pos (by norm_num)])
    have e2 := htie' (by rw [h2, abs_neg, abs_of_pos (by norm_num)])
    rw [Int.even_iff] at e1 e2
    omega
  · have hnq : (n : ℚ) = m + 1 := by exact_mod_cast h
    have h1 : q - m = 1 / 2 := by linarith
    have h2 : q - n = -(1 / 2) := by linarith
    have e1 := htie' (by rw [h1, abs_of_pos (by norm_num)])
    have e2 := htie (by rw [h2, abs_neg, abs_of_pos (by norm_num)])
    rw [Int.even_iff] at e1 e2
    omega

/-- A whole number is its own rounding. -/
theorem nearestEven_intCast (n : ℤ) : nearestEven (n : ℚ) = n := by
  rw [nearestEven_eq_iff, sub_self, abs_zero]
  exact ⟨by norm_num, fun h => absurd h (by norm_num)⟩

/-- Rounding is symmetric about zero. -/
theorem nearestEven_neg (q : ℚ) : nearestEven (-q) = -nearestEven q := by
  obtain ⟨hle, htie⟩ := nearestEven_spec q
  have habs : |(-q) - ((-nearestEven q : ℤ) : ℚ)| = |q - nearestEven q| := by
    push_cast
    rw [← abs_neg]
    ring_nf
  rw [nearestEven_eq_iff, habs]
  exact ⟨hle, fun h => (htie h).neg⟩

/-- Rounding `m / d`, where `m = k * d + r`, by looking at the remainder `r`. -/
theorem nearestEven_div {m d k r : ℕ} (hm : k * d + r = m) (hr : r < d) :
    nearestEven ((m : ℚ) / d) =
      (if d < 2 * r ∨ (2 * r = d ∧ k % 2 = 1) then k + 1 else k : ℕ) := by
  have hdq : (0 : ℚ) < d := by exact_mod_cast Nat.zero_lt_of_lt hr
  have hsplit : (m : ℚ) / d = k + (r : ℚ) / d := by
    rw [← hm]
    push_cast
    rw [add_div, mul_div_cancel_right₀ _ hdq.ne']
  have hr1 : (r : ℚ) / d < 1 := by rw [div_lt_one hdq]; exact_mod_cast hr
  have hr0 : (0 : ℚ) ≤ (r : ℚ) / d := by positivity
  -- Comparing the fraction with one half is comparing twice the remainder with the divisor.
  have hhalf : (r : ℚ) / d ≤ 1 / 2 ↔ 2 * r ≤ d := by
    rw [div_le_div_iff₀ hdq (by norm_num), mul_comm, one_mul]
    exact_mod_cast Iff.rfl
  have hhalf' : (1 : ℚ) / 2 ≤ (r : ℚ) / d ↔ d ≤ 2 * r := by
    rw [div_le_div_iff₀ (by norm_num) hdq, one_mul, mul_comm]
    exact_mod_cast Iff.rfl
  rw [nearestEven_eq_iff, hsplit, Int.cast_natCast]
  split
  · rename_i hup
    rw [Nat.cast_succ, show (k : ℚ) + r / d - (k + 1) = -(1 - r / d) by ring, abs_neg,
      abs_of_pos (by linarith)]
    have hge := hhalf'.mpr (by omega)
    refine ⟨by linarith, fun htie => ?_⟩
    have hle := hhalf.mp (by linarith)
    rw [Int.even_iff]
    omega
  · rename_i hdown
    rw [add_sub_cancel_left, abs_of_nonneg hr0]
    refine ⟨hhalf.mpr (by omega), fun htie => ?_⟩
    have hge := hhalf'.mp (by linarith)
    rw [Int.even_iff]
    omega

/-- `q` rounded to `places` decimal places, ties to even. -/
def roundTiesEven (places : ℕ) (q : ℚ) : Decimal := scaled (nearestEven (q * 10 ^ places)) places

/-! ### Canonical text -/

/-- The least number of places that writes `x` out in full. -/
def scale (x : Decimal) : ℕ := Nat.find x.2

/-- The digits of `x` read as a whole number. -/
def mantissa (x : Decimal) : ℤ := ((x : ℚ) * 10 ^ x.scale).num

/-- The mantissa is the number without its decimal point. -/
theorem mantissa_eq (x : Decimal) : (x.mantissa : ℚ) = (x : ℚ) * 10 ^ x.scale :=
  (Rat.den_eq_one_iff _).mp (Nat.find_spec x.2)

/-- A decimal is its mantissa over the power of its scale. -/
theorem value_eq (x : Decimal) : (x : ℚ) = x.mantissa / 10 ^ x.scale := by
  rw [mantissa_eq, mul_div_assoc, div_self (by positivity), mul_one]

/-- The digits before and after the point, the whole part with at least one digit. -/
def digits (x : Decimal) : List Char := paddedDigits (x.scale + 1) x.mantissa.natAbs

/-- Plain text: an optional sign, the whole part, and the fraction if there is one. -/
def canonical (x : Decimal) : String :=
  String.ofList ((if x.mantissa < 0 then ['-'] else []) ++
    (x.digits.take (x.digits.length - x.scale) ++
      (if x.scale = 0 then [] else '.' :: x.digits.drop (x.digits.length - x.scale))))

theorem digits_isDigit (x : Decimal) : ∀ c ∈ x.digits, c.isDigit := paddedDigits_isDigit _ _

/-- The digits are those of the mantissa without its sign. -/
theorem digits_value (x : Decimal) : Nat.ofDigitChars 10 x.digits 0 = x.mantissa.natAbs :=
  paddedDigits_value _ _

/-- There is a digit in front of the decimal point. -/
theorem scale_lt_digits (x : Decimal) : x.scale < x.digits.length := by
  rw [digits, paddedDigits, List.leftpad, List.length_append, List.length_replicate]
  omega

/-- The fraction with its point, or nothing. -/
def fraction (x : Decimal) : List Char :=
  if x.scale = 0 then [] else '.' :: x.digits.drop (x.digits.length - x.scale)

/-- The whole part. -/
def whole (x : Decimal) : List Char := x.digits.take (x.digits.length - x.scale)

theorem whole_isDigit (x : Decimal) : ∀ c ∈ x.whole, c.isDigit :=
  fun c hc => x.digits_isDigit c (List.mem_of_mem_take hc)

/-- The digits in front of the point are those that the scale leaves. -/
theorem length_whole (x : Decimal) : x.whole.length = x.digits.length - x.scale := by
  rw [whole, List.length_take]; omega

/-- The unsigned text splits into its whole part and its fraction in one way only: a digit is
    never the point. -/
theorem whole_fraction_inj {x y : Decimal} (h : x.whole ++ x.fraction = y.whole ++ y.fraction) :
    x.whole = y.whole ∧ x.fraction = y.fraction := by
  have stop : ∀ z : Decimal, (z.whole ++ z.fraction).takeWhile Char.isDigit = z.whole := by
    intro z
    rw [List.takeWhile_append_of_pos z.whole_isDigit]
    unfold fraction
    split
    · simp
    · simp [show ('.' : Char).isDigit = false by decide]
  have hw : x.whole = y.whole := by rw [← stop x, ← stop y, h]
  exact ⟨hw, List.append_cancel_left (hw ▸ h)⟩

/-- The fraction is a point and as many digits as the scale says. -/
theorem length_fraction (x : Decimal) :
    x.fraction.length = if x.scale = 0 then 0 else x.scale + 1 := by
  have := x.scale_lt_digits
  unfold fraction
  split
  · rfl
  · rw [List.length_cons, List.length_drop]; omega

/-- The digits are those in front of the point and those behind it. -/
theorem digits_eq (x : Decimal) :
    x.digits = x.whole ++ (if x.scale = 0 then [] else x.fraction.tail) := by
  unfold whole fraction
  split
  · rename_i h; simp [h]
  · rw [List.tail_cons, List.take_append_drop]

/-- **The text without a sign** determines the scale and the digits, since a point stands in front
    of the fraction. -/
theorem unsigned_inj {x y : Decimal} (h : x.whole ++ x.fraction = y.whole ++ y.fraction) :
    x.scale = y.scale ∧ x.mantissa.natAbs = y.mantissa.natAbs := by
  obtain ⟨hw, hf⟩ := whole_fraction_inj h
  have hlen := congrArg List.length hf
  rw [length_fraction, length_fraction] at hlen
  have hs : x.scale = y.scale := by
    by_cases hx : x.scale = 0 <;> by_cases hy : y.scale = 0 <;> simp [hx, hy] at hlen <;> omega
  refine ⟨hs, ?_⟩
  rw [← digits_value, ← digits_value, digits_eq x, digits_eq y, hw, hf, hs]

/-- **Canonical text is faithful.** -/
theorem canonical_injective : Function.Injective canonical := by
  intro x y h
  have hlist := congrArg String.toList h
  simp only [canonical, String.toList_ofList] at hlist
  change _ ++ (x.whole ++ x.fraction) = _ ++ (y.whole ++ y.fraction) at hlist
  -- The first character of the unsigned text is a digit, so the sign can be read off.
  have head : ∀ z : Decimal, ∃ c rest, z.whole ++ z.fraction = c :: rest ∧ c ≠ '-' := by
    intro z
    have hpos : 0 < z.whole.length := by
      have := z.scale_lt_digits
      rw [length_whole]; omega
    obtain ⟨c, rest, hc⟩ := List.exists_cons_of_length_pos hpos
    refine ⟨c, rest ++ z.fraction, by rw [hc]; rfl, ?_⟩
    rintro rfl
    exact absurd (z.whole_isDigit '-' (hc ▸ List.mem_cons_self)) (by decide)
  obtain ⟨cx, rx, hx, hcx⟩ := head x
  obtain ⟨cy, ry, hy, hcy⟩ := head y
  have hsign : (x.mantissa < 0 ↔ y.mantissa < 0) ∧ x.whole ++ x.fraction = y.whole ++ y.fraction := by
    rw [hx, hy] at hlist ⊢
    by_cases h1 : x.mantissa < 0 <;> by_cases h2 : y.mantissa < 0 <;>
      simp only [h1, h2, if_true, if_false, List.nil_append, List.cons_append, List.cons.injEq,
        true_and] at hlist ⊢
    · exact hlist
    · exact absurd hlist.1.symm hcy
    · exact absurd hlist.1 hcx
    · exact hlist
  obtain ⟨hs, hm⟩ := unsigned_inj hsign.2
  have hmant : x.mantissa = y.mantissa := by omega
  ext
  rw [value_eq x, value_eq y, hmant, hs]

end Decimal

end Lib
