import Mathlib

namespace Lib

/-!
# Fields of a text

A text that is put together from fields with a separator character, read from its end: a field
without the separator can be taken off again.

* `decimalChars` — the decimal text of an integer, which determines it;
* `field_inj` — the last field and what stands before it.
-/

/-- The decimal text of an integer. -/
def decimalChars (n : ℤ) : List Char :=
  (if n < 0 then ['-'] else []) ++ Nat.toDigits 10 n.natAbs

theorem isDigit_of_mem_toDigits {c : Char} {n : ℕ} (h : c ∈ Nat.toDigits 10 n) : c.isDigit = true :=
  Nat.isDigit_of_mem_toDigits (by decide) (by decide) h

theorem toDigits_injective : Function.Injective (Nat.toDigits 10) := by
  intro m n h
  have hm := Nat.ofDigitChars_toDigits (b := 10) (n := m) (by decide) (by decide)
  rw [h, Nat.ofDigitChars_toDigits (by decide) (by decide)] at hm
  exact hm.symm

/-- A character that is neither a digit nor a sign is in no decimal text. -/
theorem not_mem_decimalChars {c : Char} (hdigit : c.isDigit = false) (hsign : c ≠ '-') (n : ℤ) :
    c ∉ decimalChars n := by
  intro hmem
  rcases List.mem_append.mp hmem with hmem | hmem
  · split at hmem
    · exact hsign (List.mem_singleton.mp hmem)
    · cases hmem
  · rw [isDigit_of_mem_toDigits hmem] at hdigit
    cases hdigit

theorem decimalChars_injective : Function.Injective decimalChars := by
  -- the sign is no digit, so both texts start with it or neither does
  have hunsigned : ∀ (rest : List Char) (n : ℕ), '-' :: rest ≠ Nat.toDigits 10 n := by
    intro rest n h
    have hdigit : '-'.isDigit = true := isDigit_of_mem_toDigits (h ▸ List.mem_cons_self)
    exact absurd hdigit (by decide)
  intro m n h
  unfold decimalChars at h
  by_cases hm : m < 0
  · by_cases hn : n < 0
    · rw [if_pos hm, if_pos hn] at h
      have habs := toDigits_injective (List.append_cancel_left h)
      omega
    · rw [if_pos hm, if_neg hn] at h
      exact absurd h (hunsigned _ _)
  · by_cases hn : n < 0
    · rw [if_neg hm, if_pos hn] at h
      exact absurd h.symm (hunsigned _ _)
    · rw [if_neg hm, if_neg hn] at h
      have habs := toDigits_injective (List.append_cancel_left h)
      omega

/-- A further field after a separator. -/
def field (separator : Char) (front value : List Char) : List Char := front ++ separator :: value

/-- The last field is what follows the last separator. -/
theorem field_inj {separator : Char} {front front' value value' : List Char}
    (hvalue : separator ∉ value) (hvalue' : separator ∉ value')
    (h : field separator front value = field separator front' value') :
    front = front' ∧ value = value' := by
  -- read backwards, the field ends at the first separator
  have hrev : value.reverse ++ separator :: front.reverse =
      value'.reverse ++ separator :: front'.reverse := by
    have hreverse := congrArg List.reverse h
    simpa [field] using hreverse
  have htake : ∀ v f : List Char, separator ∉ v →
      (v.reverse ++ separator :: f).takeWhile (· ≠ separator) = v.reverse := by
    intro v f hv
    rw [List.takeWhile_append_of_pos]
    · simp
    · intro c hc
      have hne : c ≠ separator := fun hcs => hv (List.mem_reverse.mp (hcs ▸ hc))
      simpa using hne
  have hvalues : value = value' := by
    have htaken := congrArg (List.takeWhile (· ≠ separator)) hrev
    rw [htake _ _ hvalue, htake _ _ hvalue'] at htaken
    exact List.reverse_injective htaken
  subst hvalues
  have hfront := List.cons.inj (List.append_cancel_left hrev)
  exact ⟨List.reverse_injective hfront.2, rfl⟩

end Lib
