import Ficant.Primitives

namespace Ficant

open Lib

/-!
# Times of day

chrono's `NaiveTime`: seconds since midnight and a fraction in nanoseconds, which reaches into the next
second only for a leap second at the end of a minute.  `NaiveTime.text` is its `Display`, and
determines the time (`NaiveTime.text_injective`).
-/

/-- `NaiveTime`. -/
structure NaiveTime where
  secs : ℕ
  frac : ℕ
  secs_lt : secs < 86400
  frac_lt : frac < 2000000000
  leap : 1000000000 ≤ frac → secs % 60 = 59

namespace NaiveTime

instance : LinearOrder NaiveTime :=
  LinearOrder.lift' (fun t => toLex (t.secs, t.frac)) fun a b h => by
    obtain ⟨_, _, _, _, _⟩ := a
    obtain ⟨_, _, _, _, _⟩ := b
    obtain ⟨rfl, rfl⟩ := Prod.mk.inj (toLex_inj.mp h)
    rfl

/-- `NaiveTime::from_hms_opt`. -/
def fromHms (hour minute second : ℕ) : Option NaiveTime :=
  if h : hour < 24 ∧ minute < 60 ∧ second < 60 then
    some ⟨hour * 3600 + minute * 60 + second, 0, by omega, by omega, by omega⟩
  else none

/-- The second that is shown: a leap second is the sixtieth. -/
def shownSecond (t : NaiveTime) : ℕ := t.secs % 60 + t.frac / 1000000000

/-- The fraction of the second, in as many groups of three digits as it needs. -/
def fractionText (nanos : ℕ) : List Char :=
  if nanos = 0 then []
  else if nanos % 1000000 = 0 then '.' :: paddedDigits 3 (nanos / 1000000)
  else if nanos % 1000 = 0 then '.' :: paddedDigits 6 (nanos / 1000)
  else '.' :: paddedDigits 9 nanos

/-- chrono's `Display`: `HH:MM:SS` and the fraction. -/
def text (t : NaiveTime) : String :=
  String.ofList (paddedDigits 2 (t.secs / 3600) ++ ':' :: (paddedDigits 2 (t.secs / 60 % 60) ++
    ':' :: (paddedDigits 2 t.shownSecond ++ fractionText (t.frac % 1000000000))))

theorem fractionText_inj {m n : ℕ} (hm : m < 1000000000) (hn : n < 1000000000)
    (h : fractionText m = fractionText n) : m = n := by
  -- the three forms have different lengths, and each is the number in some unit
  have hlength := congrArg List.length h
  have hthree : ∀ k : ℕ, k < 1000 → (paddedDigits 3 k).length = 3 := fun k hk =>
    length_paddedDigits (by decide) (by simpa using hk)
  have hsix : ∀ k : ℕ, k < 1000000 → (paddedDigits 6 k).length = 6 := fun k hk =>
    length_paddedDigits (by decide) (by simpa using hk)
  have hnine : ∀ k : ℕ, k < 1000000000 → (paddedDigits 9 k).length = 9 := fun k hk =>
    length_paddedDigits (by decide) (by simpa using hk)
  have h3 := hthree (m / 1000000) (by omega)
  have h3' := hthree (n / 1000000) (by omega)
  have h6 := hsix (m / 1000) (by omega)
  have h6' := hsix (n / 1000) (by omega)
  have h9 := hnine m hm
  have h9' := hnine n hn
  unfold fractionText at h hlength
  split_ifs at h hlength <;>
    simp only [List.length_cons, List.length_nil, h3, h3', h6, h6', h9, h9'] at hlength <;>
    first
      | omega
      | (have hdigits := paddedDigits_inj (List.cons.inj h).2
         omega)

theorem text_injective : Function.Injective NaiveTime.text := by
  intro a b h
  have hlist := congrArg String.toList h
  simp only [text, String.toList_ofList] at hlist
  have hbound := a.secs_lt
  have hbound' := b.secs_lt
  have hfrac := a.frac_lt
  have hfrac' := b.frac_lt
  have hleap := a.leap
  have hleap' := b.leap
  have two : ∀ n, n < 100 → (paddedDigits 2 n).length = 2 := fun n hn =>
    length_paddedDigits (by decide) (by simpa using hn)
  have hshown : ∀ t : NaiveTime, t.shownSecond < 100 := by
    intro t
    have := t.frac_lt
    rw [shownSecond]
    omega
  -- hours, minutes and seconds take two digits each
  obtain ⟨hhour, hrest⟩ := List.append_inj hlist
    ((two _ (by omega)).trans (two _ (by omega)).symm)
  obtain ⟨hminute, hrest⟩ := List.append_inj (List.cons.inj hrest).2
    ((two _ (by omega)).trans (two _ (by omega)).symm)
  obtain ⟨hsecond, hfraction⟩ := List.append_inj (List.cons.inj hrest).2
    ((two _ (hshown a)).trans (two _ (hshown b)).symm)
  have h1 := paddedDigits_inj hhour
  have h2 := paddedDigits_inj hminute
  have h3 := paddedDigits_inj hsecond
  have h4 := fractionText_inj (by omega) (by omega) hfraction
  obtain ⟨sa, fa, _, _, _⟩ := a
  obtain ⟨sb, fb, _, _, _⟩ := b
  simp only [shownSecond] at h1 h2 h3 h4 hleap hleap' hfrac hfrac'
  -- the shown second is 60 only for a leap second, whose fraction starts at one second
  obtain ⟨rfl, rfl⟩ : sa = sb ∧ fa = fb := by omega
  rfl

end NaiveTime

end Ficant
