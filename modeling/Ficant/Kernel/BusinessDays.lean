import Mathlib

namespace Ficant.Kernel

/-!
# Business days of the kernel

Weekends, holidays and the Following convention (`fixed-income-kernel/src/date_utils.cpp`).

* `isBusinessDay` — weekends are closed and the lists make exceptions;
* `followingAdjust` — the loop that goes on day by day, with the days that are left before the
  day number overflows;
* `followingAdjust_eq_some_iff`, `followingAdjust_eq_none_iff` — it stops on the least day where it
  may stop, and overflows when there is none.

The lists are sorted wherever they are searched, so a binary search finds what is in them.
-/

/-- `day_of_week`: 0 is Sunday. -/
def dayOfWeek (epochDays : Int32) : ℤ :=
  let d := (epochDays.toInt + 4).tmod 7
  if d < 0 then d + 7 else d

/-- `is_weekend`. -/
def isWeekend (epochDays : Int32) : Bool := dayOfWeek epochDays = 0 || dayOfWeek epochDays = 6

/-- `is_business_day`. -/
def isBusinessDay (date : Int32) (nonBizDays workWe : List Int32) : Bool :=
  let weekend := isWeekend date
  let isWorkWe := workWe.contains date
  let isHoliday := nonBizDays.contains date
  (!weekend || isWorkWe) && !isHoliday

/-- One turn of the loop of `following_adjust`: whether it ends on the day it has come to, and the
    flag for the provisional rule. -/
def followingTurn (nonBizDays workWe : List Int32) (calendarCoverageEnd : Int32)
    (exactCoverageRequired : Bool) (adjusted : Int32) (usedProvisional : Bool) : Bool × Bool :=
  let beyondCoverage : Bool := calendarCoverageEnd < adjusted
  if beyondCoverage && exactCoverageRequired then (true, usedProvisional)
  else if beyondCoverage then (!isWeekend adjusted, true)
  else (isBusinessDay adjusted nonBizDays workWe, usedProvisional)

/-- The loop, with the days that are left; `none` where the next day would overflow. -/
def followingLoop (nonBizDays workWe : List Int32) (calendarCoverageEnd : Int32)
    (exactCoverageRequired : Bool) : ℕ → Int32 → Bool → Option (Int32 × Bool)
  | room, adjusted, usedProvisional =>
    let (ends, usedProvisional) := followingTurn nonBizDays workWe calendarCoverageEnd
      exactCoverageRequired adjusted usedProvisional
    if ends then some (adjusted, usedProvisional)
    else match room with
      | 0 => none
      | room + 1 => followingLoop nonBizDays workWe calendarCoverageEnd exactCoverageRequired room
          (adjusted + 1) usedProvisional

/-- The days after a day. -/
def daysLeft (date : Int32) : ℕ := (2 ^ 31 - 1 - date.toInt).toNat

/-- `following_adjust`: the adjusted date, and whether the weekend-only rule was used. -/
def followingAdjust (date : Int32) (nonBizDays workWe : List Int32) (calendarCoverageEnd : Int32)
    (exactCoverageRequired : Bool) : Option (Int32 × Bool) :=
  followingLoop nonBizDays workWe calendarCoverageEnd exactCoverageRequired (daysLeft date) date false

/-! ### Weekends -/

theorem isWeekend_iff {date : Int32} :
    isWeekend date = true ↔ (date.toInt + 4) % 7 = 0 ∨ (date.toInt + 4) % 7 = 6 := by
  have hday : dayOfWeek date = (date.toInt + 4) % 7 := by
    unfold dayOfWeek
    simp only [Int.tmod_eq_emod]
    split
    · split <;> omega
    · split <;> omega
  unfold isWeekend
  rw [hday]
  simp

/-! ### Where the loop stops -/

section Stops

variable (nonBizDays workWe : List Int32) (calendarCoverageEnd : Int32)
  (exactCoverageRequired : Bool)

/-- The days on which the loop stops: business days by the lists up to the end of the coverage, and
    by the weekends after it, or every day there when an exact calendar is required. -/
def stopsAt (date : Int32) : Bool :=
  if calendarCoverageEnd < date then exactCoverageRequired || !isWeekend date
  else isBusinessDay date nonBizDays workWe

/-- The provisional rule was used on the last day, or never. -/
def usedAt (date : Int32) : Bool := calendarCoverageEnd < date && !exactCoverageRequired

variable {nonBizDays workWe calendarCoverageEnd exactCoverageRequired}

theorem toInt_add_one {date : Int32} (h : date.toInt < 2 ^ 31 - 1) :
    (date + 1).toInt = date.toInt + 1 := by
  have hlow := date.le_toInt
  rw [Int32.toInt_add]
  apply Int.bmod_eq_of_le_mul_two
  · show -((2 ^ 32 : ℕ) : ℤ) ≤ (date.toInt + 1) * 2
    omega
  · show (date.toInt + 1) * 2 < ((2 ^ 32 : ℕ) : ℤ)
    omega

/-- The days from a day on are that day and those from the next one on. -/
theorem le_iff_eq_or_succ_le {date t : Int32} (h : date.toInt < 2 ^ 31 - 1) :
    date ≤ t ↔ t = date ∨ date + 1 ≤ t := by
  rw [Int32.le_iff_toInt_le, Int32.le_iff_toInt_le, toInt_add_one h, ← Int32.toInt_inj]
  omega

/-- One turn of the loop, with the flag read off the day. -/
theorem followingTurn_eq (adjusted : Int32) (usedProvisional : Bool) :
    followingTurn nonBizDays workWe calendarCoverageEnd exactCoverageRequired adjusted
        usedProvisional =
      (stopsAt nonBizDays workWe calendarCoverageEnd exactCoverageRequired adjusted,
        usedProvisional || usedAt calendarCoverageEnd exactCoverageRequired adjusted) := by
  unfold followingTurn stopsAt usedAt
  by_cases hbeyond : calendarCoverageEnd < adjusted
  · cases exactCoverageRequired
    · simp [hbeyond]
    · simp [hbeyond]
  · simp [hbeyond]

theorem followingLoop_eq (room : ℕ) (adjusted : Int32) (usedProvisional : Bool) :
    followingLoop nonBizDays workWe calendarCoverageEnd exactCoverageRequired room adjusted
        usedProvisional =
      if stopsAt nonBizDays workWe calendarCoverageEnd exactCoverageRequired adjusted then
        some (adjusted, usedProvisional || usedAt calendarCoverageEnd exactCoverageRequired adjusted)
      else match room with
        | 0 => none
        | room + 1 => followingLoop nonBizDays workWe calendarCoverageEnd exactCoverageRequired room
            (adjusted + 1)
            (usedProvisional || usedAt calendarCoverageEnd exactCoverageRequired adjusted) := by
  cases room with
  | zero => rw [followingLoop, followingTurn_eq]
  | succ room => rw [followingLoop, followingTurn_eq]

/-- What the loop returns, by the days that are left. -/
theorem followingLoop_spec {room : ℕ} {date : Int32} {usedProvisional : Bool}
    (hroom : (room : ℤ) = 2 ^ 31 - 1 - date.toInt)
    (hused : usedProvisional = true → usedAt calendarCoverageEnd exactCoverageRequired date = true) :
    (∀ adjusted used, followingLoop nonBizDays workWe calendarCoverageEnd exactCoverageRequired room
        date usedProvisional = some (adjusted, used) →
      IsLeast {t | date ≤ t ∧
          stopsAt nonBizDays workWe calendarCoverageEnd exactCoverageRequired t = true} adjusted ∧
        used = usedAt calendarCoverageEnd exactCoverageRequired adjusted) ∧
    (followingLoop nonBizDays workWe calendarCoverageEnd exactCoverageRequired room date
        usedProvisional = none →
      ∀ t, date ≤ t → stopsAt nonBizDays workWe calendarCoverageEnd exactCoverageRequired t =
      false) := by
  -- the days left go down by one with each day
  induction room generalizing date usedProvisional with
  | zero =>
    have hlast : ∀ t : Int32, date ≤ t → t = date := by
      intro t ht
      have hbound := t.toInt_lt
      rw [Int32.le_iff_toInt_le] at ht
      rw [← Int32.toInt_inj]
      omega
    rw [followingLoop_eq]
    by_cases hstop : stopsAt nonBizDays workWe calendarCoverageEnd exactCoverageRequired date = true
    · rw [if_pos hstop]
      refine ⟨?_, by simp⟩
      rintro adjusted used h
      obtain ⟨rfl, rfl⟩ := Prod.mk.inj (Option.some.inj h)
      refine ⟨⟨⟨Int32.le_refl _, hstop⟩, fun t ht => ht.1⟩, ?_⟩
      rw [Bool.or_eq_right_iff_imp]
      exact hused
    · rw [if_neg hstop]
      refine ⟨by simp, fun _ t ht => ?_⟩
      rw [hlast t ht]
      exact Bool.not_eq_true _ ▸ hstop
  | succ room ih =>
    have hnext : date.toInt < 2 ^ 31 - 1 := by
      push_cast at hroom
      omega
    rw [followingLoop_eq]
    by_cases hstop : stopsAt nonBizDays workWe calendarCoverageEnd exactCoverageRequired date = true
    · rw [if_pos hstop]
      refine ⟨?_, by simp⟩
      rintro adjusted used h
      obtain ⟨rfl, rfl⟩ := Prod.mk.inj (Option.some.inj h)
      refine ⟨⟨⟨Int32.le_refl _, hstop⟩, fun t ht => ht.1⟩, ?_⟩
      rw [Bool.or_eq_right_iff_imp]
      exact hused
    · rw [if_neg hstop]
      have hcarried : (usedProvisional || usedAt calendarCoverageEnd exactCoverageRequired date) =
        true → usedAt calendarCoverageEnd exactCoverageRequired (date + 1) = true := by
        intro h
        have hat : usedAt calendarCoverageEnd exactCoverageRequired date = true := by
          rcases Bool.or_eq_true_iff.mp h with h | h
          · exact hused h
          · exact h
        -- a day after the end of the coverage is followed by another
        unfold usedAt at hat ⊢
        simp only [Bool.and_eq_true, decide_eq_true_eq, Int32.lt_iff_toInt_lt,
          toInt_add_one hnext] at hat ⊢
        exact ⟨by omega, hat.2⟩
      obtain ⟨hsome, hnone⟩ := ih (by rw [toInt_add_one hnext]; push_cast at hroom; omega) hcarried
      constructor
      · intro adjusted used h
        obtain ⟨⟨hmem, hleast⟩, hflag⟩ := hsome adjusted used h
        refine ⟨⟨⟨(le_iff_eq_or_succ_le hnext).mpr (.inr hmem.1), hmem.2⟩, ?_⟩, hflag⟩
        rintro t ⟨hle, ht⟩
        rcases (le_iff_eq_or_succ_le hnext).mp hle with rfl | hlater
        · exact absurd ht hstop
        · exact hleast ⟨hlater, ht⟩
      · intro h t hle
        rcases (le_iff_eq_or_succ_le hnext).mp hle with rfl | hlater
        · exact Bool.not_eq_true _ ▸ hstop
        · exact hnone h t hlater

theorem daysLeft_eq (date : Int32) : (daysLeft date : ℤ) = 2 ^ 31 - 1 - date.toInt := by
  have hlt := date.toInt_lt
  unfold daysLeft
  omega

/-- **The loop stops on the least day** on which it may, and says whether that day is after the
    coverage. -/
theorem followingAdjust_eq_some_iff {date adjusted : Int32} {used : Bool} :
    followingAdjust date nonBizDays workWe calendarCoverageEnd exactCoverageRequired =
        some (adjusted, used) ↔
      IsLeast {t | date ≤ t ∧
          stopsAt nonBizDays workWe calendarCoverageEnd exactCoverageRequired t = true} adjusted ∧
        used = usedAt calendarCoverageEnd exactCoverageRequired adjusted := by
  obtain ⟨hsome, hnone⟩ := @followingLoop_spec nonBizDays workWe calendarCoverageEnd
    exactCoverageRequired _ _ false (daysLeft_eq date) (by simp)
  refine ⟨hsome adjusted used, ?_⟩
  rintro ⟨hleast, hflag⟩
  rcases hresult : followingAdjust date nonBizDays workWe calendarCoverageEnd
    exactCoverageRequired with
    - | ⟨found, foundUsed⟩
  · have hfalse := hnone hresult adjusted hleast.1.1
    rw [hleast.1.2] at hfalse
    cases hfalse
  · obtain ⟨hfound, hfoundUsed⟩ := hsome found foundUsed hresult
    have hequal : found = adjusted :=
      Int32.le_antisymm (hfound.2 hleast.1) (hleast.2 hfound.1)
    rw [hfoundUsed, hflag, hequal]

/-- The day number overflows when there is no day to stop on. -/
theorem followingAdjust_eq_none_iff {date : Int32} :
    followingAdjust date nonBizDays workWe calendarCoverageEnd exactCoverageRequired = none ↔
      ∀ t, date ≤ t →
        stopsAt nonBizDays workWe calendarCoverageEnd exactCoverageRequired t = false := by
  obtain ⟨-, hnone⟩ := @followingLoop_spec nonBizDays workWe calendarCoverageEnd
    exactCoverageRequired _ _ false (daysLeft_eq date) (by simp)
  refine ⟨hnone, fun h => ?_⟩
  rcases hresult : followingAdjust date nonBizDays workWe calendarCoverageEnd
    exactCoverageRequired with
    - | ⟨found, foundUsed⟩
  · rfl
  · obtain ⟨hfound, -⟩ := followingAdjust_eq_some_iff.mp hresult
    have hfalse := h found hfound.1.1
    rw [hfound.1.2] at hfalse
    cases hfalse

end Stops

end Ficant.Kernel
