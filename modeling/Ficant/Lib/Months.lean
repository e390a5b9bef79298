import Mathlib

namespace Lib

/-!
# Calendars of months

Months one behind the other, each with a number of days, and the days counted through.

* `MonthCalendar`, `MonthCalendar.Day` — the months, and a day by its month and its number in it;
* `Day.toInt_injective`, `Day.exists_toInt` — every count is exactly one day;
* `Day.shift` — some months later, on the same number or on the last day of a shorter month;
* `Day.back_shift_eq_iff` — going forward at once and back step by step returns exactly when no
  month on the way is too short;
* `gregorian` — the proleptic Gregorian calendar, its months counted from January of year 0.
-/

/-- Months with their lengths, and the count of the day before each of them. -/
structure MonthCalendar where
  start : ℤ → ℤ
  length : ℤ → ℕ
  length_pos : ∀ k, 0 < length k
  start_succ : ∀ k, start (k + 1) = start k + length k

namespace MonthCalendar

variable {c : MonthCalendar}

/-- Later months start later. -/
theorem start_strictMono (c : MonthCalendar) : StrictMono c.start := by
  refine strictMono_int_of_lt_succ fun k => ?_
  have hpos := c.length_pos k
  rw [c.start_succ]
  omega

/-- A month ends before every later month starts. -/
theorem start_add_length_le {k l : ℤ} (h : k < l) : c.start k + c.length k ≤ c.start l := by
  rw [← c.start_succ]
  exact c.start_strictMono.monotone h

/-- A day: its month, and its number in that month. -/
structure Day (c : MonthCalendar) where
  month : ℤ
  number : ℕ
  pos : 1 ≤ number
  le_length : number ≤ c.length month

namespace Day

/-- A day is its month and its number. -/
theorem ext_fields {x y : c.Day} (hmonth : x.month = y.month) (hnumber : x.number = y.number) :
    x = y := by
  cases x
  cases y
  subst hmonth hnumber
  rfl

/-- The count of a day. -/
def toInt (x : c.Day) : ℤ := c.start x.month + x.number

/-- A day of an earlier month is earlier. -/
theorem toInt_lt_of_month_lt {x y : c.Day} (h : x.month < y.month) : x.toInt < y.toInt := by
  have hmonths := start_add_length_le (c := c) h
  have hx := x.le_length
  have hy := y.pos
  unfold toInt
  omega

/-- Days are counted month by month. -/
theorem toInt_lt_iff {x y : c.Day} :
    x.toInt < y.toInt ↔ x.month < y.month ∨ (x.month = y.month ∧ x.number < y.number) := by
  rcases lt_trichotomy x.month y.month with h | h | h
  · exact iff_of_true (toInt_lt_of_month_lt h) (.inl h)
  · unfold toInt
    rw [h]
    omega
  · have hlt := toInt_lt_of_month_lt h
    omega

/-- The count of days tells them apart. -/
theorem toInt_injective : Function.Injective (toInt (c := c)) := by
  intro x y h
  have hxy := (toInt_lt_iff (x := x) (y := y)).not.mp (by omega)
  have hyx := (toInt_lt_iff (x := y) (y := x)).not.mp (by omega)
  refine ext_fields ?_ ?_ <;> omega

/-- Every count is the count of a day. -/
theorem exists_toInt (c : MonthCalendar) (z : ℤ) : ∃ x : c.Day, x.toInt = z := by
  -- the day after a day and the day before it, from any first day
  let first : c.Day := ⟨0, 1, le_rfl, c.length_pos 0⟩
  refine Int.inductionOn' z first.toInt ⟨first, rfl⟩ ?_ ?_
  · rintro k - ⟨x, hx⟩
    rcases Nat.lt_or_ge x.number (c.length x.month) with h | h
    · refine ⟨⟨x.month, x.number + 1, by omega, h⟩, ?_⟩
      rw [← hx, toInt, toInt]
      push_cast
      ring
    · refine ⟨⟨x.month + 1, 1, le_rfl, c.length_pos _⟩, ?_⟩
      have hle := x.le_length
      rw [← hx, toInt, toInt, c.start_succ]
      push_cast
      omega
  · rintro k - ⟨x, hx⟩
    have hpos := x.pos
    rcases Nat.lt_or_ge 1 x.number with h | h
    · have hle := x.le_length
      refine ⟨⟨x.month, x.number - 1, by omega, by omega⟩, ?_⟩
      rw [← hx, toInt, toInt]
      push_cast [Nat.sub_le_iff_le_add]
      omega
    · refine ⟨⟨x.month - 1, c.length (x.month - 1), c.length_pos _, le_rfl⟩, ?_⟩
      have hstart := c.start_succ (x.month - 1)
      rw [sub_add_cancel] at hstart
      rw [← hx, toInt, toInt, hstart]
      show c.start (x.month - 1) + (c.length (x.month - 1) : ℤ) = _
      omega

/-! ### Some months later -/

/-- The same number some months later, or the last day of that month when it is shorter. -/
def shift (x : c.Day) (n : ℤ) : c.Day :=
  ⟨x.month + n, min x.number (c.length (x.month + n)), le_min x.pos (c.length_pos _),
    min_le_right _ _⟩

@[simp] theorem shift_month (x : c.Day) (n : ℤ) : (x.shift n).month = x.month + n := rfl

@[simp] theorem shift_number (x : c.Day) (n : ℤ) :
    (x.shift n).number = min x.number (c.length (x.month + n)) := rfl

/-- A longer shift leads to a later day. -/
theorem shift_lt_shift (x : c.Day) {m n : ℤ} (h : m < n) : (x.shift m).toInt < (x.shift n).toInt :=
  toInt_lt_of_month_lt (by simp only [shift_month]; omega)

theorem shift_zero (x : c.Day) : x.shift 0 = x := by
  refine ext_fields (add_zero _) ?_
  rw [shift_number, add_zero]
  exact min_eq_left x.le_length

/-- Going back reaches a day exactly when going forward from that day reaches as far, but for the
    last day of a month that is shorter than the number gone back from. -/
theorem shift_neg_le_iff {x y : c.Day} {n : ℤ} :
    (y.shift (-n)).toInt ≤ x.toInt ↔ y.toInt ≤ (x.shift n).toInt ∨
      (y.month = x.month + n ∧ x.number = c.length x.month ∧ x.number < y.number) := by
  rw [← not_lt, ← not_lt (b := y.toInt), toInt_lt_iff, toInt_lt_iff]
  simp only [shift_month, shift_number]
  have hx := x.le_length
  have hy := y.le_length
  rcases lt_trichotomy y.month (x.month + n) with h | h | h
  · omega
  · -- both numbers are in the month of the day gone to
    have hmonth : y.month + -n = x.month := by omega
    rw [hmonth, ← h]
    omega
  · omega

/-- Step by step back by some months. -/
def back (x : c.Day) (p : ℤ) : ℕ → c.Day
  | 0 => x
  | j + 1 => (back x p j).shift (-p)

theorem back_succ (x : c.Day) (p : ℤ) (j : ℕ) : x.back p (j + 1) = (x.back p j).shift (-p) := rfl

/-- The months that lie behind after some steps. -/
theorem back_month (x : c.Day) (p : ℤ) (j : ℕ) : (x.back p j).month = x.month - j * p := by
  induction j with
  | zero => simp [back]
  | succ j ih =>
    rw [back_succ, shift_month, ih]
    push_cast
    ring

/-- The number is the smallest of the first one and of the lengths of the months passed. -/
theorem le_back_number_iff {x : c.Day} {p : ℤ} {j e : ℕ} :
    e ≤ (x.back p j).number ↔
      e ≤ x.number ∧ ∀ i : ℕ, 1 ≤ i → i ≤ j → e ≤ c.length (x.month - i * p) := by
  induction j with
  | zero =>
    refine ⟨fun h => ⟨h, fun i hi hle => by omega⟩, fun h => h.1⟩
  | succ j ih =>
    have hmonth : (x.back p j).month + -p = x.month - (j + 1 : ℕ) * p := by
      rw [back_month]
      push_cast
      ring
    rw [back_succ, shift_number, le_min_iff, ih, hmonth]
    constructor
    · rintro ⟨⟨hnumber, hbefore⟩, hlast⟩
      refine ⟨hnumber, fun i hi hle => ?_⟩
      rcases Nat.lt_or_ge i (j + 1) with hlt | hge
      · exact hbefore i hi (by omega)
      · rwa [show i = j + 1 by omega]
    · rintro ⟨hnumber, hall⟩
      exact ⟨⟨hnumber, fun i hi hle => hall i hi (by omega)⟩, hall (j + 1) (by omega) le_rfl⟩

section Return

variable {x : c.Day} {p : ℤ} {n : ℕ}

/-- The months from one day to the last one are long enough for its number. -/
def Kept (x : c.Day) (p : ℤ) (n : ℕ) : Prop :=
  ∀ i : ℕ, 1 ≤ i → i ≤ n → x.number ≤ c.length (x.month + i * p)

/-- The number of the day is kept on the way. -/
theorem Kept.shift_number_eq (h : x.Kept p n) {i : ℕ} (hle : i ≤ n) :
    (x.shift (i * p)).number = x.number := by
  rw [shift_number]
  refine min_eq_left ?_
  rcases Nat.eq_zero_or_pos i with rfl | hpos
  · simpa using x.le_length
  · exact h i hpos hle

/-- Steps back from a shifted day, in months. -/
theorem back_shift_month (x : c.Day) (p : ℤ) {n j : ℕ} (hle : j ≤ n) :
    ((x.shift (n * p)).back p j).month = (x.shift ((n - j : ℕ) * p)).month := by
  rw [back_month, shift_month, shift_month]
  push_cast [hle]
  ring

/-- On the way back the number never grows. -/
theorem back_shift_number_le (x : c.Day) (p : ℤ) (n j : ℕ) :
    ((x.shift (n * p)).back p j).number ≤ x.number := by
  have h := (le_back_number_iff (x := x.shift (n * p)) (p := p) (j := j)).mp le_rfl
  exact h.1.trans (min_le_left _ _)

/-- While no month is too short the way back visits the days of the way forward. -/
theorem Kept.back_eq (h : x.Kept p n) {j : ℕ} (hle : j ≤ n) :
    (x.shift (n * p)).back p j = x.shift ((n - j : ℕ) * p) := by
  refine ext_fields (back_shift_month x p hle) ?_
  rw [h.shift_number_eq (Nat.sub_le n j)]
  refine le_antisymm (back_shift_number_le x p n j) ?_
  rw [le_back_number_iff, h.shift_number_eq le_rfl]
  refine ⟨le_rfl, fun i hi hij => ?_⟩
  have hmonth : (x.shift (n * p)).month - i * p = x.month + ((n - i : ℕ) : ℤ) * p := by
    rw [shift_month]
    push_cast [hij.trans hle]
    ring
  rw [hmonth]
  rcases Nat.eq_zero_or_pos (n - i) with hzero | hpos
  · rw [hzero]
    simpa using x.le_length
  · exact h (n - i) hpos (Nat.sub_le n i)

/-- **Forward at once and back step by step** is where it began exactly when no month on the way is
    too short. -/
theorem back_shift_eq_iff : (x.shift (n * p)).back p n = x ↔ x.Kept p n := by
  constructor
  · intro h i hi hle
    have hnumber : x.number ≤ ((x.shift (n * p)).back p n).number := by rw [h]
    rw [le_back_number_iff] at hnumber
    rcases Nat.lt_or_ge i n with hlt | hge
    · -- the month is passed after `n - i` steps
      have hpassed := hnumber.2 (n - i) (by omega) (Nat.sub_le n i)
      have hmonth : (x.shift (n * p)).month - ((n - i : ℕ) : ℤ) * p = x.month + i * p := by
        rw [shift_month]
        push_cast [hle]
        ring
      rwa [hmonth] at hpassed
    · obtain rfl : i = n := by omega
      exact hnumber.1.trans (min_le_right _ _)
  · intro h
    rw [h.back_eq le_rfl, Nat.sub_self]
    simpa using x.shift_zero

end Return

end Day

end MonthCalendar

/-! ### The Gregorian calendar -/

/-- The leap years. -/
def gregorianLeap (y : ℤ) : Bool := (y % 4 = 0 ∧ y % 100 ≠ 0) ∨ y % 400 = 0

/-- The length of a month. -/
def gregorianLength (k : ℤ) : ℕ :=
  if k % 12 = 1 then (if gregorianLeap (k / 12) then 29 else 28)
  else if k % 12 = 3 ∨ k % 12 = 5 ∨ k % 12 = 8 ∨ k % 12 = 10 then 30 else 31

/-- The days before a year that begins in March, from year 0. -/
def marchYearStart (y : ℤ) : ℤ := 365 * y + y / 4 - y / 100 + y / 400

/-- The day before a month, counted from 1970: years that begin in March, and the months of such a
    year. -/
def gregorianStart (k : ℤ) : ℤ :=
  marchYearStart ((k - 2) / 12) + (153 * ((k - 2) % 12) + 2) / 5 - 719469

/-- The twelve months of a year. -/
theorem emod_twelve_cases (k : ℤ) :
    k % 12 = 0 ∨ k % 12 = 1 ∨ k % 12 = 2 ∨ k % 12 = 3 ∨ k % 12 = 4 ∨ k % 12 = 5 ∨ k % 12 = 6 ∨
      k % 12 = 7 ∨ k % 12 = 8 ∨ k % 12 = 9 ∨ k % 12 = 10 ∨ k % 12 = 11 := by
  omega

theorem twentyEight_le_gregorianLength (k : ℤ) : 28 ≤ gregorianLength k := by
  unfold gregorianLength
  split
  · split <;> omega
  · split <;> omega

theorem gregorianLength_le (k : ℤ) : gregorianLength k ≤ 31 := by
  unfold gregorianLength
  split
  · split <;> omega
  · split <;> omega

/-- A year that begins in March ends with the leap day of the next one. -/
theorem marchYearStart_succ (y : ℤ) :
    marchYearStart (y + 1) = marchYearStart y + 365 + (if gregorianLeap (y + 1) then 1 else 0) := by
  simp only [marchYearStart, gregorianLeap, decide_eq_true_eq]
  split <;> omega

/-- The months of a year that begins in March. -/
theorem marchMonth_succ {m : ℤ} (h0 : 0 ≤ m) (h10 : m ≤ 10) :
    (153 * (m + 1) + 2) / 5 = (153 * m + 2) / 5 +
      (if m = 1 ∨ m = 3 ∨ m = 6 ∨ m = 8 then 30 else 31) := by
  interval_cases m <;> decide

/-- The next month starts when this one ends. -/
theorem gregorianStart_succ (k : ℤ) :
    gregorianStart (k + 1) = gregorianStart k + gregorianLength k := by
  unfold gregorianStart gregorianLength
  by_cases hfebruary : k % 12 = 1
  · -- February ends a year
    have hyear : (k + 1 - 2) / 12 = (k - 2) / 12 + 1 := by omega
    have hleap : (k - 2) / 12 + 1 = k / 12 := by omega
    rw [hyear, marchYearStart_succ, hleap, if_pos hfebruary]
    have hmonth : (k - 2) % 12 = 11 := by omega
    have hnext : (k + 1 - 2) % 12 = 0 := by omega
    rw [hmonth, hnext]
    split
    · push_cast
      omega
    · push_cast
      omega
  · have hyear : (k + 1 - 2) / 12 = (k - 2) / 12 := by omega
    have hmonth : (k + 1 - 2) % 12 = (k - 2) % 12 + 1 := by omega
    rw [hyear, hmonth, marchMonth_succ (by omega) (by omega), if_neg hfebruary]
    by_cases hshort : (k - 2) % 12 = 1 ∨ (k - 2) % 12 = 3 ∨ (k - 2) % 12 = 6 ∨ (k - 2) % 12 = 8
    · rw [if_pos hshort, if_pos (by omega)]
      push_cast
      ring
    · rw [if_neg hshort, if_neg (by omega)]
      push_cast
      ring

/-- The proleptic Gregorian calendar. -/
def gregorian : MonthCalendar :=
  ⟨gregorianStart, gregorianLength, fun k => by
    have := twentyEight_le_gregorianLength k
    omega, gregorianStart_succ⟩

end Lib
