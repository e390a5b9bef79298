import Ficant.Lib.Bytes
import Ficant.Lib.Decimal
import Ficant.Lib.SortedMap

namespace Ficant

open Lib

/-!
# Domain primitives

Identifiers, versions, hashes, instants, calendar dates and unit-carrying decimals
(`ficant-domain/src/primitives`), and the error codes of the domain and application layers.

* `Ulid` — a canonical ULID text has 26 Crockford base-32 digits and is one 128-bit number; the
  model keeps the number, whose order is the order of the texts (`Ulid.text` writes it out).
* `DateTime` — an instant inside chrono's range, leap seconds included.
* `NaiveDate` — a day of the proleptic Gregorian calendar; `dayNumber` counts days, `text` is
  chrono's `Display`.
* `DecimalValue` — a normalised coefficient and scale with a unit; `DecimalValue.value` is the
  number (`ReplayAmount::of`).

`rust_decimal` is a third-party package: the numbers of its `Decimal` are those of `Lib.Decimal`, and
its operators, which round what 96 bits do not hold, are a parameter (`Primitives.DecimalArithmetic`).
-/

/-- `DomainErrorCode`. -/
inductive DomainErrorCode
  | invalidId | invalidUnit | invalidEffectiveTime | versionConflict | contentHashMismatch
  | brokenLineage | invalidStateTransition | journalSequenceConflict | invalidValue
  deriving DecidableEq, Repr

/-- `ApplicationErrorCategory`. -/
inductive ApplicationErrorCategory
  | validationFailed | notFound | alreadyExists | versionConflict | concurrencyConflict
  | immutableViolation | hashMismatch | lineageIncomplete | stateConflict | unauthenticated
  | forbidden | storageUnavailable
  deriving DecidableEq, Repr

/-- `ApplicationError`: its category and whether a retry may help. -/
structure ApplicationError where
  category : ApplicationErrorCategory
  retryable : Bool
  deriving DecidableEq, Repr

/-! ### Identifiers, versions and hashes -/

/-- A ULID, as the 128-bit number its canonical text spells. -/
structure Ulid where
  value : Fin (2 ^ 128)

namespace Ulid

instance : LinearOrder Ulid :=
  LinearOrder.lift' Ulid.value fun a b h => by cases a; cases b; simpa using h

instance : LawfulBEq Ulid := inferInstance

/-- A literal is read below the bound. -/
instance neZeroBound : NeZero (2 ^ 128) := ⟨by decide⟩

/-- The Crockford base-32 alphabet. -/
def alphabet : List Char := "0123456789ABCDEFGHJKMNPQRSTVWXYZ".toList

/-- The base-32 digits of `n`, most significant first, `count` of them. -/
def base32 : ℕ → ℕ → List ℕ
  | 0, _ => []
  | count + 1, n => base32 count (n / 32) ++ [n % 32]

/-- `Ulid::as_str`: the canonical 26-character text. -/
def text (id : Ulid) : String :=
  String.ofList ((base32 26 id.value).map fun d => alphabet.getD d '0')

/-- The value of a Crockford digit. -/
def digitOf (c : Char) : Option ℕ := alphabet.findIdx? (· == c)

/-- The number that base-32 digits spell. -/
def ofDigits (digits : List ℕ) : ℕ := digits.foldl (fun n d => n * 32 + d) 0

/-- `Ulid::new`: the text has to be the canonical text of the number it spells. -/
def new (value : String) : Except DomainErrorCode Ulid :=
  match value.toList.mapM digitOf with
  | none => .error .invalidId
  | some digits =>
    if h : ofDigits digits < 2 ^ 128 then
      let parsed : Ulid := ⟨⟨ofDigits digits, h⟩⟩
      if parsed.text ≠ value then .error .invalidId else .ok parsed
    else .error .invalidId

/-- Every digit of an identifier is one of the thirty-two. -/
theorem base32_lt {count n : ℕ} : ∀ d ∈ base32 count n, d < 32 := by
  induction count generalizing n with
  | zero => simp [base32]
  | succ count ih =>
    intro d hd
    rcases List.mem_append.mp hd with hd | hd
    · exact ih d hd
    · simp only [List.mem_singleton] at hd
      omega

theorem length_base32 (count n : ℕ) : (base32 count n).length = count := by
  induction count generalizing n with
  | zero => rfl
  | succ count ih => simp [base32, ih]

/-- A number that fits comes back from its digits. -/
theorem ofDigits_base32 {count n : ℕ} (h : n < 32 ^ count) : ofDigits (base32 count n) = n := by
  induction count generalizing n with
  | zero => simp at h; simp [base32, ofDigits, h]
  | succ count ih =>
    have hdiv : n / 32 < 32 ^ count := by
      apply Nat.div_lt_of_lt_mul
      rwa [pow_succ, mul_comm] at h
    have hhigh := ih hdiv
    unfold ofDigits at hhigh ⊢
    rw [base32, List.foldl_append, hhigh]
    simp
    omega

/-- Every letter of the alphabet stands for its own digit. -/
theorem digitOf_alphabet : ∀ d < 32, digitOf (alphabet.getD d '0') = some d := by decide

theorem utf8Size_alphabet : ∀ d < 32, (alphabet.getD d '0').utf8Size = 1 := by decide

/-- A text of these letters is read as its digits. -/
theorem mapM_digitOf {digits : List ℕ} (h : ∀ d ∈ digits, d < 32) :
    (digits.map fun d => alphabet.getD d '0').mapM digitOf = some digits := by
  induction digits with
  | nil => rfl
  | cons d digits ih =>
    rw [List.map_cons, List.mapM_cons, digitOf_alphabet d (h d List.mem_cons_self),
      ih fun d hd => h d (List.mem_cons_of_mem _ hd)]
    rfl

/-- The text of an identifier is read back. -/
theorem new_text (id : Ulid) : Ulid.new id.text = .ok id := by
  have hdigits : id.text.toList.mapM digitOf = some (base32 26 id.value) := by
    rw [text, String.toList_ofList]
    exact mapM_digitOf base32_lt
  have hnumber : ofDigits (base32 26 id.value) = id.value :=
    ofDigits_base32 (lt_of_lt_of_le id.value.isLt (by norm_num))
  rw [new, hdigits]
  simp only [hnumber, id.value.isLt, dif_pos]
  simp

theorem text_injective : Function.Injective Ulid.text := by
  intro a b h
  have ha := new_text a
  rw [h, new_text b] at ha
  exact (Except.ok.inj ha).symm

/-- An identifier has twenty-six letters of one byte each. -/
theorem length_utf8_text (id : Ulid) : (utf8 id.text).length = 26 := by
  rw [text, length_utf8_ofList]
  · simp [length_base32]
  · intro c hc
    obtain ⟨d, hd, rfl⟩ := List.mem_map.mp hc
    exact utf8Size_alphabet d (base32_lt d hd)

end Ulid

/-- `Version`: a positive 64-bit number. -/
structure Version where
  value : ℕ
  positive : 0 < value
  fits : value < 2 ^ 64
  deriving DecidableEq

/-- The first version of an object. -/
def Version.first : Version := ⟨1, by decide, by decide⟩

/-- `Version::new`, on a 64-bit number. -/
def Version.new (value : ℕ) : Except DomainErrorCode Version :=
  if h : 0 < value ∧ value < 2 ^ 64 then .ok ⟨value, h.1, h.2⟩ else .error .versionConflict

/-- The constructor accepts the number of a version. -/
theorem Version.new_value (v : Version) : Version.new v.value = .ok v := by
  rw [Version.new, dif_pos ⟨v.positive, v.fits⟩]

/-- A version that is accepted has the number that was given. -/
theorem Version.value_of_new {n : ℕ} {v : Version} (h : Version.new n = .ok v) : v.value = n := by
  rw [Version.new] at h
  split at h
  · obtain rfl := Except.ok.inj h
    rfl
  · cases h

/-- `VersionRef`: one exact version of an object, ordered by id and then by version. -/
structure VersionRef where
  id : Ulid
  version : Version

instance : LinearOrder VersionRef :=
  LinearOrder.lift' (fun r => toLex (r.id, r.version.value)) fun a b h => by
    obtain ⟨ia, va, _, _⟩ := a
    obtain ⟨ib, vb, _, _⟩ := b
    obtain ⟨rfl, rfl⟩ := Prod.mk.inj (toLex_inj.mp h)
    rfl

/-- `OwnerRef`. -/
structure OwnerRef where
  tenantId : Ulid
  ownerId : Ulid
  deriving DecidableEq

/-- `ContentHash`: 32 bytes. -/
structure ContentHash where
  bytes : List UInt8
  length_eq : bytes.length = 32
  deriving DecidableEq

/-- `ContentHash::from_bytes`. -/
def ContentHash.fromBytes (bytes : List UInt8) : Except DomainErrorCode ContentHash :=
  if h : bytes.length = 32 then .ok ⟨bytes, h⟩ else .error .contentHashMismatch

/-- The hash of 32 equal bytes. -/
def ContentHash.filled (byte : UInt8) : ContentHash := ⟨List.replicate 32 byte, List.length_replicate⟩

/-- The digest keeps two byte strings apart. -/
def NoCollision (digest : List UInt8 → ContentHash) (u v : List UInt8) : Prop :=
  digest u = digest v → u = v

/-! ### Names -/

/-- `char::is_whitespace`: the characters with the Unicode property `White_Space`. -/
def isWhitespace (c : Char) : Bool :=
  let n := c.toNat
  (0x09 ≤ n ∧ n ≤ 0x0D) ∨ n = 0x20 ∨ n = 0x85 ∨ n = 0xA0 ∨ n = 0x1680 ∨
    (0x2000 ≤ n ∧ n ≤ 0x200A) ∨ n = 0x2028 ∨ n = 0x2029 ∨ n = 0x202F ∨ n = 0x205F ∨ n = 0x3000

/-- `str::trim`. -/
def trim (s : String) : String :=
  String.ofList ((s.toList.dropWhile isWhitespace).rdropWhile isWhitespace)

/-- A name that is neither blank nor padded with white space. -/
def properName (s : String) : Bool := trim s ≠ "" ∧ s = trim s

/-! ### Times -/

/-- chrono's `DateTime<Utc>`: the second since 1970, from year -262143 to year 262142, and the
    nanoseconds within it.  On the last second of a minute they may run on to a second second, the
    leap second. -/
structure DateTime where
  timestamp : ℤ
  subsecNanos : ℕ
  lower : -8334601228800 ≤ timestamp
  upper : timestamp ≤ 8210266876799
  subsec_lt : subsecNanos < 2000000000
  leap : 1000000000 ≤ subsecNanos → timestamp % 60 = 59

namespace DateTime

@[ext] theorem ext {t u : DateTime} (hseconds : t.timestamp = u.timestamp)
    (hnanos : t.subsecNanos = u.subsecNanos) : t = u := by
  cases t
  cases u
  simp_all

/-- Instants are ordered by their second and then by the nanoseconds within it. -/
instance : LinearOrder DateTime :=
  LinearOrder.lift' (fun t => toLex (t.timestamp, t.subsecNanos)) fun t u h => by
    obtain ⟨hseconds, hnanos⟩ := Prod.mk.inj (toLex_inj.mp h)
    exact DateTime.ext hseconds hnanos

theorem lt_iff {t u : DateTime} :
    t < u ↔ t.timestamp < u.timestamp ∨ t.timestamp = u.timestamp ∧ t.subsecNanos < u.subsecNanos :=
  Prod.Lex.toLex_lt_toLex

theorem le_iff {t u : DateTime} :
    t ≤ u ↔ t.timestamp < u.timestamp ∨ t.timestamp = u.timestamp ∧ t.subsecNanos ≤ u.subsecNanos :=
  Prod.Lex.toLex_le_toLex

/-- The first instant of a second. -/
def ofSeconds (seconds : ℤ) (lower : -8334601228800 ≤ seconds) (upper : seconds ≤ 8210266876799) :
    DateTime where
  timestamp := seconds
  subsecNanos := 0
  lower
  upper
  subsec_lt := Nat.zero_lt_succ _
  leap h := absurd h (Nat.not_le_of_gt (Nat.zero_lt_succ _))

/-- `DateTime::UNIX_EPOCH`. -/
def epoch : DateTime := ofSeconds 0 (by decide) (by decide)

/-- Whether the instant lies in a leap second. -/
def InLeapSecond (t : DateTime) : Prop := 1000000000 ≤ t.subsecNanos

instance (t : DateTime) : Decidable t.InLeapSecond := inferInstanceAs (Decidable (_ ≤ _))

/-- `DateTime::timestamp_micros`: a leap second counts as the second after it. -/
def timestampMicros (t : DateTime) : ℤ := t.timestamp * 1000000 + (t.subsecNanos / 1000 : ℕ)

/-- The nanoseconds since 1970; a leap second counts as the second after it. -/
def timestampNanos (t : DateTime) : ℤ := t.timestamp * 1000000000 + t.subsecNanos

/-- Whether the instant falls on a whole microsecond. -/
def WholeMicros (t : DateTime) : Prop := t.subsecNanos % 1000 = 0

instance (t : DateTime) : Decidable t.WholeMicros := inferInstanceAs (Decidable (_ = _))

/-- `DateTime::from_timestamp`. -/
def fromTimestamp (seconds : ℤ) (nanos : ℕ) : Option DateTime :=
  if h : -8334601228800 ≤ seconds ∧ seconds ≤ 8210266876799 ∧ nanos < 2000000000 ∧
      (1000000000 ≤ nanos → seconds % 60 = 59) then
    some ⟨seconds, nanos, h.1, h.2.1, h.2.2.1, h.2.2.2⟩
  else none

/-- **What `from_timestamp` makes**: the instant of these two numbers, leap seconds included. -/
theorem fromTimestamp_eq_some {seconds : ℤ} {nanos : ℕ} {t : DateTime} :
    fromTimestamp seconds nanos = some t ↔ t.timestamp = seconds ∧ t.subsecNanos = nanos := by
  unfold fromTimestamp
  constructor
  · intro h
    split at h
    · obtain rfl := Option.some.inj h
      exact ⟨rfl, rfl⟩
    · cases h
  · rintro ⟨rfl, rfl⟩
    rw [dif_pos ⟨t.lower, t.upper, t.subsec_lt, t.leap⟩]

/-- `signed_duration_since`, in nanoseconds.  The times of day count a leap second between them, when
    the later one is the later time of day; over midnight it counts twice the other way. -/
def signedDurationSince (t u : DateTime) : ℤ :=
  let counted : ℤ :=
    if u.timestamp % 86400 < t.timestamp % 86400 ∧ u.InLeapSecond then 1
    else if t.timestamp % 86400 < u.timestamp % 86400 ∧ t.InLeapSecond then -1
    else 0
  (t.timestamp - u.timestamp + counted) * 1000000000 + ((t.subsecNanos : ℤ) - u.subsecNanos)

/-- One instant lies in a leap second, and the other one as far into the second after it. -/
def LeapAlias (t u : DateTime) : Prop :=
  (t.InLeapSecond ∧ u.timestamp = t.timestamp + 1 ∧ u.subsecNanos + 1000000000 = t.subsecNanos) ∨
    (u.InLeapSecond ∧ t.timestamp = u.timestamp + 1 ∧ t.subsecNanos + 1000000000 = u.subsecNanos)

instance (t u : DateTime) : Decidable (LeapAlias t u) := inferInstanceAs (Decidable (_ ∨ _))

/-- No instant is the leap second of itself. -/
theorem not_leapAlias_self (t : DateTime) : ¬ LeapAlias t t := by
  unfold LeapAlias
  omega

/-- The numbers of chrono tell two instants apart unless a leap second is read as the second after
    it. -/
theorem timestampNanos_eq_iff {t u : DateTime} :
    t.timestampNanos = u.timestampNanos ↔ t = u ∨ LeapAlias t u := by
  unfold timestampNanos LeapAlias InLeapSecond
  have ht := t.subsec_lt
  have hu := u.subsec_lt
  constructor
  · intro h
    by_cases hsame : t.timestamp = u.timestamp
    · exact .inl (DateTime.ext hsame (by omega))
    · right
      omega
  · rintro (rfl | h)
    · rfl
    · omega

/-- Whole microseconds tell two instants apart unless a leap second is read as the second after
    it. -/
theorem timestampMicros_eq_iff {t u : DateTime} (ht : t.WholeMicros) (hu : u.WholeMicros) :
    t.timestampMicros = u.timestampMicros ↔ t = u ∨ LeapAlias t u := by
  rw [← timestampNanos_eq_iff]
  unfold timestampMicros timestampNanos
  unfold WholeMicros at ht hu
  omega

/-- A number of nanoseconds since 1970, where its second is in chrono's range. -/
def fromNanos (nanos : ℤ) : Option DateTime :=
  fromTimestamp (nanos / 1000000000) (nanos % 1000000000).toNat

/-- `checked_add_signed`: the sum of an instant and a duration in nanoseconds, where chrono can
    represent it.  A sum that leaves a leap second counts from the second before it, or back from
    the second after it. -/
def add? (t : DateTime) (nanos : ℤ) : Option DateTime :=
  let seconds := nanos.tdiv 1000000000
  let fraction := nanos.tmod 1000000000
  if t.InLeapSecond then
    if 0 < seconds ∨ (0 < fraction ∧ 2000000000 ≤ t.subsecNanos + fraction) then
      fromNanos (t.timestampNanos - 1000000000 + nanos)
    else if seconds < 0 then fromNanos (t.timestampNanos + nanos)
    else fromTimestamp t.timestamp (t.subsecNanos + fraction).toNat
  else fromNanos (t.timestampNanos + nanos)

end DateTime

/-- Whether the year has a 29 February. -/
def NaiveDate.isLeapYear (year : ℤ) : Bool := year % 4 = 0 ∧ (year % 100 ≠ 0 ∨ year % 400 = 0)

/-- The number of days of a month. -/
def NaiveDate.daysInMonth (year : ℤ) (month : ℕ) : ℕ :=
  [31, if isLeapYear year then 29 else 28, 31, 30, 31, 30, 31, 31, 30, 31, 30, 31].getD (month - 1) 0

/-- chrono's `NaiveDate`: a day of the proleptic Gregorian calendar. -/
structure NaiveDate where
  year : ℤ
  month : ℕ
  day : ℕ
  year_ge : -262143 ≤ year
  year_le : year ≤ 262142
  month_ge : 1 ≤ month
  month_le : month ≤ 12
  day_ge : 1 ≤ day
  day_le : day ≤ NaiveDate.daysInMonth year month

namespace NaiveDate

instance : LinearOrder NaiveDate :=
  LinearOrder.lift' (fun d => toLex (d.year, toLex (d.month, d.day))) fun a b h => by
    obtain ⟨ya, ma, da, _, _, _, _⟩ := a
    obtain ⟨yb, mb, db, _, _, _, _⟩ := b
    obtain ⟨rfl, h⟩ := Prod.mk.inj (toLex_inj.mp h)
    obtain ⟨rfl, rfl⟩ := Prod.mk.inj (toLex_inj.mp h)
    rfl

/-- `NaiveDate::default`: the first of January 1970. -/
def epoch : NaiveDate := ⟨1970, 1, 1, by decide, by decide, by decide, by decide, by decide, by decide⟩

/-- `NaiveDate::from_ymd_opt`. -/
def fromYmd (year : ℤ) (month day : ℕ) : Option NaiveDate :=
  if h : -262143 ≤ year ∧ year ≤ 262142 ∧ 1 ≤ month ∧ month ≤ 12 ∧ 1 ≤ day ∧
    day ≤ daysInMonth year month then
    some ⟨year, month, day, h.1, h.2.1, h.2.2.1, h.2.2.2.1, h.2.2.2.2.1, h.2.2.2.2.2⟩
  else none

/-- The day of a literal: `from_ymd_opt(..).unwrap_or_default()`. -/
def ymd (year : ℤ) (month day : ℕ) : NaiveDate := (fromYmd year month day).getD epoch

theorem daysInMonth_le (year : ℤ) (month : ℕ) : daysInMonth year month ≤ 31 := by
  have htable : ∀ leap : Bool, ∀ m < 12,
      [31, if leap then 29 else 28, 31, 30, 31, 30, 31, 31, 30, 31, 30, 31].getD m 0 ≤ 31 := by
    decide
  rcases Nat.lt_or_ge (month - 1) 12 with h | h
  · exact htable (isLeapYear year) _ h
  · rw [daysInMonth, List.getD_eq_default _ _ (by simpa using h)]
    omega

theorem day_le_31 (d : NaiveDate) : d.day ≤ 31 := le_trans d.day_le (daysInMonth_le _ _)

/-- Days of the year before the first of the month. -/
def daysBeforeMonth (year : ℤ) (month : ℕ) : ℤ :=
  [0, 31, 59, 90, 120, 151, 181, 212, 243, 273, 304, 334].getD (month - 1) 0 +
    (if 2 < month ∧ isLeapYear year then 1 else 0)

/-- Days since the start of the proleptic Gregorian calendar; `(b - a).num_days()` is the
    difference of two day numbers. -/
def dayNumber (d : NaiveDate) : ℤ :=
  let y := d.year - 1
  365 * y + y / 4 - y / 100 + y / 400 + daysBeforeMonth d.year d.month + d.day

/-- The year in a date's text, with an explicit sign outside the years 0 to 9999. -/
def yearText (year : ℤ) : List Char :=
  if 0 ≤ year ∧ year ≤ 9999 then paddedDigits 4 year.toNat
  else (if year < 0 then '-' else '+') :: paddedDigits 4 year.natAbs

/-- chrono's `Display`: `YYYY-MM-DD`. -/
def text (d : NaiveDate) : String :=
  String.ofList (yearText d.year ++ '-' :: paddedDigits 2 d.month ++ '-' :: paddedDigits 2 d.day)

/-- A sign is no digit, so the text of a year says in which form it is written. -/
theorem yearText_inj {x y : ℤ} (h : yearText x = yearText y) : x = y := by
  have unsigned : ∀ (z : ℤ) (l : List Char) (n : ℕ),
      (if z < 0 then '-' else '+' : Char) :: l ≠ paddedDigits 4 n := by
    intro z l n e
    have := paddedDigits_isDigit 4 n _ (e ▸ List.mem_cons_self)
    split at this <;> exact absurd this (by decide)
  unfold yearText at h
  -- Years of four digits have no sign, all others have one.
  by_cases hx : 0 ≤ x ∧ x ≤ 9999
  · by_cases hy : 0 ≤ y ∧ y ≤ 9999
    · rw [if_pos hx, if_pos hy] at h
      have := paddedDigits_inj h
      omega
    · rw [if_pos hx, if_neg hy] at h
      exact absurd h.symm (unsigned y _ _)
  · by_cases hy : 0 ≤ y ∧ y ≤ 9999
    · rw [if_neg hx, if_pos hy] at h
      exact absurd h (unsigned x _ _)
    · rw [if_neg hx, if_neg hy, List.cons.injEq] at h
      obtain ⟨hsign, hdigits⟩ := h
      have habs := paddedDigits_inj hdigits
      by_cases h1 : x < 0 <;> by_cases h2 : y < 0 <;> simp only [h1, h2, if_true, if_false] at hsign
      · omega
      · exact absurd hsign (by decide)
      · exact absurd hsign (by decide)
      · omega

theorem text_injective : Function.Injective NaiveDate.text := by
  intro a b h
  have hlist := congrArg String.toList h
  simp only [NaiveDate.text, String.toList_ofList] at hlist
  rw [List.append_assoc, List.append_assoc] at hlist
  have := a.month_le; have := a.day_le_31; have := b.month_le; have := b.day_le_31
  have two : ∀ n, n < 100 → (paddedDigits 2 n).length = 2 := fun n hn =>
    length_paddedDigits (by decide) (by simpa using hn)
  -- Everything after the year has a fixed length, so the texts split at the same places.
  obtain ⟨hyear, hrest⟩ := List.append_inj' hlist (by
    simp only [List.length_cons, List.length_append,
      two a.month (by omega), two a.day (by omega),
      two b.month (by omega), two b.day (by omega)])
  simp only [List.cons_append, List.cons.injEq, true_and] at hrest
  obtain ⟨hmonth, hday⟩ := List.append_inj hrest (by
    rw [two a.month (by omega),
      two b.month (by omega)])
  simp only [List.cons.injEq, true_and] at hday
  have h1 := yearText_inj hyear
  have h2 := paddedDigits_inj hmonth
  have h3 := paddedDigits_inj hday
  cases a; cases b
  simp_all

end NaiveDate

/-- `MarketTime`: an instant with the market's time zone and the local date there. -/
structure MarketTime where
  instant : DateTime
  marketTimezone : String
  localTradingDate : NaiveDate
  deriving DecidableEq

/-- What the model needs of the time-zone database (a third-party package): the canonical name of
    a zone and the local date of an instant in it.  There is none where the local time leaves chrono's
    range: then `date_naive` panics. -/
structure ZoneTable where
  name : String → Option String
  localDate : String → DateTime → Option NaiveDate

/-- `MarketTime::new`; `none` is the panic of `date_naive`. -/
def MarketTime.new (zones : ZoneTable) (instant : DateTime) (marketTimezone : String)
    (localTradingDate : NaiveDate) : Option (Except DomainErrorCode MarketTime) :=
  match zones.name marketTimezone with
  | none => some (.error .invalidEffectiveTime)
  | some name =>
    match zones.localDate name instant with
    | none => none
    | some date =>
      if date ≠ localTradingDate then some (.error .invalidEffectiveTime)
      else some (.ok ⟨instant, name, localTradingDate⟩)

/-- **What the constructor of a time accepts**: a zone that is known, under its own name, and the
    date that the instant has there. -/
theorem MarketTime.new_eq_ok {zones : ZoneTable} {instant : DateTime} {marketTimezone : String}
    {localTradingDate : NaiveDate} {time : MarketTime} :
    MarketTime.new zones instant marketTimezone localTradingDate = some (.ok time) ↔
      zones.name marketTimezone = some time.marketTimezone ∧
        zones.localDate time.marketTimezone instant = some localTradingDate ∧
        time = ⟨instant, time.marketTimezone, localTradingDate⟩ := by
  unfold MarketTime.new
  constructor
  · intro h
    -- The zone must be known, the local date must exist and agree with the one given.
    split at h
    · cases h
    rename_i name hname
    split at h
    · cases h
    rename_i date hdate
    split at h
    · cases h
    rename_i hsame
    obtain rfl := Except.ok.inj (Option.some.inj h)
    exact ⟨hname, by rw [hdate, not_not.mp hsame], rfl⟩
  · rintro ⟨hname, hdate, htime⟩
    rw [hname]
    dsimp only
    rw [hdate]
    dsimp only
    rw [if_neg (not_not.mpr rfl), ← htime]

/-- `EffectivePeriod`: a non-empty half-open period. -/
structure EffectivePeriod where
  from_ : MarketTime
  to_ : MarketTime
  ordered : from_.instant < to_.instant
  deriving DecidableEq

/-! ### Decimal values with units -/

/-- `UnitRef`. -/
structure UnitRef where
  unitId : Ulid
  version : Version
  deriving DecidableEq

/-- `DecimalValue`: a coefficient, a scale and a unit. -/
structure DecimalValue where
  coefficient : ℤ
  scale : ℕ
  unit : UnitRef
  deriving DecidableEq

/-- The number a decimal value stands for (`ReplayAmount::of`). -/
def DecimalValue.value (v : DecimalValue) : Decimal := Decimal.scaled v.coefficient v.scale

/-- A coefficient that is not negative makes no negative number. -/
theorem DecimalValue.value_nonneg {v : DecimalValue} (h : 0 ≤ v.coefficient) : 0 ≤ v.value := by
  rw [← Decimal.coe_le]
  show (0 : ℚ) ≤ (v.coefficient : ℚ) / 10 ^ v.scale
  exact div_nonneg (Int.cast_nonneg h) (by positivity)

end Ficant
