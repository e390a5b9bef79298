import Ficant.Lib.Except
import Ficant.Market.Bar
import Ficant.Primitives.EpochDate
import Ficant.Primitives.NaiveTime

namespace Ficant

open Lib

/-!
# The rules of a bar

`Bar::new` with every rule and every violation (`ficant-domain/src/market/bar.rs`).  The time-zone
database is a third-party package; the model takes from it what the rules read.

* `Bar.new` — the constructor; a bar that it makes satisfies `BarInput.valid`;
* `Bar.new_input` — a bar that was made once is made again from its own fields.
-/

/-- What the model needs of local time: the second of the local day and the nanoseconds within it, and
    the instant of a local date and time where there is exactly one, which has that local date. -/
structure MarketClock extends ZoneTable where
  localTime : String → DateTime → ℕ × ℕ
  localInstant : String → NaiveDate → NaiveTime → Option DateTime
  localDate_localInstant : ∀ zone date time instant,
    localInstant zone date time = some instant → localDate zone instant = some date

/-- One zone, so many whole minutes ahead of UTC. -/
def MarketClock.fixedOffset (zone : String) (minutes : ℤ) : MarketClock where
  toZoneTable := .fixedOffset zone (minutes * 60)
  localTime _ t := (((t.timestamp + minutes * 60) % 86400).toNat, t.subsecNanos)
  localInstant _ date time :=
    DateTime.fromTimestamp ((date.dayNumber - epochDay) * 86400 + time.secs - minutes * 60) time.frac
  localDate_localInstant _ date time instant h := by
    obtain ⟨hseconds, -⟩ := DateTime.fromTimestamp_eq_some.mp h
    have hday : (instant.timestamp + minutes * 60) / 86400 + epochDay = date.dayNumber := by
      have := time.secs_lt
      omega
    show NaiveDate.ofDayNumber ((instant.timestamp + minutes * 60) / 86400 + epochDay) = some date
    rw [hday, NaiveDate.ofDayNumber_dayNumber]

/-- `BarRuleViolation`. -/
inductive BarRuleViolation
  | misalignedInterval | inconsistentOhlc | negativeVolume | observedAfterVisible | invalidValue
  deriving DecidableEq, Repr

/-- `BarFrequency::from_code`. -/
def BarFrequency.fromCode (code : String) : Option BarFrequency :=
  [m1, m5, m15, m30, h1, d1].find? fun value => value.code = code

/-- `BarSettlement::from_code`. -/
def BarSettlement.fromCode (code : String) : Option BarSettlement :=
  [t0, t1, unspecified].find? fun value => value.code = code

theorem BarFrequency.fromCode_code (value : BarFrequency) : fromCode value.code = some value := by
  cases value <;> decide

theorem BarSettlement.fromCode_code (value : BarSettlement) : fromCode value.code = some value := by
  cases value <;> decide

/-- The minutes and seconds of local time lie on the grid of the frequency. -/
def onGrid (time : ℕ × ℕ) (minutes : ℕ) : Bool :=
  time.1 % 60 = 0 ∧ time.2 = 0 ∧ time.1 / 60 % minutes = 0

/-- The local date of an instant is the trading date; none where `date_naive` panics. -/
def onTradingDate (clock : MarketClock) (zone : String) (input : BarInput) (instant : DateTime) :
    Option (Except BarRuleViolation Unit) :=
  (clock.localDate zone instant).map fun date =>
    if date ≠ input.localTradingDate then .error .misalignedInterval else .ok ()

/-- `validate_interval`; none where it panics. -/
def validateInterval (clock : MarketClock) (zone : String) (input : BarInput) :
    Option (Except BarRuleViolation Unit) :=
  if input.barEnd ≤ input.barStart then some (.error .misalignedInterval)
  else
    match onTradingDate clock zone input input.barStart with
    | none => none
    | some (.error violation) => some (.error violation)
    | some (.ok ()) =>
      match input.frequency.intervalMinutes with
      | some minutes =>
        if input.barEnd.signedDurationSince input.barStart ≠ 60000000000 * (minutes : ℤ) ∨
            !onGrid (clock.localTime zone input.barStart) minutes then
          some (.error .misalignedInterval)
        else some (.ok ())
      -- a daily bar spans one trading session, which never crosses the local date
      | none => onTradingDate clock zone input input.barEnd

/-- `validate_amounts`. -/
def validateAmounts (input : BarInput) : Except BarRuleViolation Unit :=
  if input.volume.coefficient < 0 ∨ input.turnover.any fun v => v.coefficient < 0 then
    .error .negativeVolume
  else .ok ()

/-- `validate_prices`, or what a bar without prices has to satisfy. -/
def validatePrices (input : BarInput) : Except BarRuleViolation Unit :=
  if input.pricesValid then .ok () else .error .inconsistentOhlc

namespace Bar

/-- The checks that follow the interval. -/
def checkValues (input : BarInput) : Except BarRuleViolation Unit :=
  if input.visibleAt < input.barEnd then .error .observedAfterVisible
  else do
    validateAmounts input
    validatePrices input

/-- The checks of `Bar::new`, in order; none where one of them panics. -/
def check (clock : MarketClock) (input : BarInput) : Option (Except BarRuleViolation Unit) :=
  if !properName input.sourceRecordId then some (.error .invalidValue)
  else
    match clock.name input.marketTimezone with
    | none => some (.error .invalidValue)
    | some zone =>
      (validateInterval clock zone input).map fun interval => do
        interval
        checkValues input

theorem intervalValid_of_validate {clock : MarketClock} {zone : String} {input : BarInput}
    (h : validateInterval clock zone input = some (.ok ())) : input.intervalValid = true := by
  unfold validateInterval at h
  split at h
  · simp at h
  rename_i hlt
  split at h
  · simp at h
  · simp at h
  refine decide_eq_true ⟨not_le.mp hlt, ?_⟩
  split at h
  · rename_i minutes hminutes
    split at h
    · simp at h
    rename_i hlength
    push Not at hlength
    simp [hminutes, hlength.1]
  · rename_i hdaily
    simp [hdaily]

/-- What passes the checks is a bar. -/
theorem valid_of_check {clock : MarketClock} {input : BarInput}
    (h : check clock input = some (.ok ())) : input.valid = true := by
  unfold check at h
  split at h
  · simp at h
  split at h
  · simp at h
  -- The checks in the order in which the constructor makes them.
  obtain ⟨interval, hinterval, h⟩ := Option.map_eq_some_iff.mp h
  obtain ⟨_, rfl, hvalues⟩ := bind_eq_ok.mp h
  unfold checkValues at hvalues
  split at hvalues
  · cases hvalues
  rename_i hvisible
  obtain ⟨_, hamounts, hprices⟩ := bind_eq_ok.mp hvalues
  have hprices : input.pricesValid = true := by
    unfold validatePrices at hprices
    split at hprices
    · assumption
    · cases hprices
  unfold validateAmounts at hamounts
  split at hamounts
  · cases hamounts
  rename_i hnegative
  push Not at hnegative
  obtain ⟨hvolume, hturnover⟩ := hnegative
  refine decide_eq_true ⟨intervalValid_of_validate hinterval, not_lt.mp hvisible, hvolume, ?_,
    hprices⟩
  cases hget : input.turnover with
  | none => rfl
  | some v =>
    rw [hget] at hturnover
    simpa using hturnover

/-- `Bar::new`; none where it panics. -/
def new (clock : MarketClock) (input : BarInput) : Option (Except BarRuleViolation Bar) :=
  match h : check clock input with
  | none => none
  | some (.error violation) => some (.error violation)
  | some (.ok ()) => some (.ok ⟨input, valid_of_check h⟩)

theorem new_eq_ok {clock : MarketClock} {input : BarInput} {bar : Bar} :
    new clock input = some (.ok bar) ↔ check clock input = some (.ok ()) ∧ bar.input = input := by
  unfold new
  split
  · rename_i hcheck
    simp [hcheck]
  · rename_i violation hcheck
    simp [hcheck]
  · rename_i hcheck
    obtain ⟨fields, hvalid⟩ := bar
    simp [hcheck, eq_comm]

/-- The constructor panics only where a bound of the interval has no local date. -/
theorem new_ne_none {clock : MarketClock} {input : BarInput} {zone : String}
    (hzone : clock.name input.marketTimezone = some zone)
    (hstart : (clock.localDate zone input.barStart).isSome)
    (hend : input.frequency.intervalMinutes = none → (clock.localDate zone input.barEnd).isSome) :
    new clock input ≠ none := by
  -- The constructor stops only where a local date does not exist.
  have hdate : ∀ instant, (clock.localDate zone instant).isSome →
      (onTradingDate clock zone input instant).isSome := by
    intro instant h
    simpa [onTradingDate] using h
  have hinterval : (validateInterval clock zone input).isSome := by
    unfold validateInterval
    split
    · rfl
    split
    · rename_i hnone
      simpa [hnone] using hdate _ hstart
    · rfl
    split
    · split <;> rfl
    · rename_i hdaily
      exact hdate _ (hend hdaily)
  have hcheck : (check clock input).isSome := by
    unfold check
    split
    · rfl
    simpa [hzone] using hinterval
  intro h
  unfold new at h
  split at h
  · rename_i hnone
    simp [hnone] at hcheck
  · cases h
  · cases h

/-- A bar that was made once is made again from its own fields. -/
theorem new_input {clock : MarketClock} {input : BarInput} {bar : Bar}
    (h : new clock input = some (.ok bar)) : new clock bar.input = some (.ok bar) := by
  obtain ⟨hcheck, hinput⟩ := new_eq_ok.mp h
  exact new_eq_ok.mpr ⟨hinput.symm ▸ hcheck, rfl⟩

end Bar

end Ficant
