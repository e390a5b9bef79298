import Ficant.Primitives

namespace Ficant

open Lib

/-!
# Canonical bars

One instrument, one settlement type and one frequency over one half-open interval
(`ficant-domain/src/market/bar.rs`).  A `Bar` carries the part of `Bar::new` that the bar's own
fields decide: the interval is not empty and has the frequency's length, the bar is visible only
after its end, amounts are not negative, and a bar without prices has no volume, VWAP or yield.

Alignment to the local market grid and the shape of identifiers need the time-zone database or
Unicode tables; they only restrict the bars further, and nothing below relies on them.
-/

/-- `BarFrequency`. -/
inductive BarFrequency
  | m1 | m5 | m15 | m30 | h1 | d1
  deriving DecidableEq, Repr

namespace BarFrequency

/-- `BarFrequency::code`. -/
def code : BarFrequency → String
  | m1 => "M1" | m5 => "M5" | m15 => "M15" | m30 => "M30" | h1 => "H1" | d1 => "D1"

/-- `BarFrequency::interval_minutes`: `none` for the daily session bar. -/
def intervalMinutes : BarFrequency → Option ℕ
  | m1 => some 1 | m5 => some 5 | m15 => some 15 | m30 => some 30 | h1 => some 60 | d1 => none

end BarFrequency

/-- `BarSettlement`. -/
inductive BarSettlement
  | t0 | t1 | unspecified
  deriving DecidableEq, Repr

/-- `BarSettlement::code`. -/
def BarSettlement.code : BarSettlement → String
  | t0 => "T0" | t1 => "T1" | unspecified => "UNSPECIFIED"

/-- `PriceSourceType`: semantic provenance of the prices of a snapshot. -/
inductive PriceSourceType
  | realTrade | activeQuote | modelValuation | curveInterpolation
  deriving DecidableEq, Repr

/-- `BarPrices`: open, high, low and close clean prices. -/
structure BarPrices where
  open_ : DecimalValue
  high : DecimalValue
  low : DecimalValue
  close : DecimalValue
  deriving DecidableEq

/-- `BarInput`. -/
structure BarInput where
  sourceRecordId : String
  instrument : VersionRef
  frequency : BarFrequency
  settlement : BarSettlement
  marketTimezone : String
  localTradingDate : NaiveDate
  barStart : DateTime
  barEnd : DateTime
  visibleAt : DateTime
  prices : Option BarPrices
  volume : DecimalValue
  turnover : Option DecimalValue
  tradeCount : Option ℕ
  vwap : Option DecimalValue
  closeYield : Option DecimalValue
  deriving DecidableEq

/-- `validate_interval`, without the alignment to the local grid. -/
def BarInput.intervalValid (i : BarInput) : Bool :=
  i.barStart < i.barEnd ∧
    i.frequency.intervalMinutes.all fun minutes =>
      i.barEnd.signedDurationSince i.barStart = 60000000000 * minutes

/-- `validate_prices`: one unit, nothing negative, high and low bound the others. -/
def BarPrices.valid (p : BarPrices) (vwap : Option DecimalValue) : Bool :=
  ([p.open_, p.high, p.low, p.close].all fun v => v.unit = p.open_.unit ∧ 0 ≤ v.coefficient) ∧
    (vwap.all fun v => v.unit = p.open_.unit) ∧
    p.low.value ≤ p.open_.value ∧ p.low.value ≤ p.close.value ∧
    p.open_.value ≤ p.high.value ∧ p.close.value ≤ p.high.value ∧
    vwap.all fun v => p.low.value ≤ v.value ∧ v.value ≤ p.high.value

/-- Prices are consistent, or there are none and nothing else depends on them. -/
def BarInput.pricesValid (i : BarInput) : Bool :=
  match i.prices with
  | some prices => prices.valid i.vwap
  | none => i.volume.coefficient = 0 ∧ i.vwap = none ∧ i.closeYield = none

/-- The checks of `Bar::new`. -/
def BarInput.valid (i : BarInput) : Bool :=
  i.intervalValid ∧ i.barEnd ≤ i.visibleAt ∧
    0 ≤ i.volume.coefficient ∧ (i.turnover.all fun v => 0 ≤ v.coefficient) ∧ i.pricesValid

/-- A canonical bar. -/
structure Bar where
  input : BarInput
  valid : input.valid = true
  deriving DecidableEq

namespace Bar

/-- `Bar::source_record_id`. -/
def sourceRecordId (b : Bar) : String := b.input.sourceRecordId
/-- `Bar::instrument`. -/
def instrument (b : Bar) : VersionRef := b.input.instrument
/-- `Bar::frequency`. -/
def frequency (b : Bar) : BarFrequency := b.input.frequency
/-- `Bar::settlement`. -/
def settlement (b : Bar) : BarSettlement := b.input.settlement
/-- `Bar::local_trading_date`. -/
def localTradingDate (b : Bar) : NaiveDate := b.input.localTradingDate
/-- `Bar::bar_start`. -/
def barStart (b : Bar) : DateTime := b.input.barStart
/-- `Bar::bar_end`. -/
def barEnd (b : Bar) : DateTime := b.input.barEnd
/-- `Bar::visible_at`. -/
def visibleAt (b : Bar) : DateTime := b.input.visibleAt
/-- `Bar::prices`. -/
def prices (b : Bar) : Option BarPrices := b.input.prices
/-- `Bar::volume`. -/
def volume (b : Bar) : DecimalValue := b.input.volume
/-- `Bar::vwap`. -/
def vwap (b : Bar) : Option DecimalValue := b.input.vwap
/-- `Bar::close_yield`. -/
def closeYield (b : Bar) : Option DecimalValue := b.input.closeYield

/-- The close of a priced bar. -/
def close (b : Bar) : Option Decimal := b.prices.map fun p => p.close.value

/-! ### What a bar guarantees -/

theorem checks (b : Bar) :
    b.input.intervalValid = true ∧ b.barEnd ≤ b.visibleAt ∧ 0 ≤ b.input.volume.coefficient ∧
      (b.input.turnover.all fun v => 0 ≤ v.coefficient) = true ∧ b.input.pricesValid = true :=
  of_decide_eq_true b.valid

theorem start_lt_end (b : Bar) : b.barStart < b.barEnd :=
  (of_decide_eq_true b.checks.1).1

theorem end_le_visible (b : Bar) : b.barEnd ≤ b.visibleAt := b.checks.2.1

theorem start_lt_visible (b : Bar) : b.barStart < b.visibleAt :=
  lt_of_lt_of_le b.start_lt_end b.end_le_visible

theorem volume_nonneg (b : Bar) : 0 ≤ b.volume.value :=
  DecimalValue.value_nonneg b.checks.2.2.1

/-- A bar with a VWAP has prices, so it has a close to mark the book at. -/
theorem close_isSome_of_vwap (b : Bar) {v : DecimalValue} (hv : b.vwap = some v) :
    ∃ c, b.close = some c := by
  have h := b.checks.2.2.2.2
  unfold BarInput.pricesValid at h
  split at h
  · rename_i p hp
    exact ⟨p.close.value, by simp [close, prices, hp]⟩
  · have hnone : b.vwap = none := (of_decide_eq_true h).2.1
    rw [hnone] at hv
    cases hv

end Bar

end Ficant
