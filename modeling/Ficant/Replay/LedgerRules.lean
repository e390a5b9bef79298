import Ficant.Lib.Except
import Ficant.Replay.Ledger

namespace Ficant

open Lib DecimalArithmetic

namespace ReplayLedger

/-!
# Rules for the ledger

What each ledger operation does when it succeeds (`rollDate_ok`, `openStep_ok`, `settle_ok`,
`finishStep_ok`).  Everything proved about a ledger goes through these four.
-/

variable [DecimalArithmetic] {terms : LedgerTerms} {l l' : ReplayLedger}

/-- What the coupon carry of a date roll leaves alone: it only adds cash, renews accrued interest
    and adds parts. -/
structure Carried (l l' : ReplayLedger) : Prop where
  positions : l'.book.positions = l.book.positions
  marks : l'.marks = l.marks
  date : l'.date = l.date
  equity : l'.equity = l.equity
  rows : l'.rows = l.rows
  step : l'.step = l.step

theorem rollInstruments_carried {previous date : NaiveDate} {held : List (VersionRef × Decimal)}
    {parts parts' : SortedMap VersionRef Parts}
    (h : rollInstruments terms previous date held l parts = .ok (l', parts')) : Carried l l' := by
  induction held generalizing l parts with
  | nil => cases h; exact ⟨rfl, rfl, rfl, rfl, rfl, rfl⟩
  | cons e rest ih =>
    obtain ⟨instrument, face⟩ := e
    unfold rollInstruments at h
    split at h
    · have := ih h
      exact ⟨this.positions, this.marks, this.date, this.equity, this.rows, this.step⟩
    · cases h

/-- What a date roll does: nothing on the same date or the first one, else it charges funding and
    carries the coupons of the positions held. -/
theorem rollDate_ok {date : NaiveDate} {parts : SortedMap VersionRef Parts} {funding : Decimal}
    (h : rollDate terms l date = .ok (l', parts, funding)) :
    (l' = { l with date := some date } ∧ parts = ∅ ∧ funding = 0 ∧
      ∀ previous ∈ l.date, previous = date) ∨
    ∃ previous ∈ l.date, previous ≠ date ∧
      funding = fundingCharge terms l.book.cash previous date ∧
      rollInstruments terms previous date l.book.positions.entries
        { l with date := some date, book := l.book.addCash funding } ∅ = .ok (l', parts) := by
  unfold rollDate at h
  dsimp only at h
  split at h
  · rename_i hnone
    cases h
    exact .inl ⟨rfl, rfl, rfl, fun previous hp => by rw [hnone] at hp; cases hp⟩
  -- The date is new, the same, or another one to which the instruments roll.
  · rename_i previous hprev
    split at h
    · rename_i hsame
      cases h
      refine .inl ⟨rfl, rfl, rfl, fun p hp => ?_⟩
      rw [hprev] at hp
      cases hp
      exact hsame
    · rename_i hne
      obtain ⟨⟨carried, parts'⟩, hroll, h⟩ := bind_eq_ok.mp h
      cases h
      exact .inr ⟨previous, hprev, hne, rfl, hroll⟩

/-- A date roll keeps positions, marks, equity and rows, and sets the date. -/
theorem rollDate_carried {date : NaiveDate} {parts : SortedMap VersionRef Parts} {funding : Decimal}
    (h : rollDate terms l date = .ok (l', parts, funding)) :
    Carried { l with date := some date } l' := by
  rcases rollDate_ok h with ⟨rfl, -, -, -⟩ | ⟨previous, -, -, -, hroll⟩
  · exact ⟨rfl, rfl, rfl, rfl, rfl, rfl⟩
  · have := rollInstruments_carried hroll
    exact ⟨this.positions, this.marks, this.date, this.equity, this.rows, this.step⟩

/-- The step that opening on `bars` creates. -/
def stepFor (l : ReplayLedger) (first : Bar) (bars : List Bar) (parts : SortedMap VersionRef Parts)
    (funding : Decimal) : OpenStep where
  barStart := first.barStart
  barEnd := first.barEnd
  date := first.localTradingDate
  knownAt := stepKnownAt first bars
  records := bars.map fun bar => (bar.instrument, bar.sourceRecordId)
  start := l.book.positions
  parts := parts
  funding := funding
  closes := stepCloses bars

/-- What opening a step does. -/
theorem openStep_ok {bars : List Bar} (h : openStep terms l bars = .ok l') :
    ∃ first rest rolled rolledParts funding parts, bars = first :: rest ∧
      l.stepConsistent first bars = true ∧
      rollDate terms l first.localTradingDate = .ok (rolled, rolledParts, funding) ∧
      markInstruments rolled.marks (stepCloses bars) l.book.positions.entries rolledParts =
        some parts ∧
      l' = { rolled with step := some (l.stepFor first bars parts funding) } := by
  cases bars with
  | nil => cases h
  | cons first rest =>
    unfold openStep at h
    dsimp only at h
    split at h
    · cases h
    · rename_i hconsistent
      obtain ⟨⟨rolled, rolledParts, funding⟩, hroll, h⟩ := bind_eq_ok.mp h
      dsimp only at h
      split at h
      · cases h
      · rename_i parts hmark
        cases h
        exact ⟨first, rest, rolled, rolledParts, funding, parts, rfl, by simpa using hconsistent,
          hroll, hmark, rfl⟩

theorem openStep_positions {bars : List Bar} (h : openStep terms l bars = .ok l') :
    l'.book.positions = l.book.positions := by
  obtain ⟨first, _, rolled, _, _, _, -, -, hroll, -, rfl⟩ := openStep_ok h
  exact (rollDate_carried hroll).positions

/-- What a fill adds to the parts of its instrument: from its price to the mark, and its cost. -/
def fillParts (terms : LedgerTerms) (fill : SimulatedFill) (step : OpenStep) (price : Decimal) :
    Parts where
  price := shifted (times fill.quantity
    (minus ((step.closes.get? fill.instrument).getD price) price)) 2
  cost := terms.costs.cost fill.quantity

/-- The ledger after a fill that executed something. -/
def afterFill (terms : LedgerTerms) (l : ReplayLedger) (fill : SimulatedFill) (step : OpenStep)
    (price accrued : Decimal) : ReplayLedger :=
  { l with
    book := (l.book.addCash (plus (-shifted (times fill.quantity (plus price accrued)) 2)
      (terms.costs.cost fill.quantity))).addPosition fill.instrument fill.quantity
    accrued := l.accrued.insert fill.instrument accrued
    marks :=
      if (l.marks.get? fill.instrument).isSome then l.marks
      else l.marks.insert fill.instrument ((step.closes.get? fill.instrument).getD price)
    step := some
      { step with
        parts := addParts step.parts fill.instrument (fillParts terms fill step price) } }

/-- What settling a fill does: nothing when nothing was executed, else `afterFill`. -/
theorem settle_ok {fill : SimulatedFill} (h : l.settle terms fill = .ok l') :
    ∃ step, l.step = some step ∧
      ((fill.quantity = 0 ∧ l' = l) ∨
      ∃ price accrued, fill.quantity ≠ 0 ∧ fill.price = some price ∧
        fill.effectiveAt = step.barEnd ∧
        (∃ record ∈ step.records, record.1 = fill.instrument ∧ some record.2 = fill.executionBar) ∧
        terms.accruedOn step.date fill.instrument = some accrued ∧
        l' = afterFill terms l fill step price accrued) := by
  unfold settle at h
  split at h
  · cases h
  · rename_i step hstep
    refine ⟨step, hstep, ?_⟩
    split at h
    · rename_i hzero
      cases h
      exact .inl ⟨hzero, rfl⟩
    -- A fill of something needs a price, a fill in the step and the accrued interest.
    · rename_i hne
      unfold execute at h
      dsimp only at h
      split at h
      · cases h
      · rename_i price hprice
        split at h
        · cases h
        · rename_i hin
          split at h
          · cases h
          · rename_i accrued haccrued
            cases h
            rw [not_or, not_not, not_not] at hin
            refine .inr ⟨price, accrued, hne, hprice, hin.1, ?_, haccrued, rfl⟩
            obtain ⟨record, hmem, hrec⟩ := List.any_eq_true.mp hin.2
            exact ⟨record, hmem, of_decide_eq_true hrec⟩

/-- Positions after settling a fill. -/
theorem settle_position {fill : SimulatedFill} (h : l.settle terms fill = .ok l')
    (i : VersionRef) :
    l'.book.position i =
      if i = fill.instrument ∧ fill.quantity ≠ 0 then plus (l.book.position i) fill.quantity
      else l.book.position i := by
  obtain ⟨step, -, ⟨hq, rfl⟩ | ⟨price, accrued, hne, -, -, -, -, rfl⟩⟩ := settle_ok h
  · simp [hq]
  · simp only [afterFill, SimulatedBook.position_addPosition, SimulatedBook.position_addCash]
    by_cases hi : i = fill.instrument
    · rw [if_pos hi, if_pos ⟨hi, hne⟩, hi]
    · rw [if_neg hi, if_neg fun h => hi h.1]

/-- The ledger with the closes of its step as marks, before the row is booked. -/
def marked (l : ReplayLedger) (step : OpenStep) : ReplayLedger :=
  { l with marks := l.marks.insertAll step.closes.entries, step := none }

/-- The row that finishing a step books. -/
def rowFor (l : ReplayLedger) (step : OpenStep) (equity : Decimal) : BarPnl where
  barStart := step.barStart
  barEnd := step.barEnd
  knownAt := step.knownAt
  tradingDate := step.date
  instruments := .ofList
    (step.parts.entries.map fun e => (e.1, (l.marked step).instrumentRow step.start e.1 e.2))
  funding := step.funding
  total := minus equity l.equity
  cash := l.book.cash
  equity := equity

/-- What finishing a step does. -/
theorem finishStep_ok (h : l.finishStep = .ok l') :
    ∃ step equity, l.step = some step ∧ (l.marked step).equityNow = some equity ∧
      minus equity l.equity = components step ∧
      l' =
        { l.marked step with
          accrued := forgetFlat l.book step.parts.keys l.accrued
          equity := equity
          rows := l.rows ++ [l.rowFor step equity] } := by
  unfold finishStep at h
  split at h
  · cases h
  · rename_i step hstep
    dsimp only at h
    split at h
    · cases h
    · rename_i equity hequity
      split at h
      · cases h
      · rename_i htotal
        cases h
        exact ⟨step, equity, hstep, hequity, not_not.mp htotal, rfl⟩

theorem finishStep_book (h : l.finishStep = .ok l') : l'.book = l.book := by
  obtain ⟨step, equity, -, -, -, rfl⟩ := finishStep_ok h
  rfl

end ReplayLedger

end Ficant
