import Ficant.Replay.LedgerRules
import Ficant.Replay.Rules

namespace Ficant

open Lib ExactDecimals

namespace ReplayLedger

/-!
# P&L reconciliation

The equity change of a step and its four components are computed by different code from different
state.  They agree, because a step that succeeds keeps two invariants:

* `Reconciled` — between steps: equity is cash plus every position at its last close and the accrued
  interest of the ledger's date, and the sum of all row totals;
* `StepReconciled` — in an open step: cash plus every position at its *coming* mark is the equity
  before the step plus the components so far.

The unit value of an instrument (its coming mark plus accrued interest, `comingUnit`) stays fixed
while a step is open: an instrument that is executed has a close in the step.  All operators are exact
here.
-/

/-! ### Fills -/

/-- A fill produced by an attempt of a trade in a bar of the instrument it trades, constrained or
    not. -/
def FillIn (bars : List Bar) (fill : SimulatedFill) : Prop :=
  ∃ bar ∈ bars, ∃ decisionTime remaining used rules priceSource,
    fill = attemptInBar decisionTime bar.instrument remaining bar used rules priceSource ∨
    ∃ allowed outcome, fill =
      (attemptInBar decisionTime bar.instrument remaining bar used rules priceSource).constrain
        allowed outcome

/-! ### Parts and closes -/

/-- The sum of all parts. -/
def partsTotal (parts : SortedMap VersionRef Parts) : Decimal := parts.sumBy fun _ p => p.total

/-- The components of a step are its funding and its parts. -/
theorem components_eq (step : OpenStep) : components step = step.funding + partsTotal step.parts :=
  congrArg (step.funding + ·) (sum_eq _)

/-- Parts that are added add their total. -/
theorem partsTotal_addParts (parts : SortedMap VersionRef Parts) (i : VersionRef) (p : Parts) :
    partsTotal (addParts parts i p) = partsTotal parts + p.total := by
  have hsplit := parts.sumBy_erase (fun _ p => p.total) i
  unfold partsTotal addParts
  rw [SortedMap.sumBy_insert, hsplit]
  cases parts.get? i with
  | none => simp [Parts.total]; ring
  | some old => simp [Parts.total]; ring

/-- The closes of two runs of bars, one after the other. -/
theorem stepCloses_append (seen bars : List Bar) :
    stepCloses (seen ++ bars) = (stepCloses seen).insertAll (stepCloses bars).entries := by
  refine SortedMap.ext_get? fun k => ?_
  rw [SortedMap.get?_insertAll_entries]
  unfold stepCloses
  rw [List.filterMap_append, SortedMap.ofList, SortedMap.insertAll_append,
    SortedMap.get?_insertAll]
  rfl

/-- A bar that fills has a close, so its step has one for its instrument. -/
theorem close_of_bar {bars : List Bar} {bar : Bar} (hbar : bar ∈ bars) {c : Decimal}
    (hc : bar.close = some c) : ((stepCloses bars).get? bar.instrument).isSome := by
  refine SortedMap.ofList_get?_isSome.mpr ⟨c, List.mem_filterMap.mpr ⟨bar, hbar, ?_⟩⟩
  rw [hc]; rfl

/-- The instrument of a fill with a price has a close in its step. -/
theorem FillIn.close {bars : List Bar} {fill : SimulatedFill} (h : FillIn bars fill) {p : Decimal}
    (hp : fill.price = some p) : ((stepCloses bars).get? fill.instrument).isSome := by
  obtain ⟨bar, hbar, d, remaining, used, rules, source, hfill⟩ := h
  have hraw : fill.price = bar.fillPrice.map Prod.fst ∧ fill.instrument = bar.instrument := by
    rcases hfill with rfl | ⟨allowed, outcome, rfl⟩ <;> exact ⟨rfl, rfl⟩
  obtain ⟨hprice, hinst⟩ := hraw
  rw [hp] at hprice
  obtain ⟨basis, hbasis, -⟩ := Option.map_eq_some_iff.mp hprice.symm
  obtain ⟨c, hc⟩ := Bar.close_of_fillPrice hbasis
  rw [hinst]
  exact close_of_bar hbar hc

/-! ### Values of positions -/

/-- Positions at a unit value per 100 face. -/
def valueOf (held : List (VersionRef × Decimal)) (unit : VersionRef → Decimal) : Decimal :=
  (held.map fun e => (e.2 * unit e.1).shift 2).sum

/-- The value of a holding looks only at what is held. -/
theorem valueOf_congr {held : List (VersionRef × Decimal)} {u v : VersionRef → Decimal}
    (h : ∀ e ∈ held, u e.1 = v e.1) : valueOf held u = valueOf held v :=
  congrArg List.sum (List.map_congr_left fun e he => by rw [h e he])

/-- The value of a holding adds over its parts. -/
theorem valueOf_add (held : List (VersionRef × Decimal)) (u v : VersionRef → Decimal) :
    valueOf held (fun i => u i + v i) = valueOf held u + valueOf held v := by
  induction held with
  | nil => simp [valueOf]
  | cons e rest ih =>
    simp only [valueOf, List.map_cons, List.sum_cons] at ih ⊢
    rw [ih, mul_add, Decimal.shift_add]
    ring

/-- The value of a book's positions, as a sum over the book. -/
theorem valueOf_positions (book : SimulatedBook) (unit : VersionRef → Decimal) :
    valueOf book.positions.entries unit = book.sumOver fun i face => (face * unit i).shift 2 := rfl

variable {terms : LedgerTerms} {l l' : ReplayLedger}

/-- The coupon carry of a date roll: what it adds in cash and in accrued interest is what it
    books. -/
theorem rollInstruments_value {previous date : NaiveDate} {held : List (VersionRef × Decimal)}
    {parts parts' : SortedMap VersionRef Parts} (hnodup : (held.map Prod.fst).Nodup)
    (h : rollInstruments terms previous date held l parts = .ok (l', parts')) :
    l'.book.cash + valueOf held (fun i => (terms.accruedOn date i).getD 0) + partsTotal parts =
        l.book.cash + valueOf held (fun i => (l.accrued.get? i).getD 0) + partsTotal parts' ∧
      (∀ i ∈ held.map Prod.fst, ∃ a, terms.accruedOn date i = some a ∧
        l'.accrued.get? i = some a) ∧
      ∀ i ∉ held.map Prod.fst, l'.accrued.get? i = l.accrued.get? i := by
  induction held generalizing l parts with
  | nil => cases h; exact ⟨rfl, by simp, fun _ _ => rfl⟩
  | cons e rest ih =>
    obtain ⟨instrument, face⟩ := e
    obtain ⟨hnot, hrest⟩ := List.nodup_cons.mp hnodup
    change instrument ∉ rest.map Prod.fst at hnot
    unfold rollInstruments at h
    split at h
    · rename_i before after paid hbefore hafter hpaid
      obtain ⟨hvalue, hnew, hold⟩ := ih hrest h
      -- The accrued interest of the later instruments is still the one before the roll.
      have hsame : valueOf rest (fun i => ((l.accrued.insert instrument after).get? i).getD 0) =
          valueOf rest (fun i => (l.accrued.get? i).getD 0) := by
        refine valueOf_congr fun e he => ?_
        have hne : e.1 ≠ instrument := by
          intro heq
          rw [← heq] at hnot
          exact hnot (List.mem_map_of_mem he)
        rw [SortedMap.get?_insert, if_neg hne]
      refine ⟨?_, ?_, ?_⟩
      · rw [hsame, partsTotal_addParts] at hvalue
        simp only [valueOf, List.map_cons, List.sum_cons, hafter, hbefore, Option.getD_some,
          Parts.total, SimulatedBook.cash_addCash_exact] at hvalue ⊢
        simp only [plus_eq, minus_eq, times_eq, shifted_eq, Decimal.shift] at hvalue ⊢
        linear_combination hvalue
      · intro i hi
        rcases List.mem_cons.mp hi with rfl | hi
        · refine ⟨after, hafter, ?_⟩
          rw [hold _ hnot]
          exact SortedMap.get?_insert_self ..
        · exact hnew i hi
      · intro i hi
        have hi' : i ≠ instrument ∧ i ∉ rest.map Prod.fst := by
          rw [← not_or, ← List.mem_cons]; exact hi
        rw [hold i hi'.2]
        exact (SortedMap.get?_insert ..).trans (if_neg hi'.1)
    · cases h

/-- Marking: every position is booked from its last mark to its coming one. -/
theorem markInstruments_value {marks closes : SortedMap VersionRef Decimal}
    {held : List (VersionRef × Decimal)} {parts parts' : SortedMap VersionRef Parts}
    (h : markInstruments marks closes held parts = some parts') :
    partsTotal parts' + valueOf held (fun i => (marks.get? i).getD 0) = partsTotal parts +
      valueOf held (fun i => ((closes.get? i).or (marks.get? i)).getD 0) := by
  induction held generalizing parts with
  | nil => cases h; rfl
  | cons e rest ih =>
    obtain ⟨instrument, face⟩ := e
    unfold markInstruments at h
    split at h
    · cases h
    · rename_i previous hprev
      have hih := ih h
      have hcoming : ((closes.get? instrument).or (some previous)).getD 0 =
          (closes.get? instrument).getD previous := by
        cases closes.get? instrument <;> rfl
      rw [partsTotal_addParts] at hih
      simp only [valueOf, List.map_cons, List.sum_cons, hprev, hcoming, Option.getD_some,
        Parts.total] at hih ⊢
      simp only [plus_eq, minus_eq, times_eq, shifted_eq, Decimal.shift] at hih ⊢
      linear_combination hih

/-- `equity_now`, when every position has a mark and accrued interest. -/
theorem addValues_eq {marks accrued : SortedMap VersionRef Decimal}
    {held : List (VersionRef × Decimal)} (start : Decimal)
    (hheld : ∀ e ∈ held, (marks.get? e.1).isSome ∧ (accrued.get? e.1).isSome) :
    addValues marks accrued held start =
      some (start + valueOf held fun i => (marks.get? i).getD 0 + (accrued.get? i).getD 0) := by
  induction held generalizing start with
  | nil => simp [addValues, valueOf]
  | cons e rest ih =>
    obtain ⟨hm, ha⟩ := hheld e List.mem_cons_self
    obtain ⟨m, hm⟩ := Option.isSome_iff_exists.mp hm
    obtain ⟨a, ha⟩ := Option.isSome_iff_exists.mp ha
    obtain ⟨instrument, face⟩ := e
    simp only [addValues, hm, ha]
    rw [ih _ fun e he => hheld e (List.mem_cons_of_mem _ he)]
    simp only [valueOf, List.map_cons, List.sum_cons, hm, ha, Option.getD_some, plus_eq, times_eq,
      shifted_eq, add_assoc]

/-! ### The invariants -/

/-- Between two steps. -/
structure Reconciled (terms : LedgerTerms) (seen : List Bar) (l : ReplayLedger) : Prop where
  closed : l.step = none
  nonzero : ∀ i face, l.book.positions.get? i = some face → face ≠ 0
  held : ∀ i face, l.book.positions.get? i = some face → ∃ d a, l.date = some d ∧
    terms.accruedOn d i = some a ∧ l.accrued.get? i = some a ∧ (l.marks.get? i).isSome
  marks : l.marks = stepCloses seen
  equity : l.equity = l.book.cash + valueOf l.book.positions.entries
    fun i => (l.marks.get? i).getD 0 + (l.accrued.get? i).getD 0
  rows : l.equity = (l.rows.map BarPnl.total).sum
  dated : l.date = l.rows.getLast?.map BarPnl.tradingDate

/-- The mark an instrument will have when the step closes: its close in the step, else its last
    mark. -/
def comingMark (l : ReplayLedger) (step : OpenStep) (i : VersionRef) : Option Decimal :=
  (step.closes.get? i).or (l.marks.get? i)

/-- The unit value of an instrument in an open step. -/
def comingUnit (terms : LedgerTerms) (l : ReplayLedger) (step : OpenStep) (i : VersionRef) :
    Decimal :=
  (l.comingMark step i).getD 0 + (terms.accruedOn step.date i).getD 0

/-- In an open step. -/
structure StepReconciled (terms : LedgerTerms) (seen bars : List Bar) (l : ReplayLedger)
    (step : OpenStep) : Prop where
  opened : l.step = some step
  closes : step.closes = stepCloses bars
  date : l.date = some step.date
  nonzero : ∀ i face, l.book.positions.get? i = some face → face ≠ 0
  held : ∀ i face, l.book.positions.get? i = some face → ∃ a,
    terms.accruedOn step.date i = some a ∧ l.accrued.get? i = some a ∧
      (l.comingMark step i).isSome
  marks : l.marks.insertAll step.closes.entries = stepCloses (seen ++ bars)
  value : l.book.cash + valueOf l.book.positions.entries (l.comingUnit terms step) =
    l.equity + components step
  rows : l.equity = (l.rows.map BarPnl.total).sum

/-- The new ledger is reconciled. -/
theorem reconciled_new (terms : LedgerTerms) : Reconciled terms [] .new := by
  refine ⟨rfl, ?_, ?_, rfl, ?_, rfl, rfl⟩
  · intro i face h; cases h
  · intro i face h; cases h
  · simp [ReplayLedger.new, SimulatedBook.empty, valueOf]

/-! ### Opening a step -/

/-- What is listed as held is what the book finds. -/
theorem entry_of_mem_held {book : SimulatedBook} {e : VersionRef × Decimal}
    (h : e ∈ book.positions.entries) : book.positions.get? e.1 = some e.2 :=
  SortedMap.mem_entries_iff.mp h

/-- No instrument is listed twice. -/
theorem held_nodup (book : SimulatedBook) : (book.positions.entries.map Prod.fst).Nodup :=
  book.positions.keys_sorted.imp fun h => ne_of_lt h

/-- A date roll keeps the books balanced: cash and accrued interest move by funding and coupons. -/
theorem rollDate_value {seen : List Bar} {date : NaiveDate} {parts : SortedMap VersionRef Parts}
    {funding : Decimal} (hl : Reconciled terms seen l)
    (h : rollDate terms l date = .ok (l', parts, funding)) :
    l'.book.cash + valueOf l.book.positions.entries (fun i => (terms.accruedOn date i).getD 0) =
        l.book.cash + valueOf l.book.positions.entries (fun i => (l.accrued.get? i).getD 0) +
          funding + partsTotal parts ∧
      ∀ i face, l.book.positions.get? i = some face →
        ∃ a, terms.accruedOn date i = some a ∧ l'.accrued.get? i = some a := by
  rcases rollDate_ok h with ⟨rfl, rfl, rfl, hsame⟩ | ⟨previous, hprev, -, rfl, hroll⟩
  · -- The date stays: the accrued interest already is that of the date.
    have hheld : ∀ i face, l.book.positions.get? i = some face →
        ∃ a, terms.accruedOn date i = some a ∧ l.accrued.get? i = some a := by
      intro i face hi
      obtain ⟨d, a, hd, ha, hacc, -⟩ := hl.held i face hi
      exact ⟨a, hsame d hd ▸ ha, hacc⟩
    refine ⟨?_, hheld⟩
    have hvalue : valueOf l.book.positions.entries (fun i => (terms.accruedOn date i).getD 0) =
        valueOf l.book.positions.entries (fun i => (l.accrued.get? i).getD 0) := by
      refine valueOf_congr fun e he => ?_
      obtain ⟨a, ha, hacc⟩ := hheld e.1 e.2 (entry_of_mem_held he)
      rw [ha, hacc]
    rw [hvalue]
    simp [partsTotal]
  · obtain ⟨hvalue, hnew, -⟩ := rollInstruments_value (held_nodup l.book) hroll
    refine ⟨?_, ?_⟩
    · simp only [partsTotal, SortedMap.sumBy_empty, SimulatedBook.cash_addCash_exact] at hvalue ⊢
      linear_combination hvalue
    · intro i face hi
      exact hnew i (List.mem_map_of_mem (SortedMap.mem_entries_iff.mpr hi))

/-- **Opening a step establishes the step invariant.** -/
theorem openStep_reconciled {seen bars : List Bar} (hl : Reconciled terms seen l)
    (h : openStep terms l bars = .ok l') : ∃ step, StepReconciled terms seen bars l' step := by
  obtain ⟨first, rest, rolled, rolledParts, funding, parts, rfl, -, hroll, hmark, rfl⟩ := openStep_ok h
  have hcarried := rollDate_carried hroll
  obtain ⟨hvalue, hheld⟩ := rollDate_value hl hroll
  have hmarks : rolled.marks = stepCloses seen := hcarried.marks.trans hl.marks
  have hpos : rolled.book.positions = l.book.positions := hcarried.positions
  refine ⟨l.stepFor first (first :: rest) parts funding, rfl, rfl, hcarried.date, ?_, ?_, ?_, ?_, ?_⟩
  · intro i face hi
    exact hl.nonzero i face (hpos ▸ hi)
  · intro i face hi
    have hi' : l.book.positions.get? i = some face := hpos ▸ hi
    obtain ⟨a, ha, hacc⟩ := hheld i face hi'
    obtain ⟨_, _, -, -, -, hm⟩ := hl.held i face hi'
    refine ⟨a, ha, hacc, ?_⟩
    change (((stepCloses (first :: rest)).get? i).or (rolled.marks.get? i)).isSome
    rw [hcarried.marks]
    simp [hm]
  · change rolled.marks.insertAll (stepCloses (first :: rest)).entries = _
    rw [hmarks, stepCloses_append]
  · have hmarked := markInstruments_value hmark
    have hequity := hl.equity
    rw [valueOf_add] at hequity
    -- What the book will be worth at the new marks and the new accrued interest.
    have hcoming : valueOf rolled.book.positions.entries
        (comingUnit terms { rolled with step := some (l.stepFor first (first :: rest) parts funding) }
          (l.stepFor first (first :: rest) parts funding)) =
        valueOf l.book.positions.entries (fun i =>
          (((stepCloses (first :: rest)).get? i).or (rolled.marks.get? i)).getD 0) +
        valueOf l.book.positions.entries
          (fun i => (terms.accruedOn first.localTradingDate i).getD 0) := by
      rw [hpos, ← valueOf_add]
      rfl
    rw [components_eq]
    change rolled.book.cash + valueOf rolled.book.positions.entries _ =
      rolled.equity + (funding + partsTotal parts)
    rw [hcoming, hcarried.equity]
    rw [hcarried.marks] at hmarked ⊢
    change _ = l.equity + _
    rw [hequity]
    linear_combination hvalue - hmarked
  · change rolled.equity = (rolled.rows.map BarPnl.total).sum
    rw [hcarried.equity, hcarried.rows]
    exact hl.rows

/-! ### Settling fills -/

/-- An executed instrument has a close in the step, so no coming mark changes. -/
theorem comingMark_afterFill {fill : SimulatedFill} {step : OpenStep} {price accrued : Decimal}
    (hclose : (step.closes.get? fill.instrument).isSome) (parts : SortedMap VersionRef Parts)
    (j : VersionRef) :
    comingMark (afterFill terms l fill step price accrued) { step with parts := parts } j =
      l.comingMark step j := by
  unfold comingMark afterFill
  by_cases hj : j = fill.instrument
  · obtain ⟨c, hc⟩ := Option.isSome_iff_exists.mp hclose
    rw [hj]
    simp [hc]
  · dsimp only
    split
    · rfl
    · rw [SortedMap.get?_insert, if_neg hj]

/-- **Settling a fill keeps the step invariant.** -/
theorem settle_reconciled {seen bars : List Bar} {fill : SimulatedFill} {step : OpenStep}
    (hl : StepReconciled terms seen bars l step) (hfill : FillIn bars fill)
    (h : l.settle terms fill = .ok l') : ∃ step', StepReconciled terms seen bars l' step' := by
  obtain ⟨step₀, hstep, ⟨-, rfl⟩ | ⟨price, accrued, hq, hprice, -, -, haccrued, rfl⟩⟩ := settle_ok h
  · exact ⟨step, hl⟩
  · cases Option.some.inj (hstep.symm.trans hl.opened)
    have hclose : (step.closes.get? fill.instrument).isSome := by
      rw [hl.closes]; exact hfill.close hprice
    obtain ⟨c, hc⟩ := Option.isSome_iff_exists.mp hclose
    have hmark : ∀ parts j, comingMark (afterFill terms l fill step price accrued)
        { step with parts := parts } j = l.comingMark step j := comingMark_afterFill hclose
    refine ⟨{ step with
        parts := addParts step.parts fill.instrument (fillParts terms fill step price) },
      rfl, hl.closes, hl.date, ?_, ?_, ?_, ?_, hl.rows⟩
    · intro i face hi
      change (SimulatedBook.addPosition _ _ _).positions.get? i = some face at hi
      rw [SimulatedBook.get?_addPosition] at hi
      split at hi
      · split at hi
        · cases hi
        · rename_i hne
          cases hi
          exact hne
      · exact hl.nonzero i face hi
    · intro i face hi
      rw [hmark]
      change (SimulatedBook.addPosition _ _ _).positions.get? i = some face at hi
      rw [SimulatedBook.get?_addPosition] at hi
      change ∃ a, _ ∧ (l.accrued.insert fill.instrument accrued).get? i = some a ∧ _
      rw [SortedMap.get?_insert]
      by_cases hfi : i = fill.instrument
      · refine ⟨accrued, hfi ▸ haccrued, if_pos hfi, ?_⟩
        rw [hfi, comingMark, hc]; rfl
      · rw [if_neg hfi] at hi ⊢
        exact hl.held i face hi
    · -- The closes override whatever mark the execution set.
      rw [← hl.marks]
      refine SortedMap.ext_get? fun k => ?_
      rw [SortedMap.get?_insertAll_entries, SortedMap.get?_insertAll_entries]
      exact hmark step.parts k
    · have hunit : ∀ parts, comingUnit terms (afterFill terms l fill step price accrued)
          { step with parts := parts } = l.comingUnit terms step := by
        intro parts
        funext i
        unfold comingUnit
        rw [hmark]
      have hsum := (l.book.addCash (-(fill.quantity * (price + accrued)).shift 2 +
        terms.costs.cost fill.quantity)).sumOver_addPosition_exact fill.instrument fill.quantity
        (fun i face => (face * l.comingUnit terms step i).shift 2)
        (by simp [Decimal.shift_zero])
      have hown : l.comingUnit terms step fill.instrument = c + accrued := by
        simp [comingUnit, comingMark, hc, haccrued]
      rw [hunit]
      have hparts : components { step with
          parts := addParts step.parts fill.instrument (fillParts terms fill step price) } =
          components step + (fill.quantity * (c - price)).shift 2 +
            terms.costs.cost fill.quantity := by
        rw [components_eq, components_eq, partsTotal_addParts]
        simp only [Parts.total, fillParts, hc, Option.getD_some, plus_eq, minus_eq, times_eq,
          shifted_eq]
        ring
      rw [hparts]
      have hbefore := hl.value
      have hafter : (afterFill terms l fill step price accrued).book =
          (l.book.addCash (-(fill.quantity * (price + accrued)).shift 2 +
            terms.costs.cost fill.quantity)).addPosition fill.instrument fill.quantity := by
        simp only [afterFill, plus_eq, times_eq, shifted_eq]
      rw [valueOf_positions, hafter, hsum]
      rw [valueOf_positions] at hbefore
      change _ = l.equity + _
      simp only [SimulatedBook.cash_addPosition, SimulatedBook.cash_addCash_exact,
        SimulatedBook.sumOver_addCash, SimulatedBook.position_addCash, hown,
        Decimal.shift] at hbefore ⊢
      linear_combination hbefore

/-! ### Finishing a step -/

/-- The equity of a marked ledger is the equity before the step plus the components. -/
theorem marked_equityNow {seen bars : List Bar} {step : OpenStep}
    (hl : StepReconciled terms seen bars l step) :
    (l.marked step).equityNow = some (l.equity + components step) := by
  have hmark : ∀ i, (l.marks.insertAll step.closes.entries).get? i = l.comingMark step i :=
    fun i => SortedMap.get?_insertAll_entries ..
  have hheld : ∀ e ∈ l.book.positions.entries,
      ((l.marks.insertAll step.closes.entries).get? e.1).isSome ∧ (l.accrued.get? e.1).isSome := by
    intro e he
    obtain ⟨a, -, hacc, hm⟩ := hl.held e.1 e.2 (entry_of_mem_held he)
    exact ⟨by rw [hmark]; exact hm, by rw [hacc]; rfl⟩
  have hunit : valueOf l.book.positions.entries (fun i =>
      ((l.marks.insertAll step.closes.entries).get? i).getD 0 + (l.accrued.get? i).getD 0) =
      valueOf l.book.positions.entries (l.comingUnit terms step) := by
    refine valueOf_congr fun e he => ?_
    obtain ⟨a, ha, hacc, -⟩ := hl.held e.1 e.2 (entry_of_mem_held he)
    rw [hmark, hacc, comingUnit, ha]
  change addValues (l.marks.insertAll step.closes.entries) l.accrued l.book.positions.entries
    l.book.cash = _
  rw [addValues_eq l.book.cash hheld, hunit, hl.value]

/-- **Finishing a step never fails.** -/
theorem finishStep_succeeds {seen bars : List Bar} {step : OpenStep}
    (hl : StepReconciled terms seen bars l step) : ∃ l', l.finishStep = .ok l' := by
  have hequity := marked_equityNow hl
  rw [marked] at hequity
  unfold finishStep
  rw [hl.opened]
  dsimp only
  rw [hequity]
  dsimp only
  rw [if_neg (by simp)]
  exact ⟨_, rfl⟩

/-- Forgetting the accrued interest of flat instruments touches no position. -/
theorem get?_forgetFlat {book : SimulatedBook} {instruments : List VersionRef}
    {accrued : SortedMap VersionRef Decimal} {i : VersionRef} (hi : book.position i ≠ 0) :
    (forgetFlat book instruments accrued).get? i = accrued.get? i := by
  unfold forgetFlat
  induction instruments generalizing accrued with
  | nil => rfl
  | cons j rest ih =>
    rw [List.foldl_cons, ih]
    split
    · rename_i hj
      rw [SortedMap.get?_erase, if_neg]
      rintro rfl
      exact hi hj
    · rfl

/-- **Finishing a step re-establishes the invariant.** -/
theorem finishStep_reconciled {seen bars : List Bar} {step : OpenStep}
    (hl : StepReconciled terms seen bars l step) (h : l.finishStep = .ok l') :
    Reconciled terms (seen ++ bars) l' := by
  obtain ⟨step₀, equity, hstep, hequity, -, rfl⟩ := finishStep_ok h
  cases Option.some.inj (hstep.symm.trans hl.opened)
  have hvalue : equity = l.equity + components step :=
    Option.some.inj (hequity.symm.trans (marked_equityNow hl))
  have hmark : ∀ i, (l.marks.insertAll step.closes.entries).get? i = l.comingMark step i :=
    fun i => SortedMap.get?_insertAll_entries ..
  -- What is still held keeps its accrued interest.
  have haccrued : ∀ i face, l.book.positions.get? i = some face →
      (forgetFlat l.book step.parts.keys l.accrued).get? i = l.accrued.get? i := by
    intro i face hi
    refine get?_forgetFlat ?_
    rw [SimulatedBook.position, hi]
    exact hl.nonzero i face hi
  refine ⟨rfl, hl.nonzero, ?_, hl.marks, ?_, ?_, ?_⟩
  · intro i face hi
    obtain ⟨a, ha, hacc, hm⟩ := hl.held i face hi
    refine ⟨step.date, a, hl.date, ha, ?_, ?_⟩
    · exact (haccrued i face hi).trans hacc
    · exact (congrArg Option.isSome (hmark i)).trans hm
  · change equity = l.book.cash + valueOf l.book.positions.entries _
    rw [hvalue, ← hl.value]
    congr 1
    refine valueOf_congr fun e he => ?_
    have hi := entry_of_mem_held he
    obtain ⟨a, ha, hacc, -⟩ := hl.held e.1 e.2 hi
    change _ = ((l.marks.insertAll step.closes.entries).get? e.1).getD 0 +
      ((forgetFlat l.book step.parts.keys l.accrued).get? e.1).getD 0
    rw [haccrued e.1 e.2 hi, hmark, hacc, comingUnit, ha]
  · change equity = ((l.rows ++ [l.rowFor step equity]).map BarPnl.total).sum
    rw [List.map_append, List.sum_append, ← hl.rows]
    simp [rowFor]
  · change l.date = ((l.rows ++ [l.rowFor step equity]).getLast?).map BarPnl.tradingDate
    rw [hl.date]
    simp [rowFor]

end ReplayLedger

end Ficant
