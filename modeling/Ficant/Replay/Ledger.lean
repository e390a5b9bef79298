import Ficant.Replay.Execution

namespace Ficant

open Lib DecimalArithmetic

/-!
# Replay accounting

`ficant-domain/src/replay/ledger.rs`: the book, equity and the P&L of each step.  A step is opened
(`openStep`: the date rolls, positions are marked), executions settle one by one (`settle`), and
`finishStep` books the row, refusing it when the components do not add up to the equity change.

The fields of `ReplayLedger` that never change are kept apart as `LedgerTerms`.  An operation that
fails returns the error together with the ledger as the failing call leaves it (`LedgerError`).
-/

/-! ### Terms -/

/-- `CostModel`. -/
inductive CostModel
  | none
  | ratePlusFixed (faceRateBp feePerFill : Decimal)
  deriving DecidableEq

namespace CostModel

/-- `CostModel::from_declaration`. -/
def fromDeclaration (name : String) (parameters : SortedMap String Decimal) :
    Except DomainErrorCode CostModel :=
  if name = "ficant.cost.none" then .ok .none
  else if name = "ficant.cost.rate-plus-fixed" then
    if parameters.keys ≠ ["face_rate_bp", "fee_per_fill"] then .error .invalidValue
    else
      let faceRateBp := (parameters.get? "face_rate_bp").getD 0
      let feePerFill := (parameters.get? "fee_per_fill").getD 0
      if faceRateBp < 0 ∨ feePerFill < 0 then .error .invalidValue
      else .ok (.ratePlusFixed faceRateBp feePerFill)
  else .error .invalidValue

/-- `CostModel::cost`: the signed cost (zero or negative) of executing `executed` face. -/
def cost [DecimalArithmetic] (model : CostModel) (executed : Decimal) : Decimal :=
  match model with
  | .none => 0
  | .ratePlusFixed faceRateBp feePerFill =>
    if executed = 0 then 0 else -(plus (shifted (times |executed| faceRateBp) 4) feePerFill)

/-- The cost per face and the fee per fill, as `execution_context` reads them. -/
def rates [DecimalArithmetic] : CostModel → Decimal × Decimal
  | .none => (0, 0)
  | .ratePlusFixed faceRateBp feePerFill => (shifted faceRateBp 4, feePerFill)

end CostModel

/-- `ReplayFunding`: funding terms of the bound Subject's tier. -/
structure ReplayFunding where
  rulePack : VersionRef
  tier : FundingTier
  annualRate : Decimal
  dayBasis : ℕ
  dayBasis_pos : 0 < dayBasis
  dayBasis_fits : dayBasis < 2 ^ 32

instance : DecidableEq ReplayFunding := fun a b =>
  decidable_of_iff
    (a.rulePack = b.rulePack ∧ a.tier = b.tier ∧ a.annualRate = b.annualRate ∧
      a.dayBasis = b.dayBasis)
    (by cases a; cases b; simp)

/-- Funding at no cost, on years of 365 days. -/
def ReplayFunding.free (rulePack : VersionRef) (tier : FundingTier) : ReplayFunding :=
  ⟨rulePack, tier, 0, 365, by decide, by decide⟩

/-- `BondCarry`: coupon data for held bonds, per 100 face. -/
structure BondCarry where
  source : VersionRef
  identity : ContentHash
  accruedInterest : VersionRef → BarSettlement → NaiveDate → Option Decimal
  couponPaid : VersionRef → BarSettlement → NaiveDate → NaiveDate → Option Decimal

/-- The fields of `ReplayLedger` that stay as they were set by `ReplayLedger::new`. -/
structure LedgerTerms where
  carry : BondCarry
  funding : ReplayFunding
  costs : CostModel
  settlement : BarSettlement

/-- The coupon source's accrued interest under the ledger's settlement. -/
def LedgerTerms.accruedOn (terms : LedgerTerms) (date : NaiveDate) (instrument : VersionRef) :
    Option Decimal :=
  terms.carry.accruedInterest instrument terms.settlement date

/-! ### Rows and the ledger -/

/-- `InstrumentPnl`: one instrument's part of a step. -/
structure InstrumentPnl where
  positionStart : Decimal
  positionEnd : Decimal
  mark : Decimal
  accruedInterest : Decimal
  price : Decimal
  coupon : Decimal
  transactionCost : Decimal
  deriving DecidableEq

/-- `BarPnl`: the P&L of one replay step. -/
structure BarPnl where
  barStart : DateTime
  barEnd : DateTime
  knownAt : DateTime
  tradingDate : NaiveDate
  instruments : SortedMap VersionRef InstrumentPnl
  funding : Decimal
  total : Decimal
  cash : Decimal
  equity : Decimal
  deriving DecidableEq

/-- `Parts`: price, coupon and cost of one instrument in the open step. -/
structure Parts where
  price : Decimal := 0
  coupon : Decimal := 0
  cost : Decimal := 0
  deriving DecidableEq

/-- The sum of an instrument's parts. -/
def Parts.total [DecimalArithmetic] (p : Parts) : Decimal := plus (plus p.price p.coupon) p.cost

/-- Adds to the parts of one instrument, starting from nothing.  A part that is not named gets a
    zero. -/
def addParts [DecimalArithmetic] (parts : SortedMap VersionRef Parts) (instrument : VersionRef)
    (p : Parts) :
    SortedMap VersionRef Parts :=
  let old := (parts.get? instrument).getD {}
  parts.insert instrument
    { price := plus old.price p.price
      coupon := plus old.coupon p.coupon
      cost := plus old.cost p.cost }

/-- `OpenStep`: a step between `openStep` and `finishStep`. -/
structure OpenStep where
  barStart : DateTime
  barEnd : DateTime
  date : NaiveDate
  knownAt : DateTime
  records : List (VersionRef × String)
  start : SortedMap VersionRef Decimal
  parts : SortedMap VersionRef Parts
  funding : Decimal
  closes : SortedMap VersionRef Decimal

/-- `ReplayLedger`: the book and its P&L. -/
structure ReplayLedger where
  book : SimulatedBook
  marks : SortedMap VersionRef Decimal
  accrued : SortedMap VersionRef Decimal
  date : Option NaiveDate
  equity : Decimal
  rows : List BarPnl
  step : Option OpenStep

/-- A failed operation: its code, and the ledger the call leaves behind. -/
abbrev LedgerError := DomainErrorCode × ReplayLedger

namespace ReplayLedger

/-- `ReplayLedger::new`. -/
def new : ReplayLedger := ⟨.empty, ∅, ∅, none, 0, [], none⟩

section

variable [DecimalArithmetic]

/-! ### Opening a step -/

/-- The loop of `roll_date`: coupon carry on every position held overnight. -/
def rollInstruments (terms : LedgerTerms) (previous date : NaiveDate) :
    List (VersionRef × Decimal) → ReplayLedger → SortedMap VersionRef Parts →
    Except LedgerError (ReplayLedger × SortedMap VersionRef Parts)
  | [], l, parts => .ok (l, parts)
  | (instrument, face) :: rest, l, parts =>
    match l.accrued.get? instrument, terms.accruedOn date instrument,
      terms.carry.couponPaid instrument terms.settlement previous date with
    | some before, some after, some paid =>
      rollInstruments terms previous date rest
        { l with
          book := l.book.addCash (shifted (times face paid) 2)
          accrued := l.accrued.insert instrument after }
        (addParts parts instrument
          { coupon := shifted (times face (plus (minus after before) paid)) 2 })
    | _, _, _ => .error (.brokenLineage, l)

/-- The funding charge of a date roll: on the cash borrowed, for the days in between. -/
def fundingCharge (terms : LedgerTerms) (cash : Decimal) (previous date : NaiveDate) : Decimal :=
  let days : Decimal := .scaled (date.dayNumber - previous.dayNumber) 0
  let borrowed := max (-cash) 0
  Decimal.roundTiesEven decimalScale
    (-quotient (times (times borrowed terms.funding.annualRate) days)
      (.scaled terms.funding.dayBasis 0))

/-- `ReplayLedger::roll_date`: on the first step of a new date, charges funding and books coupon
    carry.  Returns the parts so far and the signed funding amount. -/
def rollDate (terms : LedgerTerms) (l : ReplayLedger) (date : NaiveDate) :
    Except LedgerError (ReplayLedger × SortedMap VersionRef Parts × Decimal) :=
  let rolled := { l with date := some date }
  match l.date with
  | none => .ok (rolled, ∅, 0)
  | some previous =>
    if previous = date then .ok (rolled, ∅, 0)
    else do
      let funding := fundingCharge terms l.book.cash previous date
      let funded := { rolled with book := l.book.addCash funding }
      let (carried, parts) ←
        rollInstruments terms previous date l.book.positions.entries funded ∅
      .ok (carried, parts, funding)

/-- The closes of a step's priced bars; the last bar of an instrument decides. -/
def stepCloses (bars : List Bar) : SortedMap VersionRef Decimal :=
  .ofList (bars.filterMap fun bar => bar.close.map fun close => (bar.instrument, close))

/-- Marks the positions held into the step: `none` when one of them was never marked. -/
def markInstruments (marks closes : SortedMap VersionRef Decimal) :
    List (VersionRef × Decimal) → SortedMap VersionRef Parts →
    Option (SortedMap VersionRef Parts)
  | [], parts => some parts
  | (instrument, face) :: rest, parts =>
    match marks.get? instrument with
    | none => none
    | some previous =>
      let mark := (closes.get? instrument).getD previous
      markInstruments marks closes rest
        (addParts parts instrument { price := shifted (times face (minus mark previous)) 2 })

/-- Whether the bars form one step that may follow the last one. -/
def stepConsistent (l : ReplayLedger) (first : Bar) (bars : List Bar) : Bool :=
  l.step.isNone ∧
    (bars.all fun bar => bar.barEnd = first.barEnd ∧ bar.barStart = first.barStart ∧
      bar.localTradingDate = first.localTradingDate) ∧
    l.date.all fun previous => previous ≤ first.localTradingDate

/-- When every bar of the step was visible. -/
def stepKnownAt (first : Bar) (bars : List Bar) : DateTime :=
  bars.foldl (fun latest bar => max latest bar.visibleAt) first.visibleAt

/-- `ReplayLedger::open_step`. -/
def openStep (terms : LedgerTerms) (l : ReplayLedger) (bars : List Bar) :
    Except LedgerError ReplayLedger :=
  match bars with
  | [] => .error (.invalidValue, l)
  | first :: _ =>
    if ¬ l.stepConsistent first bars then .error (.invalidValue, l)
    else do
      let start := l.book.positions
      let (rolled, parts, funding) ← rollDate terms l first.localTradingDate
      let closes := stepCloses bars
      match markInstruments rolled.marks closes start.entries parts with
      | none => .error (.brokenLineage, rolled)
      | some parts =>
        .ok { rolled with
          step := some
            { barStart := first.barStart
              barEnd := first.barEnd
              date := first.localTradingDate
              knownAt := stepKnownAt first bars
              records := bars.map fun bar => (bar.instrument, bar.sourceRecordId)
              start, parts, funding, closes } }

/-! ### Settling executions -/

/-- `ReplayLedger::execution_context`. -/
def executionContext (terms : LedgerTerms) (l : ReplayLedger) (instrument : VersionRef)
    (price : Decimal) : Except DomainErrorCode ExecutionContext :=
  match l.step with
  | none => .error .invalidValue
  | some step =>
    match terms.accruedOn step.date instrument with
    | none => .error .brokenLineage
    | some accrued =>
      .ok ⟨l.book, instrument, shifted (plus price accrued) 2, terms.costs.rates.1,
        terms.costs.rates.2⟩

/-- `ReplayLedger::execute`: settles one execution at dirty price and charges its cost. -/
def execute (terms : LedgerTerms) (l : ReplayLedger) (fill : SimulatedFill) (step : OpenStep) :
    Except LedgerError ReplayLedger :=
  let inStep := step.records.any fun record =>
    record.1 = fill.instrument ∧ some record.2 = fill.executionBar
  match fill.price with
  | none => .error (.invalidValue, l)
  | some price =>
    if fill.effectiveAt ≠ step.barEnd ∨ ¬ inStep then .error (.invalidValue, l)
    else
      match terms.accruedOn step.date fill.instrument with
      | none => .error (.brokenLineage, l)
      | some accrued =>
        let face := fill.quantity
        let mark := (step.closes.get? fill.instrument).getD price
        let cost := terms.costs.cost face
        .ok
          { l with
            book := (l.book.addCash (plus (-shifted (times face (plus price accrued)) 2)
              cost)).addPosition
              fill.instrument face
            accrued := l.accrued.insert fill.instrument accrued
            marks :=
              if (l.marks.get? fill.instrument).isSome then l.marks
              else l.marks.insert fill.instrument mark
            step := some
              { step with
                parts := addParts step.parts fill.instrument
                  { price := shifted (times face (minus mark price)) 2, cost := cost } } }

/-- `ReplayLedger::settle`: attempts that executed nothing are ignored. -/
def settle (terms : LedgerTerms) (l : ReplayLedger) (fill : SimulatedFill) :
    Except LedgerError ReplayLedger :=
  match l.step with
  | none => .error (.invalidValue, l)
  | some step => if fill.quantity = 0 then .ok l else execute terms l fill step

/-! ### Finishing a step -/

/-- The loop of `equity_now`. -/
def addValues (marks accrued : SortedMap VersionRef Decimal) :
    List (VersionRef × Decimal) → Decimal → Option Decimal
  | [], equity => some equity
  | (instrument, face) :: rest, equity =>
    match marks.get? instrument, accrued.get? instrument with
    | some mark, some accruedInterest =>
      addValues marks accrued rest
        (plus equity (shifted (times face (plus mark accruedInterest)) 2))
    | _, _ => none

/-- `ReplayLedger::equity_now`: cash plus every position at its mark and accrued interest. -/
def equityNow (l : ReplayLedger) : Option Decimal :=
  addValues l.marks l.accrued l.book.positions.entries l.book.cash

/-- The row of one instrument (`instrument_rows`). -/
def instrumentRow (l : ReplayLedger) (start : SortedMap VersionRef Decimal)
    (instrument : VersionRef) (part : Parts) : InstrumentPnl :=
  { positionStart := (start.get? instrument).getD 0
    positionEnd := l.book.position instrument
    mark := (l.marks.get? instrument).getD 0
    accruedInterest := (l.accrued.get? instrument).getD 0
    price := part.price
    coupon := part.coupon
    transactionCost := part.cost }

/-- `instrument_rows`: forgets the accrued interest of the instruments that are now flat. -/
def forgetFlat (book : SimulatedBook) (instruments : List VersionRef)
    (accrued : SortedMap VersionRef Decimal) : SortedMap VersionRef Decimal :=
  instruments.foldl
    (fun accrued instrument =>
      if book.position instrument = 0 then accrued.erase instrument else accrued) accrued

/-- The sum of the components of a step. -/
def components (step : OpenStep) : Decimal :=
  plus step.funding (sum (step.parts.entries.map fun e => e.2.total))

/-- `ReplayLedger::finish_step`: books the row of the open step. -/
def finishStep (l : ReplayLedger) : Except LedgerError ReplayLedger :=
  match l.step with
  | none => .error (.invalidValue, l)
  | some step =>
    let marked := { l with marks := l.marks.insertAll step.closes.entries, step := none }
    match marked.equityNow with
    | none => .error (.brokenLineage, marked)
    | some equity =>
      let total := minus equity l.equity
      if total ≠ components step then .error (.invalidValue, marked)
      else
        let row : BarPnl :=
          { barStart := step.barStart
            barEnd := step.barEnd
            knownAt := step.knownAt
            tradingDate := step.date
            instruments := .ofList
              (step.parts.entries.map fun e => (e.1, marked.instrumentRow step.start e.1 e.2))
            funding := step.funding
            total
            cash := marked.book.cash
            equity }
        .ok
          { marked with
            accrued := forgetFlat marked.book step.parts.keys marked.accrued
            equity
            rows := marked.rows ++ [row] }

/-- `ReplayLedger::close_step`: opens a step, settles its executions in order and finishes it. -/
def closeStep (terms : LedgerTerms) (l : ReplayLedger) (bars : List Bar)
    (fills : List SimulatedFill) : Except LedgerError ReplayLedger := do
  let opened ← openStep terms l bars
  let settled ← fills.foldlM (settle terms) opened
  finishStep settled

end

end ReplayLedger

end Ficant
