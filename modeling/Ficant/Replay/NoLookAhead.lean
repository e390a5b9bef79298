import Ficant.Lib.StableSort
import Ficant.Replay.LedgerRules
import Ficant.Replay.Lockstep

namespace Ficant

open Lib

/-!
# What a decision can depend on

Two replays over snapshots that agree on everything visible at `t`, and on the skeleton of the rest.
The view handed to the policy is the same at every decision by `t`; the book is the same as long as
no trade has executed in a bar that was not visible, and that is the only way a difference gets in.

* `NoEarlyExecution` — no bar that becomes visible only after `t` can execute a trade before a
  decision by `t`;
* `no_look_ahead` — under it the decisions by `t` and the books behind them agree;
* `late_bar_leaks` — without it they need not.
-/

/-! ### Bars with the same skeleton -/

/-- The fields of a bar other than its prices, volumes and yields. -/
structure BarSkeleton where
  sourceRecordId : String
  instrument : VersionRef
  frequency : BarFrequency
  settlement : BarSettlement
  marketTimezone : String
  localTradingDate : NaiveDate
  barStart : DateTime
  barEnd : DateTime
  visibleAt : DateTime
  deriving DecidableEq

/-- The skeleton of a bar. -/
def Bar.skeleton (bar : Bar) : BarSkeleton where
  sourceRecordId := bar.sourceRecordId
  instrument := bar.instrument
  frequency := bar.frequency
  settlement := bar.settlement
  marketTimezone := bar.input.marketTimezone
  localTradingDate := bar.localTradingDate
  barStart := bar.barStart
  barEnd := bar.barEnd
  visibleAt := bar.visibleAt

/-- Bars with one skeleton that are the same bar if it is visible at `t`. -/
def BarAgrees (t : DateTime) (bar bar' : Bar) : Prop :=
  bar.skeleton = bar'.skeleton ∧ (bar.visibleAt ≤ t → bar = bar')

/-- No trade can execute in a bar that becomes visible after `t` and show in a decision by `t`:
    such a bar does not lie between a decision and a decision by `t`. -/
def NoEarlyExecution (t : DateTime) (covered : List Bar) : Prop :=
  ∀ bar ∈ covered, t < bar.visibleAt →
    ∀ earlier ∈ decisionTimes covered, earlier ≤ bar.barStart →
      ∀ later ∈ decisionTimes covered, later ≤ t → later < bar.barEnd

/-- Lists with the same skeletons and the same visible bars agree bar by bar. -/
theorem forall₂_barAgrees {t : DateTime} {a b : List Bar}
    (hskeleton : a.map Bar.skeleton = b.map Bar.skeleton)
    (hvisible : a.filter (fun bar => bar.visibleAt ≤ t) = b.filter fun bar => bar.visibleAt ≤ t) :
    List.Forall₂ (BarAgrees t) a b := by
  induction a generalizing b with
  | nil => rw [List.map_eq_nil_iff.mp hskeleton.symm]; exact .nil
  | cons x a ih =>
    cases b with
    | nil => cases hskeleton
    | cons y b =>
      obtain ⟨hxy, hrest⟩ := List.cons.inj hskeleton
      have htime : x.visibleAt = y.visibleAt := congrArg BarSkeleton.visibleAt hxy
      by_cases hx : x.visibleAt ≤ t
      · rw [List.filter_cons_of_pos (by simpa using hx),
          List.filter_cons_of_pos (by simpa using htime ▸ hx)] at hvisible
        obtain ⟨heq, hvisible⟩ := List.cons.inj hvisible
        exact .cons ⟨hxy, fun _ => heq⟩ (ih hrest hvisible)
      · rw [List.filter_cons_of_neg (by simpa using lt_of_not_ge hx),
          List.filter_cons_of_neg (by simpa using htime ▸ lt_of_not_ge hx)] at hvisible
        exact .cons ⟨hxy, fun h => absurd h hx⟩ (ih hrest hvisible)

section Agreeing

variable {t : DateTime} {a b : List Bar} (h : List.Forall₂ (BarAgrees t) a b)
include h

/-- Snapshots that agree have bars at the same times. -/
theorem map_skeleton_eq : a.map Bar.skeleton = b.map Bar.skeleton := by
  induction h with
  | nil => rfl
  | cons hxy _ ih => rw [List.map_cons, List.map_cons, hxy.1, ih]

/-- So they have the same decisions. -/
theorem decisionTimes_eq : decisionTimes a = decisionTimes b := by
  have := congrArg (List.map BarSkeleton.visibleAt) (map_skeleton_eq h)
  rw [List.map_map, List.map_map] at this
  exact congrArg SortedMap.sortedSet this

/-- And the same bars to execute in, up to what is not visible. -/
theorem eligibleBars_agree (d : DateTime) (i : VersionRef) :
    List.Forall₂ (BarAgrees t) (eligibleBars a d i) (eligibleBars b d i) := by
  refine forall₂_insertionSort _ ?_ (forall₂_filter ?_ h)
  · intro x y x' y' hx hy
    have hk : ∀ z z' : Bar, z.skeleton = z'.skeleton → z.scheduleKey = z'.scheduleKey :=
      fun z z' hz => congrArg
        (fun k : BarSkeleton => (toLex (k.barStart, k.sourceRecordId) : DateTime ×ₗ String)) hz
    rw [hk x x' hx.1, hk y y' hy.1]
  · intro x x' hx
    have hi : x.instrument = x'.instrument := congrArg BarSkeleton.instrument hx.1
    have hs : x.barStart = x'.barStart := congrArg BarSkeleton.barStart hx.1
    rw [hi, hs]

/-- The steps of the two grids end at the same times and hold bars that agree. -/
theorem stepsOf_agree :
    List.Forall₂ (fun x y : Step => x.1 = y.1 ∧ List.Forall₂ (BarAgrees t) x.2 y.2)
      (stepsOf a) (stepsOf b) := by
  have hends : a.map Bar.barEnd = b.map Bar.barEnd := by
    have := congrArg (List.map BarSkeleton.barEnd) (map_skeleton_eq h)
    rwa [List.map_map, List.map_map] at this
  unfold stepsOf
  rw [SortedMap.groupBy_entries, SortedMap.groupBy_entries, hends]
  refine List.forall₂_map_left_iff.mpr (List.forall₂_map_right_iff.mpr ?_)
  refine List.forall₂_same.mpr fun e _ => ⟨rfl, ?_⟩
  refine forall₂_filter (fun x x' hx => ?_) h
  have : x.barEnd = x'.barEnd := congrArg BarSkeleton.barEnd hx.1
  rw [this]

end Agreeing

section

variable [DecimalArithmetic]

/-! ### Ledgers with the same book -/

/-- What of an open step reaches the book: its date and the instruments it has parts for. -/
def OpenStep.shape (step : OpenStep) : NaiveDate × List VersionRef := (step.date, step.parts.keys)

/-- Ledgers that differ at most in marks, equity and rows. -/
structure SameBook (l l' : ReplayLedger) : Prop where
  book : l'.book = l.book
  accrued : l'.accrued = l.accrued
  date : l'.date = l.date
  step : l'.step.map OpenStep.shape = l.step.map OpenStep.shape

namespace SameBook

variable {terms : LedgerTerms} {l l' m m' : ReplayLedger}

omit [DecimalArithmetic] in
theorem stepDate (h : SameBook l l') :
    l'.step.map OpenStep.date = l.step.map OpenStep.date := by
  have := congrArg (Option.map Prod.fst) h.step
  rwa [Option.map_map, Option.map_map] at this

/-- A date rolls in the same way for equal books. -/
theorem rollInstruments_eq {previous date : NaiveDate} {held : List (VersionRef × Decimal)}
    {parts out out' : SortedMap VersionRef Parts} (hbook : l'.book = l.book)
    (haccrued : l'.accrued = l.accrued)
    (h : ReplayLedger.rollInstruments terms previous date held l parts = .ok (m, out))
    (h' : ReplayLedger.rollInstruments terms previous date held l' parts = .ok (m', out')) :
    m'.book = m.book ∧ m'.accrued = m.accrued ∧ out' = out := by
  induction held generalizing l l' parts with
  | nil => cases h; cases h'; exact ⟨hbook, haccrued, rfl⟩
  | cons e rest ih =>
    obtain ⟨i, face⟩ := e
    unfold ReplayLedger.rollInstruments at h h'
    rw [haccrued] at h'
    split at h
    · rename_i before after paid hb ha hp
      rw [hb, ha, hp] at h'
      refine ih ?_ ?_ h h'
      · simp only [hbook]
      · rfl
    · cases h

/-- Rolling the date does the same to both books. -/
theorem rollDate_eq {date : NaiveDate} {parts parts' : SortedMap VersionRef Parts}
    {funding funding' : Decimal} (hl : SameBook l l')
    (h : ReplayLedger.rollDate terms l date = .ok (m, parts, funding))
    (h' : ReplayLedger.rollDate terms l' date = .ok (m', parts', funding')) :
    m'.book = m.book ∧ m'.accrued = m.accrued ∧ m'.date = m.date ∧ parts' = parts := by
  have hdate := (ReplayLedger.rollDate_carried h).date
  have hdate' := (ReplayLedger.rollDate_carried h').date
  have hd : m'.date = m.date := hdate'.trans hdate.symm
  rcases ReplayLedger.rollDate_ok h with ⟨rfl, rfl, -, hsame⟩ | ⟨previous, hprev, hne, hfunding, hroll⟩
  · rcases ReplayLedger.rollDate_ok h' with ⟨rfl, rfl, -, -⟩ | ⟨previous', hprev', hne', -, -⟩
    · exact ⟨hl.book, hl.accrued, hd, rfl⟩
    · exact absurd (hsame previous' (hl.date ▸ hprev')) hne'
  · rcases ReplayLedger.rollDate_ok h' with ⟨rfl, rfl, -, hsame'⟩ |
      ⟨previous', hprev', -, hfunding', hroll'⟩
    · exact absurd (hsame' previous (hl.date.symm ▸ hprev)) hne
    · rw [hl.date] at hprev'
      obtain rfl : previous = previous' := Option.some.inj (hprev.symm.trans hprev')
      rw [hl.book, ← hfunding] at hfunding'
      rw [hl.book, hfunding'] at hroll'
      have hboth := fun hb ha => rollInstruments_eq hb ha hroll hroll'
      obtain ⟨hbook, haccrued, hparts⟩ := hboth rfl hl.accrued
      exact ⟨hbook, haccrued, hd, hparts⟩

/-- Which instruments have parts does not depend on what is added to them. -/
theorem addParts_keys {parts parts' : SortedMap VersionRef Parts} (h : parts'.keys = parts.keys)
    (i : VersionRef) (p p' : Parts) : (addParts parts' i p').keys = (addParts parts i p).keys := by
  refine SortedMap.keys_congr fun k => ?_
  have hk : (parts'.get? k).isSome ↔ (parts.get? k).isSome := by
    rw [← SortedMap.mem_keys_iff, ← SortedMap.mem_keys_iff, h]
  simp only [addParts, SortedMap.get?_insert]
  split
  · simp
  · exact hk

/-- The parts have the same bonds, whatever the marks are. -/
theorem markInstruments_keys {marks marks' closes closes' : SortedMap VersionRef Decimal}
    {held : List (VersionRef × Decimal)} {parts parts' out out' : SortedMap VersionRef Parts}
    (hkeys : parts'.keys = parts.keys)
    (h : ReplayLedger.markInstruments marks closes held parts = some out)
    (h' : ReplayLedger.markInstruments marks' closes' held parts' = some out') :
    out'.keys = out.keys := by
  induction held generalizing parts parts' with
  | nil => cases h; cases h'; exact hkeys
  | cons e rest ih =>
    obtain ⟨i, face⟩ := e
    unfold ReplayLedger.markInstruments at h h'
    split at h
    · cases h
    · split at h'
      · cases h'
      · exact ih (addParts_keys hkeys i _ _) h h'

/-- Opening a step on bars with one trading date. -/
theorem openStep {first first' : Bar} {rest rest' : List Bar} (hl : SameBook l l')
    (hdate : first'.localTradingDate = first.localTradingDate)
    (h : l.openStep terms (first :: rest) = .ok m)
    (h' : l'.openStep terms (first' :: rest') = .ok m') : SameBook m m' := by
  obtain ⟨_, _, rolled, rolledParts, _, parts, hbars, -, hroll, hmark, rfl⟩ :=
    ReplayLedger.openStep_ok h
  obtain ⟨_, _, rolled', rolledParts', _, parts', hbars', -, hroll', hmark', rfl⟩ :=
    ReplayLedger.openStep_ok h'
  cases hbars
  cases hbars'
  rw [hdate] at hroll'
  obtain ⟨hbook, haccrued, hd, hparts⟩ := hl.rollDate_eq hroll hroll'
  rw [hl.book] at hmark'
  have hkeys : parts'.keys = parts.keys :=
    markInstruments_keys (congrArg SortedMap.keys hparts) hmark hmark'
  refine ⟨hbook, haccrued, hd, ?_⟩
  simp only [Option.map_some, OpenStep.shape, ReplayLedger.stepFor, hdate, hkeys]

/-- Settling one attempt that differs at most in its price source. -/
theorem settle {attempt : SimulatedFill} (source : PriceSourceType) (hl : SameBook l l')
    (h : l.settle terms attempt = .ok m)
    (h' : l'.settle terms (attempt.sourcedFrom source) = .ok m') : SameBook m m' := by
  obtain ⟨step, hstep, hcase⟩ := ReplayLedger.settle_ok h
  obtain ⟨step', hstep', hcase'⟩ := ReplayLedger.settle_ok h'
  have hshape : step'.shape = step.shape := by
    have := hl.step
    rw [hstep, hstep'] at this
    exact Option.some.inj this
  have hdate : step'.date = step.date := congrArg Prod.fst hshape
  -- Both ledgers book the fill or neither does.
  rcases hcase with ⟨hzero, rfl⟩ | ⟨price, accrued, hne, hprice, -, -, haccrued, rfl⟩
  · rcases hcase' with ⟨-, rfl⟩ | ⟨_, _, hne', -, -, -, -, -⟩
    · exact hl
    · exact absurd hzero hne'
  · rcases hcase' with ⟨hzero', -⟩ | ⟨price', accrued', -, hprice', -, -, haccrued', rfl⟩
    · exact absurd hzero' hne
    · obtain rfl : price = price' := Option.some.inj (hprice.symm.trans hprice')
      rw [hdate] at haccrued'
      obtain rfl : accrued = accrued' := Option.some.inj (haccrued.symm.trans haccrued')
      refine ⟨?_, ?_, hl.date, ?_⟩
      · simp only [ReplayLedger.afterFill, hl.book]; rfl
      · simp only [ReplayLedger.afterFill, hl.accrued]; rfl
      -- The parts may differ in amount but are booked under the same instruments.
      · have hkeys := addParts_keys (congrArg Prod.snd hshape) attempt.instrument
          (ReplayLedger.fillParts terms attempt step price)
          (ReplayLedger.fillParts terms (attempt.sourcedFrom source) step' price)
        simp only [ReplayLedger.afterFill, Option.map_some, OpenStep.shape, hdate]
        exact congrArg (fun keys => some (step.date, keys)) hkeys

/-- Finishing the open step. -/
theorem finishStep (hl : SameBook l l') (h : l.finishStep = .ok m) (h' : l'.finishStep = .ok m') :
    SameBook m m' := by
  obtain ⟨step, equity, hstep, -, -, rfl⟩ := ReplayLedger.finishStep_ok h
  obtain ⟨step', equity', hstep', -, -, rfl⟩ := ReplayLedger.finishStep_ok h'
  have hkeys : step'.parts.keys = step.parts.keys := by
    have := hl.step
    rw [hstep, hstep'] at this
    exact congrArg Prod.snd (Option.some.inj this)
  refine ⟨hl.book, ?_, hl.date, rfl⟩
  simp only [hkeys, hl.book, hl.accrued]

end SameBook

/-! ### Loops with the same books -/

/-- The books handed to the policy, with their times. -/
def decidedBooks (log : List ReplayEvent) : List (DateTime × SimulatedBook) :=
  log.filterMap fun event =>
    match event with
    | .decided time projected => some (time, projected)
    | _ => none

omit [DecimalArithmetic] in
/-- Books of a longer log. -/
theorem decidedBooks_append (log more : List ReplayEvent) :
    decidedBooks (log ++ more) = decidedBooks log ++ decidedBooks more := List.filterMap_append

section SameView

variable (t : DateTime) (covered : List Bar)

/-- Trades that differ at most in the bars that are not visible at `t`. -/
structure SameTrade (trade trade' : PendingTrade) : Prop extends SameOrder trade trade' where
  intent : trade'.intent = trade.intent
  bars : List.Forall₂ (BarAgrees t) trade.bars trade'.bars
  decided : trade.decisionTime ∈ decisionTimes covered
  eligible : ∀ bar ∈ trade.bars, bar ∈ covered ∧ trade.decisionTime ≤ bar.barStart

/-- What the attempts of a step have in common. -/
structure SameStep (s s' : StepState) : Prop where
  ledger : SameBook s.ledger s'.ledger
  used : s'.used = s.used
  decided : decidedBooks s'.log = decidedBooks s.log

/-- Steps that end together and hold bars that agree. -/
def StepAgrees (x y : Step) : Prop := x.1 = y.1 ∧ List.Forall₂ (BarAgrees t) x.2 y.2

/-- Loops that show the policy the same book. -/
structure SameView (r r' : Replay) : Prop where
  ledger : SameBook r.ledger r'.ledger
  pending : List.Forall₂ (SameTrade t covered) r.pending r'.pending
  decided : decidedBooks r'.log = decidedBooks r.log

variable {t covered} {terms terms' : ReplayTerms} (hterms : SameRules terms terms')
include hterms

/-- An attempt in a bar that is visible at `t`. -/
theorem executeDue_sameView {stepEnd : DateTime}
    (hvisible : ∀ bar ∈ covered, bar.barEnd = stepEnd →
      ∀ d ∈ decisionTimes covered, d ≤ bar.barStart → bar.visibleAt ≤ t)
    {s s' s₁ s₁' : StepState} {a a' a₁ a₁' : PendingTrade} (hs : SameStep s s')
    (ha : SameTrade t covered a a') (h : executeDue terms stepEnd s a = .ok (s₁, a₁))
    (h' : executeDue terms' stepEnd s' a' = .ok (s₁', a₁')) :
    SameStep s₁ s₁' ∧ SameTrade t covered a₁ a₁' := by
  have hbars := ha.bars
  rcases executeDue_cases h with ⟨rfl, rfl, hskip⟩ |
    ⟨bar, rest, attempt, ledger, hcons, hend, hne, hattempt, hsettle, rfl, rfl⟩
  -- Not due in one run, not due in the other: the bars agree in when they end.
  · rcases executeDue_cases h' with ⟨rfl, rfl, -⟩ |
      ⟨bar', rest', attempt', ledger', hcons', hend', hne', -, -, -, -⟩
    · exact ⟨hs, ha⟩
    · rw [hcons'] at hbars
      obtain ⟨bar, rest, hbar, -, hcons⟩ := List.forall₂_cons_right_iff.mp hbars
      have hsame : bar.barEnd = bar'.barEnd := congrArg BarSkeleton.barEnd hbar.1
      exact absurd (hsame.trans hend') (hskip (ha.remaining ▸ hne') bar rest hcons)
  · obtain ⟨hcov, hstart⟩ := ha.eligible bar (hcons ▸ List.mem_cons_self)
    -- The bar ends by the step, so it is visible by then and both runs have the same one.
    have hvis := hvisible bar hcov hend a.decisionTime ha.decided hstart
    rw [hcons] at hbars
    obtain ⟨bar', rest', hbar, hrest, hcons'⟩ := List.forall₂_cons_left_iff.mp hbars
    obtain rfl : bar = bar' := hbar.2 hvis
    rcases executeDue_cases h' with ⟨-, -, hskip'⟩ |
      ⟨bar', rest'', attempt', ledger', hcons'', -, -, hattempt', hsettle', rfl, rfl⟩
    · exact absurd hend (hskip' (ha.remaining.symm ▸ hne) bar rest' hcons')
    · rw [hcons'] at hcons''
      cases hcons''
      have hused : s'.usedIn bar = s.usedIn bar := by simp only [StepState.usedIn, hs.used]
      have hmatch := checkedAttempt_sourcedFrom hterms ha.toSameOrder hused hs.ledger.book
        hs.ledger.stepDate hattempt
      obtain rfl : attempt.sourcedFrom terms'.priceSource = attempt' :=
        Except.ok.inj (hmatch.symm.trans hattempt')
      rw [hterms.ledger] at hsettle'
      have hledger := hs.ledger.settle _ hsettle hsettle'
      refine ⟨⟨hledger, ?_, ?_⟩, ?_⟩
      · simp only [StepState.afterAttempt, hused, hs.used]; rfl
      · simp only [StepState.afterAttempt, decidedBooks_append, hs.decided]; rfl
      · have hnil : (rest ≠ []) = (rest' ≠ []) := by
          rw [ne_eq, ne_eq, ← List.length_eq_zero_iff, ← List.length_eq_zero_iff, hrest.length_eq]
        have hcarried : (attempt.sourcedFrom terms'.priceSource).carried = attempt.carried := rfl
        have hq : (attempt.sourcedFrom terms'.priceSource).quantity = attempt.quantity := rfl
        have heligible : ∀ b ∈ rest, b ∈ covered ∧ a.decisionTime ≤ b.barStart :=
          fun b hb => ha.eligible b (hcons ▸ List.mem_cons_of_mem _ hb)
        unfold PendingTrade.afterAttempt
        rw [hcarried, hq, ha.remaining]
        by_cases hon : attempt.carried = true ∧ rest ≠ []
        · rw [if_pos hon, if_pos (hnil ▸ hon)]
          exact ⟨⟨ha.decisionTime, ha.instrument, rfl⟩, rfl, hrest, ha.decided, heligible⟩
        · rw [if_neg hon, if_neg (hnil ▸ hon)]
          exact ⟨⟨ha.decisionTime, ha.instrument, rfl⟩, rfl, .nil, ha.decided,
            fun b hb => absurd hb (by simp)⟩

/-- Closing a step in which every bar that can execute is visible at `t`. -/
theorem runStep_sameView {r r' r₁ r₁' : Replay} {x x' : Step} (hr : SameView t covered r r')
    (hx : StepAgrees t x x')
    (hvisible : ∀ bar ∈ covered, bar.barEnd = x.1 →
      ∀ d ∈ decisionTimes covered, d ≤ bar.barStart → bar.visibleAt ≤ t)
    (h : runStep terms r x = .ok r₁) (h' : runStep terms' r' x' = .ok r₁') :
    SameView t covered r₁ r₁' := by
  obtain ⟨opened, s, pending, finished, hopen, hexec, hfinish, rfl⟩ := runStep_ok h
  obtain ⟨opened', s', pending', finished', hopen', hexec', hfinish', rfl⟩ := runStep_ok h'
  rw [hterms.ledger] at hopen'
  rw [← hx.1] at hexec'
  -- Opening looks at the date of the first bar only.
  have hopened : SameBook opened opened' := by
    obtain ⟨first, rest, _, _, _, _, hbars, -, -, -, -⟩ := ReplayLedger.openStep_ok hopen
    have hagree := hx.2
    rw [hbars] at hagree hopen
    obtain ⟨first', rest', hfirst, -, hbars'⟩ := List.forall₂_cons_left_iff.mp hagree
    rw [hbars'] at hopen'
    have hdate : first'.localTradingDate = first.localTradingDate :=
      (congrArg BarSkeleton.localTradingDate hfirst.1).symm
    exact hr.ledger.openStep hdate hopen hopen'
  have hstart : SameStep ⟨opened, ∅, r.fills, r.log⟩ ⟨opened', ∅, r'.fills, r'.log⟩ :=
    ⟨hopened, rfl, hr.decided⟩
  obtain ⟨hs, hpending⟩ := executeAll_lockstep
    (fun _ _ _ _ _ _ _ _ hs ha h h' => executeDue_sameView hterms hvisible hs ha h h')
    hr.pending hstart hexec hexec'
  exact ⟨hs.ledger.finishStep hfinish hfinish', forall₂_retain hpending fun _ _ h => h.remaining.symm,
    hs.decided⟩

/-- The relation between two decisions: the same view, and grids that agree. -/
structure SameLoop (t : DateTime) (covered : List Bar) (r r' : Replay) : Prop
    extends SameView t covered r r' where
  steps : List.Forall₂ (StepAgrees t) r.steps r'.steps
  sorted : r.steps.Pairwise fun a b => a.1 < b.1
  sorted' : r'.steps.Pairwise fun a b => a.1 < b.1

/-- **One advance to a decision** keeps two loops together. -/
theorem advance_sameLoop {d : DateTime} (hd : d ∈ decisionTimes covered) (hdt : d ≤ t)
    (hearly : NoEarlyExecution t covered) {r r' r₁ r₁' : Replay} (hr : SameLoop t covered r r')
    (h : r.advance terms (some d) = .ok r₁) (h' : r'.advance terms' (some d) = .ok r₁') :
    SameLoop t covered r₁ r₁' := by
  obtain ⟨c, hc, rfl⟩ := advance_ok hr.sorted h
  obtain ⟨c', hc', rfl⟩ := advance_ok hr.sorted' h'
  have hdue : ∀ x x' : Step, StepAgrees t x x' → due (some d) x = due (some d) x' :=
    fun x x' hx => by simp only [due, hx.1]
  have hsteps := (List.forall₂_and_left _ _).mpr ⟨fun x hx => (List.mem_filter.mp hx).2,
    forall₂_filter hdue hr.steps⟩
  have hsame : SameView t covered c c' := by
    refine runAll_lockstep ?_ hsteps hr.toSameView hc hc'
    intro r r' x x' r₁ r₁' hr hx h h'
    refine runStep_sameView hterms hr hx.2 ?_ h h'
    intro bar hbar hend earlier hearlier hstart
    -- A bar not visible at `t` would end after the decision that closes its step.
    by_contra hlate
    have hlt := hearly bar hbar (lt_of_not_ge hlate) earlier hearlier hstart d hd hdt
    have hle : x.1 ≤ d := by simpa [due] using hx.1
    exact absurd (lt_of_lt_of_le hlt (hend ▸ hle)) (lt_irrefl _)
  refine ⟨⟨hsame.ledger, hsame.pending, hsame.decided⟩, ?_, hr.sorted.filter _, hr.sorted'.filter _⟩
  exact forall₂_filter (fun x x' hx => by rw [hdue x x' hx]) hr.steps

end SameView

omit [DecimalArithmetic] in
/-- Registering the same trades. -/
theorem registerAll_sameLoop {t : DateTime} {covered covered' : List Bar} {terms terms' : ReplayTerms}
    (hagree : List.Forall₂ (BarAgrees t) covered covered') {d : DateTime}
    (hd : d ∈ decisionTimes covered) {deltas : List (VersionRef × Decimal)}
    {r r' : Replay} (hr : SameLoop t covered r r') :
    SameLoop t covered (r.registerAll terms covered d deltas)
      (r'.registerAll terms' covered' d deltas) := by
  induction deltas generalizing r r' with
  | nil => exact hr
  | cons delta rest ih =>
    refine ih ?_
    obtain ⟨i, q⟩ := delta
    change SameLoop t covered (r.register terms d i q (eligibleBars covered d i))
      (r'.register terms' d i q (eligibleBars covered' d i))
    have hbars := eligibleBars_agree hagree d i
    have hdecided : decidedBooks (r'.log ++ [.registered d i q]) =
        decidedBooks (r.log ++ [.registered d i q]) := by
      rw [decidedBooks_append, decidedBooks_append, hr.decided]
    -- A delta finds a bar in both runs or in neither.
    rcases register_cases terms d r i q (eligibleBars covered d i) with ⟨hnil, heq⟩ | ⟨hne, heq⟩
    · rw [hnil] at hbars
      have hnil' := List.forall₂_nil_left_iff.mp hbars
      rcases register_cases terms' d r' i q (eligibleBars covered' d i) with ⟨-, heq'⟩ | ⟨hne', -⟩
      · rw [heq, heq']
        exact ⟨⟨hr.ledger, hr.pending, hdecided⟩, hr.steps, hr.sorted, hr.sorted'⟩
      · exact absurd hnil' hne'
    · rcases register_cases terms' d r' i q (eligibleBars covered' d i) with ⟨hnil', -⟩ | ⟨-, heq'⟩
      · rw [hnil'] at hbars
        exact absurd (List.forall₂_nil_right_iff.mp hbars) hne
      · rw [heq, heq']
        have htrade : SameTrade t covered ⟨d, i, q, q, eligibleBars covered d i⟩
            ⟨d, i, q, q, eligibleBars covered' d i⟩ :=
          ⟨⟨rfl, rfl, rfl⟩, rfl, hbars, hd, fun bar hbar =>
            ⟨(mem_eligibleBars.mp hbar).1, (mem_eligibleBars.mp hbar).2.2⟩⟩
        exact ⟨⟨hr.ledger, List.rel_append hr.pending (.cons htrade .nil), hdecided⟩, hr.steps,
          hr.sorted, hr.sorted'⟩

/-- The projected book is the same. -/
theorem SameView.projected_eq {t : DateTime} {covered : List Bar} {r r' : Replay}
    (h : SameView t covered r r') : r'.projected = r.projected := by
  rw [Replay.projected, Replay.projected, h.ledger.book,
    intents_eq h.pending fun _ _ ha => ⟨ha.instrument, ha.intent⟩]

/-! ### The books of a whole run -/

section Books

variable {request : BarReplayRequest} {terms : ReplayTerms} {covered : List Bar}

/-- Attempts do not add to the books handed to the policy. -/
theorem executeAll_decidedBooks {stepEnd : DateTime} {trades trades' : List PendingTrade}
    {s s' : StepState} (h : executeAll terms stepEnd trades s = .ok (s', trades')) :
    decidedBooks s'.log = decidedBooks s.log := by
  refine executeAll_rule (P := fun _ _ x => decidedBooks x.log = decidedBooks s.log) ?_ rfl h
  intro done trade todo x x' trade' hx hdue
  rcases executeDue_cases hdue with ⟨rfl, -, -⟩ | ⟨_, _, _, _, -, -, -, -, -, rfl, -⟩
  · exact hx
  · rw [StepState.afterAttempt, decidedBooks_append, hx]
    exact List.append_nil _

/-- Nor do steps. -/
theorem advance_decidedBooks {limit : Option DateTime} {r r' : Replay}
    (h : r.advance terms limit = .ok r') : decidedBooks r'.log = decidedBooks r.log := by
  refine (advanceSteps_rule (P := fun x => decidedBooks x.log = decidedBooks r.log) ?_ rfl rfl
    (List.suffix_refl r.steps) h).1
  intro x step rest x' hx _ _ _ hrun
  obtain ⟨_, s, _, _, -, hexec, -, rfl⟩ := runStep_ok hrun
  exact (executeAll_decidedBooks hexec).trans hx

/-- A decision adds one book, a sequence of decisions one for each of its times. -/
theorem decideAll_decidedBooks {times : List DateTime} {r r' : Replay} {xs : List ReplayDecision}
    (h : decideAll request terms covered times r = .ok (r', xs)) :
    ∃ more, decidedBooks r'.log = decidedBooks r.log ++ more ∧ more.map Prod.fst = times := by
  induction times generalizing r xs with
  | nil => cases h; exact ⟨[], by simp, rfl⟩
  | cons d times ih =>
    obtain ⟨m, x, rest, hm, hrest, -⟩ := decideAll_cons_ok h
    obtain ⟨more, hmore, htimes⟩ := ih hrest
    obtain ⟨advanced, _, _, target, hadv, -, -, -, rfl, -⟩ := decideAt_ok hm
    -- Registering deltas logs no decision.
    have hregister : ∀ deltas, decidedBooks (({ advanced with
        log := advanced.log ++ [ReplayEvent.decided d advanced.projected] } : Replay).registerAll
          terms covered d deltas).log =
        decidedBooks r.log ++ [(d, advanced.projected)] := by
      intro deltas
      refine registerAll_induct
        (P := fun x => decidedBooks x.log = decidedBooks r.log ++ [(d, advanced.projected)]) ?_ ?_
      · intro x delta hx
        rw [(register_frame terms d x delta.1 delta.2 _).2.2, decidedBooks_append, hx]
        exact List.append_nil _
      · rw [decidedBooks_append, advance_decidedBooks hadv]
        rfl
    refine ⟨(d, advanced.projected) :: more, ?_, by rw [List.map_cons, htimes]⟩
    rw [hmore, hregister, List.append_assoc, List.singleton_append]

/-- The books by the cut are those of the first part. -/
theorem CutRun.decidedBooks_filter {digest : List UInt8 → ContentHash} {result : SimulationResult}
    {closed : Replay} {run : CompletedRun digest request result closed} {t : DateTime}
    (cut : CutRun run t) :
    (decidedBooks closed.log).filter (fun x => x.1 ≤ t) = decidedBooks cut.mid.log := by
  obtain ⟨before, hbefore, htimes⟩ := decideAll_decidedBooks cut.decides_before
  obtain ⟨after, hafter, htimes'⟩ := decideAll_decidedBooks cut.decides_after
  rw [advance_decidedBooks run.closes, hafter, List.filter_append]
  have hin : ∀ x ∈ decidedBooks cut.mid.log, x.1 ≤ t := by
    intro x hx
    rw [hbefore] at hx
    have : x.1 ∈ before.map Prod.fst := List.mem_map_of_mem hx
    rw [htimes] at this
    simpa using (List.mem_filter.mp this).2
  have hout : ∀ x ∈ after, t < x.1 := by
    intro x hx
    have : x.1 ∈ after.map Prod.fst := List.mem_map_of_mem hx
    rw [htimes'] at this
    simpa using (List.mem_filter.mp this).2
  rw [List.filter_eq_self.mpr fun x hx => by simpa using hin x hx,
    List.filter_eq_nil_iff.mpr fun x hx => by simpa using hout x hx, List.append_nil]

end Books

/-! ### The theorem -/

section Decisions

variable {request : BarReplayRequest} {a b : VerifiedBarSnapshot} {t : DateTime}
  {terms terms' : ReplayTerms}

omit [DecimalArithmetic] in
/-- Snapshots that agree on what is visible at `t` show the same at any earlier time. -/
theorem visible_eq {d : DateTime} (hd : d ≤ t)
    (hvisible : a.bars.filter (fun bar => bar.visibleAt ≤ t) =
      b.bars.filter fun bar => bar.visibleAt ≤ t) :
    a.bars.filter (fun bar => bar.visibleAt ≤ d) = b.bars.filter fun bar => bar.visibleAt ≤ d := by
  have hcut : ∀ bars : List Bar, bars.filter (fun bar => bar.visibleAt ≤ d) =
      (bars.filter fun bar => bar.visibleAt ≤ t).filter fun bar => bar.visibleAt ≤ d := by
    intro bars
    rw [List.filter_filter]
    refine List.filter_congr fun bar _ => ?_
    by_cases h : bar.visibleAt ≤ d
    · simp [h, le_trans h hd]
    · simp [h]
  rw [hcut a.bars, hcut b.bars, hvisible]

/-- **One decision** keeps two loops together. -/
theorem decideAt_sameLoop (hterms : SameRules terms terms')
    (hagree : List.Forall₂ (BarAgrees t) (request.over a).covered (request.over b).covered)
    (hvisible : a.bars.filter (fun bar => bar.visibleAt ≤ t) =
      b.bars.filter fun bar => bar.visibleAt ≤ t)
    (hearly : NoEarlyExecution t (request.over a).covered) {d : DateTime}
    (hd : d ∈ decisionTimes (request.over a).covered) (hdt : d ≤ t) {r r' r₁ r₁' : Replay}
    {x x' : ReplayDecision} (hr : SameLoop t (request.over a).covered r r')
    (h : decideAt (request.over a) terms (request.over a).covered r d = .ok (r₁, x))
    (h' : decideAt (request.over b) terms' (request.over b).covered r' d = .ok (r₁', x')) :
    SameLoop t (request.over a).covered r₁ r₁' ∧ x = x' := by
  obtain ⟨m, visible, view, target, hadv, hvis, hview, htarget, rfl, rfl⟩ := decideAt_ok h
  obtain ⟨m', visible', view', target', hadv', hvis', hview', htarget', rfl, rfl⟩ := decideAt_ok h'
  have hm := advance_sameLoop hterms hd hdt hearly hr hadv hadv'
  have hbook := hm.projected_eq
  -- Both policies see the same bars and the same book, so they ask for the same.
  obtain rfl : visible = visible' := by
    rw [VerifiedBarSnapshot.visibleAt_ok hvis, VerifiedBarSnapshot.visibleAt_ok hvis']
    exact visible_eq hdt hvisible
  obtain rfl : view = view' := Except.ok.inj (hview.symm.trans hview')
  rw [hbook] at htarget'
  obtain rfl : target = target' := Except.ok.inj (htarget.symm.trans htarget')
  refine ⟨?_, rfl⟩
  rw [hbook]
  refine registerAll_sameLoop hagree hd ⟨⟨hm.ledger, hm.pending, ?_⟩, hm.steps, hm.sorted, hm.sorted'⟩
  rw [decidedBooks_append, decidedBooks_append, hm.decided]

end Decisions

/-- **No look-ahead.**  Two replays of one request over snapshots that agree on what is visible at
    `t` and on the skeleton of every covered bar make the same decisions by `t`, on the same
    projected books, provided no trade can execute in a bar that is still invisible at `t`. -/
theorem no_look_ahead {digest : List UInt8 → ContentHash} {request : BarReplayRequest}
    {a b : VerifiedBarSnapshot} {t : DateTime}
    (hskeleton : (request.over a).covered.map Bar.skeleton =
      (request.over b).covered.map Bar.skeleton)
    (hvisible : a.bars.filter (fun bar => bar.visibleAt ≤ t) =
      b.bars.filter fun bar => bar.visibleAt ≤ t)
    (hearly : NoEarlyExecution t (request.over a).covered)
    {result result' : SimulationResult} {closed closed' : Replay}
    (h : replayRun digest (request.over a) = .ok (result, closed))
    (h' : replayRun digest (request.over b) = .ok (result', closed')) :
    result.content.decisions.filter (fun x => x.decisionTime ≤ t) =
        result'.content.decisions.filter (fun x => x.decisionTime ≤ t) ∧
      (decidedBooks closed.log).filter (fun x => x.1 ≤ t) =
        (decidedBooks closed'.log).filter (fun x => x.1 ≤ t) := by
  obtain ⟨run⟩ := replayRun_completed h
  obtain ⟨run'⟩ := replayRun_completed h'
  obtain ⟨cut⟩ := run.cut t
  obtain ⟨cut'⟩ := run'.cut t
  have hterms : SameRules run.terms run'.terms := run.sameRules run'
  -- Filtering by visibility and by what the policy covers commute.
  have hcovered : (request.over a).covered.filter (fun bar => bar.visibleAt ≤ t) =
      (request.over b).covered.filter fun bar => bar.visibleAt ≤ t := by
    have hswap : ∀ bars : List Bar, (coveredBars request.policy bars).filter
        (fun bar => bar.visibleAt ≤ t) =
        coveredBars request.policy (bars.filter fun bar => bar.visibleAt ≤ t) := by
      intro bars
      rw [coveredBars, coveredBars, List.filter_comm]
    exact (hswap a.bars).trans ((congrArg _ hvisible).trans (hswap b.bars).symm)
  have hagree := forall₂_barAgrees hskeleton hcovered
  have hstart : SameLoop t (request.over a).covered (Replay.start (request.over a).covered)
      (Replay.start (request.over b).covered) :=
    ⟨⟨⟨rfl, rfl, rfl, rfl⟩, .nil, rfl⟩, stepsOf_agree hagree, stepsOf_sorted _, stepsOf_sorted _⟩
  have hbefore' := cut'.decides_before
  rw [← decisionTimes_eq hagree] at hbefore'
  -- Up to the cut both loops decide in lockstep.
  obtain ⟨hmid, hdecisions⟩ := decideAll_lockstep (D := Eq)
    (fun d hd _ _ _ _ _ _ hr h h' => decideAt_sameLoop hterms hagree hvisible hearly
      (List.mem_filter.mp hd).1 (by simpa using (List.mem_filter.mp hd).2) hr h h')
    hstart cut.decides_before hbefore'
  rw [cut.decisions_filter, cut'.decisions_filter, cut.decidedBooks_filter, cut'.decidedBooks_filter]
  exact ⟨List.forall₂_eq_eq_eq ▸ hdecisions, hmid.decided.symm⟩

end

namespace SmallMarket

/-- The bar after `cheap`, with other content than `next`. -/
def nextThin : Bar := ⟨barInput "b1" 1 2 2 4 5, by decide +kernel⟩

/-- The bar after `cheap`, published two minutes late. -/
def late : Bar := ⟨barInput "b1" 1 2 4 10 2, by decide +kernel⟩

/-- The same bar without a trade in it. -/
def lateEmpty : Bar := ⟨barInput "b1" 1 2 4 0 2, by decide +kernel⟩

/-- A bar whose yield of 1.5 makes the policy keep what it holds. -/
def fair : Bar :=
  ⟨{ barInput "b2" 2 3 3 10 2 with closeYield := some ⟨15, 1, (whole 0).unit⟩ }, by decide +kernel⟩

end SmallMarket

open RoundedDecimals

/-- Two snapshots that differ in a later bar. -/
theorem no_look_ahead_next : ∃ result result' closed closed',
    replayRun SmallMarket.digest ((SmallMarket.request .cancel []).over
      (SmallMarket.snapshot [SmallMarket.cheap, SmallMarket.next])) = .ok (result, closed) ∧
    replayRun SmallMarket.digest ((SmallMarket.request .cancel []).over
      (SmallMarket.snapshot [SmallMarket.cheap, SmallMarket.nextThin])) = .ok (result', closed') ∧
    result.content.decisions.filter (fun x => x.decisionTime ≤ SmallMarket.minute 1) =
      result'.content.decisions.filter (fun x => x.decisionTime ≤ SmallMarket.minute 1) := by
  obtain ⟨⟨result, closed⟩, hrun, -⟩ := exists_ok_of_any
    (x := replayRun SmallMarket.digest ((SmallMarket.request .cancel []).over
      (SmallMarket.snapshot [SmallMarket.cheap, SmallMarket.next])))
    (p := fun _ => true) (by decide +kernel)
  obtain ⟨⟨result', closed'⟩, hrun', -⟩ := exists_ok_of_any
    (x := replayRun SmallMarket.digest ((SmallMarket.request .cancel []).over
      (SmallMarket.snapshot [SmallMarket.cheap, SmallMarket.nextThin])))
    (p := fun _ => true) (by decide +kernel)
  exact ⟨result, result', closed, closed', hrun, hrun',
    (no_look_ahead (by decide +kernel) (by decide +kernel) (by unfold NoEarlyExecution; decide +kernel)
      hrun hrun').1⟩

/-- Bought at minute 1, the bond fills in a bar that is published at minute 4.  At minute 3 the
    policy keeps what it holds: ten with that bar traded, nothing without. -/
theorem late_bar_leaks : ∃ result result' closed closed',
    (SmallMarket.request .cancel [SmallMarket.cheap, SmallMarket.late, SmallMarket.fair]).covered.map
        Bar.skeleton =
      (SmallMarket.request .cancel
        [SmallMarket.cheap, SmallMarket.lateEmpty, SmallMarket.fair]).covered.map Bar.skeleton ∧
    ([SmallMarket.cheap, SmallMarket.late, SmallMarket.fair].filter fun bar =>
        bar.visibleAt ≤ SmallMarket.minute 3) =
      ([SmallMarket.cheap, SmallMarket.lateEmpty, SmallMarket.fair].filter fun bar =>
        bar.visibleAt ≤ SmallMarket.minute 3) ∧
    replayRun SmallMarket.digest ((SmallMarket.request .cancel []).over
      (SmallMarket.snapshot [SmallMarket.cheap, SmallMarket.late, SmallMarket.fair])) =
        .ok (result, closed) ∧
    replayRun SmallMarket.digest ((SmallMarket.request .cancel []).over
      (SmallMarket.snapshot [SmallMarket.cheap, SmallMarket.lateEmpty, SmallMarket.fair])) =
        .ok (result', closed') ∧
    result.content.decisions.filter (fun x => x.decisionTime ≤ SmallMarket.minute 3) ≠
      result'.content.decisions.filter (fun x => x.decisionTime ≤ SmallMarket.minute 3) := by
  -- The targets of the decisions of a run, evaluated.
  have htargets : ∀ bars target,
      ((replayRun SmallMarket.digest ((SmallMarket.request .cancel []).over
        (SmallMarket.snapshot bars))).toOption.any fun out =>
          ((out.1.content.decisions.filter fun x => x.decisionTime ≤ SmallMarket.minute 3).map
            fun x => x.target.targets.get? SmallMarket.bond) = target) = true →
      ∃ result closed, replayRun SmallMarket.digest ((SmallMarket.request .cancel []).over
        (SmallMarket.snapshot bars)) = .ok (result, closed) ∧
        ((result.content.decisions.filter fun x => x.decisionTime ≤ SmallMarket.minute 3).map
          fun x => x.target.targets.get? SmallMarket.bond) = target := by
    intro bars target h
    obtain ⟨⟨result, closed⟩, hrun, htarget⟩ := exists_ok_of_any h
    exact ⟨result, closed, hrun, by simpa using htarget⟩
  obtain ⟨result, closed, hrun, htarget⟩ := htargets
    [SmallMarket.cheap, SmallMarket.late, SmallMarket.fair] [some 10, some 10] (by decide +kernel)
  obtain ⟨result', closed', hrun', htarget'⟩ := htargets
    [SmallMarket.cheap, SmallMarket.lateEmpty, SmallMarket.fair] [some 10, some 0] (by decide +kernel)
  refine ⟨result, result', closed, closed', by decide +kernel, by decide +kernel, hrun, hrun', ?_⟩
  intro hsame
  rw [hsame, htarget'] at htarget
  exact absurd htarget (by decide +kernel)

end Ficant
