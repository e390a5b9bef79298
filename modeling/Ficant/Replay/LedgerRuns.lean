import Ficant.Replay.LedgerFailure

namespace Ficant

open Lib ExactDecimals

namespace ReplayLedger

/-!
# Runs of a ledger

Steps are opened, settled and finished one after the other, and any of these calls may fail; the caller
may go on with the ledger that the failing call leaves behind.

* `LedgerRun` — the ledgers that such calls lead to, with a condition on the `open_step` calls;
* `LedgerRun.invariant` — as long as no date rolls without coupon data, the invariants of a step and
  between two steps survive every call (`ledger_reconciles`);
* `finishStep_fails_after_roll` — a date that rolled without coupon data makes the check of a later
  step fail;
* `CompletedRun.ledgerRun` — the ledger of a replay comes from such a run.

All operators are exact here.
-/

/-- The ledgers that calls lead to, whether or not they succeed, where every `open_step` is made on a
    ledger and with bars that `admitted` admits.  `seen` are the bars of the steps that are over,
    `opened` those of the open step. -/
inductive LedgerRun (terms : LedgerTerms) (admitted : ReplayLedger → List Bar → Prop) :
    List Bar → Option (List Bar) → ReplayLedger → Prop
  | new : LedgerRun terms admitted [] none .new
  | open_ {seen opened bars l l'} (run : LedgerRun terms admitted seen opened l)
      (admits : admitted l bars) (opens : l.openStep terms bars = .ok l') :
      LedgerRun terms admitted seen (some bars) l'
  | refuse {seen opened bars l code l'} (run : LedgerRun terms admitted seen opened l)
      (admits : admitted l bars) (refuses : l.openStep terms bars = .error (code, l')) :
      LedgerRun terms admitted seen opened l'
  | settle {seen opened l fill} (run : LedgerRun terms admitted seen opened l)
      (inBars : ∀ bars ∈ opened, FillIn bars fill) :
      LedgerRun terms admitted seen opened (left (l.settle terms fill))
  | finish {seen opened l} (run : LedgerRun terms admitted seen opened l) :
      LedgerRun terms admitted (seen ++ opened.getD []) none (left l.finishStep)

/-- A run in which no date rolls without the coupon data of the bonds that are held. -/
abbrev CarriedRun (terms : LedgerTerms) : List Bar → Option (List Bar) → ReplayLedger → Prop :=
  LedgerRun terms fun l bars => ¬RollsWithoutCarry terms l bars

variable {terms : LedgerTerms} {admitted : ReplayLedger → List Bar → Prop} {l l' : ReplayLedger}
  {seen : List Bar} {opened : Option (List Bar)}

/-- A run is a sequence of calls. -/
theorem LedgerRun.reachable (run : LedgerRun terms admitted seen opened l) : Reachable terms l := by
  induction run with
  | new => exact .new
  | @open_ _ _ bars l l' _ _ opens ih =>
    have hcall := ih.call (.openStep bars)
    rwa [Call.run, opens] at hcall
  | @refuse _ _ bars l code l' _ _ refuses ih =>
    have hcall := ih.call (.openStep bars)
    rwa [Call.run, refuses] at hcall
  | settle _ _ ih => exact ih.call (.settle _)
  | finish _ ih => exact ih.call .finishStep

/-- An `open_step` call, whichever way it ends. -/
theorem LedgerRun.openStep (run : LedgerRun terms admitted seen opened l) (bars : List Bar)
    (admits : admitted l bars) :
    LedgerRun terms admitted seen
      (if codeOf (l.openStep terms bars) = none then some bars else opened)
      (left (l.openStep terms bars)) := by
  cases h : l.openStep terms bars with
  | ok l' => exact run.open_ admits h
  | error e => exact run.refuse admits h

/-- A step that was opened had its coupon data. -/
theorem not_rollsWithoutCarry_of_ok (hl : l.Priced) {bars : List Bar}
    (h : l.openStep terms bars = .ok l') : ¬RollsWithoutCarry terms l bars := by
  intro hrolls
  obtain ⟨code, failed, hfails, -⟩ := hrolls.fails hl
  rw [h] at hfails
  cases hfails

/-- A step is opened where none is open. -/
theorem openStep_closed {bars : List Bar} (h : l.openStep terms bars = .ok l') : l.step = none := by
  obtain ⟨first, -, -, -, -, -, -, hconsistent, -⟩ := openStep_ok h
  simp only [stepConsistent, decide_eq_true_eq] at hconsistent
  exact Option.isNone_iff_eq_none.mp hconsistent.1

/-- What every call of a run keeps. -/
def Balanced (terms : LedgerTerms) (seen : List Bar) (opened : Option (List Bar))
    (l : ReplayLedger) : Prop :=
  (opened = none → Reconciled terms seen l) ∧
    ∀ bars, opened = some bars → ∃ step, StepReconciled terms seen bars l step

theorem Balanced.openStep {bars : List Bar} (hl : Balanced terms seen opened l)
    (h : l.openStep terms bars = .ok l') : Balanced terms seen (some bars) l' := by
  have hclosed : opened = none := by
    cases hopened : opened with
    | none => rfl
    | some before =>
      obtain ⟨step, hstep⟩ := hl.2 before hopened
      have hopen := hstep.opened
      rw [openStep_closed h] at hopen
      cases hopen
  refine ⟨nofun, fun bars' hbars => ?_⟩
  obtain rfl := Option.some.inj hbars
  exact openStep_reconciled (hl.1 hclosed) h

/-- Without an open step nothing is settled; with one, a fill that fails changes nothing. -/
theorem Balanced.settle {fill : SimulatedFill} (hl : Balanced terms seen opened l)
    (hfill : ∀ bars ∈ opened, FillIn bars fill) :
    Balanced terms seen opened (left (l.settle terms fill)) := by
  cases h : l.settle terms fill with
  | error e =>
    obtain ⟨code, l'⟩ := e
    rw [left, settle_atomic h]
    exact hl
  | ok l' =>
    constructor
    · intro hnone
      obtain ⟨step, hstep, -⟩ := settle_ok h
      rw [(hl.1 hnone).closed] at hstep
      cases hstep
    · intro bars hbars
      obtain ⟨step, hstep⟩ := hl.2 bars hbars
      exact settle_reconciled hstep (hfill bars hbars) h

/-- The open step is finished, and without one nothing happens. -/
theorem Balanced.finishStep (hl : Balanced terms seen opened l) :
    Balanced terms (seen ++ opened.getD []) none (left l.finishStep) := by
  refine ⟨fun _ => ?_, fun bars h => nomatch h⟩
  cases hopened : opened with
  | none =>
    have hrefused : l.finishStep = .error (.invalidValue, l) := by
      unfold ReplayLedger.finishStep
      rw [(hl.1 hopened).closed]
    rw [hrefused, Option.getD_none, List.append_nil]
    exact hl.1 hopened
  | some bars =>
    obtain ⟨step, hstep⟩ := hl.2 bars hopened
    obtain ⟨l', hfinish⟩ := finishStep_succeeds hstep
    rw [hfinish]
    exact finishStep_reconciled hstep hfinish

/-- Every ledger of a run in which no date rolls without coupon data satisfies its invariant. -/
theorem LedgerRun.invariant (run : CarriedRun terms seen opened l) :
    Balanced terms seen opened l := by
  induction run with
  | new => exact ⟨fun _ => reconciled_new terms, fun bars h => nomatch h⟩
  | open_ _ _ opens ih => exact ih.openStep opens
  | refuse run admits refuses ih =>
    -- the call was refused before it moved the date
    rw [(openStep_atomic_iff run.reachable.priced _).mpr admits _ _ refuses]
    exact ih
  | settle _ inBars ih => exact ih.settle inBars
  | finish _ ih => exact ih.finishStep

/-- **P&L reconciliation.**  In every run in which no date rolls without the coupon data of a bond
    that is held, finishing the open step succeeds: its components add up to the equity change, and
    no mark or accrued interest is missing.  Between steps every position has a mark and accrued
    interest, and equity is the sum of all row totals and cash plus every position at its last close
    and the accrued interest of the last row's date. -/
theorem ledger_reconciles (terms : LedgerTerms) (seen : List Bar) (opened : Option (List Bar))
    (l : ReplayLedger) (run : CarriedRun terms seen opened l) :
    (∀ bars, opened = some bars → ∃ l', l.finishStep = .ok l') ∧
      (opened = none →
        (∀ i face, l.book.positions.get? i = some face →
          (l.marks.get? i).isSome ∧ (l.accrued.get? i).isSome ∧
          ∃ d a, l.rows.getLast?.map BarPnl.tradingDate = some d ∧ terms.accruedOn d i = some a) ∧
        l.equity = (l.rows.map BarPnl.total).sum ∧
        l.equity = l.book.cash + l.book.sumOver fun i face =>
          (face * (((stepCloses seen).get? i).getD 0 +
            ((l.rows.getLast?.map BarPnl.tradingDate).bind
              fun d => terms.accruedOn d i).getD 0)).shift 2) := by
  refine ⟨?_, ?_⟩
  · intro bars hopened
    obtain ⟨step, hstep⟩ := run.invariant.2 bars hopened
    exact finishStep_succeeds hstep
  -- Between two steps everything that is held is marked and accrued on the last date.
  · intro hclosed
    have hl := run.invariant.1 hclosed
    refine ⟨?_, hl.rows, ?_⟩
    · intro i face hi
      obtain ⟨d, a, hd, ha, hacc, hm⟩ := hl.held i face hi
      exact ⟨hm, by rw [hacc]; rfl, d, a, hl.dated ▸ hd, ha⟩
    · refine hl.equity.trans ?_
      rw [← hl.marks, ← hl.dated]
      congr 1
      rw [← valueOf_positions l.book fun i => (l.marks.get? i).getD 0 +
        (l.date.bind fun d => terms.accruedOn d i).getD 0]
      refine valueOf_congr fun e he => ?_
      obtain ⟨d, a, hd, ha, hacc, -⟩ := hl.held e.1 e.2 (entry_of_mem_held he)
      simp only [hd, hacc, Option.bind_some, ha]

end ReplayLedger

namespace SmallMarket

open ReplayLedger

/-- Funding at no cost. -/
def unfunded : ReplayFunding := .free ⟨⟨8⟩, .first⟩ .rOnly

/-- Terms under which borrowed cash costs a tenth of a per mille a day, and a coupon source that
    ends on the first date. -/
def fundedTerms : LedgerTerms :=
  ⟨endingCarry, { unfunded with annualRate := (365 : Decimal).shift 4 }, .none, .t1⟩

/-- The purchase, in the open step of the first date. -/
def bought (terms : LedgerTerms) : ReplayLedger :=
  left ((left (ReplayLedger.new.openStep terms [cheap])).settle terms purchase)

/-- The same, after the step is finished. -/
def boughtOvernight (terms : LedgerTerms) : ReplayLedger := left (bought terms).finishStep

/-- The step of the next date is opened twice: the first call fails, the second one does not. -/
def openedTwice : ReplayLedger :=
  left ((left ((boughtOvernight fundedTerms).openStep fundedTerms [overnight])).openStep fundedTerms
    [overnight])

end SmallMarket

namespace ReplayLedger

open SmallMarket

theorem purchase_in_cheap : FillIn [cheap] purchase :=
  ⟨cheap, List.mem_cons_self, _, _, _, _, _, .inl rfl⟩

/-- The purchase and the end of its step. -/
theorem run_boughtOvernight (terms : LedgerTerms) (admitted : ReplayLedger → List Bar → Prop)
    (hadmitted : admitted .new [cheap])
    (hopens : codeOf (ReplayLedger.new.openStep terms [cheap]) = none) :
    LedgerRun terms admitted [cheap] none (boughtOvernight terms) := by
  have hnew : LedgerRun terms admitted [] none .new := .new
  have hopened := hnew.openStep _ hadmitted
  rw [if_pos hopens] at hopened
  refine (hopened.settle ?_).finish
  rintro bars hbars
  obtain rfl := Option.some.inj hbars
  exact purchase_in_cheap

/-- A step without bars is refused after the purchase: the books of the first step still balance. -/
theorem ledger_reconciles_small :
    CarriedRun endingTerms [cheap] none
      (left ((boughtOvernight endingTerms).openStep endingTerms [])) ∧
    (boughtOvernight endingTerms).book.position bond = 10 ∧
    (left ((boughtOvernight endingTerms).openStep endingTerms [])).equity =
      ((left ((boughtOvernight endingTerms).openStep endingTerms [])).rows.map BarPnl.total).sum := by
  have hfirst : ¬RollsWithoutCarry endingTerms .new [cheap] := by
    rintro ⟨first, rest, previous, -, -, hdate, -⟩
    cases hdate
  have hempty : ¬RollsWithoutCarry endingTerms (boughtOvernight endingTerms) [] := by
    rintro ⟨first, rest, previous, hbars, -⟩
    cases hbars
  have hbought : CarriedRun endingTerms [cheap] none (boughtOvernight endingTerms) :=
    run_boughtOvernight endingTerms _ hfirst (by decide +kernel)
  have hrun := hbought.openStep _ hempty
  have hrefused : codeOf ((boughtOvernight endingTerms).openStep endingTerms []) ≠ none := by
    decide +kernel
  rw [if_neg hrefused] at hrun
  exact ⟨hrun, by decide +kernel, ((ledger_reconciles _ _ _ _ hrun).2 rfl).2.1⟩

/-- The bond is held overnight and the coupon source ends: the first call of `open_step` fails after
    it has charged the funding, the same call then opens the step, and finishing it fails its own
    check. -/
theorem finishStep_fails_after_roll :
    LedgerRun fundedTerms (fun _ _ => True) [cheap] (some [overnight]) openedTwice ∧
      ∃ l', openedTwice.finishStep = .error (.invalidValue, l') := by
  have hfails : codeOf ((boughtOvernight fundedTerms).openStep fundedTerms [overnight]) ≠ none := by
    decide +kernel
  have hopens : codeOf ((left ((boughtOvernight fundedTerms).openStep fundedTerms
      [overnight])).openStep fundedTerms [overnight]) = none := by
    decide +kernel
  have hrun := (run_boughtOvernight fundedTerms (fun _ _ => True) trivial
    (by decide +kernel)).openStep [overnight] trivial
  rw [if_neg hfails] at hrun
  have hagain := hrun.openStep [overnight] trivial
  rw [if_pos hopens] at hagain
  exact ⟨hagain, _, eq_error_of_codeOf (by decide +kernel)⟩

end ReplayLedger

/-! ### The ledger of a replay -/

open ReplayLedger

/-- A checked attempt of a trade in a bar of its instrument is a fill in that bar. -/
theorem checkedAttempt_fillIn {terms : ReplayTerms} {s : StepState} {trade : PendingTrade}
    {bars : List Bar} {bar : Bar} {attempt : SimulatedFill} (hbar : bar ∈ bars)
    (hinst : bar.instrument = trade.instrument)
    (h : checkedAttempt terms s trade bar = .ok attempt) : FillIn bars attempt := by
  refine ⟨bar, hbar, trade.decisionTime, trade.remaining, s.usedIn bar, terms.rules,
    terms.priceSource, ?_⟩
  rw [hinst]
  rcases checkedAttempt_cases h with ⟨hraw, -⟩ | ⟨_, _, -, -, -, hraw | ⟨outcome, hraw⟩⟩
  · exact .inl hraw
  · exact .inl hraw
  · exact .inr ⟨_, outcome, hraw⟩

/-- Pending trades wait for covered bars of their instrument. -/
def OwnBars (covered : List Bar) (trades : List PendingTrade) : Prop :=
  ∀ trade ∈ trades, ∀ bar ∈ trade.bars, bar ∈ covered ∧ bar.instrument = trade.instrument

theorem executeDue_ownBars {terms : ReplayTerms} {covered : List Bar} {stepEnd : DateTime}
    {s s' : StepState} {trade trade' : PendingTrade} (hown : OwnBars covered [trade])
    (h : executeDue terms stepEnd s trade = .ok (s', trade')) : OwnBars covered [trade'] := by
  rcases executeDue_cases h with ⟨-, rfl, -⟩ | ⟨bar, rest, attempt, _, hbars, -, -, -, -, -, rfl⟩
  · exact hown
  · intro t ht b hb
    rw [List.mem_singleton.mp ht] at hb ⊢
    unfold PendingTrade.afterAttempt at hb ⊢
    split at hb
    · rename_i hgo
      rw [if_pos hgo]
      exact hown trade List.mem_cons_self b (hbars ▸ List.mem_cons_of_mem _ hb)
    · cases hb

theorem ownBars_append {covered : List Bar} {a b : List PendingTrade} :
    OwnBars covered (a ++ b) ↔ OwnBars covered a ∧ OwnBars covered b := by
  simp only [OwnBars, List.mem_append]
  exact ⟨fun h => ⟨fun t ht => h t (.inl ht), fun t ht => h t (.inr ht)⟩,
    fun h t ht => ht.elim (h.1 t) (h.2 t)⟩

/-- Closing a step of the grid is a piece of a ledger run. -/
theorem runStep_ledgerRun {terms : ReplayTerms} {covered seen : List Bar} {r r' : Replay}
    {step : Step} (hstep : step ∈ stepsOf covered) (hrun : CarriedRun terms.ledger seen none r.ledger)
    (hown : OwnBars covered r.pending) (h : runStep terms r step = .ok r') :
    CarriedRun terms.ledger (seen ++ step.2) none r'.ledger ∧ OwnBars covered r'.pending := by
  obtain ⟨opened, s, pending, finished, hopen, hexec, hfinish, rfl⟩ := runStep_ok h
  have hbars := (mem_stepsOf.mp hstep).1
  obtain ⟨hrun', -, hown'⟩ := executeAll_rule
    (P := fun done todo s => CarriedRun terms.ledger seen (some step.2) s.ledger ∧
      OwnBars covered todo ∧ OwnBars covered done)
    (fun done trade todo s s' trade' hP hdue => by
      obtain ⟨hs, htodo, hdone⟩ := hP
      have hmine : OwnBars covered [trade] := fun t ht =>
        htodo t (List.mem_singleton.mp ht ▸ List.mem_cons_self)
      refine ⟨?_, fun t ht => htodo t (List.mem_cons_of_mem _ ht),
        ownBars_append.mpr ⟨hdone, executeDue_ownBars hmine hdue⟩⟩
      rcases executeDue_cases hdue with ⟨rfl, -, -⟩ |
        ⟨bar, rest, attempt, ledger, htb, hend, -, hattempt, hsettle, rfl, -⟩
      · exact hs
      · obtain ⟨hcov, hinst⟩ := hmine trade List.mem_cons_self bar (htb ▸ List.mem_cons_self)
        have hmem : bar ∈ step.2 := hbars ▸ List.mem_filter.mpr ⟨hcov, by simpa using hend⟩
        have hfill := checkedAttempt_fillIn hmem hinst hattempt
        have hsettled := hs.settle fun bars hbars => Option.some.inj hbars ▸ hfill
        rw [hsettle] at hsettled
        exact hsettled)
    ⟨hrun.open_ (not_rollsWithoutCarry_of_ok hrun.reachable.priced hopen) hopen, hown,
      fun t ht => nomatch ht⟩ hexec
  have hfinished := hrun'.finish
  rw [hfinish] at hfinished
  exact ⟨hfinished, fun t ht => hown' t (List.mem_filter.mp ht).1⟩

/-- The ledger a completed replay ends with comes from a run in which every call succeeded. -/
theorem CompletedRun.ledgerRun {digest : List UInt8 → ContentHash} {request : BarReplayRequest}
    {result : SimulationResult} {closed : Replay}
    (run : CompletedRun digest request result closed) :
    ∃ seen, CarriedRun run.terms.ledger seen none closed.ledger := by
  have hinv := run.invariant
    (P := fun _ r => (∃ seen, CarriedRun run.terms.ledger seen none r.ledger) ∧
      OwnBars request.covered r.pending)
    ⟨⟨[], .new⟩, by intro t ht; cases ht⟩
    (fun _ r step rest r' hr _ hsuffix hstep => by
      obtain ⟨⟨seen, hseen⟩, hown⟩ := hr
      obtain ⟨hrun', hown'⟩ := runStep_ledgerRun (r := { r with steps := rest })
        (hsuffix.subset List.mem_cons_self) hseen hown hstep
      exact ⟨⟨_, hrun'⟩, hown'⟩)
    (fun _ d r target hr _ _ _ => by
      refine registerAll_induct (P := fun r =>
        (∃ seen, CarriedRun run.terms.ledger seen none r.ledger) ∧
          OwnBars request.covered r.pending) ?_ hr
      intro r delta hr
      refine ⟨?_, ?_⟩
      · rw [(register_frame ..).2.1]; exact hr.1
      · rcases register_cases run.terms d r delta.1 delta.2
          (eligibleBars request.covered d delta.1) with ⟨-, heq⟩ | ⟨-, heq⟩ <;> rw [heq]
        · exact hr.2
        · refine ownBars_append.mpr ⟨hr.2, ?_⟩
          intro t ht bar hbar
          rw [List.mem_singleton.mp ht] at hbar ⊢
          obtain ⟨hcov, hinst, -⟩ := mem_eligibleBars.mp hbar
          exact ⟨hcov, hinst⟩)
  exact hinv.1.1

/-- **The rows of a replay add up** to the equity that it ends with. -/
theorem CompletedRun.rows_reconcile {digest : List UInt8 → ContentHash} {request : BarReplayRequest}
    {result : SimulationResult} {closed : Replay}
    (run : CompletedRun digest request result closed) :
    closed.ledger.equity = (closed.ledger.rows.map BarPnl.total).sum := by
  obtain ⟨seen, hrun⟩ := run.ledgerRun
  exact (hrun.invariant.1 rfl).rows

end Ficant
