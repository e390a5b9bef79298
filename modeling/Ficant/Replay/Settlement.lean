import Ficant.Replay.LedgerRules
import Ficant.Replay.Rules

namespace Ficant

open Lib ExactDecimals

/-!
# Constraints on the settled book

The check of an execution predicts the book it leaves from a linear model; settlement computes that
book on its own path.  The two agree (`settle_predicted`), so what the check guarantees of the
prediction holds of the book that is really settled (`attempt_within_constraints`), in every step of
every run.  All operators are exact here.
-/

variable {terms : LedgerTerms} {l l' : ReplayLedger} {fill : SimulatedFill}

/-- The cost a fill is charged is the cost the check predicts. -/
theorem cost_eq (costs : CostModel) {q : Decimal} (hq : q ≠ 0) :
    costs.cost q = -(|q| * costs.rates.1 + costs.rates.2) := by
  cases costs with
  | none => simp [CostModel.cost, CostModel.rates]
  | ratePlusFixed rate fee =>
    simp only [CostModel.cost, CostModel.rates, if_neg hq, plus_eq, times_eq, shifted_eq,
      Decimal.shift_mul]

/-- **Prediction and settlement agree.**  A fill that executed something leaves the positions and
    the cash that the execution context predicts for its size. -/
theorem settle_predicted {price : Decimal} {context : ExecutionContext}
    (hcontext : l.executionContext terms fill.instrument price = .ok context)
    (hprice : fill.price = some price) (hq : fill.quantity ≠ 0)
    (h : l.settle terms fill = .ok l') :
    context.book = l.book ∧ context.instrument = fill.instrument ∧
      l'.book.positions = (context.book.addPosition context.instrument fill.quantity).positions ∧
      l'.book.cash = context.cashAfter fill.quantity := by
  obtain ⟨step, hstep, ⟨hzero, -⟩ | ⟨price', accrued, -, hprice', -, -, haccrued, rfl⟩⟩ :=
    ReplayLedger.settle_ok h
  · exact absurd hzero hq
  · cases Option.some.inj (hprice'.symm.trans hprice)
    simp only [ReplayLedger.executionContext, hstep, haccrued, Except.ok.injEq] at hcontext
    subst hcontext
    refine ⟨rfl, rfl, rfl, ?_⟩
    simp only [ReplayLedger.afterFill, SimulatedBook.cash_addPosition, SimulatedBook.cash_addCash,
      ExecutionContext.cashAfter, if_neg hq, cost_eq _ hq, plus_eq, minus_eq, times_eq, shifted_eq,
      Decimal.shift_mul]
    ring

/-- Settling a fill that executed nothing changes nothing. -/
theorem settle_nothing (hq : fill.quantity = 0) (h : l.settle terms fill = .ok l') : l' = l := by
  obtain ⟨step, -, ⟨-, hl⟩ | ⟨_, _, hne, -⟩⟩ := ReplayLedger.settle_ok h
  · exact hl
  · exact absurd hq hne

/-- A trade in one instrument leaves the other instruments' measure as it was. -/
theorem bookMeasure_other {book book' : SimulatedBook} {traded i : VersionRef} {face : Decimal}
    (hpos : book'.positions = (book.addPosition traded face).positions) (hi : i ≠ traded) :
    bookMeasure .instrumentFace book' i = bookMeasure .instrumentFace book i := by
  have : book'.position i = (book.addPosition traded face).position i := by
    unfold SimulatedBook.position; rw [hpos]
  simp only [bookMeasure, this, SimulatedBook.position_addPosition, if_neg hi]

/-- The measure of every constraint stays under its ceiling or where it was, in the book the fill
    really leaves. -/
def WithinConstraints (constraints : List ReplayConstraint) (before after : SimulatedBook) : Prop :=
  ∀ constraint ∈ constraints, ∀ instrument,
    bookMeasure constraint.measure after instrument ≤
      max constraint.ceiling (bookMeasure constraint.measure before instrument)

/-- The cash a check predicts for the settled size is the cash that is booked. -/
def CashAsPredicted (terms : LedgerTerms) (before : ReplayLedger) (fill : SimulatedFill)
    (after : ReplayLedger) : Prop :=
  ∀ price context, fill.price = some price →
    before.executionContext terms fill.instrument price = .ok context →
    after.book.cash = context.cashAfter fill.quantity

theorem withinConstraints_refl (constraints : List ReplayConstraint) (book : SimulatedBook) :
    WithinConstraints constraints book book :=
  fun _ _ _ => le_max_right _ _

/-- **An attempt settles within the constraints.**  Whatever the state of the step, an attempt that
    passed the check leaves a book within every constraint, with the predicted cash. -/
theorem attempt_within_constraints {terms : ReplayTerms} {s : StepState} {trade : PendingTrade}
    {bar : Bar} {attempt : SimulatedFill} {ledger : ReplayLedger}
    (hattempt : checkedAttempt terms s trade bar = .ok attempt)
    (hsettle : s.ledger.settle terms.ledger attempt = .ok ledger) :
    WithinConstraints terms.constraints s.ledger.book ledger.book ∧
      CashAsPredicted terms.ledger s.ledger attempt ledger := by
  by_cases hq : attempt.quantity = 0
  · rw [settle_nothing hq hsettle]
    refine ⟨withinConstraints_refl _ _, ?_⟩
    intro price context _ hcontext
    unfold ReplayLedger.executionContext at hcontext
    split at hcontext
    · cases hcontext
    · split at hcontext
      · cases hcontext
      · cases hcontext
        simp [ExecutionContext.cashAfter, hq]
  · refine ⟨?_, fun price context hprice hcontext =>
      (settle_predicted hcontext hprice hq hsettle).2.2.2⟩
    obtain ⟨-, hinst, -, -, -, hprice⟩ := checkedAttempt_fields hattempt
    rcases checkedAttempt_cases hattempt with ⟨-, hzero⟩ |
      ⟨price, context, hraw, hcontext, hallowed, -⟩
    · exact absurd hzero hq
    · have hp : attempt.price = some price := hprice.trans hraw
      rw [← hinst] at hcontext
      obtain ⟨hbook, hci, hpos, hcash⟩ := settle_predicted hcontext hp hq hsettle
      intro constraint hconstraint instrument
      have hcheck := checkExecution_respects terms.constraints context
        (rawAttempt terms s trade bar).quantity constraint hconstraint
      rw [← hallowed, context.measure_zero, hbook,
        context.measure_eq_bookMeasure constraint.measure attempt.quantity ledger.book hpos hcash]
        at hcheck
      by_cases hi : instrument = context.instrument
      · rw [hi]; exact hcheck
      · rw [hbook] at hpos
        cases hm : constraint.measure with
        | instrumentFace =>
          rw [bookMeasure_other hpos hi]
          exact le_max_right _ _
        | portfolioFace => rw [hm] at hcheck; exact hcheck
        | borrowedCash => rw [hm] at hcheck; exact hcheck

/-! ### Every settlement of a run -/

/-- A settlement in a log is within the constraints. -/
def SettledWithin (terms : ReplayTerms) : ReplayEvent → Prop
  | .settled before fill after =>
    WithinConstraints terms.constraints before.book after.book ∧
      CashAsPredicted terms.ledger before fill after
  | _ => True

theorem executeAll_settledWithin {terms : ReplayTerms} {stepEnd : DateTime}
    {trades trades' : List PendingTrade} {s s' : StepState}
    (hs : ∀ e ∈ s.log, SettledWithin terms e)
    (h : executeAll terms stepEnd trades s = .ok (s', trades')) :
    ∀ e ∈ s'.log, SettledWithin terms e := by
  refine executeAll_rule (P := fun _ _ s => ∀ e ∈ s.log, SettledWithin terms e) ?_ hs h
  intro _ trade _ s s' trade' hlog hexec
  rcases executeDue_cases hexec with ⟨rfl, -, -⟩ |
    ⟨bar, rest, attempt, ledger, -, -, -, hattempt, hsettle, rfl, -⟩
  · exact hlog
  · intro e he
    rcases List.mem_append.mp he with he | he
    · exact hlog e he
    · rw [List.mem_singleton.mp he]
      exact attempt_within_constraints hattempt hsettle

theorem register_settledWithin {terms : ReplayTerms} {d : DateTime} {r : Replay} {i : VersionRef}
    {q : Decimal} {bars : List Bar} (hr : ∀ e ∈ r.log, SettledWithin terms e) :
    ∀ e ∈ (r.register terms d i q bars).log, SettledWithin terms e := by
  intro e he
  rw [(register_frame terms d r i q bars).2.2] at he
  rcases List.mem_append.mp he with he | he
  · exact hr e he
  · rw [List.mem_singleton.mp he]; trivial

theorem CompletedRun.settledWithin {digest : List UInt8 → ContentHash} {request : BarReplayRequest}
    {result : SimulationResult} {closed : Replay}
    (run : CompletedRun digest request result closed) :
    ∀ e ∈ closed.log, SettledWithin run.terms e := by
  refine (run.invariant (P := fun _ r => ∀ e ∈ r.log, SettledWithin run.terms e) ?_ ?_ ?_).1
  · intro e he; cases he
  · intro _ r step rest r' hr _ _ hrun
    obtain ⟨_, s, pending, _, -, hexec, -, rfl⟩ := runStep_ok hrun
    exact executeAll_settledWithin hr hexec
  · intro _ d r target hr _ _ _
    refine registerAll_induct (P := fun r => ∀ e ∈ r.log, SettledWithin run.terms e)
      (fun _ _ hr => register_settledWithin hr) ?_
    intro e he
    rcases List.mem_append.mp he with he | he
    · exact hr e he
    · rw [List.mem_singleton.mp he]; trivial

/-- **Constraints hold on the book that is really settled.**  Every attempt that passes the check
    and settles, in any state of any step (so in every run, also one that fails later), leaves a
    book within all constraints and with the predicted cash; and in a run that succeeds this is so
    for every settlement of its log and every constraint its result names. -/
theorem constraints_hold_on_settled_book (digest : List UInt8 → ContentHash)
    (request : BarReplayRequest) :
    (∀ (terms : ReplayTerms) (s : StepState) (trade : PendingTrade) (bar : Bar)
        (attempt : SimulatedFill) (ledger : ReplayLedger),
        checkedAttempt terms s trade bar = .ok attempt →
        s.ledger.settle terms.ledger attempt = .ok ledger →
        WithinConstraints terms.constraints s.ledger.book ledger.book ∧
          CashAsPredicted terms.ledger s.ledger attempt ledger) ∧
      ∀ result closed, replayRun digest request = .ok (result, closed) →
        ∃ costs, CostModel.fromDeclaration request.costModel request.costParameters = .ok costs ∧
          ∀ before fill after, ReplayEvent.settled before fill after ∈ closed.log →
            WithinConstraints result.content.identity.constraints before.book after.book ∧
              CashAsPredicted
                ⟨request.carry, request.funding, costs, request.policy.input.settlement⟩
                before fill after := by
  refine ⟨fun _ _ _ _ _ _ => attempt_within_constraints, ?_⟩
  intro result closed h
  obtain ⟨run⟩ := replayRun_completed h
  refine ⟨run.costs, run.declared, ?_⟩
  intro before fill after he
  have hwithin := run.settledWithin _ he
  rw [run.content]
  exact hwithin

theorem constraints_hold_limited : ∃ result closed,
    replayRun SmallMarket.digest (SmallMarket.limited .cancel [SmallMarket.cheap, SmallMarket.next]) =
      .ok (result, closed) ∧
    result.content.fills.map SimulatedFill.quantity = [4, 0] ∧
    ∀ before fill after, ReplayEvent.settled before fill after ∈ closed.log →
      WithinConstraints result.content.identity.constraints before.book after.book := by
  obtain ⟨⟨result, closed⟩, hrun, hfills⟩ := exists_ok_of_any
    (x := replayRun SmallMarket.digest
      (SmallMarket.limited .cancel [SmallMarket.cheap, SmallMarket.next]))
    (p := fun out => out.1.content.fills.map SimulatedFill.quantity = [4, 0]) (by decide +kernel)
  refine ⟨result, closed, hrun, by simpa using hfills, ?_⟩
  intro before fill after he
  obtain ⟨_, -, hall⟩ := (constraints_hold_on_settled_book _ _).2 result closed hrun
  exact (hall before fill after he).1

end Ficant
