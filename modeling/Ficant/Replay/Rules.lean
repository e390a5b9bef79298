import Ficant.Replay.Run

namespace Ficant

open Lib

/-!
# Rules for reasoning about the replay loop

What each operation of the loop can do (`checkedAttempt_cases`, `executeDue_cases`, `runStep_ok`,
`decideAt_ok`, `replayRun_ok`), and the invariant rule `loop_invariant`: what the start satisfies
and what closing a step and deciding preserve holds when the loop returns.
-/

/-! ### The grid -/

/-- The steps are in time order. -/
theorem stepsOf_sorted (covered : List Bar) :
    (stepsOf covered).Pairwise fun a b => a.1 < b.1 :=
  (SortedMap.groupBy Bar.barEnd covered).sorted

/-- A step holds the covered bars that end at its time. -/
theorem mem_stepsOf {covered : List Bar} {step : Step} :
    step ∈ stepsOf covered ↔
      step.2 = covered.filter (fun bar => bar.barEnd = step.1) ∧ step.2 ≠ [] :=
  SortedMap.mem_entries_groupBy

/-- Every covered bar has a step. -/
theorem exists_step {covered : List Bar} {bar : Bar} (h : bar ∈ covered) :
    ∃ step ∈ stepsOf covered, step.1 = bar.barEnd ∧ bar ∈ step.2 := by
  have hmem : bar ∈ covered.filter fun b => b.barEnd = bar.barEnd := by simp [h]
  exact ⟨(bar.barEnd, covered.filter fun b => b.barEnd = bar.barEnd),
    mem_stepsOf.mpr ⟨rfl, List.ne_nil_of_mem hmem⟩, rfl, hmem⟩

/-- The steps of a sorted grid that end after a time, cut off at the right place. -/
theorem suffix_eq_filter {all steps : List Step} (hsorted : all.Pairwise fun a b => a.1 < b.1)
    (hsuffix : steps <:+ all) {time : DateTime} (hdone : ∀ step ∈ all, step ∉ steps → step.1 ≤ time)
    (hhead : ∀ step rest, steps = step :: rest → time < step.1) :
    steps = all.filter fun step => time < step.1 := by
  obtain ⟨front, rfl⟩ := hsuffix
  have hfront : front.filter (fun step => time < step.1) = [] := by
    refine List.filter_eq_nil_iff.mpr fun step hs => ?_
    have hnot : step ∉ steps := fun hin =>
      lt_irrefl _ ((List.pairwise_append.mp hsorted).2.2 step hs step hin)
    simpa using hdone step (List.mem_append_left _ hs) hnot
  have hback : steps.filter (fun step => time < step.1) = steps := by
    refine List.filter_eq_self.mpr fun step hs => ?_
    cases steps with
    | nil => cases hs
    | cons first rest =>
      have hfirst := hhead first rest rfl
      rcases List.mem_cons.mp hs with rfl | hs
      · simpa using hfirst
      · have := (List.pairwise_cons.mp (List.pairwise_append.mp hsorted).2.1).1 step hs
        simpa using lt_trans hfirst this
  rw [List.filter_append, hfront, hback, List.nil_append]

/-! ### Registering trades -/

/-- A trade may execute in the covered bars of its instrument that start late enough. -/
theorem mem_eligibleBars {covered : List Bar} {d : DateTime} {i : VersionRef} {bar : Bar} :
    bar ∈ eligibleBars covered d i ↔ bar ∈ covered ∧ bar.instrument = i ∧ d ≤ bar.barStart := by
  rw [eligibleBars, (List.perm_insertionSort _ _).mem_iff, List.mem_filter]
  simp

/-- What registering a trade does. -/
theorem register_cases (terms : ReplayTerms) (d : DateTime) (r : Replay) (i : VersionRef)
    (q : Decimal) (bars : List Bar) :
    (bars = [] ∧ r.register terms d i q bars =
      { r with
        fills := r.fills ++ [noLaterBar d i q d terms.priceSource]
        log := r.log ++ [.registered d i q] }) ∨
    (bars ≠ [] ∧ r.register terms d i q bars =
      { r with
        pending := r.pending ++ [⟨d, i, q, q, bars⟩]
        log := r.log ++ [.registered d i q] }) := by
  unfold Replay.register
  by_cases h : bars = []
  · exact .inl ⟨h, if_pos h⟩
  · exact .inr ⟨h, if_neg h⟩

/-- Registering a trade leaves the steps and the ledger as they are. -/
theorem register_frame (terms : ReplayTerms) (d : DateTime) (r : Replay) (i : VersionRef)
    (q : Decimal) (bars : List Bar) :
    (r.register terms d i q bars).steps = r.steps ∧
      (r.register terms d i q bars).ledger = r.ledger ∧
      (r.register terms d i q bars).log = r.log ++ [.registered d i q] := by
  rcases register_cases terms d r i q bars with ⟨-, heq⟩ | ⟨-, heq⟩ <;> rw [heq] <;>
    exact ⟨rfl, rfl, rfl⟩

/-- What registering one trade preserves, registering a decision's trades preserves. -/
theorem registerAll_induct {terms : ReplayTerms} {covered : List Bar} {d : DateTime}
    {P : Replay → Prop} {deltas : List (VersionRef × Decimal)}
    (hone : ∀ (r : Replay) (delta : VersionRef × Decimal), P r →
      P (r.register terms d delta.1 delta.2 (eligibleBars covered d delta.1)))
    {r : Replay} (hr : P r) : P (r.registerAll terms covered d deltas) := by
  induction deltas generalizing r with
  | nil => exact hr
  | cons delta rest ih => exact ih (hone r delta hr)

/-- Registering trades leaves the steps as they are. -/
theorem registerAll_steps (terms : ReplayTerms) (covered : List Bar) (d : DateTime) (r : Replay)
    (deltas : List (VersionRef × Decimal)) :
    (r.registerAll terms covered d deltas).steps = r.steps :=
  registerAll_induct (P := fun r' => r'.steps = r.steps)
    (fun r' delta hr => (register_frame terms d r' delta.1 delta.2
      (eligibleBars covered d delta.1)).1.trans hr) rfl

variable [DecimalArithmetic]

/-! ### Attempts -/

/-- The attempt a trade makes in a bar before constraints. -/
def rawAttempt (terms : ReplayTerms) (s : StepState) (trade : PendingTrade) (bar : Bar) :
    SimulatedFill :=
  attemptInBar trade.decisionTime trade.instrument trade.remaining bar (s.usedIn bar) terms.rules
    terms.priceSource

/-- A check that reports nothing lets the full size through. -/
theorem checkExecution_unreported {constraints : List ReplayConstraint}
    {context : ExecutionContext} {face : Decimal}
    (h : (checkExecution constraints context face).2 = none) :
    (checkExecution constraints context face).1 = face := by
  unfold checkExecution at h ⊢
  by_cases hzero : face = 0
  · rw [if_pos hzero, hzero]
  · rw [if_neg hzero] at h ⊢
    dsimp only at h ⊢
    split
    · rfl
    · rename_i hb
      rw [if_neg hb] at h
      split at h
      · simp [rejectedOutcome] at h
      · split at h
        · simp [rejectedOutcome] at h
        · simp at h

/-- What a checked attempt is: the raw attempt when nothing is to be checked or nothing is
    reported, else the raw attempt cut to what the check allows. -/
theorem checkedAttempt_cases {terms : ReplayTerms} {s : StepState} {trade : PendingTrade} {bar : Bar}
    {attempt : SimulatedFill} (h : checkedAttempt terms s trade bar = .ok attempt) :
    (attempt = rawAttempt terms s trade bar ∧ attempt.quantity = 0) ∨
    ∃ price context, (rawAttempt terms s trade bar).price = some price ∧
      s.ledger.executionContext terms.ledger trade.instrument price = .ok context ∧
      attempt.quantity = (checkExecution terms.constraints context
        (rawAttempt terms s trade bar).quantity).1 ∧
      (attempt = rawAttempt terms s trade bar ∨
        ∃ outcome, attempt = (rawAttempt terms s trade bar).constrain attempt.quantity outcome) := by
  have hattempt : attemptInBar trade.decisionTime trade.instrument trade.remaining bar (s.usedIn bar)
      terms.rules terms.priceSource = rawAttempt terms s trade bar := rfl
  unfold checkedAttempt at h
  simp only [hattempt] at h
  cases hp : (rawAttempt terms s trade bar).price with
  | none =>
    rw [hp] at h
    cases h
    left
    refine ⟨rfl, ?_⟩
    -- Without a price the attempt executes nothing.
    have hfill : bar.fillPrice = none := by simpa [rawAttempt, attemptInBar] using hp
    exact attemptInBar_unpriced _ _ _ _ _ _ _ hfill
  | some price =>
    rw [hp] at h
    dsimp only at h
    split at h
    · rename_i hzero
      cases h
      exact .inl ⟨rfl, hzero⟩
    · obtain ⟨context, hcontext, hrest⟩ := bind_eq_ok.mp h
      right
      refine ⟨price, context, rfl, hcontext, ?_⟩
      split at hrest
      · rename_i outcome _
        cases hrest
        exact ⟨rfl, .inr ⟨outcome, rfl⟩⟩
      · rename_i hnone
        cases hrest
        exact ⟨(checkExecution_unreported hnone).symm, .inl rfl⟩

/-- A checked attempt keeps the raw attempt's trade, bar, time, price and request. -/
theorem checkedAttempt_fields {terms : ReplayTerms} {s : StepState} {trade : PendingTrade}
    {bar : Bar} {attempt : SimulatedFill} (h : checkedAttempt terms s trade bar = .ok attempt) :
    attempt.decisionTime = trade.decisionTime ∧ attempt.instrument = trade.instrument ∧
      attempt.requested = trade.remaining ∧ attempt.effectiveAt = bar.barEnd ∧
      attempt.executionBar = some bar.sourceRecordId ∧
      attempt.price = bar.fillPrice.map Prod.fst := by
  rcases checkedAttempt_cases h with ⟨rfl, -⟩ | ⟨_, _, -, -, -, rfl | ⟨outcome, hout⟩⟩
  · exact ⟨rfl, rfl, rfl, rfl, rfl, rfl⟩
  · exact ⟨rfl, rfl, rfl, rfl, rfl, rfl⟩
  · rw [hout]; exact ⟨rfl, rfl, rfl, rfl, rfl, rfl⟩

/-- A checked attempt executes part of the raw attempt. -/
theorem checkedAttempt_partOf_raw {terms : ReplayTerms} {s : StepState} {trade : PendingTrade}
    {bar : Bar} {attempt : SimulatedFill} (h : checkedAttempt terms s trade bar = .ok attempt) :
    PartOf attempt.quantity (rawAttempt terms s trade bar).quantity := by
  rcases checkedAttempt_cases h with ⟨rfl, -⟩ | ⟨_, context, -, -, hq, -⟩
  · exact .refl _
  · rw [hq]; exact checkExecution_partOf _ _ _

/-- A checked attempt executes part of the trade, and its record of the rest is right. -/
theorem checkedAttempt_balanced {terms : ReplayTerms} {s : StepState} {trade : PendingTrade}
    {bar : Bar} {attempt : SimulatedFill} (h : checkedAttempt terms s trade bar = .ok attempt) :
    attempt.Balanced := by
  have hraw : (rawAttempt terms s trade bar).Balanced := attemptInBar_balanced ..
  have hpart := (checkedAttempt_partOf_raw h).trans hraw.1
  rcases checkedAttempt_cases h with ⟨rfl, -⟩ | ⟨_, _, -, -, -, rfl | ⟨outcome, hout⟩⟩
  · exact hraw
  · exact hraw
  · rw [hout]
    exact SimulatedFill.constrain_balanced _ _ _ hpart

/-- What `execute_due` does: nothing, or one attempt in the trade's next bar. -/
theorem executeDue_cases {terms : ReplayTerms} {stepEnd : DateTime} {s s' : StepState}
    {trade trade' : PendingTrade} (h : executeDue terms stepEnd s trade = .ok (s', trade')) :
    (s' = s ∧ trade' = trade ∧
      (trade.remaining ≠ 0 → ∀ bar rest, trade.bars = bar :: rest → bar.barEnd ≠ stepEnd)) ∨
    ∃ bar rest attempt ledger, trade.bars = bar :: rest ∧ bar.barEnd = stepEnd ∧
      trade.remaining ≠ 0 ∧ checkedAttempt terms s trade bar = .ok attempt ∧
      s.ledger.settle terms.ledger attempt = .ok ledger ∧
      s' = s.afterAttempt terms trade bar rest attempt ledger ∧
      trade' = trade.afterAttempt attempt rest := by
  unfold executeDue at h
  cases hbars : trade.bars with
  | nil =>
    rw [hbars] at h
    cases h
    exact .inl ⟨rfl, rfl, fun _ bar rest hb => by cases hb⟩
  | cons bar rest =>
    rw [hbars] at h
    dsimp only at h
    split at h
    · rename_i hskip
      cases h
      left
      refine ⟨rfl, rfl, ?_⟩
      intro hne bar' rest' hb
      cases hb
      exact hskip.resolve_right hne
    -- The trade is due: it is attempted and settled.
    · rename_i hdue
      obtain ⟨attempt, hattempt, h⟩ := bind_eq_ok.mp h
      obtain ⟨ledger, hledger, h⟩ := bind_eq_ok.mp h
      cases h
      rw [not_or, not_not] at hdue
      exact .inr ⟨bar, rest, attempt, ledger, rfl, hdue.1, hdue.2, mapError_eq_ok.mp hattempt,
        mapError_eq_ok.mp hledger, rfl, rfl⟩

/-! ### Steps -/

/-- The rule for the attempts of one step: `P done todo s` holds between any two of them, with the
    trades as they came out (`done`) and those still to try (`todo`). -/
theorem executeAll_rule {terms : ReplayTerms} {stepEnd : DateTime}
    {P : List PendingTrade → List PendingTrade → StepState → Prop}
    (hexec : ∀ done trade todo s s' trade', P done (trade :: todo) s →
      executeDue terms stepEnd s trade = .ok (s', trade') → P (done ++ [trade']) todo s')
    {trades trades' : List PendingTrade} {s s' : StepState} (hP : P [] trades s)
    (h : executeAll terms stepEnd trades s = .ok (s', trades')) : P trades' [] s' := by
  have hall : ∀ (done : List PendingTrade), P done trades s → P (done ++ trades') [] s' := by
    clear hP
    induction trades generalizing s s' trades' with
    | nil => intro done hP; cases h; simpa using hP
    | cons trade rest ih =>
      intro done hP
      obtain ⟨⟨s₁, trade₁⟩, hdue, h⟩ := bind_eq_ok.mp h
      obtain ⟨⟨s₂, rest₂⟩, hrest, h⟩ := bind_eq_ok.mp h
      cases h
      have := ih hrest _ (hexec done trade rest s s₁ trade₁ hP hdue)
      simpa using this
  exact hall [] hP

/-- What closing a step does. -/
theorem runStep_ok {terms : ReplayTerms} {r r' : Replay} {step : Step}
    (h : runStep terms r step = .ok r') :
    ∃ opened s pending finished, r.ledger.openStep terms.ledger step.2 = .ok opened ∧
      executeAll terms step.1 r.pending ⟨opened, ∅, r.fills, r.log⟩ = .ok (s, pending) ∧
      s.ledger.finishStep = .ok finished ∧
      r' = ⟨finished, r.steps, pending.filter fun trade => trade.remaining ≠ 0, s.fills, s.log⟩ := by
  obtain ⟨opened, hopen, h⟩ := bind_eq_ok.mp h
  obtain ⟨⟨s, pending⟩, hexec, h⟩ := bind_eq_ok.mp h
  obtain ⟨finished, hfinish, h⟩ := bind_eq_ok.mp h
  cases h
  exact ⟨opened, s, pending, finished, mapError_eq_ok.mp hopen, hexec, mapError_eq_ok.mp hfinish, rfl⟩

theorem runStep_steps {terms : ReplayTerms} {r r' : Replay} {step : Step}
    (h : runStep terms r step = .ok r') : r'.steps = r.steps := by
  obtain ⟨_, _, _, _, _, _, _, rfl⟩ := runStep_ok h
  rfl

/-- The rule for advancing: what closing the next step preserves holds afterwards, and the steps
    left are those that end after the limit. -/
theorem advanceSteps_rule {terms : ReplayTerms} {limit : Option DateTime} {P : Replay → Prop}
    {all : List Step}
    (hstep : ∀ r step rest r', P r → r.steps = step :: rest → step :: rest <:+ all →
      (∀ time ∈ limit, step.1 ≤ time) →
      runStep terms { r with steps := rest } step = .ok r' → P r')
    {steps : List Step} {r r' : Replay} (hP : P r) (hsteps : r.steps = steps) (hall : steps <:+ all)
    (h : advanceSteps terms limit steps r = .ok r') :
    P r' ∧ r'.steps <:+ steps ∧
      (∀ step rest, r'.steps = step :: rest → ∃ time ∈ limit, time < step.1) := by
  induction steps generalizing r with
  | nil =>
    cases h
    exact ⟨hP, by rw [hsteps], fun step rest hr => by rw [hsteps] at hr; cases hr⟩
  | cons step rest ih =>
    unfold advanceSteps at h
    split at h
    -- The first step beyond the limit is the next one of the queue.
    · rename_i hbeyond
      cases h
      refine ⟨hP, by rw [hsteps], ?_⟩
      intro step' rest' hr
      rw [hsteps] at hr
      cases hr
      cases limit with
      | none => cases hbeyond
      | some time => exact ⟨time, rfl, by simpa using hbeyond⟩
    · rename_i hwithin
      obtain ⟨r₁, hrun, h⟩ := bind_eq_ok.mp h
      have htime : ∀ time ∈ limit, step.1 ≤ time := by
        intro time ht
        simp only [Option.any_eq_true, decide_eq_true_eq, not_exists, not_and, gt_iff_lt,
          not_lt] at hwithin
        exact hwithin time ht
      have h₁ := ih (hstep r step rest r₁ hP hsteps hall htime hrun)
        (runStep_steps hrun) ((List.suffix_cons step rest).trans hall) h
      exact ⟨h₁.1, h₁.2.1.trans (List.suffix_cons step rest), h₁.2.2⟩

/-! ### Decisions -/

/-- The view a data port and a policy give at a decision time. -/
def inputsAt (request : BarReplayRequest) (visible : List Bar) : List Bar :=
  visible.filter request.policy.covers

/-- What one decision does. -/
theorem decideAt_ok {request : BarReplayRequest} {terms : ReplayTerms} {covered : List Bar}
    {r r' : Replay} {d : DateTime} {decision : ReplayDecision}
    (h : decideAt request terms covered r d = .ok (r', decision)) :
    ∃ advanced visible view target, r.advance terms (some d) = .ok advanced ∧
      request.data.visibleAt d = .ok visible ∧
      PointInTimeView.new d (inputsAt request visible) = .ok view ∧
      request.evaluator.decide request.policy view advanced.projected = .ok target ∧
      r' = ({ advanced with
          log := advanced.log ++ [ReplayEvent.decided d advanced.projected] }).registerAll terms
        covered d (advanced.projected.deltasToward target) ∧
      decision = ⟨d, ((inputsAt request visible).map Bar.visibleAt).max?,
        (inputsAt request visible).length, target⟩ := by
  obtain ⟨advanced, hadv, h⟩ := bind_eq_ok.mp h
  obtain ⟨visible, hvis, h⟩ := bind_eq_ok.mp h
  obtain ⟨view, hview, h⟩ := bind_eq_ok.mp h
  obtain ⟨target, htarget, h⟩ := bind_eq_ok.mp h
  cases h
  exact ⟨advanced, visible, view, target, hadv, hvis, mapError_eq_ok.mp hview,
    mapError_eq_ok.mp htarget, rfl, rfl⟩

theorem decideAll_cons_ok {request : BarReplayRequest} {terms : ReplayTerms} {covered : List Bar}
    {d : DateTime} {ds : List DateTime} {r r' : Replay} {decisions : List ReplayDecision}
    (h : decideAll request terms covered (d :: ds) r = .ok (r', decisions)) :
    ∃ r₁ decision rest, decideAt request terms covered r d = .ok (r₁, decision) ∧
      decideAll request terms covered ds r₁ = .ok (r', rest) ∧ decisions = decision :: rest := by
  obtain ⟨⟨r₁, decision⟩, hat, h⟩ := bind_eq_ok.mp h
  obtain ⟨⟨r₂, rest⟩, hrest, h⟩ := bind_eq_ok.mp h
  cases h
  exact ⟨r₁, decision, rest, hat, hrest, rfl⟩

section Loop

variable {request : BarReplayRequest} {terms : ReplayTerms} {covered : List Bar}
  {P : List DateTime → Replay → Prop}

/-- Between two decisions, the closed steps are those that ended by some decision made so far. -/
def GridAt (covered : List Bar) (done : List DateTime) (r : Replay) : Prop :=
  r.steps <:+ stepsOf covered ∧
    ∀ step ∈ stepsOf covered, step ∉ r.steps → ∃ e ∈ done, step.1 ≤ e

/-- Advancing closes steps that end at or before the limit. -/
theorem advance_grid {done : List DateTime} {d : DateTime}
    (hstep : ∀ r step rest r', P done r → r.steps = step :: rest →
      step :: rest <:+ stepsOf covered →
      runStep terms { r with steps := rest } step = .ok r' → P done r')
    {r r' : Replay} (hP : P done r) (hgrid : GridAt covered done r)
    (h : r.advance terms (some d) = .ok r') :
    P done r' ∧ GridAt covered (done ++ [d]) r' ∧
      ∀ step rest, r'.steps = step :: rest → d < step.1 := by
  have hrule := advanceSteps_rule (P := fun r => P done r ∧ GridAt covered (done ++ [d]) r)
    (fun r step rest r' hr hsteps hall htime hrun => by
      refine ⟨hstep r step rest r' hr.1 hsteps hall hrun, ?_⟩
      have hsteps' := runStep_steps hrun
      refine ⟨hsteps' ▸ (List.suffix_cons step rest).trans hall, ?_⟩
      intro other hother hnot
      -- A step that left the queue was run now or was run before.
      by_cases hin : other ∈ r.steps
      · rw [hsteps] at hin
        rcases List.mem_cons.mp hin with rfl | hin
        · exact ⟨d, by simp, htime d rfl⟩
        · exact absurd (hsteps' ▸ hin) hnot
      · exact hr.2.2 other hother hin)
    ⟨hP, hgrid.1, fun step hs hnot => by
      obtain ⟨e, he, hle⟩ := hgrid.2 step hs hnot
      exact ⟨e, List.mem_append_left _ he, hle⟩⟩ rfl hgrid.1 h
  obtain ⟨⟨hP', hgrid'⟩, -, hhead⟩ := hrule
  refine ⟨hP', hgrid', ?_⟩
  intro step rest hr
  obtain ⟨time, ht, hlt⟩ := hhead step rest hr
  cases ht
  exact hlt

/-- **The invariant rule of the replay loop.**  `P done r` speaks of the decisions made so far and
    the state of the loop.  It is enough that the start satisfies it, that closing the next step
    of the grid preserves it, and that a decision preserves it, where a decision at `d` comes after
    all earlier ones and leaves open exactly the steps that end after `d`. -/
theorem loop_invariant (hstart : P [] (Replay.start covered))
    (hstep : ∀ done r step rest r', P done r → r.steps = step :: rest →
      step :: rest <:+ stepsOf covered →
      runStep terms { r with steps := rest } step = .ok r' → P done r')
    (hdecide : ∀ done d r target, P done r → (∀ e ∈ done, e < d) → d ∈ decisionTimes covered →
      r.steps = (stepsOf covered).filter (fun step => d < step.1) →
      P (done ++ [d]) (({ r with log := r.log ++ [ReplayEvent.decided d r.projected] }).registerAll
        terms covered d (r.projected.deltasToward target)))
    {decided closed : Replay} {decisions : List ReplayDecision}
    (hdecided : decideAll request terms covered (decisionTimes covered) (Replay.start covered) =
      .ok (decided, decisions))
    (hclosed : decided.advance terms none = .ok closed) :
    P (decisionTimes covered) closed ∧ closed.steps = [] := by
  have hsorted := SortedMap.sortedSet_sorted (covered.map Bar.visibleAt)
  -- The decision loop, by induction on the decisions still to make.
  have hloop : ∀ (todo done : List DateTime) (r r' : Replay) (ds : List ReplayDecision),
      decisionTimes covered = done ++ todo → P done r → GridAt covered done r →
      decideAll request terms covered todo r = .ok (r', ds) →
      P (decisionTimes covered) r' ∧ GridAt covered (decisionTimes covered) r' := by
    intro todo
    induction todo with
    | nil =>
      intro done r r' ds hsplit hP hgrid h
      cases h
      rw [List.append_nil] at hsplit
      exact hsplit ▸ ⟨hP, hgrid⟩
    | cons d todo ih =>
      intro done r r' ds hsplit hP hgrid h
      obtain ⟨r₁, decision, rest, hat, hrest, -⟩ := decideAll_cons_ok h
      obtain ⟨advanced, _, _, target, hadv, -, -, -, rfl, -⟩ := decideAt_ok hat
      obtain ⟨hP', hgrid', hhead⟩ := advance_grid (hstep done) hP hgrid hadv
      have hbefore : ∀ e ∈ done, e < d := by
        intro e he
        have hs : (done ++ d :: todo).Pairwise (· < ·) := hsplit ▸ hsorted
        exact (List.pairwise_append.mp hs).2.2 e he d List.mem_cons_self
      have hopen : advanced.steps = (stepsOf covered).filter fun step => d < step.1 := by
        refine suffix_eq_filter (stepsOf_sorted covered) hgrid'.1 ?_ hhead
        intro step hs hnot
        obtain ⟨e, he, hle⟩ := hgrid'.2 step hs hnot
        rcases List.mem_append.mp he with he | he
        · exact le_trans hle (le_of_lt (hbefore e he))
        · exact List.mem_singleton.mp he ▸ hle
      have hnext := hdecide done d advanced target hP' hbefore (hsplit ▸ by simp) hopen
      refine ih (done ++ [d]) _ r' rest (by simpa using hsplit) hnext ?_ hrest
      unfold GridAt
      rw [registerAll_steps]
      exact hgrid'
  obtain ⟨hP, hgrid⟩ := hloop (decisionTimes covered) [] _ _ _ rfl hstart
    ⟨List.suffix_refl _, fun step hs hnot => absurd hs hnot⟩ hdecided
  obtain ⟨hfinal, -, hrest⟩ := advanceSteps_rule (P := P (decisionTimes covered))
    (fun r step rest r' hr hsteps hall _ hrun => hstep _ r step rest r' hr hsteps hall hrun)
    hP rfl hgrid.1 hclosed
  refine ⟨hfinal, ?_⟩
  cases hs : closed.steps with
  | nil => rfl
  | cons step rest =>
    obtain ⟨time, ht, -⟩ := hrest step rest hs
    cases ht

end Loop

/-! ### Whole runs -/

/-- The parts of a successful replay. -/
structure CompletedRun (digest : List UInt8 → ContentHash) (request : BarReplayRequest)
    (result : SimulationResult) (closed : Replay) where
  costs : CostModel
  constraints : List ReplayConstraint
  decided : Replay
  decisions : List ReplayDecision
  declared : CostModel.fromDeclaration request.costModel request.costParameters = .ok costs
  enforced : ∃ firstDecision ∈ decisionTimes (coveredBars request.policy request.data.allBars),
    enforcedConstraints request firstDecision = .ok constraints
  decides : decideAll request (replayTerms request costs constraints)
    (coveredBars request.policy request.data.allBars)
    (decisionTimes (coveredBars request.policy request.data.allBars))
    (Replay.start (coveredBars request.policy request.data.allBars)) = .ok (decided, decisions)
  closes : decided.advance (replayTerms request costs constraints) none = .ok closed
  content : result.content = ⟨replayIdentity digest request constraints, decisions,
    closed.sortedFills, closed.ledger.rows, closed.ledger.book⟩

/-- The bars a run covers. -/
def BarReplayRequest.covered (request : BarReplayRequest) : List Bar :=
  coveredBars request.policy request.data.allBars

/-- The terms of a run. -/
def CompletedRun.terms {digest : List UInt8 → ContentHash} {request : BarReplayRequest}
    {result : SimulationResult} {closed : Replay}
    (run : CompletedRun digest request result closed) : ReplayTerms :=
  replayTerms request run.costs run.constraints

theorem replayRun_completed {digest : List UInt8 → ContentHash} {request : BarReplayRequest}
    {result : SimulationResult} {closed : Replay}
    (h : replayRun digest request = .ok (result, closed)) :
    Nonempty (CompletedRun digest request result closed) := by
  unfold replayRun at h
  dsimp only at h
  split at h
  · cases h
  · obtain ⟨costs, hcosts, h⟩ := bind_eq_ok.mp h
    split at h
    · cases h
    · rename_i firstDecision rest hfirst
      obtain ⟨constraints, hconstraints, h⟩ := bind_eq_ok.mp h
      obtain ⟨⟨decided, decisions⟩, hdecides, h⟩ := bind_eq_ok.mp h
      obtain ⟨closed', hcloses, h⟩ := bind_eq_ok.mp h
      obtain ⟨result', hresult, h⟩ := bind_eq_ok.mp h
      cases h
      exact ⟨
        { costs, constraints, decided, decisions
          declared := mapError_eq_ok.mp hcosts
          enforced := ⟨firstDecision, by rw [hfirst]; exact List.mem_cons_self, hconstraints⟩
          decides := hdecides
          closes := hcloses
          content := (SimulationResult.new_ok (mapError_eq_ok.mp hresult)).1 }⟩

/-- A successful `replay_bars` is a completed run. -/
theorem replayBars_completed {digest : List UInt8 → ContentHash} {request : BarReplayRequest}
    {result : SimulationResult} (h : replayBars digest request = .ok result) :
    ∃ closed, replayRun digest request = .ok (result, closed) := by
  obtain ⟨⟨result', closed⟩, hrun, rfl⟩ := map_eq_ok.mp h
  exact ⟨closed, hrun⟩

section Completed

variable {digest : List UInt8 → ContentHash} {request : BarReplayRequest}
  {result : SimulationResult} {closed : Replay}

/-- The invariant rule for completed runs. -/
theorem CompletedRun.invariant (run : CompletedRun digest request result closed)
    {P : List DateTime → Replay → Prop} (hstart : P [] (Replay.start request.covered))
    (hstep : ∀ done r step rest r', P done r → r.steps = step :: rest →
      step :: rest <:+ stepsOf request.covered →
      runStep run.terms { r with steps := rest } step = .ok r' → P done r')
    (hdecide : ∀ done d r target, P done r → (∀ e ∈ done, e < d) →
      d ∈ decisionTimes request.covered →
      r.steps = (stepsOf request.covered).filter (fun step => d < step.1) →
      P (done ++ [d]) (({ r with log := r.log ++ [ReplayEvent.decided d r.projected] }).registerAll
        run.terms request.covered d (r.projected.deltasToward target))) :
    P (decisionTimes request.covered) closed ∧ closed.steps = [] :=
  loop_invariant hstart hstep hdecide run.decides run.closes

end Completed

end Ficant
