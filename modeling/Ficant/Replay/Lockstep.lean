import Ficant.Lib.StableSort
import Ficant.Replay.Rules

namespace Ficant

open Lib

/-!
# Two replays side by side

Rules for comparing two runs of the loop that go through the same steps and decisions: what one
attempt preserves a step preserves (`executeAll_lockstep`), and so do the steps up to a time
(`runAll_lockstep`) and the decisions up to a time (`decideAll_lockstep`).

`advance_ok` brings an advance into the form these rules work on: it closes the steps that are due,
one after the other.
-/

variable [DecimalArithmetic]

/-! ### Advancing is closing the steps that are due -/

/-- Whether a step ends by the limit; without a limit every step does. -/
def due (limit : Option DateTime) (step : Step) : Bool := ¬ limit.any fun time => step.1 > time

/-- Closes steps one after the other. -/
def runAll (terms : ReplayTerms) (steps : List Step) (r : Replay) : Except ApplicationError Replay :=
  steps.foldlM (runStep terms) r

/-- Running the steps runs the first one and then the others. -/
theorem runAll_cons_ok {terms : ReplayTerms} {step : Step} {rest : List Step} {r r' : Replay}
    (h : runAll terms (step :: rest) r = .ok r') :
    ∃ r₁, runStep terms r step = .ok r₁ ∧ runAll terms rest r₁ = .ok r' :=
  bind_eq_ok.mp h

/-- The list of open steps only rides along while a step is closed. -/
theorem runStep_setSteps {terms : ReplayTerms} {r r' : Replay} {step : Step} {steps : List Step}
    (h : runStep terms { r with steps := steps } step = .ok r') :
    ∃ c, runStep terms r step = .ok c ∧ r' = { c with steps := steps } := by
  obtain ⟨opened, s, pending, finished, hopen, hexec, hfinish, rfl⟩ := runStep_ok h
  refine ⟨⟨finished, r.steps, pending.filter fun trade => trade.remaining ≠ 0, s.fills, s.log⟩, ?_,
    rfl⟩
  refine bind_eq_ok.mpr ⟨opened, mapError_eq_ok.mpr hopen, ?_⟩
  refine bind_eq_ok.mpr ⟨(s, pending), hexec, ?_⟩
  exact bind_eq_ok.mpr ⟨finished, mapError_eq_ok.mpr hfinish, rfl⟩

/-- Running the steps does not look at the queue that is left. -/
theorem runAll_setSteps {terms : ReplayTerms} {due : List Step} {r r' : Replay} {steps : List Step}
    (h : runAll terms due { r with steps := steps } = .ok r') :
    ∃ c, runAll terms due r = .ok c ∧ r' = { c with steps := steps } := by
  induction due generalizing r with
  | nil => cases h; exact ⟨r, rfl, rfl⟩
  | cons step rest ih =>
    obtain ⟨r₁, hrun, h⟩ := runAll_cons_ok h
    obtain ⟨c₁, hc₁, rfl⟩ := runStep_setSteps hrun
    obtain ⟨c, hc, rfl⟩ := ih h
    exact ⟨c, bind_eq_ok.mpr ⟨c₁, hc₁, hc⟩, rfl⟩

omit [DecimalArithmetic] in
/-- In sorted steps nothing is due when the first one is not. -/
theorem filter_due_cons_of_not_due {limit : Option DateTime} {step : Step} {rest : List Step}
    (hsorted : (step :: rest).Pairwise fun a b => a.1 < b.1) (h : due limit step = false) :
    (step :: rest).filter (due limit) = [] := by
  refine List.filter_eq_nil_iff.mpr fun other hother => ?_
  have hbeyond : limit.any (fun time => step.1 > time) = true := by simpa [due] using h
  rcases List.mem_cons.mp hother with rfl | hother
  · simp [h]
  · have hlt := (List.pairwise_cons.mp hsorted).1 other hother
    cases limit with
    | none => cases hbeyond
    | some time =>
      have : time < step.1 := by simpa using hbeyond
      simp [due, lt_trans this hlt]

/-- **An advance closes the steps that are due, in order, and leaves the others.** -/
theorem advanceSteps_ok {terms : ReplayTerms} {limit : Option DateTime} {steps : List Step}
    {r r' : Replay} (hsorted : steps.Pairwise fun a b => a.1 < b.1) (hsteps : r.steps = steps)
    (h : advanceSteps terms limit steps r = .ok r') :
    ∃ c, runAll terms (steps.filter (due limit)) r = .ok c ∧
      r' = { c with steps := steps.filter fun step => ¬ due limit step } := by
  induction steps generalizing r with
  | nil =>
    cases h
    exact ⟨r', rfl, by rw [List.filter_nil, ← hsteps]⟩
  | cons step rest ih =>
    unfold advanceSteps at h
    split at h
    -- The first step that is not due ends the advance, and no later one is due.
    · rename_i hbeyond
      cases h
      have hdue : due limit step = false := by simp [due, hbeyond]
      have hnone := filter_due_cons_of_not_due hsorted hdue
      refine ⟨r', by rw [hnone]; rfl, ?_⟩
      have hall : (step :: rest).filter (fun step => ¬ due limit step) = step :: rest := by
        refine List.filter_eq_self.mpr fun other hother => ?_
        have := List.filter_eq_nil_iff.mp hnone other hother
        simpa using this
      rw [hall, ← hsteps]
    · rename_i hwithin
      obtain ⟨r₁, hrun, h⟩ := bind_eq_ok.mp h
      have hdue : due limit step = true := by simpa [due] using hwithin
      obtain ⟨c₁, hc₁, rfl⟩ := runStep_setSteps hrun
      obtain ⟨c, hc, rfl⟩ := ih (List.pairwise_cons.mp hsorted).2 rfl h
      rw [List.filter_cons_of_pos hdue, List.filter_cons_of_neg (by simp [hdue])]
      obtain ⟨c₂, hc₂, hc⟩ := runAll_setSteps hc
      subst hc
      exact ⟨c₂, bind_eq_ok.mpr ⟨c₁, hc₁, hc₂⟩, rfl⟩

/-- An advance, in the form the lockstep rules work on. -/
theorem advance_ok {terms : ReplayTerms} {limit : Option DateTime} {r r' : Replay}
    (hsorted : r.steps.Pairwise fun a b => a.1 < b.1) (h : r.advance terms limit = .ok r') :
    ∃ c, runAll terms (r.steps.filter (due limit)) r = .ok c ∧
      r' = { c with steps := r.steps.filter fun step => ¬ due limit step } :=
  advanceSteps_ok hsorted rfl h

/-- Stopping at an earlier time on the way changes nothing. -/
theorem advanceSteps_through {terms : ReplayTerms} {limit : Option DateTime} {t : DateTime}
    (ht : ∀ time ∈ limit, t ≤ time) {steps : List Step} {r r' : Replay} (hsteps : r.steps = steps)
    (h : advanceSteps terms limit steps r = .ok r') :
    ∃ c, advanceSteps terms (some t) steps r = .ok c ∧ c.advance terms limit = .ok r' := by
  induction steps generalizing r with
  | nil => exact ⟨r, rfl, by rw [Replay.advance, hsteps]; exact h⟩
  | cons step rest ih =>
    by_cases hlate : t < step.1
    · refine ⟨r, ?_, by rw [Replay.advance, hsteps]; exact h⟩
      rw [advanceSteps, if_pos (by simpa using hlate)]
    · have hwithin : ¬ (limit.any fun time => step.1 > time) = true := by
        intro hany
        obtain ⟨time, htime, hgt⟩ := Option.any_eq_true _ _ |>.mp hany
        exact hlate (lt_of_le_of_lt (ht time htime) (by simpa using hgt))
      rw [advanceSteps, if_neg hwithin] at h
      obtain ⟨r₁, hrun, h⟩ := bind_eq_ok.mp h
      obtain ⟨c, hc, hrest⟩ := ih (runStep_steps hrun) h
      refine ⟨c, ?_, hrest⟩
      rw [advanceSteps, if_neg (by simpa using hlate)]
      exact bind_eq_ok.mpr ⟨r₁, hrun, hc⟩

/-- **Advancing to a limit passes through every earlier time.** -/
theorem advance_through {terms : ReplayTerms} {limit : Option DateTime} {t : DateTime}
    (ht : ∀ time ∈ limit, t ≤ time) {r r' : Replay} (h : r.advance terms limit = .ok r') :
    ∃ c, r.advance terms (some t) = .ok c ∧ c.advance terms limit = .ok r' :=
  advanceSteps_through ht rfl h

/-! ### Runs that differ in their price source -/

/-- The same attempt, recorded under another price source. -/
def SimulatedFill.sourcedFrom (fill : SimulatedFill) (source : PriceSourceType) : SimulatedFill :=
  { fill with priceSource := source }

/-- Terms that differ at most in the price source. -/
structure SameRules (terms terms' : ReplayTerms) : Prop where
  ledger : terms'.ledger = terms.ledger
  constraints : terms'.constraints = terms.constraints
  rules : terms'.rules = terms.rules

/-- The part of a trade that decides its next attempt, apart from the bar. -/
structure SameOrder (trade trade' : PendingTrade) : Prop where
  decisionTime : trade'.decisionTime = trade.decisionTime
  instrument : trade'.instrument = trade.instrument
  remaining : trade'.remaining = trade.remaining

/-- An execution context depends on the book and the date of the open step only. -/
theorem executionContext_congr {terms : LedgerTerms} {l l' : ReplayLedger}
    (hbook : l'.book = l.book) (hdate : l'.step.map OpenStep.date = l.step.map OpenStep.date)
    (instrument : VersionRef) (price : Decimal) :
    l'.executionContext terms instrument price = l.executionContext terms instrument price := by
  unfold ReplayLedger.executionContext
  cases hs : l.step with
  | none =>
    rw [hs] at hdate
    cases hs' : l'.step with
    | none => rfl
    | some step' => rw [hs'] at hdate; cases hdate
  | some step =>
    rw [hs] at hdate
    cases hs' : l'.step with
    | none => rw [hs'] at hdate; cases hdate
    | some step' =>
      rw [hs'] at hdate
      have hd : step'.date = step.date := Option.some.inj hdate
      simp only [hd, hbook]

/-- The second half of an attempt: what the constraints leave of the raw attempt. -/
def constrainedAttempt (terms : ReplayTerms) (ledger : ReplayLedger) (instrument : VersionRef)
    (raw : SimulatedFill) : Except DomainErrorCode SimulatedFill :=
  match raw.price with
  | none => .ok raw
  | some price =>
    if raw.quantity = 0 then .ok raw
    else do
      let context ← ledger.executionContext terms.ledger instrument price
      let checked := checkExecution terms.constraints context raw.quantity
      match checked.2 with
      | some outcome => .ok (raw.constrain checked.1 outcome)
      | none => .ok raw

/-- A checked attempt is the raw attempt under the constraints of the ledger. -/
theorem checkedAttempt_eq (terms : ReplayTerms) (s : StepState) (trade : PendingTrade) (bar : Bar) :
    checkedAttempt terms s trade bar =
      constrainedAttempt terms s.ledger trade.instrument (rawAttempt terms s trade bar) := rfl

/-- The constraints do not look at where the price of an attempt comes from. -/
theorem constrainedAttempt_sourcedFrom {terms terms' : ReplayTerms} (hterms : SameRules terms terms')
    {l l' : ReplayLedger} (hbook : l'.book = l.book)
    (hdate : l'.step.map OpenStep.date = l.step.map OpenStep.date) {instrument : VersionRef}
    {raw attempt : SimulatedFill} (source : PriceSourceType)
    (h : constrainedAttempt terms l instrument raw = .ok attempt) :
    constrainedAttempt terms' l' instrument (raw.sourcedFrom source) =
      .ok (attempt.sourcedFrom source) := by
  unfold constrainedAttempt at h ⊢
  change (match raw.price with | none => _ | some price => _) = _
  cases hp : raw.price with
  | none => rw [hp] at h; cases h; rfl
  | some price =>
    rw [hp] at h
    dsimp only at h ⊢
    change (if raw.quantity = 0 then _ else _) = _
    -- Only a fill of something is put before the constraints.
    by_cases hzero : raw.quantity = 0
    · rw [if_pos hzero] at h ⊢; cases h; rfl
    · rw [if_neg hzero] at h ⊢
      obtain ⟨context, hcontext, h⟩ := bind_eq_ok.mp h
      refine bind_eq_ok.mpr ⟨context, ?_, ?_⟩
      · rw [hterms.ledger, executionContext_congr hbook hdate, hcontext]
      · rw [hterms.constraints]
        change (match (checkExecution terms.constraints context raw.quantity).2 with
          | some outcome => _ | none => _) = _
        split at h
        · cases h; rfl
        · cases h; rfl

/-- Two attempts of one trade in one bar agree up to the price source when the bar has the same face
    left and the ledgers give the same context. -/
theorem checkedAttempt_sourcedFrom {terms terms' : ReplayTerms} (hterms : SameRules terms terms')
    {s s' : StepState} {trade trade' : PendingTrade} {bar : Bar} (horder : SameOrder trade trade')
    (hused : s'.usedIn bar = s.usedIn bar) (hbook : s'.ledger.book = s.ledger.book)
    (hdate : s'.ledger.step.map OpenStep.date = s.ledger.step.map OpenStep.date)
    {attempt : SimulatedFill} (h : checkedAttempt terms s trade bar = .ok attempt) :
    checkedAttempt terms' s' trade' bar = .ok (attempt.sourcedFrom terms'.priceSource) := by
  have hraw : rawAttempt terms' s' trade' bar =
      (rawAttempt terms s trade bar).sourcedFrom terms'.priceSource := by
    simp only [rawAttempt, horder.decisionTime, horder.instrument, horder.remaining, hused,
      hterms.rules]
    rfl
  rw [checkedAttempt_eq] at h ⊢
  rw [hraw, horder.instrument]
  exact constrainedAttempt_sourcedFrom hterms hbook hdate _ h

/-! ### Lockstep rules -/

section Lockstep

variable {terms terms' : ReplayTerms} {S : StepState → StepState → Prop}
  {T : PendingTrade → PendingTrade → Prop}

/-- What one pair of attempts preserves, the attempts of a step preserve. -/
theorem executeAll_lockstep {stepEnd : DateTime}
    (hdue : ∀ s s' a a' s₁ s₁' a₁ a₁', S s s' → T a a' →
      executeDue terms stepEnd s a = .ok (s₁, a₁) →
      executeDue terms' stepEnd s' a' = .ok (s₁', a₁') → S s₁ s₁' ∧ T a₁ a₁')
    {trades trades' out out' : List PendingTrade} {s s' s₁ s₁' : StepState}
    (htrades : List.Forall₂ T trades trades') (hs : S s s')
    (h : executeAll terms stepEnd trades s = .ok (s₁, out))
    (h' : executeAll terms' stepEnd trades' s' = .ok (s₁', out')) :
    S s₁ s₁' ∧ List.Forall₂ T out out' := by
  induction htrades generalizing s s' s₁ s₁' out out' with
  | nil => cases h; cases h'; exact ⟨hs, .nil⟩
  | cons hT _ ih =>
    obtain ⟨⟨m, a⟩, ha, h⟩ := bind_eq_ok.mp h
    obtain ⟨⟨n, rest⟩, hrest, h⟩ := bind_eq_ok.mp h
    obtain ⟨⟨m', a'⟩, ha', h'⟩ := bind_eq_ok.mp h'
    obtain ⟨⟨n', rest'⟩, hrest', h'⟩ := bind_eq_ok.mp h'
    cases h; cases h'
    obtain ⟨hm, hta⟩ := hdue _ _ _ _ _ _ _ _ hs hT ha ha'
    obtain ⟨hn, hout⟩ := ih hm hrest hrest'
    exact ⟨hn, .cons hta hout⟩

omit [DecimalArithmetic] in
/-- Trades whose remaining face agrees are retained together. -/
theorem forall₂_retain {trades trades' : List PendingTrade} (h : List.Forall₂ T trades trades')
    (hremaining : ∀ a a', T a a' → a.remaining = a'.remaining) :
    List.Forall₂ T (trades.filter fun t => t.remaining ≠ 0)
      (trades'.filter fun t => t.remaining ≠ 0) := by
  induction h with
  | nil => exact .nil
  | @cons a a' _ _ hT _ ih =>
    have heq := hremaining a a' hT
    by_cases hzero : a.remaining = 0
    · rw [List.filter_cons_of_neg (by simpa using hzero),
        List.filter_cons_of_neg (by simpa using heq ▸ hzero)]
      exact ih
    · rw [List.filter_cons_of_pos (by simpa using hzero),
        List.filter_cons_of_pos (by simpa using heq ▸ hzero)]
      exact .cons hT ih

omit [DecimalArithmetic] in
/-- Trades that agree in what they intend project onto a book alike. -/
theorem intents_eq {trades trades' : List PendingTrade} (h : List.Forall₂ T trades trades')
    (hintent : ∀ a a', T a a' → a'.instrument = a.instrument ∧ a'.intent = a.intent) :
    trades'.map (fun trade => (trade.instrument, trade.intent)) =
      trades.map fun trade => (trade.instrument, trade.intent) := by
  induction h with
  | nil => rfl
  | @cons a a' _ _ hT _ ih =>
    obtain ⟨hi, hq⟩ := hintent a a' hT
    rw [List.map_cons, List.map_cons, ih, hi, hq]

variable {R : Replay → Replay → Prop} {Q : Step → Step → Prop}

/-- What one pair of steps preserves, a sequence of them preserves. -/
theorem runAll_lockstep
    (hstep : ∀ r r' a a' r₁ r₁', R r r' → Q a a' → runStep terms r a = .ok r₁ →
      runStep terms' r' a' = .ok r₁' → R r₁ r₁')
    {steps steps' : List Step} {r r' r₁ r₁' : Replay} (hsteps : List.Forall₂ Q steps steps')
    (hr : R r r') (h : runAll terms steps r = .ok r₁) (h' : runAll terms' steps' r' = .ok r₁') :
    R r₁ r₁' := by
  induction hsteps generalizing r r' with
  | nil => cases h; cases h'; exact hr
  | cons hQ _ ih =>
    obtain ⟨m, hm, h⟩ := runAll_cons_ok h
    obtain ⟨m', hm', h'⟩ := runAll_cons_ok h'
    exact ih (hstep _ _ _ _ _ _ hr hQ hm hm') h h'

variable {request request' : BarReplayRequest} {covered covered' : List Bar}
  {D : ReplayDecision → ReplayDecision → Prop}

/-- What one pair of decisions preserves, a sequence of them preserves. -/
theorem decideAll_lockstep {times : List DateTime}
    (hdecide : ∀ d ∈ times, ∀ r r' r₁ r₁' x x', R r r' →
      decideAt request terms covered r d = .ok (r₁, x) →
      decideAt request' terms' covered' r' d = .ok (r₁', x') → R r₁ r₁' ∧ D x x')
    {r r' r₁ r₁' : Replay} {xs xs' : List ReplayDecision} (hr : R r r')
    (h : decideAll request terms covered times r = .ok (r₁, xs))
    (h' : decideAll request' terms' covered' times r' = .ok (r₁', xs')) :
    R r₁ r₁' ∧ List.Forall₂ D xs xs' := by
  induction times generalizing r r' r₁ r₁' xs xs' with
  | nil => cases h; cases h'; exact ⟨hr, .nil⟩
  | cons d times ih =>
    obtain ⟨m, x, rest, hm, hrest, rfl⟩ := decideAll_cons_ok h
    obtain ⟨m', x', rest', hm', hrest', rfl⟩ := decideAll_cons_ok h'
    obtain ⟨hR, hD⟩ := hdecide d List.mem_cons_self _ _ _ _ _ _ hr hm hm'
    obtain ⟨hR', hD'⟩ := ih (fun e he => hdecide e (List.mem_cons_of_mem _ he)) hR hrest hrest'
    exact ⟨hR', .cons hD hD'⟩

/-- Deciding over two stretches of times decides over one and then over the other. -/
theorem decideAll_append_ok {a b : List DateTime} {r r' : Replay} {xs : List ReplayDecision}
    (h : decideAll request terms covered (a ++ b) r = .ok (r', xs)) :
    ∃ m ys zs, decideAll request terms covered a r = .ok (m, ys) ∧
      decideAll request terms covered b m = .ok (r', zs) ∧ xs = ys ++ zs := by
  induction a generalizing r xs with
  | nil => exact ⟨r, [], xs, rfl, h, rfl⟩
  | cons d a ih =>
    obtain ⟨m, x, rest, hm, hrest, rfl⟩ := decideAll_cons_ok h
    obtain ⟨n, ys, zs, hys, hzs, rfl⟩ := ih hrest
    refine ⟨n, x :: ys, zs, ?_, hzs, rfl⟩
    exact bind_eq_ok.mpr ⟨(m, x), hm, bind_eq_ok.mpr ⟨(n, ys), hys, rfl⟩⟩

/-- A loop whose times all come later may first be advanced to `t`. -/
theorem decideAll_through {t : DateTime} {times : List DateTime} (ht : ∀ d ∈ times, t ≤ d)
    {r decided closed : Replay} {xs : List ReplayDecision}
    (h : decideAll request terms covered times r = .ok (decided, xs))
    (hclosed : decided.advance terms none = .ok closed) :
    ∃ c decided', r.advance terms (some t) = .ok c ∧
      decideAll request terms covered times c = .ok (decided', xs) ∧
      decided'.advance terms none = .ok closed := by
  cases times with
  | nil =>
    cases h
    obtain ⟨c, hc, hrest⟩ := advance_through (fun time hm => by cases hm) hclosed
    exact ⟨c, c, hc, rfl, hrest⟩
  | cons d times =>
    obtain ⟨⟨m, x⟩, hat, h⟩ := bind_eq_ok.mp h
    obtain ⟨advanced, hadv, hat⟩ := bind_eq_ok.mp hat
    obtain ⟨c, hc, hadv⟩ := advance_through
      (fun time hm => by cases hm; exact ht d List.mem_cons_self) hadv
    refine ⟨c, decided, hc, ?_, hclosed⟩
    exact bind_eq_ok.mpr ⟨(m, x), bind_eq_ok.mpr ⟨advanced, hadv, hat⟩, h⟩

/-- The decisions a loop records are those of its times. -/
theorem decideAll_times {times : List DateTime} {r r' : Replay} {xs : List ReplayDecision}
    (h : decideAll request terms covered times r = .ok (r', xs)) :
    xs.map ReplayDecision.decisionTime = times := by
  induction times generalizing r xs with
  | nil => cases h; rfl
  | cons d times ih =>
    obtain ⟨m, x, rest, hm, hrest, rfl⟩ := decideAll_cons_ok h
    obtain ⟨_, _, _, _, -, -, -, -, -, rfl⟩ := decideAt_ok hm
    rw [List.map_cons, ih hrest]

end Lockstep

/-! ### Completed runs -/

/-- The same request over a snapshot. -/
def BarReplayRequest.over (request : BarReplayRequest) (snapshot : VerifiedBarSnapshot) :
    BarReplayRequest :=
  { request with data := snapshot.port }

omit [DecimalArithmetic] in
/-- What a snapshot shows at a time, when it shows anything. -/
theorem VerifiedBarSnapshot.visibleAt_ok {snapshot : VerifiedBarSnapshot} {d : DateTime}
    {visible : List Bar} (h : snapshot.port.visibleAt d = .ok visible) :
    visible = snapshot.bars.filter fun bar => bar.visibleAt ≤ d := by
  simp only [VerifiedBarSnapshot.port] at h
  split at h
  · cases h
  · exact (Except.ok.inj h).symm

section Runs

variable {digest : List UInt8 → ContentHash} {request : BarReplayRequest} {data' : PointInTimeBars}
  {result result' : SimulationResult} {closed closed' : Replay}

omit [DecimalArithmetic] in
/-- Which constraints are enforced does not depend on the data. -/
theorem enforcedConstraints_eq {d d' : DateTime} {constraints constraints' : List ReplayConstraint}
    (h : enforcedConstraints request d = .ok constraints)
    (h' : enforcedConstraints { request with data := data' } d' = .ok constraints') :
    constraints' = constraints := by
  unfold enforcedConstraints at h h'
  dsimp only at h h'
  split at h
  · cases h
  · split at h'
    · cases h'
    · exact Except.ok.inj (h'.symm.trans h)

/-- Two runs of one request over different data differ at most in the price source. -/
theorem CompletedRun.sameRules (run : CompletedRun digest request result closed)
    (run' : CompletedRun digest { request with data := data' } result' closed') :
    SameRules run.terms run'.terms := by
  obtain ⟨_, -, hconstraints⟩ := run.enforced
  obtain ⟨_, -, hconstraints'⟩ := run'.enforced
  have hcosts : run'.costs = run.costs := Except.ok.inj (run'.declared.symm.trans run.declared)
  have hconstraints : run'.constraints = run.constraints :=
    enforcedConstraints_eq hconstraints hconstraints'
  refine ⟨?_, hconstraints, rfl⟩
  simp only [CompletedRun.terms, replayTerms, hcosts]

/-- A run cut at a time: the decisions by then, and the rest. -/
structure CutRun (run : CompletedRun digest request result closed) (t : DateTime) where
  mid : Replay
  before : List ReplayDecision
  after : List ReplayDecision
  decides_before : decideAll request run.terms request.covered
    ((decisionTimes request.covered).filter fun d => d ≤ t) (Replay.start request.covered) =
      .ok (mid, before)
  decides_after : decideAll request run.terms request.covered
    ((decisionTimes request.covered).filter fun d => t < d) mid = .ok (run.decided, after)
  decisions : run.decisions = before ++ after

/-- A completed run can be cut at any time. -/
theorem CompletedRun.cut (run : CompletedRun digest request result closed) (t : DateTime) :
    Nonempty (CutRun run t) := by
  have hsorted : (decisionTimes request.covered).Pairwise (· < ·) := SortedMap.sortedSet_sorted _
  have hsplit : (decisionTimes request.covered).filter (fun d => d ≤ t) ++
      (decisionTimes request.covered).filter (fun d => t < d) = decisionTimes request.covered :=
    filter_le_append_filter_lt hsorted t
  have hdecides : decideAll request run.terms request.covered (decisionTimes request.covered)
      (Replay.start request.covered) = .ok (run.decided, run.decisions) := run.decides
  rw [← hsplit] at hdecides
  obtain ⟨mid, before, after, hbefore, hafter, hdecisions⟩ := decideAll_append_ok hdecides
  exact ⟨⟨mid, before, after, hbefore, hafter, hdecisions⟩⟩

/-- The decisions by the cut are the first part. -/
theorem CutRun.decisions_filter {run : CompletedRun digest request result closed} {t : DateTime}
    (cut : CutRun run t) :
    result.content.decisions.filter (fun x => x.decisionTime ≤ t) = cut.before := by
  have hbefore := decideAll_times cut.decides_before
  have hafter := decideAll_times cut.decides_after
  have hin : ∀ x ∈ cut.before, x.decisionTime ≤ t := by
    intro x hx
    have := hbefore ▸ List.mem_map_of_mem hx
    simpa using (List.mem_filter.mp this).2
  have hout : ∀ x ∈ cut.after, t < x.decisionTime := by
    intro x hx
    have := hafter ▸ List.mem_map_of_mem hx
    simpa using (List.mem_filter.mp this).2
  rw [run.content]
  change run.decisions.filter _ = _
  rw [cut.decisions, List.filter_append, List.filter_eq_self.mpr fun x hx => by simpa using hin x hx,
    List.filter_eq_nil_iff.mpr fun x hx => by simpa using hout x hx, List.append_nil]

end Runs

end Ficant
