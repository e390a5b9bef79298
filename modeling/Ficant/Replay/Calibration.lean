import Ficant.Replay.LedgerRules
import Ficant.Replay.Lockstep

namespace Ficant

open Lib

/-!
# Policy calibration

`ficant-application/src/use_cases/policy_calibration.rs`: every candidate of a parameter grid
replays once over the training window and once over the validation window, and the first candidate
with the best training objective becomes the calibrated policy.

The training replay gets the whole snapshot, and the view handed to the policy is not cut at the end
of the window.  Still, nothing that starts after the window reaches the training objective
(`replayWindow_objective_eq`): a decision that can see such a bar comes too late to trade in a bar of
the window.
-/

section

variable [DecimalArithmetic]

/-! ### Calibration -/

/-- `CalibrationRequest`. -/
structure CalibrationRequest where
  replay : BarReplayRequest
  grid : ParameterGrid
  training : EffectivePeriod
  validation : EffectivePeriod
  objective : String
  outputId : Ulid
  outputValid : EffectivePeriod

section Calibrate

variable (digest : List UInt8 → ContentHash) (request : CalibrationRequest)

/-- The policy a candidate replays with over a window. -/
def windowPolicy (parameters : SortedMap String Decimal) (window : EffectivePeriod) :
    PolicyArtifactInput :=
  { request.replay.policy.input with parameters, valid := window, calibration := none }

/-- The value of an objective on a result. -/
def CalibrationObjective.value (objective : CalibrationObjective) (pnl : List BarPnl) : Decimal :=
  match objective with
  | .totalPnl => (pnl.getLast?.map BarPnl.equity).getD 0

/-- `replay_window`: replays one candidate over one window from a flat book. -/
def replayWindow (parameters : SortedMap String Decimal) (window : EffectivePeriod)
    (objective : CalibrationObjective) : Except ApplicationError WindowResult := do
  let policy ← (PolicyArtifact.new digest (windowPolicy request parameters window)).mapError
    fun _ => invalid
  let result ← replayBars digest { request.replay with policy }
  .ok ⟨result.resultId, objective.value result.content.pnl⟩

/-- Both replays of one candidate. -/
def replayCandidate (objective : CalibrationObjective) (parameters : SortedMap String Decimal) :
    Except ApplicationError CandidateResult := do
  let training ← replayWindow digest request parameters request.training objective
  let validation ← replayWindow digest request parameters request.validation objective
  .ok ⟨parameters, training, validation⟩

/-- `calibrate_policy`. -/
def calibratePolicy : Except ApplicationError PolicyArtifact := do
  (checkWindows request.training request.validation).mapError fun _ => invalid
  match CalibrationObjective.fromCode request.objective with
  | none => .error invalid
  | some objective =>
    let base := request.replay.policy
    let candidates ← (request.grid.candidates base.input.parameters).mapM
      (replayCandidate digest request objective)
    match bestTrainingCandidate candidates with
    | none => .error invalid
    | some selected =>
      match candidates[selected]? with
      -- The source indexes here; the best candidate is one of the list.
      | none => .error invalid
      | some candidate =>
        let record ← (CalibrationRecord.new base.contentHash request.training request.validation
          objective request.grid candidates selected).mapError fun _ => invalid
        (PolicyArtifact.new digest
          { base.input with
            policyArtifactId := request.outputId
            parameters := candidate.parameters
            valid := request.outputValid
            calibration := some record }).mapError fun _ => invalid

end Calibrate

/-- The same request over a snapshot. -/
def CalibrationRequest.over (request : CalibrationRequest) (snapshot : VerifiedBarSnapshot) :
    CalibrationRequest :=
  { request with replay := request.replay.over snapshot }

/-! ### Two replays with one ledger -/

/-- Loops with the same ledger, steps and trades. -/
structure SameLedger (r r' : Replay) : Prop where
  ledger : r'.ledger = r.ledger
  steps : r'.steps = r.steps
  pending : r'.pending = r.pending

/-- Steps with the same ledger and the same face used. -/
structure SameUse (s s' : StepState) : Prop where
  ledger : s'.ledger = s.ledger
  used : s'.used = s.used

/-- A ledger does not read the price source of a fill. -/
theorem settle_sourcedFrom (terms : LedgerTerms) (l : ReplayLedger) (fill : SimulatedFill)
    (source : PriceSourceType) : l.settle terms (fill.sourcedFrom source) = l.settle terms fill := rfl

section SameLedger

variable {terms terms' : ReplayTerms} (hterms : SameRules terms terms')
include hterms

/-- A due trade executes alike against ledgers that agree. -/
theorem executeDue_sameLedger {stepEnd : DateTime} {s s' s₁ s₁' : StepState}
    {a a' a₁ a₁' : PendingTrade} (hs : SameUse s s') (ha : a = a')
    (h : executeDue terms stepEnd s a = .ok (s₁, a₁))
    (h' : executeDue terms' stepEnd s' a' = .ok (s₁', a₁')) : SameUse s₁ s₁' ∧ a₁ = a₁' := by
  subst ha
  rcases executeDue_cases h with ⟨rfl, rfl, hskip⟩ |
    ⟨bar, rest, attempt, ledger, hbars, hend, hne, hattempt, hsettle, rfl, rfl⟩
  · rcases executeDue_cases h' with ⟨rfl, rfl, -⟩ | ⟨bar, rest, _, _, hbars, hend, hne, -⟩
    · exact ⟨hs, rfl⟩
    · exact absurd hend (hskip hne bar rest hbars)
  · rcases executeDue_cases h' with ⟨-, -, hskip⟩ |
      ⟨bar', rest', attempt', ledger', hbars', -, -, hattempt', hsettle', rfl, rfl⟩
    · exact absurd hend (hskip hne bar rest hbars)
    · rw [hbars] at hbars'
      cases hbars'
      have hused : s'.usedIn bar = s.usedIn bar := by simp only [StepState.usedIn, hs.used]
      have hmatch := checkedAttempt_sourcedFrom hterms ⟨rfl, rfl, rfl⟩ hused
        (congrArg ReplayLedger.book hs.ledger)
        (congrArg (fun l : ReplayLedger => l.step.map OpenStep.date) hs.ledger) hattempt
      -- The attempts differ in the source of their price, which the ledger does not look at.
      obtain rfl : attempt.sourcedFrom terms'.priceSource = attempt' :=
        Except.ok.inj (hmatch.symm.trans hattempt')
      rw [hterms.ledger, hs.ledger, settle_sourcedFrom] at hsettle'
      obtain rfl : ledger = ledger' := Except.ok.inj (hsettle.symm.trans hsettle')
      exact ⟨⟨rfl, by simp only [StepState.afterAttempt, hused, hs.used]; rfl⟩, rfl⟩

/-- A step runs alike from replays whose ledgers agree. -/
theorem runStep_sameLedger {r r' r₁ r₁' : Replay} {x x' : Step} (hr : SameLedger r r')
    (hx : x = x') (h : runStep terms r x = .ok r₁) (h' : runStep terms' r' x' = .ok r₁') :
    SameLedger r₁ r₁' := by
  subst hx
  obtain ⟨opened, s, pending, finished, hopen, hexec, hfinish, rfl⟩ := runStep_ok h
  obtain ⟨opened', s', pending', finished', hopen', hexec', hfinish', rfl⟩ := runStep_ok h'
  rw [hterms.ledger, hr.ledger] at hopen'
  obtain rfl : opened = opened' := Except.ok.inj (hopen.symm.trans hopen')
  have hstart : SameUse ⟨opened, ∅, r.fills, r.log⟩ ⟨opened, ∅, r'.fills, r'.log⟩ := ⟨rfl, rfl⟩
  obtain ⟨hs, hpending⟩ := executeAll_lockstep (T := Eq)
    (fun _ _ _ _ _ _ _ _ hs ha h h' => executeDue_sameLedger hterms hs ha h h')
    (List.forall₂_eq_eq_eq ▸ hr.pending.symm) hstart hexec hexec'
  obtain rfl : pending = pending' := List.forall₂_eq_eq_eq ▸ hpending
  rw [hs.ledger] at hfinish'
  exact ⟨Except.ok.inj (hfinish'.symm.trans hfinish), hr.steps, rfl⟩

/-- Replays whose ledgers agree still agree after they advance. -/
theorem advance_sameLedger {limit : Option DateTime} {r r' r₁ r₁' : Replay}
    (hsorted : r.steps.Pairwise fun a b => a.1 < b.1) (hr : SameLedger r r')
    (h : r.advance terms limit = .ok r₁) (h' : r'.advance terms' limit = .ok r₁') :
    SameLedger r₁ r₁' ∧ r₁.steps.Pairwise fun a b => a.1 < b.1 := by
  obtain ⟨c, hc, rfl⟩ := advance_ok hsorted h
  obtain ⟨c', hc', rfl⟩ := advance_ok (hr.steps ▸ hsorted) h'
  rw [hr.steps] at hc'
  have hsame := runAll_lockstep (Q := Eq)
    (fun _ _ _ _ _ _ hr hx h h' => runStep_sameLedger hterms hr hx h h')
    (List.forall₂_same.mpr fun _ _ => rfl) hr hc hc'
  exact ⟨⟨hsame.ledger, by rw [hr.steps], hsame.pending⟩, hsorted.filter _⟩

end SameLedger

/-! ### Decisions inside and after the window -/

section Decisions

variable {terms terms' : ReplayTerms} {covered : List Bar} {d : DateTime}

omit [DecimalArithmetic] in
/-- The same trades. -/
theorem registerAll_sameLedger {deltas : List (VersionRef × Decimal)} {r r' : Replay}
    (hr : SameLedger r r') :
    SameLedger (r.registerAll terms covered d deltas) (r'.registerAll terms' covered d deltas) := by
  induction deltas generalizing r r' with
  | nil => exact hr
  | cons delta rest ih =>
    refine ih ?_
    obtain ⟨i, q⟩ := delta
    change SameLedger (r.register terms d i q (eligibleBars covered d i))
      (r'.register terms' d i q (eligibleBars covered d i))
    rcases register_cases terms d r i q (eligibleBars covered d i) with ⟨hnil, heq⟩ | ⟨hne, heq⟩
    · rcases register_cases terms' d r' i q (eligibleBars covered d i) with ⟨-, heq'⟩ | ⟨hne', -⟩
      · rw [heq, heq']; exact ⟨hr.ledger, hr.steps, hr.pending⟩
      · exact absurd hnil hne'
    · rcases register_cases terms' d r' i q (eligibleBars covered d i) with ⟨hnil', -⟩ | ⟨-, heq'⟩
      · exact absurd hnil' hne
      · rw [heq, heq']; exact ⟨hr.ledger, hr.steps, by rw [hr.pending]⟩

omit [DecimalArithmetic] in
/-- Trades decided after every covered bar has started find no bar. -/
theorem registerAll_late (terms : ReplayTerms) (hlate : ∀ bar ∈ covered, bar.barStart < d)
    (deltas : List (VersionRef × Decimal)) (r : Replay) :
    SameLedger r (r.registerAll terms covered d deltas) := by
  refine registerAll_induct (P := SameLedger r) ?_ ⟨rfl, rfl, rfl⟩
  intro x delta hx
  have hnil : eligibleBars covered d delta.1 = [] := by
    refine List.eq_nil_iff_forall_not_mem.mpr fun bar hbar => ?_
    obtain ⟨hcovered, -, hstart⟩ := mem_eligibleBars.mp hbar
    exact absurd (lt_of_le_of_lt hstart (hlate bar hcovered)) (lt_irrefl _)
  rcases register_cases terms d x delta.1 delta.2 (eligibleBars covered d delta.1) with
    ⟨-, heq⟩ | ⟨hne, -⟩
  · rw [heq]; exact ⟨hx.ledger, hx.steps, hx.pending⟩
  · exact absurd hnil hne

/-- Replays whose ledgers agree project the same book. -/
theorem SameLedger.projected_eq {r r' : Replay} (h : SameLedger r r') :
    r'.projected = r.projected := by
  rw [Replay.projected, Replay.projected, h.ledger, h.pending]

end Decisions

/-- Snapshots that agree on the bars a policy covers and that start before `stop`. -/
def AgreeBefore (policy : PolicyArtifact) (stop : DateTime) (a b : VerifiedBarSnapshot) : Prop :=
  a.bars.filter (fun bar => policy.covers bar ∧ bar.barStart < stop) =
    b.bars.filter fun bar => policy.covers bar ∧ bar.barStart < stop

section Window

variable {request : BarReplayRequest} {a b : VerifiedBarSnapshot} {terms terms' : ReplayTerms}

omit [DecimalArithmetic] in
/-- The covered bars of a window are among those that start before its end. -/
theorem covered_before {bar : Bar} (h : bar ∈ (request.over a).covered) :
    bar.barStart < request.policy.input.valid.to_.instant := by
  have hin := (List.mem_filter.mp h).2
  simp only [PolicyArtifact.periodContains, Bool.decide_and, decide_eq_true_eq,
    Bool.and_eq_true] at hin
  exact hin.2.2

variable (hagree : AgreeBefore request.policy request.policy.input.valid.to_.instant a b)
include hagree

omit [DecimalArithmetic] in
/-- The two requests cover the same bars. -/
theorem covered_eq : (request.over b).covered = (request.over a).covered := by
  have hcut : ∀ bars : List Bar, coveredBars request.policy bars =
      (bars.filter fun bar => request.policy.covers bar ∧
        bar.barStart < request.policy.input.valid.to_.instant).filter
        fun bar => request.policy.periodContains bar.barStart := by
    intro bars
    rw [coveredBars, List.filter_filter]
    refine List.filter_congr fun bar _ => ?_
    by_cases hlt : bar.barStart < request.policy.input.valid.to_.instant
    · simp [PolicyArtifact.periodContains, hlt, and_comm]
    · simp [PolicyArtifact.periodContains, hlt]
  exact (hcut b.bars).trans ((congrArg _ hagree.symm).trans (hcut a.bars).symm)

omit [DecimalArithmetic] in
/-- A decision by the end of the window sees only bars that start before it. -/
theorem inputs_eq {d : DateTime} (hd : d ≤ request.policy.input.valid.to_.instant) :
    (b.bars.filter fun bar => bar.visibleAt ≤ d).filter request.policy.covers =
      (a.bars.filter fun bar => bar.visibleAt ≤ d).filter request.policy.covers := by
  have hcut : ∀ bars : List Bar,
      (bars.filter fun bar => bar.visibleAt ≤ d).filter request.policy.covers =
      (bars.filter fun bar => request.policy.covers bar ∧
        bar.barStart < request.policy.input.valid.to_.instant).filter
        fun bar => bar.visibleAt ≤ d := by
    intro bars
    rw [List.filter_filter, List.filter_filter]
    refine List.filter_congr fun bar _ => ?_
    by_cases hvisible : bar.visibleAt ≤ d
    · have hstart := lt_of_lt_of_le bar.start_lt_visible (le_trans hvisible hd)
      simp [hvisible, hstart]
    · simp [hvisible]
  exact (hcut b.bars).trans ((congrArg _ hagree.symm).trans (hcut a.bars).symm)

/-- What one decision of the window does to the ledger does not depend on later bars. -/
theorem decideAt_sameLedger (hterms : SameRules terms terms') {d : DateTime} {r r' r₁ r₁' : Replay}
    {x x' : ReplayDecision} (hr : SameLedger r r' ∧ r.steps.Pairwise fun a b => a.1 < b.1)
    (h : decideAt (request.over a) terms (request.over a).covered r d = .ok (r₁, x))
    (h' : decideAt (request.over b) terms' (request.over a).covered r' d = .ok (r₁', x')) :
    SameLedger r₁ r₁' ∧ r₁.steps.Pairwise fun a b => a.1 < b.1 := by
  obtain ⟨m, visible, view, target, hadv, hvis, hview, htarget, rfl, -⟩ := decideAt_ok h
  obtain ⟨m', visible', view', target', hadv', hvis', hview', htarget', rfl, -⟩ := decideAt_ok h'
  obtain ⟨hm, hsorted⟩ := advance_sameLedger hterms hr.2 hr.1 hadv hadv'
  refine ⟨?_, by rw [registerAll_steps]; exact hsorted⟩
  have hbook := hm.projected_eq
  by_cases hd : d ≤ request.policy.input.valid.to_.instant
  · -- The view is the same, and so is the target.
    have hinputs : inputsAt (request.over b) visible' = inputsAt (request.over a) visible := by
      rw [VerifiedBarSnapshot.visibleAt_ok hvis, VerifiedBarSnapshot.visibleAt_ok hvis']
      exact inputs_eq hagree hd
    rw [hinputs] at hview'
    obtain rfl : view = view' := Except.ok.inj (hview.symm.trans hview')
    rw [hbook] at htarget'
    obtain rfl : target = target' := Except.ok.inj (htarget.symm.trans htarget')
    rw [hbook]
    exact registerAll_sameLedger ⟨hm.ledger, hm.steps, hm.pending⟩
  · -- The view may show later bars, but no bar of the window is left to trade in.
    have hlate : ∀ bar ∈ (request.over a).covered, bar.barStart < d :=
      fun bar hbar => lt_trans (covered_before hbar) (lt_of_not_ge hd)
    have hfirst := registerAll_late terms hlate (m.projected.deltasToward target)
      { m with log := m.log ++ [ReplayEvent.decided d m.projected] }
    have hsecond := registerAll_late terms' hlate (m'.projected.deltasToward target')
      { m' with log := m'.log ++ [ReplayEvent.decided d m'.projected] }
    exact ⟨hsecond.ledger.trans (hm.ledger.trans hfirst.ledger.symm),
      hsecond.steps.trans (hm.steps.trans hfirst.steps.symm),
      hsecond.pending.trans (hm.pending.trans hfirst.pending.symm)⟩

/-- **A window replay books the same P&L whatever starts after the window.** -/
theorem replayBars_pnl_eq {digest : List UInt8 → ContentHash} {result result' : SimulationResult}
    (h : replayBars digest (request.over a) = .ok result)
    (h' : replayBars digest (request.over b) = .ok result') :
    result'.content.pnl = result.content.pnl := by
  obtain ⟨closed, h⟩ := replayBars_completed h
  obtain ⟨closed', h'⟩ := replayBars_completed h'
  obtain ⟨run⟩ := replayRun_completed h
  obtain ⟨run'⟩ := replayRun_completed h'
  have hterms : SameRules run.terms run'.terms := run.sameRules run'
  have hdecides' : decideAll (request.over b) run'.terms (request.over b).covered
      (decisionTimes (request.over b).covered) (Replay.start (request.over b).covered) =
        .ok (run'.decided, run'.decisions) := run'.decides
  rw [covered_eq hagree] at hdecides'
  obtain ⟨⟨hdecided, hsorted⟩, -⟩ := decideAll_lockstep
    (R := fun r r' => SameLedger r r' ∧ r.steps.Pairwise fun a b => a.1 < b.1) (D := fun _ _ => True)
    (fun d _ _ _ _ _ _ _ hr h h' => ⟨decideAt_sameLedger hagree hterms hr h h', trivial⟩)
    ⟨⟨rfl, rfl, rfl⟩, stepsOf_sorted _⟩ run.decides hdecides'
  have hclosed := (advance_sameLedger hterms hsorted hdecided run.closes run'.closes).1
  rw [run.content, run'.content]
  exact congrArg ReplayLedger.rows hclosed.ledger

end Window

/-! ### Selection -/

omit [DecimalArithmetic] in
/-- The selection depends on the training objectives only. -/
theorem bestTrainingCandidate_congr {candidates candidates' : List CandidateResult}
    (h : candidates.map (fun c => c.training.objective) =
      candidates'.map fun c => c.training.objective) :
    bestTrainingCandidate candidates = bestTrainingCandidate candidates' := by
  have hobjectives : ∀ candidates : List CandidateResult, bestTrainingCandidate candidates =
      (((candidates.map fun c => c.training.objective).zipIdx.foldl
        (fun (best : Option (ℕ × Decimal)) entry =>
          best.elim (some (entry.2, entry.1)) fun kept =>
            if kept.2 ≥ entry.1 then best else some (entry.2, entry.1)) none).map Prod.fst) := by
    intro candidates
    rw [List.zipIdx_map, List.foldl_map]
    unfold bestTrainingCandidate
    congr 2
    funext best entry
    cases best <;> rfl
  rw [hobjectives, hobjectives, h]

section Selection

variable {digest : List UInt8 → ContentHash} {request : CalibrationRequest}
  {a b : VerifiedBarSnapshot}

/-- What a window replay does. -/
theorem replayWindow_ok {request : CalibrationRequest} {parameters : SortedMap String Decimal}
    {window : EffectivePeriod} {objective : CalibrationObjective} {out : WindowResult}
    (h : replayWindow digest request parameters window objective = .ok out) :
    ∃ policy result,
      PolicyArtifact.new digest (windowPolicy request parameters window) = .ok policy ∧
      replayBars digest { request.replay with policy } = .ok result ∧
      out = ⟨result.resultId, objective.value result.content.pnl⟩ := by
  obtain ⟨policy, hpolicy, h⟩ := bind_eq_ok.mp h
  obtain ⟨result, hresult, h⟩ := bind_eq_ok.mp h
  exact ⟨policy, result, mapError_eq_ok.mp hpolicy, hresult, (Except.ok.inj h).symm⟩

omit [DecimalArithmetic] in
/-- The policy of a window covers what the base policy covers, and is valid for the window. -/
theorem windowPolicy_new {parameters : SortedMap String Decimal} {window : EffectivePeriod}
    {policy : PolicyArtifact}
    (h : PolicyArtifact.new digest (windowPolicy request parameters window) = .ok policy) :
    policy.input.valid = window ∧ ∀ bar, policy.covers bar = request.replay.policy.covers bar := by
  have hinput := (PolicyArtifact.new_ok h).1
  refine ⟨by rw [hinput]; rfl, fun bar => ?_⟩
  have hmem : bar.instrument ∈ normalizeUniverse request.replay.policy.input.universe_ ↔
      bar.instrument ∈ request.replay.policy.input.universe_ := by
    rw [normalizeUniverse, List.mem_dedup, (List.perm_insertionSort _ _).mem_iff]
  simp only [PolicyArtifact.covers, hinput, windowPolicy, hmem]

variable (hagree : AgreeBefore request.replay.policy request.training.to_.instant a b)
include hagree

/-- The training objective of a candidate does not depend on what starts after the window. -/
theorem replayWindow_objective_eq {parameters : SortedMap String Decimal}
    {objective : CalibrationObjective} {out out' : WindowResult}
    (h : replayWindow digest (request.over a) parameters request.training objective = .ok out)
    (h' : replayWindow digest (request.over b) parameters request.training objective = .ok out') :
    out'.objective = out.objective := by
  obtain ⟨policy, result, hpolicy, hresult, rfl⟩ := replayWindow_ok h
  obtain ⟨policy', result', hpolicy', hresult', rfl⟩ := replayWindow_ok h'
  obtain rfl : policy = policy' := Except.ok.inj (hpolicy.symm.trans hpolicy')
  obtain ⟨hvalid, hcovers⟩ := windowPolicy_new hpolicy
  have hwindow : AgreeBefore policy policy.input.valid.to_.instant a b := by
    unfold AgreeBefore
    simp only [hcovers, hvalid]
    exact hagree
  have hpnl := @replayBars_pnl_eq _ { request.replay with policy } a b hwindow _ _ _ hresult hresult'
  exact congrArg objective.value hpnl

/-- Candidates with the same parameters have the same training objectives. -/
theorem candidates_eq {objective : CalibrationObjective} {parameters : List (SortedMap String Decimal)}
    {out out' : List CandidateResult}
    (h : List.Forall₂ (fun p c => replayCandidate digest (request.over a) objective p = .ok c)
      parameters out)
    (h' : List.Forall₂ (fun p c => replayCandidate digest (request.over b) objective p = .ok c)
      parameters out') :
    out.map (fun c => (c.parameters, c.training.objective)) =
      out'.map fun c => (c.parameters, c.training.objective) := by
  induction parameters generalizing out out' with
  | nil => cases h; cases h'; rfl
  | cons p parameters ih =>
    obtain ⟨c, cs, hc, hcs, rfl⟩ := List.forall₂_cons_left_iff.mp h
    obtain ⟨c', cs', hc', hcs', rfl⟩ := List.forall₂_cons_left_iff.mp h'
    obtain ⟨training, htraining, hc⟩ := bind_eq_ok.mp hc
    obtain ⟨validation, -, hc⟩ := bind_eq_ok.mp hc
    obtain ⟨training', htraining', hc'⟩ := bind_eq_ok.mp hc'
    obtain ⟨validation', -, hc'⟩ := bind_eq_ok.mp hc'
    cases hc; cases hc'
    have hobjective := replayWindow_objective_eq hagree htraining htraining'
    rw [List.map_cons, List.map_cons, ih hcs hcs', hobjective]

end Selection

/-- What a calibration does: it replays the candidates, and its artifact carries the record and the
    parameters of the best one. -/
theorem calibratePolicy_ok {digest : List UInt8 → ContentHash} {request : CalibrationRequest}
    {artifact : PolicyArtifact} (h : calibratePolicy digest request = .ok artifact) :
    ∃ objective candidates selected candidate record,
      CalibrationObjective.fromCode request.objective = some objective ∧
      List.Forall₂ (fun p c => replayCandidate digest request objective p = .ok c)
        (request.grid.candidates request.replay.policy.input.parameters) candidates ∧
      bestTrainingCandidate candidates = some selected ∧
      candidates[selected]? = some candidate ∧
      artifact.input.calibration = some record ∧ record.selected = selected ∧
      record.candidates = candidates ∧ artifact.input.parameters = candidate.parameters := by
  obtain ⟨_, -, h⟩ := bind_eq_ok.mp h
  split at h
  · cases h
  · rename_i objective hobjective
    dsimp only at h
    obtain ⟨candidates, hcandidates, h⟩ := bind_eq_ok.mp h
    split at h
    · cases h
    · rename_i selected hselected
      split at h
      · cases h
      · rename_i candidate hcandidate
        obtain ⟨record, hrecord, h⟩ := bind_eq_ok.mp h
        -- The record and the artifact keep what they were built from.
        have hfields := CalibrationRecord.new_ok (mapError_eq_ok.mp hrecord)
        have hinput := (PolicyArtifact.new_ok (mapError_eq_ok.mp h)).1
        exact ⟨objective, candidates, selected, candidate, record, hobjective,
          mapM_eq_ok.mp hcandidates, hselected, hcandidate, by rw [hinput], hfields.1, hfields.2,
          by rw [hinput]⟩

/-- **Validation data never influences calibration.**  Two calibrations over snapshots that agree on
    the covered bars starting before the end of the training window select the same candidate, carry
    the same parameters and record the same training objectives. -/
theorem calibration_ignores_validation {digest : List UInt8 → ContentHash}
    {request : CalibrationRequest} {a b : VerifiedBarSnapshot}
    (hagree : AgreeBefore request.replay.policy request.training.to_.instant a b)
    {artifact artifact' : PolicyArtifact}
    (h : calibratePolicy digest (request.over a) = .ok artifact)
    (h' : calibratePolicy digest (request.over b) = .ok artifact') :
    ∃ record record', artifact.input.calibration = some record ∧
      artifact'.input.calibration = some record' ∧ record.selected = record'.selected ∧
      artifact.input.parameters = artifact'.input.parameters ∧
      record.candidates.map (fun c => (c.parameters, c.training.objective)) =
        record'.candidates.map fun c => (c.parameters, c.training.objective) := by
  obtain ⟨objective, candidates, selected, candidate, record, hobjective, hcandidates, hselected,
    hcandidate, hrecord, rfl, rfl, hparameters⟩ := calibratePolicy_ok h
  obtain ⟨objective', candidates', selected', candidate', record', hobjective', hcandidates',
    hselected', hcandidate', hrecord', rfl, rfl, hparameters'⟩ := calibratePolicy_ok h'
  obtain rfl : objective = objective' := Option.some.inj (hobjective.symm.trans hobjective')
  have hsame := candidates_eq hagree hcandidates hcandidates'
  have hobjectives := congrArg (List.map Prod.snd) hsame
  rw [List.map_map, List.map_map] at hobjectives
  have hbest : record.selected = record'.selected :=
    Option.some.inj (hselected.symm.trans ((bestTrainingCandidate_congr hobjectives).trans hselected'))
  refine ⟨record, record', hrecord, hrecord', hbest, ?_, hsame⟩
  have hat := congrArg (fun l => (l[record.selected]?).map Prod.fst) hsame
  simp only [List.getElem?_map, Option.map_map] at hat
  rw [hcandidate, hbest, hcandidate'] at hat
  rw [hparameters, hparameters']
  exact Option.some.inj hat

end

namespace SmallMarket

/-- The part of the day between two minutes. -/
def window (start finish : Fin 1000) (h : (minute start) < (minute finish)) : EffectivePeriod :=
  ⟨⟨minute start, "Asia/Shanghai", date⟩, ⟨minute finish, "Asia/Shanghai", date⟩, h⟩

/-- A calibration of the target face, trained on the first five minutes and validated on the next
    five. -/
def calibration : CalibrationRequest where
  replay := request .carry []
  grid := ⟨.ofList [("target_face", [5, 10])], by decide +kernel⟩
  training := window 0 5 (by decide)
  validation := window 5 10 (by decide)
  objective := "ficant.objective.total-pnl"
  outputId := ⟨12⟩
  outputValid := window 10 20 (by decide)

/-- The bar of the sample is valid. -/
theorem calibrationBar_valid : (barInput "b5" 5 6 6 10 2).valid = true := by decide +kernel

/-- Two bars of the training window and one validation bar with the given content. -/
def calibrationBars (volume closeYield : ℤ)
    (h : (barInput "b5" 5 6 6 volume closeYield).valid = true) : List Bar :=
  [cheap, next, ⟨barInput "b5" 5 6 6 volume closeYield, h⟩]

end SmallMarket

open RoundedDecimals

theorem calibration_ignores_validation_small : ∃ artifact artifact',
    calibratePolicy SmallMarket.digest (SmallMarket.calibration.over
      (SmallMarket.snapshot (SmallMarket.calibrationBars 10 2 SmallMarket.calibrationBar_valid))) =
        .ok artifact ∧
    calibratePolicy SmallMarket.digest (SmallMarket.calibration.over
      (SmallMarket.snapshot (SmallMarket.calibrationBars 3 1 (by decide +kernel)))) =
        .ok artifact' ∧
    artifact.input.parameters = artifact'.input.parameters := by
  obtain ⟨artifact, hrun, -⟩ := exists_ok_of_any
    (x := calibratePolicy SmallMarket.digest (SmallMarket.calibration.over
      (SmallMarket.snapshot (SmallMarket.calibrationBars 10 2 SmallMarket.calibrationBar_valid))))
    (p := fun _ => true) (by decide +kernel)
  obtain ⟨artifact', hrun', -⟩ := exists_ok_of_any
    (x := calibratePolicy SmallMarket.digest (SmallMarket.calibration.over
      (SmallMarket.snapshot (SmallMarket.calibrationBars 3 1 (by decide +kernel)))))
    (p := fun _ => true) (by decide +kernel)
  obtain ⟨_, _, -, -, -, hparameters, -⟩ :=
    calibration_ignores_validation (by unfold AgreeBefore; decide +kernel) hrun hrun'
  exact ⟨artifact, artifact', hrun, hrun', hparameters⟩

end Ficant
