import Ficant.Replay.Rules

namespace Ficant

open Lib DecimalArithmetic

/-!
# The participation cap across trades

All attempts in one bar share its cap.  The loop adds up the face executed in a bar with the
operators of the decimals (`spentIn`, its `used` map), and an attempt takes what the operators leave
of the cap.

* `executedIn log id` — the face that the attempts of a run executed in the bar `id`, as a number;
* `CapKept` — before an attempt, no operator rounds in favour of the attempt;
* `WithinCap` — where this is so before every attempt in a bar, its cap holds; a bar whose step is not
  closed yet has no attempt in it;
* `participation_within_cap` — the cap at the end of a run;
* `participation_cap_exceeded` — a product that is rounded up, and a fill above the cap.
-/

/-- The face executed in a bar, over all fills. -/
def usedBy (fills : List SimulatedFill) (id : String) : Decimal :=
  ((fills.filter fun fill => fill.executionBar = some id).map fun fill => |fill.quantity|).sum

/-- What two batches of fills use of a bar adds up. -/
theorem usedBy_append (fills more : List SimulatedFill) (id : String) :
    usedBy (fills ++ more) id = usedBy fills id + usedBy more id := by
  simp [usedBy]

/-- What fills use of a bar does not depend on their order. -/
theorem usedBy_perm {fills fills' : List SimulatedFill} (h : fills.Perm fills') (id : String) :
    usedBy fills id = usedBy fills' id :=
  ((h.filter _).map _).sum_eq

/-- Records without an execution bar use nothing. -/
theorem usedBy_noLaterBar (d : DateTime) (i : VersionRef) (q : Decimal) (at_ : DateTime)
    (source : PriceSourceType) (id : String) : usedBy [noLaterBar d i q at_ source] id = 0 := by
  simp [usedBy, noLaterBar]

/-- A bar without prices has no price to fill at. -/
theorem Bar.fillPrice_eq_none {bar : Bar} (h : bar.prices = none) : bar.fillPrice = none := by
  have hvwap : bar.vwap = none := by
    by_contra hsome
    obtain ⟨v, hv⟩ := Option.ne_none_iff_exists'.mp hsome
    obtain ⟨c, hc⟩ := bar.close_isSome_of_vwap hv
    rw [Bar.close, h] at hc
    cases hc
  rw [Bar.fillPrice, hvwap, h]

/-! ### The attempts in a bar -/

/-- The faces that the attempts in a bar executed, in their order and without signs. -/
def facesIn (log : List ReplayEvent) (id : String) : List Decimal :=
  log.filterMap fun
    | .settled _ fill _ => if fill.executionBar = some id then some |fill.quantity| else none
    | _ => none

/-- The face executed in a bar. -/
def executedIn (log : List ReplayEvent) (id : String) : Decimal := (facesIn log id).sum

/-- What two stretches of the log execute in a bar adds up. -/
theorem facesIn_append (log more : List ReplayEvent) (id : String) :
    facesIn (log ++ more) id = facesIn log id ++ facesIn more id :=
  List.filterMap_append

/-- An attempt adds its face to those of its own bar. -/
theorem facesIn_attempt {before after : ReplayLedger} {fill : SimulatedFill} {own : String}
    (hfill : fill.executionBar = some own) (id : String) :
    facesIn [.settled before fill after] id = if id = own then [|fill.quantity|] else [] := by
  by_cases hid : id = own
  · simp [facesIn, hfill, hid]
  · simp [facesIn, hfill, hid, Ne.symm hid]

section

variable [DecimalArithmetic]

/-- What one attempt uses: its own bar by its size, no other bar. -/
theorem usedBy_attemptRecords (terms : ReplayTerms) (trade : PendingTrade) (bar : Bar)
    (rest : List Bar) (attempt : SimulatedFill)
    (hbar : attempt.executionBar = some bar.sourceRecordId) (id : String) :
    usedBy (attemptRecords terms trade attempt rest) id =
      if id = bar.sourceRecordId then |attempt.quantity| else 0 := by
  have hone : usedBy [attempt] id = if id = bar.sourceRecordId then |attempt.quantity| else 0 := by
    by_cases hid : id = bar.sourceRecordId
    · simp [usedBy, hbar, hid]
    · simp [usedBy, hbar, hid, Ne.symm hid]
  unfold attemptRecords
  split
  · rw [show ∀ a b : SimulatedFill, [a, b] = [a] ++ [b] from fun _ _ => rfl, usedBy_append,
      usedBy_noLaterBar, add_zero, hone]
  · exact hone

/-- The face executed in a bar, as the loop adds it up. -/
def spentIn (log : List ReplayEvent) (id : String) : Decimal := sum (facesIn log id)

/-- Before an attempt in a bar no operator rounds in its favour: the cap is not rounded up, the face
    executed so far is not rounded down, and what is left is not rounded up. -/
structure CapKept (rules : ExecutionRules) (bar : Bar) (log : List ReplayEvent) : Prop where
  cap : times bar.volume.value rules.participationCap ≤ bar.volume.value * rules.participationCap
  spent : executedIn log bar.sourceRecordId ≤ spentIn log bar.sourceRecordId
  rest : capLeft bar (spentIn log bar.sourceRecordId) rules ≤
    times bar.volume.value rules.participationCap - spentIn log bar.sourceRecordId

/-- The cap is kept before every attempt in a bar. -/
def KeepsCap (rules : ExecutionRules) (bar : Bar) (log : List ReplayEvent) : Prop :=
  ∀ earlier before fill after later, log = earlier ++ .settled before fill after :: later →
    fill.executionBar = some bar.sourceRecordId → CapKept rules bar earlier

/-- A log that keeps the cap kept it at every earlier moment. -/
theorem KeepsCap.of_append {rules : ExecutionRules} {bar : Bar} {log more : List ReplayEvent}
    (h : KeepsCap rules bar (log ++ more)) : KeepsCap rules bar log := by
  intro earlier before fill after later hlog
  refine h earlier before fill after (later ++ more) ?_
  rw [hlog, List.append_assoc, List.cons_append]

/-- A log keeps the cap as soon as each of its beginnings does. -/
theorem KeepsCap.of_inits {rules : ExecutionRules} {bar : Bar} {log : List ReplayEvent}
    (h : ∀ earlier ∈ log.inits, CapKept rules bar earlier) : KeepsCap rules bar log := by
  intro earlier before fill after later hlog _
  exact h earlier ((List.mem_inits _ _).mpr ⟨_, hlog.symm⟩)

instance decidableCapKept (rules : ExecutionRules) (bar : Bar) (log : List ReplayEvent) :
    Decidable (CapKept rules bar log) :=
  decidable_of_iff
    (times bar.volume.value rules.participationCap ≤ bar.volume.value * rules.participationCap ∧
      executedIn log bar.sourceRecordId ≤ spentIn log bar.sourceRecordId ∧
      capLeft bar (spentIn log bar.sourceRecordId) rules ≤
        times bar.volume.value rules.participationCap - spentIn log bar.sourceRecordId)
    ⟨fun h => ⟨h.1, h.2.1, h.2.2⟩, fun h => ⟨h.cap, h.spent, h.rest⟩⟩

/-- **Numbers that fit keep the cap**: the operators are exact on them. -/
theorem CapKept.of_fits {rules : ExecutionRules} {bar : Bar} {log : List ReplayEvent}
    (hcap : RustDecimal.Fits (bar.volume.value * rules.participationCap : Decimal))
    (hspent : ∀ part, part <+: facesIn log bar.sourceRecordId → RustDecimal.Fits (part.sum : Decimal))
    (hrest : RustDecimal.Fits
      (bar.volume.value * rules.participationCap - executedIn log bar.sourceRecordId : Decimal)) :
    CapKept rules bar log := by
  have hproduct := times_exact hcap
  have hsum : spentIn log bar.sourceRecordId = executedIn log bar.sourceRecordId := sum_exact hspent
  refine ⟨le_of_eq hproduct, le_of_eq hsum.symm, le_of_eq ?_⟩
  rw [capLeft, hproduct, hsum]
  exact minus_exact hrest

/-- The face executed in a bar is within the bar's cap, where the cap is kept, and nothing without
    prices. -/
structure WithinCap (rules : ExecutionRules) (bar : Bar) (log : List ReplayEvent) : Prop where
  capped : KeepsCap rules bar log →
    executedIn log bar.sourceRecordId ≤ bar.volume.value * rules.participationCap
  unpriced : bar.prices = none → executedIn log bar.sourceRecordId = 0

/-- Nothing is executed in a bar before its first attempt. -/
theorem withinCap_fresh {rules : ExecutionRules} {bar : Bar} {log : List ReplayEvent}
    (h : facesIn log bar.sourceRecordId = []) : WithinCap rules bar log := by
  have hzero : executedIn log bar.sourceRecordId = 0 := by rw [executedIn, h, List.sum_nil]
  refine ⟨fun _ => ?_, fun _ => hzero⟩
  rw [hzero]
  exact mul_nonneg bar.volume_nonneg (le_of_lt rules.cap_pos)

/-- What happens elsewhere leaves a bar within its cap. -/
theorem WithinCap.append {rules : ExecutionRules} {bar : Bar} {log more : List ReplayEvent}
    (h : WithinCap rules bar log) (hmore : facesIn more bar.sourceRecordId = []) :
    WithinCap rules bar (log ++ more) := by
  have hsame : executedIn (log ++ more) bar.sourceRecordId = executedIn log bar.sourceRecordId := by
    rw [executedIn, facesIn_append, hmore, List.append_nil, executedIn]
  refine ⟨fun hkept => ?_, fun hprices => ?_⟩
  · rw [hsame]
    exact h.capped hkept.of_append
  · rw [hsame]
    exact h.unpriced hprices

/-- One more attempt in a bar stays within its cap. -/
theorem WithinCap.attempt {terms : ReplayTerms} {s : StepState} {trade : PendingTrade} {bar : Bar}
    {attempt : SimulatedFill} {ledger : ReplayLedger} (h : WithinCap terms.rules bar s.log)
    (hattempt : checkedAttempt terms s trade bar = .ok attempt)
    (hused : spentIn s.log bar.sourceRecordId = s.usedIn bar) :
    WithinCap terms.rules bar (s.log ++ [.settled s.ledger attempt ledger]) := by
  have hbar : attempt.executionBar = some bar.sourceRecordId :=
    (checkedAttempt_fields hattempt).2.2.2.2.1
  have hle : |attempt.quantity| ≤ |(rawAttempt terms s trade bar).quantity| :=
    (checkedAttempt_partOf_raw hattempt).abs_le
  -- What the bar executes grows by this attempt.
  have hsum : executedIn (s.log ++ [.settled s.ledger attempt ledger]) bar.sourceRecordId =
      executedIn s.log bar.sourceRecordId + |attempt.quantity| := by
    rw [executedIn, facesIn_append, facesIn_attempt hbar, if_pos rfl, List.sum_append,
      List.sum_singleton, executedIn]
  refine ⟨fun hkept => ?_, fun hprices => ?_⟩ <;> rw [hsum]
  · have hcapped := h.capped hkept.of_append
    obtain ⟨hcap, hspent, hrest⟩ := hkept s.log s.ledger attempt ledger [] rfl hbar
    rw [hused] at hspent hrest
    -- The raw attempt stays within what the cap leaves, and the constraints only reduce it.
    have hwithin : (rawAttempt terms s trade bar).quantity = 0 ∨
        |(rawAttempt terms s trade bar).quantity| ≤ capLeft bar (s.usedIn bar) terms.rules :=
      attemptInBar_within_cap ..
    rcases hwithin with hzero | hroom
    · rw [hzero, abs_zero] at hle
      linarith
    · linarith
  · have hzero : (rawAttempt terms s trade bar).quantity = 0 :=
      attemptInBar_unpriced _ _ _ _ _ _ _ (Bar.fillPrice_eq_none hprices)
    rw [hzero, abs_zero] at hle
    rw [h.unpriced hprices, zero_add]
    exact le_antisymm hle (abs_nonneg _)

/-! ### Inside a step -/

/-- Between two attempts of the step ending at `stepEnd`: the `used` map is what the log says for
    the bars of the step, every bar is within its cap, and `others` bars are as they were. -/
structure StepUsage (terms : ReplayTerms) (covered : List Bar) (stepEnd : DateTime)
    (before : List ReplayEvent) (todo : List PendingTrade) (s : StepState) : Prop where
  bars_covered : ∀ trade ∈ todo, ∀ bar ∈ trade.bars, bar ∈ covered
  in_step : ∀ bar ∈ covered, bar.barEnd = stepEnd → spentIn s.log bar.sourceRecordId = s.usedIn bar
  capped : ∀ bar ∈ covered, WithinCap terms.rules bar s.log
  recorded : ∀ id, usedBy s.fills id = executedIn s.log id
  others : ∀ id, (∀ bar ∈ covered, bar.barEnd = stepEnd → bar.sourceRecordId ≠ id) →
    facesIn s.log id = facesIn before id

/-- The bars of a trade only get fewer. -/
theorem mem_afterAttempt_bars {trade : PendingTrade} {attempt : SimulatedFill} {rest : List Bar}
    {b : Bar} (h : b ∈ (trade.afterAttempt attempt rest).bars) : b ∈ rest := by
  unfold PendingTrade.afterAttempt at h
  split at h
  · exact h
  · cases h

/-- One due trade books what it executes on the bar it executes in, and on no other. -/
theorem executeDue_usage {terms : ReplayTerms} {covered : List Bar} {stepEnd : DateTime}
    {before : List ReplayEvent} (hids : (covered.map Bar.sourceRecordId).Nodup)
    {trade trade' : PendingTrade} {todo : List PendingTrade} {s s' : StepState}
    (hs : StepUsage terms covered stepEnd before (trade :: todo) s)
    (h : executeDue terms stepEnd s trade = .ok (s', trade')) :
    StepUsage terms covered stepEnd before todo s' ∧ ∀ bar ∈ trade'.bars, bar ∈ covered := by
  have htodo : ∀ t ∈ todo, ∀ bar ∈ t.bars, bar ∈ covered :=
    fun t ht => hs.bars_covered t (List.mem_cons_of_mem _ ht)
  have hmine := hs.bars_covered trade List.mem_cons_self
  rcases executeDue_cases h with ⟨rfl, rfl, -⟩ |
    ⟨bar, rest, attempt, ledger, hbars, hend, -, hattempt, -, rfl, rfl⟩
  · exact ⟨⟨htodo, hs.in_step, hs.capped, hs.recorded, hs.others⟩, hmine⟩
  · have hbar : bar ∈ covered := hmine bar (hbars ▸ List.mem_cons_self)
    have hexec : attempt.executionBar = some bar.sourceRecordId :=
      (checkedAttempt_fields hattempt).2.2.2.2.1
    -- Only the bar it executes in is used.
    have hnew : ∀ id, facesIn (s.afterAttempt terms trade bar rest attempt ledger).log id =
        facesIn s.log id ++ if id = bar.sourceRecordId then [|attempt.quantity|] else [] := by
      intro id
      rw [← facesIn_attempt hexec, ← facesIn_append]
      rfl
    have hsame : ∀ b ∈ covered, b.sourceRecordId = bar.sourceRecordId → b = bar :=
      fun b hb e => List.inj_on_of_nodup_map hids hb hbar e
    refine ⟨⟨htodo, ?_, ?_, ?_, ?_⟩, ?_⟩
    · intro b hb hbe
      have husedIn : (s.afterAttempt terms trade bar rest attempt ledger).usedIn b =
          if b.sourceRecordId = bar.sourceRecordId then plus (s.usedIn bar) |attempt.quantity|
          else s.usedIn b := by
        simp only [StepState.usedIn, StepState.afterAttempt, SortedMap.get?_insert]
        split <;> rfl
      rw [spentIn, hnew, husedIn]
      by_cases hid : b.sourceRecordId = bar.sourceRecordId
      · rw [if_pos hid, if_pos hid, sum_append, hid]
        exact congrArg (plus · _) (hs.in_step bar hbar hend)
      · rw [if_neg hid, if_neg hid, List.append_nil]
        exact hs.in_step b hb hbe
    · intro b hb
      by_cases hid : b.sourceRecordId = bar.sourceRecordId
      · rw [hsame b hb hid]
        exact (hs.capped bar hbar).attempt hattempt (hs.in_step bar hbar hend)
      · exact (hs.capped b hb).append ((facesIn_attempt hexec _).trans (if_neg hid))
    · intro id
      show usedBy (s.fills ++ attemptRecords terms trade attempt rest) id = _
      rw [usedBy_append, usedBy_attemptRecords terms trade bar rest attempt hexec, hs.recorded id,
        executedIn, executedIn, hnew, List.sum_append]
      congr 1
      split
      · rw [List.sum_singleton]
      · rw [List.sum_nil]
    · intro id hid
      rw [hnew, if_neg (fun e => hid bar hbar hend e.symm), List.append_nil]
      exact hs.others id hid
    · intro b hb
      exact hmine b (hbars ▸ List.mem_cons_of_mem _ (mem_afterAttempt_bars hb))

/-! ### Over a run -/

/-- Between two steps: pending trades wait for covered bars, every bar is within its cap, and
    nothing is executed in a bar of an open step or in a bar that is not covered. -/
structure RunUsage (rules : ExecutionRules) (covered : List Bar) (r : Replay) : Prop where
  bars_covered : ∀ trade ∈ r.pending, ∀ bar ∈ trade.bars, bar ∈ covered
  capped : ∀ bar ∈ covered, WithinCap rules bar r.log
  recorded : ∀ id, usedBy r.fills id = executedIn r.log id
  untouched : ∀ bar ∈ covered, (∃ step ∈ r.steps, step.1 = bar.barEnd) →
    facesIn r.log bar.sourceRecordId = []
  foreign : ∀ id, (∀ bar ∈ covered, bar.sourceRecordId ≠ id) → facesIn r.log id = []

/-- One step of the replay keeps the account of what each bar has been used for. -/
theorem runStep_usage {terms : ReplayTerms} {covered : List Bar}
    (hids : (covered.map Bar.sourceRecordId).Nodup) {r r' : Replay} {step : Step} {rest : List Step}
    (hr : RunUsage terms.rules covered r) (hsteps : r.steps = step :: rest)
    (hsorted : (step :: rest).Pairwise fun a b => a.1 < b.1)
    (h : runStep terms { r with steps := rest } step = .ok r') :
    RunUsage terms.rules covered r' := by
  obtain ⟨opened, s, pending, finished, -, hexec, -, rfl⟩ := runStep_ok h
  -- A bar that ends with the step has not been used before.
  have hstart : StepUsage terms covered step.1 r.log r.pending ⟨opened, ∅, r.fills, r.log⟩ := by
    refine ⟨hr.bars_covered, ?_, hr.capped, hr.recorded, fun _ _ => rfl⟩
    intro bar hbar hend
    have hnone := hr.untouched bar hbar ⟨step, hsteps ▸ List.mem_cons_self, hend.symm⟩
    show sum (facesIn r.log bar.sourceRecordId) = 0
    rw [hnone]
    rfl
  obtain ⟨husage, hcovered⟩ := executeAll_rule
    (P := fun done todo s => StepUsage terms covered step.1 r.log todo s ∧
      ∀ trade ∈ done, ∀ bar ∈ trade.bars, bar ∈ covered)
    (fun done trade todo s s' trade' hP hdue => by
      obtain ⟨hs', htrade'⟩ := executeDue_usage hids hP.1 hdue
      refine ⟨hs', fun t ht => ?_⟩
      rcases List.mem_append.mp ht with ht | ht
      · exact hP.2 t ht
      · rw [List.mem_singleton.mp ht]; exact htrade')
    ⟨hstart, by simp⟩ hexec
  refine ⟨?_, husage.capped, husage.recorded, ?_, ?_⟩
  · intro trade ht
    exact hcovered trade (by simpa using (List.mem_filter.mp ht).1)
  · rintro bar hbar ⟨later, hlater, hend⟩
    have hlt : step.1 < bar.barEnd := hend ▸ (List.pairwise_cons.mp hsorted).1 later hlater
    have hother : ∀ b ∈ covered, b.barEnd = step.1 → b.sourceRecordId ≠ bar.sourceRecordId := by
      intro b hb hbe hid
      rw [List.inj_on_of_nodup_map hids hb hbar hid] at hbe
      exact absurd hbe (ne_of_gt hlt)
    show facesIn s.log bar.sourceRecordId = []
    rw [husage.others _ hother]
    exact hr.untouched bar hbar ⟨later, hsteps ▸ List.mem_cons_of_mem _ hlater, hend⟩
  · intro id hid
    show facesIn s.log id = []
    rw [husage.others id fun bar hbar _ => hid bar hbar]
    exact hr.foreign id hid

/-- What is not an attempt leaves the usage of the bars as it is. -/
theorem RunUsage.append {rules : ExecutionRules} {covered : List Bar} {r : Replay}
    (hr : RunUsage rules covered r) (event : ReplayEvent) (hevent : ∀ id, facesIn [event] id = []) :
    RunUsage rules covered { r with log := r.log ++ [event] } := by
  have hsame : ∀ id, facesIn (r.log ++ [event]) id = facesIn r.log id := by
    intro id
    rw [facesIn_append, hevent, List.append_nil]
  refine ⟨hr.bars_covered, fun bar hbar => (hr.capped bar hbar).append (hevent _), ?_, ?_, ?_⟩
  · intro id
    show usedBy r.fills id = executedIn (r.log ++ [event]) id
    rw [executedIn, hsame]
    exact hr.recorded id
  · intro bar hbar hstep
    exact (hsame _).trans (hr.untouched bar hbar hstep)
  · intro id hid
    exact (hsame id).trans (hr.foreign id hid)

/-- Registering a delta uses nothing of any bar. -/
theorem register_usage {terms : ReplayTerms} {covered : List Bar} {d : DateTime} {r : Replay}
    {delta : VersionRef × Decimal} (hr : RunUsage terms.rules covered r) :
    RunUsage terms.rules covered
      (r.register terms d delta.1 delta.2 (eligibleBars covered d delta.1)) := by
  have hlogged := hr.append (.registered d delta.1 delta.2) fun _ => rfl
  rcases register_cases terms d r delta.1 delta.2 (eligibleBars covered d delta.1) with
    ⟨-, heq⟩ | ⟨-, heq⟩ <;> rw [heq]
  · refine ⟨hlogged.bars_covered, hlogged.capped, ?_, hlogged.untouched, hlogged.foreign⟩
    intro id
    show usedBy (r.fills ++ [noLaterBar d delta.1 delta.2 d terms.priceSource]) id = _
    rw [usedBy_append, usedBy_noLaterBar, add_zero]
    exact hlogged.recorded id
  · refine ⟨?_, hlogged.capped, hlogged.recorded, hlogged.untouched, hlogged.foreign⟩
    intro trade ht bar hbar
    rcases List.mem_append.mp ht with ht | ht
    · exact hr.bars_covered trade ht bar hbar
    · rw [List.mem_singleton.mp ht] at hbar
      exact (List.mem_filter.mp ((List.perm_insertionSort _ _).mem_iff.mp hbar)).1

/-- **A completed run accounts for every use of every bar.** -/
theorem CompletedRun.usage {digest : List UInt8 → ContentHash} {request : BarReplayRequest}
    {result : SimulationResult} {closed : Replay}
    (run : CompletedRun digest request result closed)
    (hids : (request.covered.map Bar.sourceRecordId).Nodup) :
    RunUsage request.policy.input.execution request.covered closed := by
  refine (run.invariant (P := fun _ r => RunUsage run.terms.rules request.covered r) ?_ ?_ ?_).1
  · exact ⟨by simp [Replay.start], fun bar _ => withinCap_fresh rfl, fun _ => rfl, fun _ _ _ => rfl,
      fun _ _ => rfl⟩
  · intro _ r step rest r' hr hsteps hsuffix hrun
    exact runStep_usage hids hr hsteps ((stepsOf_sorted _).sublist hsuffix.sublist) hrun
  · intro _ d r target hr _ _ _
    exact registerAll_induct (P := RunUsage run.terms.rules request.covered)
      (fun _ _ hr => register_usage hr) (hr.append _ fun _ => rfl)

/-- **Participation cap across trades.**  Over a snapshot with distinct record ids, the face all
    fills of a successful replay execute in a bar is at most the bar's volume times the cap, when no
    operator rounds in favour of an attempt in the bar, and nothing in a bar without prices. -/
theorem participation_within_cap (digest : List UInt8 → ContentHash) (request : BarReplayRequest)
    (result : SimulationResult) (closed : Replay)
    (hrun : replayRun digest request = .ok (result, closed))
    (hids : (request.data.allBars.map Bar.sourceRecordId).Nodup) (bar : Bar)
    (hbar : bar ∈ request.data.allBars) :
    (KeepsCap request.policy.input.execution bar closed.log →
      ((result.content.fills.filter fun fill => fill.executionBar = some bar.sourceRecordId).map
          fun fill => |fill.quantity|).sum ≤
        bar.volume.value * request.policy.input.execution.participationCap) ∧
    (bar.prices = none →
      ((result.content.fills.filter fun fill => fill.executionBar = some bar.sourceRecordId).map
        fun fill => |fill.quantity|).sum = 0) := by
  obtain ⟨run⟩ := replayRun_completed hrun
  have hsub : request.covered.Sublist request.data.allBars := List.filter_sublist
  have husage := run.usage (hids.sublist (hsub.map _))
  have hperm : (closed.sortedFills).Perm closed.fills := List.perm_insertionSort _ _
  have hused : usedBy result.content.fills bar.sourceRecordId =
      executedIn closed.log bar.sourceRecordId := by
    rw [run.content]
    exact (usedBy_perm hperm _).trans (husage.recorded _)
  have hwithin : WithinCap request.policy.input.execution bar closed.log := by
    by_cases hcovered : bar ∈ request.covered
    · exact husage.capped bar hcovered
    · -- no trade waits for a bar that is not covered
      refine withinCap_fresh (husage.foreign _ fun b hb hid => hcovered ?_)
      rw [← List.inj_on_of_nodup_map hids (hsub.subset hb) hbar hid]
      exact hb
  show (_ → usedBy result.content.fills bar.sourceRecordId ≤ _) ∧
    (_ → usedBy result.content.fills bar.sourceRecordId = 0)
  rw [hused]
  exact ⟨hwithin.capped, hwithin.unpriced⟩

end

/-! ### With operators that round -/

section

open RoundedDecimals

/-- A purchase of 10 in a bar that may take it all. -/
theorem participation_within_cap_next : ∃ result closed,
    replayRun SmallMarket.digest (SmallMarket.request .carry [SmallMarket.cheap, SmallMarket.next]) =
      .ok (result, closed) ∧
    KeepsCap (.uncapped .carry) SmallMarket.next closed.log ∧
    ((result.content.fills.filter fun fill => fill.executionBar = some "b1").map
      fun fill => |fill.quantity|).sum ≤ SmallMarket.next.volume.value * 1 := by
  obtain ⟨⟨result, closed⟩, hrun, hkept⟩ := exists_ok_of_any
    (x := replayRun SmallMarket.digest
      (SmallMarket.request .carry [SmallMarket.cheap, SmallMarket.next]))
    (p := fun out => out.2.log.inits.all fun earlier =>
      CapKept (.uncapped .carry) SmallMarket.next earlier) (by decide +kernel)
  have hkeeps : KeepsCap (.uncapped .carry) SmallMarket.next closed.log := by
    refine .of_inits fun earlier hearlier => ?_
    simpa using List.all_eq_true.mp hkept earlier hearlier
  exact ⟨result, closed, hrun, hkeeps, (participation_within_cap _ _ result closed hrun
    (by decide +kernel) SmallMarket.next (by decide +kernel)).1 hkeeps⟩

/-- **The cap is exceeded.**  A third of a volume of 100000003, to 28 places, has more digits than a
    decimal can hold.  It is rounded up, and a trade of 10^9 takes all of it. -/
theorem participation_cap_exceeded : ∃ result closed,
    replayRun SmallMarket.digest (SmallMarket.thirds [SmallMarket.cheap, SmallMarket.large]) =
      .ok (result, closed) ∧
    ([SmallMarket.cheap, SmallMarket.large].map Bar.sourceRecordId).Nodup ∧
    ((result.content.fills.filter fun fill => fill.executionBar = some "b1").map
      fun fill => |fill.quantity|) = [.scaled 3333333433333333333333333333 20] ∧
    ¬((result.content.fills.filter fun fill => fill.executionBar = some "b1").map
        fun fill => |fill.quantity|).sum ≤
      SmallMarket.large.volume.value * SmallMarket.thirdsInput.execution.participationCap := by
  obtain ⟨⟨result, closed⟩, hrun, hfaces⟩ := exists_ok_of_any
    (x := replayRun SmallMarket.digest (SmallMarket.thirds [SmallMarket.cheap, SmallMarket.large]))
    (p := fun out => ((out.1.content.fills.filter fun fill => fill.executionBar = some "b1").map
      fun fill => |fill.quantity|) = [.scaled 3333333433333333333333333333 20]) (by decide +kernel)
  have hfaces := of_decide_eq_true hfaces
  refine ⟨result, closed, hrun, by decide +kernel, hfaces, ?_⟩
  rw [hfaces]
  decide +kernel

end

end Ficant
