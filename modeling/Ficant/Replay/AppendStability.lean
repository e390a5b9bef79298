import Ficant.Lib.StableSort
import Ficant.Replay.LedgerRules
import Ficant.Replay.Lockstep

namespace Ficant

open Lib

/-!
# Appending later bars

Two replays, over a snapshot and over the same snapshot with further bars that start at `t` or later
and become visible after `t`.  Up to `t` both close the same steps and decide on the same views, so
the only way they part is through the bars a trade has left: a trade without a bar left is recorded
at once, and appended bars are bars left.

* `KeepsBars` — the trades decided by `t` have a bar left without the appended ones;
* `append_stable` — under it the results through `t` agree;
* `append_changes_past` — without it they need not.
-/

/-! ### Appended bars -/

/-- `b` is `a` with `further` bars, which start at `t` or later and become visible after `t`. -/
structure Appended (t : DateTime) (further a b : List Bar) : Prop where
  kept : b.filter (fun bar => bar ∉ further) = a
  later : ∀ bar ∈ further, t ≤ bar.barStart ∧ t < bar.visibleAt

/-- Whether a trade still has a bar left at `t`: one to carry a remainder to when remainders are
    carried, any bar when the first attempt is the last. -/
def Lasting (t : DateTime) (remainder : RemainderHandling) (bars : List Bar) : Prop :=
  ∃ bar ∈ bars, remainder = .carry → t < bar.barEnd

/-- Trades decided by `t` have a bar left at `t` in every instrument that gets an appended bar. -/
def KeepsBars (t : DateTime) (remainder : RemainderHandling) (further covered : List Bar) : Prop :=
  ∀ bar ∈ further, ∀ d ∈ decisionTimes covered, d ≤ t →
    Lasting t remainder (eligibleBars covered d bar.instrument)

namespace Appended

variable {t : DateTime} {further a b : List Bar}

/-- Bars that are appended end after the cut. -/
theorem end_gt (h : Appended t further a b) {bar : Bar} (hbar : bar ∈ further) : t < bar.barEnd :=
  lt_of_le_of_lt (h.later bar hbar).1 bar.start_lt_end

/-- Selecting bars of both. -/
theorem filter (h : Appended t further a b) (p : Bar → Bool) :
    Appended t further (a.filter p) (b.filter p) := by
  refine ⟨?_, h.later⟩
  rw [List.filter_comm, h.kept]

/-- A selection that leaves out the appended bars is the same in both. -/
theorem filter_eq (h : Appended t further a b) {p : Bar → Bool}
    (hp : ∀ bar ∈ further, p bar = false) : b.filter p = a.filter p := by
  rw [← h.kept, List.filter_filter]
  refine List.filter_congr fun bar _ => ?_
  by_cases hbar : bar ∈ further
  · simp [hbar, hp bar hbar]
  · simp [hbar]

/-- The times by `t` of a kind that appended bars only have later. -/
theorem sortedSet_eq (h : Appended t further a b) {key : Bar → DateTime}
    (hkey : ∀ bar ∈ further, t < key bar) :
    (SortedMap.sortedSet (b.map key)).filter (fun e => e ≤ t) =
      (SortedMap.sortedSet (a.map key)).filter fun e => e ≤ t := by
  refine SortedMap.eq_of_sorted_of_mem_iff (List.Pairwise.filter _ (SortedMap.sortedSet_sorted _))
    (List.Pairwise.filter _ (SortedMap.sortedSet_sorted _)) fun e => ?_
  by_cases he : e ≤ t
  · have hsame : b.filter (fun bar => key bar = e) = a.filter fun bar => key bar = e :=
      h.filter_eq fun bar hbar => by simpa using ne_of_gt (lt_of_le_of_lt he (hkey bar hbar))
    have hmem : ∀ l : List Bar, e ∈ l.map key ↔ l.filter (fun bar => key bar = e) ≠ [] := by
      intro l
      rw [List.mem_map, ne_eq, List.filter_eq_nil_iff]
      simp
    rw [List.mem_filter, List.mem_filter, SortedMap.mem_sortedSet, SortedMap.mem_sortedSet, hmem,
      hmem, hsame]
  · simp [List.mem_filter, he]

/-- The decisions by `t` are the same. -/
theorem decisionTimes_eq (h : Appended t further a b) :
    (decisionTimes b).filter (fun d => d ≤ t) = (decisionTimes a).filter fun d => d ≤ t :=
  h.sortedSet_eq fun bar hbar => (h.later bar hbar).2

/-- The steps that end by `t` are the same. -/
theorem stepsOf_eq (h : Appended t further a b) :
    (stepsOf b).filter (due (some t)) = (stepsOf a).filter (due (some t)) := by
  have hdue : ∀ step : Step, due (some t) step = decide (step.1 ≤ t) := by
    intro step
    simp [due]
  have hcut : ∀ l : List Bar, (stepsOf l).filter (due (some t)) =
      ((SortedMap.sortedSet (l.map Bar.barEnd)).filter fun e => e ≤ t).map
        fun e => (e, l.filter fun bar => bar.barEnd = e) := by
    intro l
    rw [List.filter_congr fun step _ => hdue step, stepsOf, SortedMap.groupBy_entries,
      List.filter_map]
    rfl
  rw [hcut, hcut, h.sortedSet_eq fun bar hbar => h.end_gt hbar]
  refine List.map_congr_left fun e he => ?_
  have hle : e ≤ t := by simpa using (List.mem_filter.mp he).2
  rw [h.filter_eq fun bar hbar => by simpa using ne_of_gt (lt_of_le_of_lt hle (h.end_gt hbar))]

/-- The bars a trade may execute in. -/
theorem eligibleBars_filter (h : Appended t further a b) (d : DateTime) (i : VersionRef) :
    (eligibleBars b d i).filter (fun bar => bar ∉ further) = eligibleBars a d i := by
  have hsort := filter_insertionSort (fun x y : Bar => x.scheduleKey ≤ y.scheduleKey)
    (fun bar => decide (bar ∉ further))
    (b.filter fun bar => bar.instrument = i ∧ bar.barStart ≥ d)
  unfold eligibleBars
  rw [hsort, List.filter_comm, h.kept]

end Appended

section

variable [DecimalArithmetic]

/-! ### Trades with and without the appended bars -/

/-- Where remainders are cancelled, no attempt carries anything on. -/
theorem checkedAttempt_not_carried {terms : ReplayTerms} (hcancel : terms.rules.remainder = .cancel)
    {s : StepState} {trade : PendingTrade} {bar : Bar} {attempt : SimulatedFill}
    (h : checkedAttempt terms s trade bar = .ok attempt) : attempt.carried = false := by
  have hraw : (rawAttempt terms s trade bar).carried = false := by
    simp only [rawAttempt, attemptInBar, SimulatedFill.carried, hcancel]
    split <;> split <;> rfl
  rcases checkedAttempt_cases h with ⟨rfl, -⟩ | ⟨_, _, -, -, -, rfl | ⟨outcome, hout⟩⟩
  · exact hraw
  · exact hraw
  · rw [hout]; exact SimulatedFill.constrain_not_carried _ _ _

/-- One trade in both replays: the second one has the appended bars too, and either there are none
    or the first one has a bar left at `t`. -/
structure SameBarsLeft (t : DateTime) (remainder : RemainderHandling) (further : List Bar)
    (trade trade' : PendingTrade) : Prop extends SameOrder trade trade' where
  intent : trade'.intent = trade.intent
  bars : trade'.bars.filter (fun bar => bar ∉ further) = trade.bars
  sorted : trade'.bars.Pairwise fun x y => x.barStart ≤ y.barStart
  lasting : trade'.bars = trade.bars ∨ Lasting t remainder trade.bars

section Attempts

variable {t : DateTime} {further : List Bar} {terms : ReplayTerms}

omit [DecimalArithmetic] in
/-- After an attempt by `t`, the bars left of a trade that carries on are none in both replays or in
    neither. -/
theorem SameBarsLeft.rest {a a' : PendingTrade} (ha : SameBarsLeft t .carry further a a') {bar : Bar}
    {rest' : List Bar} (hcons' : a'.bars = bar :: rest') (hkept : bar ∉ further)
    (hend : bar.barEnd ≤ t) :
    (rest' = rest'.filter (fun bar => bar ∉ further) ∨
        Lasting t .carry (rest'.filter fun bar => bar ∉ further)) ∧
      (rest'.filter (fun bar => bar ∉ further) = [] ↔ rest' = []) := by
  have hbars := ha.bars
  rw [hcons', List.filter_cons_of_pos (by simpa using hkept)] at hbars
  have hlasting : rest' = rest'.filter (fun bar => bar ∉ further) ∨
      Lasting t .carry (rest'.filter fun bar => bar ∉ further) := by
    rcases ha.lasting with heq | ⟨c, hc, hlast⟩
    · rw [hcons', ← hbars] at heq
      exact .inl (List.cons.inj heq).2
    · rw [← hbars] at hc
      rcases List.mem_cons.mp hc with rfl | hc
      · exact absurd (lt_of_lt_of_le (hlast rfl) hend) (lt_irrefl _)
      · exact .inr ⟨c, hc, hlast⟩
  refine ⟨hlasting, ?_⟩
  rcases hlasting with heq | ⟨c, hc, -⟩
  · rw [← heq]
  · exact ⟨fun h => absurd (h ▸ hc) (by simp),
      fun h => absurd (h ▸ List.mem_of_mem_filter hc) (by simp)⟩

/-- One attempt by `t` in a bar both replays have: the same records, and trades that still
    correspond. -/
theorem attempt_append {s : StepState} {a a' : PendingTrade}
    (ha : SameBarsLeft t terms.rules.remainder further a a') {bar : Bar} {rest' : List Bar}
    (hcons' : a'.bars = bar :: rest') (hkept : bar ∉ further) (hend : bar.barEnd ≤ t)
    {attempt : SimulatedFill} (hattempt : checkedAttempt terms s a bar = .ok attempt) :
    attemptRecords terms a' attempt rest' =
        attemptRecords terms a attempt (rest'.filter fun bar => bar ∉ further) ∧
      SameBarsLeft t terms.rules.remainder further
        (a.afterAttempt attempt (rest'.filter fun bar => bar ∉ further))
        (a'.afterAttempt attempt rest') := by
  have hdone : SameBarsLeft t terms.rules.remainder further
      { a with intent := 0, remaining := 0, bars := [] }
      { a with intent := 0, remaining := 0, bars := [] } :=
    ⟨⟨rfl, rfl, rfl⟩, rfl, rfl, .nil, .inl rfl⟩
  unfold attemptRecords PendingTrade.afterAttempt
  rw [ha.decisionTime, ha.instrument, ha.remaining]
  -- A carried remainder goes to the next bar, the same one in both runs if there is any.
  by_cases hc : attempt.carried = true
  · have hcarry : terms.rules.remainder = .carry := by
      cases hr : terms.rules.remainder with
      | carry => rfl
      | cancel =>
        rw [checkedAttempt_not_carried hr hattempt] at hc
        cases hc
    obtain ⟨hlasting, hnil⟩ := (hcarry ▸ ha).rest hcons' hkept hend
    refine ⟨by simp only [hc, true_and, hnil], ?_⟩
    by_cases hrest : rest' = []
    · rw [if_neg (by rw [hnil.mpr hrest]; simp), if_neg (by simp [hrest])]
      exact hdone
    · rw [if_pos ⟨hc, fun h => hrest (hnil.mp h)⟩, if_pos ⟨hc, hrest⟩]
      have hsorted := ha.sorted
      rw [hcons'] at hsorted
      exact ⟨⟨rfl, rfl, rfl⟩, rfl, rfl, (List.pairwise_cons.mp hsorted).2, hcarry.symm ▸ hlasting⟩
  · rw [if_neg (by simp [hc]), if_neg (by simp [hc]), if_neg (by simp [hc]), if_neg (by simp [hc])]
    exact ⟨rfl, hdone⟩

/-- An attempt by `t`. -/
theorem executeDue_append (hlater : ∀ bar ∈ further, t < bar.barEnd ∧ t ≤ bar.barStart)
    {stepEnd : DateTime} (hend : stepEnd ≤ t) {s s' s₁ s₁' : StepState} {a a' a₁ a₁' : PendingTrade}
    (hs : s = s') (ha : SameBarsLeft t terms.rules.remainder further a a')
    (h : executeDue terms stepEnd s a = .ok (s₁, a₁))
    (h' : executeDue terms stepEnd s' a' = .ok (s₁', a₁')) :
    s₁ = s₁' ∧ SameBarsLeft t terms.rules.remainder further a₁ a₁' := by
  subst hs
  have hbars := ha.bars
  have hsorted := ha.sorted
  cases hcons' : a'.bars with
  | nil =>
    rw [hcons'] at hbars
    have hnil : a.bars = [] := hbars.symm
    rw [executeDue, hnil] at h
    rw [executeDue, hcons'] at h'
    cases h; cases h'
    exact ⟨rfl, ha⟩
  | cons bar rest' =>
    rw [hcons'] at hbars hsorted
    by_cases hnew : bar ∈ further
    · -- An appended bar comes first: nothing is due by `t` in either replay.
      have hskip : ∀ x ∈ a'.bars, x.barEnd ≠ stepEnd := by
        intro x hx hxe
        have hstart : t ≤ x.barStart := by
          rw [hcons'] at hx
          rcases List.mem_cons.mp hx with rfl | hx
          · exact (hlater x hnew).2
          · exact le_trans (hlater bar hnew).2 ((List.pairwise_cons.mp hsorted).1 x hx)
        have := lt_of_le_of_lt hstart x.start_lt_end
        exact absurd (lt_of_lt_of_le this (hxe ▸ hend)) (lt_irrefl _)
      have hskipA : ∀ x ∈ a.bars, x.barEnd ≠ stepEnd := fun x hx =>
        hskip x (List.mem_of_mem_filter (ha.bars ▸ hx))
      rcases executeDue_cases h with ⟨rfl, rfl, -⟩ | ⟨x, _, _, _, hx, hxe, -⟩
      · rcases executeDue_cases h' with ⟨rfl, rfl, -⟩ | ⟨x, _, _, _, hx, hxe, -⟩
        · exact ⟨rfl, ha⟩
        · exact absurd hxe (hskip x (hx ▸ List.mem_cons_self))
      · exact absurd hxe (hskipA x (hx ▸ List.mem_cons_self))
    · rw [List.filter_cons_of_pos (by simpa using hnew)] at hbars
      rcases executeDue_cases h with ⟨rfl, rfl, hskip⟩ |
        ⟨x, rest, attempt, ledger, hx, hxe, hne, hattempt, hsettle, rfl, rfl⟩
      · rcases executeDue_cases h' with ⟨rfl, rfl, -⟩ | ⟨x, _, _, _, hx, hxe, hne', -⟩
        · exact ⟨rfl, ha⟩
        · rw [hcons'] at hx
          cases hx
          exact absurd hxe (hskip (ha.remaining ▸ hne') _ _ hbars.symm)
      · rw [← hbars] at hx
        cases hx
        rcases executeDue_cases h' with ⟨-, -, hskip'⟩ |
          ⟨y, rest₂, attempt', ledger', hy, -, -, hattempt', hsettle', rfl, rfl⟩
        · exact absurd hxe (hskip' (ha.remaining.symm ▸ hne) _ _ hcons')
        · rw [hcons'] at hy
          cases hy
          obtain rfl : attempt = attempt' := by
            have hsame : checkedAttempt terms s a' bar = checkedAttempt terms s a bar := by
              simp only [checkedAttempt, ha.decisionTime, ha.instrument, ha.remaining]
            exact Except.ok.inj (hattempt.symm.trans (hsame ▸ hattempt'))
          obtain rfl : ledger = ledger' := Except.ok.inj (hsettle.symm.trans hsettle')
          obtain ⟨hrecords, htrade⟩ := attempt_append ha hcons' hnew (hxe ▸ hend) hattempt
          exact ⟨by simp only [StepState.afterAttempt, hrecords], htrade⟩

end Attempts

/-! ### The loop up to `t` -/

/-- Replays that have done the same so far. -/
structure SameHistory (t : DateTime) (remainder : RemainderHandling) (further : List Bar)
    (r r' : Replay) : Prop where
  ledger : r.ledger = r'.ledger
  fills : r.fills = r'.fills
  log : r.log = r'.log
  pending : List.Forall₂ (SameBarsLeft t remainder further) r.pending r'.pending
  steps : r.steps.filter (due (some t)) = r'.steps.filter (due (some t))
  sorted : r.steps.Pairwise fun a b => a.1 < b.1
  sorted' : r'.steps.Pairwise fun a b => a.1 < b.1

section History

variable {t : DateTime} {further : List Bar} {terms : ReplayTerms}

/-- Closing one step that ends by `t`. -/
theorem runStep_append (hlater : ∀ bar ∈ further, t < bar.barEnd ∧ t ≤ bar.barStart) {x : Step}
    (hx : x.1 ≤ t) {r r' r₁ r₁' : Replay}
    (hr : SameHistory t terms.rules.remainder further r r') (h : runStep terms r x = .ok r₁)
    (h' : runStep terms r' x = .ok r₁') :
    SameHistory t terms.rules.remainder further r₁ r₁' := by
  obtain ⟨opened, s, pending, finished, hopen, hexec, hfinish, rfl⟩ := runStep_ok h
  obtain ⟨opened', s', pending', finished', hopen', hexec', hfinish', rfl⟩ := runStep_ok h'
  rw [← hr.ledger] at hopen'
  obtain rfl : opened = opened' := Except.ok.inj (hopen.symm.trans hopen')
  rw [← hr.fills, ← hr.log] at hexec'
  obtain ⟨rfl, hpending⟩ := executeAll_lockstep (S := Eq)
    (fun _ _ _ _ _ _ _ _ hs ha h h' => executeDue_append hlater hx hs ha h h')
    hr.pending rfl hexec hexec'
  obtain rfl : finished = finished' := Except.ok.inj (hfinish.symm.trans hfinish')
  exact ⟨rfl, rfl, rfl, forall₂_retain hpending fun _ _ h => h.remaining.symm, hr.steps, hr.sorted,
    hr.sorted'⟩

/-- Advancing to a time by `t`. -/
theorem advance_append (hlater : ∀ bar ∈ further, t < bar.barEnd ∧ t ≤ bar.barStart) {d : DateTime}
    (hd : d ≤ t) {r r' r₁ r₁' : Replay} (hr : SameHistory t terms.rules.remainder further r r')
    (h : r.advance terms (some d) = .ok r₁) (h' : r'.advance terms (some d) = .ok r₁') :
    SameHistory t terms.rules.remainder further r₁ r₁' := by
  obtain ⟨c, hc, rfl⟩ := advance_ok hr.sorted h
  obtain ⟨c', hc', rfl⟩ := advance_ok hr.sorted' h'
  -- Steps due by the decision are due by the cut.
  have hearlier : ∀ steps : List Step, steps.filter (due (some d)) =
      (steps.filter (due (some t))).filter (due (some d)) := by
    intro steps
    rw [List.filter_filter]
    refine List.filter_congr fun x _ => ?_
    by_cases hx : x.1 ≤ d
    · simp [due, hx, le_trans hx hd]
    · simp [due, hx]
  have hsame : SameHistory t terms.rules.remainder further c c' := by
    rw [hearlier, ← hr.steps, ← hearlier] at hc'
    refine runAll_lockstep (Q := fun x x' => x = x' ∧ x.1 ≤ t) ?_ ?_ hr hc hc'
    · rintro r r' x _ r₁ r₁' hr ⟨rfl, hx⟩ h h'
      exact runStep_append hlater hx hr h h'
    · refine List.forall₂_same.mpr fun x hx => ⟨rfl, ?_⟩
      have : x.1 ≤ d := by simpa [due] using (List.mem_filter.mp hx).2
      exact le_trans this hd
  refine ⟨hsame.ledger, hsame.fills, hsame.log, hsame.pending, ?_, hr.sorted.filter _,
    hr.sorted'.filter _⟩
  dsimp only
  rw [List.filter_comm, hr.steps, List.filter_comm]

omit [DecimalArithmetic] in
/-- Bars in the order in which a trade goes through them. -/
theorem eligibleBars_sorted (covered : List Bar) (d : DateTime) (i : VersionRef) :
    (eligibleBars covered d i).Pairwise fun x y => x.barStart ≤ y.barStart := by
  have hsorted := List.pairwise_insertionSort (fun x y : Bar => x.scheduleKey ≤ y.scheduleKey)
    (covered.filter fun bar => bar.instrument = i ∧ bar.barStart ≥ d)
  refine hsorted.imp fun hxy => ?_
  rcases Prod.Lex.le_iff.mp hxy with hlt | ⟨heq, -⟩
  · exact le_of_lt hlt
  · exact le_of_eq heq

omit [DecimalArithmetic] in
/-- Registering the trades of a decision by `t`. -/
theorem registerAll_append {covered covered' appended : List Bar}
    (happended : Appended t further covered covered')
    (hcovered : ∀ bar ∈ covered', bar ∈ further → bar ∈ appended)
    (hkeeps : KeepsBars t terms.rules.remainder appended covered) {d : DateTime}
    (hd : d ∈ decisionTimes covered) (hdt : d ≤ t) {deltas : List (VersionRef × Decimal)}
    {r r' : Replay} (hr : SameHistory t terms.rules.remainder further r r') :
    SameHistory t terms.rules.remainder further (r.registerAll terms covered d deltas)
      (r'.registerAll terms covered' d deltas) := by
  induction deltas generalizing r r' with
  | nil => exact hr
  | cons delta rest ih =>
    refine ih ?_
    obtain ⟨i, q⟩ := delta
    change SameHistory t _ further (r.register terms d i q (eligibleBars covered d i))
      (r'.register terms d i q (eligibleBars covered' d i))
    have hbars := happended.eligibleBars_filter d i
    -- With an appended bar among them, the condition gives a bar left without it.
    have hlasting : eligibleBars covered' d i = eligibleBars covered d i ∨
        Lasting t terms.rules.remainder (eligibleBars covered d i) := by
      by_cases hnew : ∃ bar ∈ eligibleBars covered' d i, bar ∈ further
      · obtain ⟨bar, hbar, hfurther⟩ := hnew
        obtain ⟨hcov, hi, -⟩ := mem_eligibleBars.mp hbar
        exact .inr (hi ▸ hkeeps bar (hcovered bar hcov hfurther) d hd hdt)
      · left
        rw [← hbars]
        refine (List.filter_eq_self.mpr fun bar hbar => ?_).symm
        simpa using fun hf => hnew ⟨bar, hbar, hf⟩
    have hnil : eligibleBars covered' d i = [] ↔ eligibleBars covered d i = [] := by
      rcases hlasting with heq | ⟨c, hc, -⟩
      · rw [heq]
      · have hc' := List.mem_of_mem_filter (hbars ▸ hc)
        exact ⟨fun h => absurd (h ▸ hc') (by simp), fun h => absurd (h ▸ hc) (by simp)⟩
    rcases register_cases terms d r i q (eligibleBars covered d i) with ⟨hn, heq⟩ | ⟨hne, heq⟩
    · rcases register_cases terms d r' i q (eligibleBars covered' d i) with ⟨-, heq'⟩ | ⟨hne', -⟩
      · rw [heq, heq']
        exact ⟨hr.ledger, by rw [hr.fills], by rw [hr.log], hr.pending, hr.steps, hr.sorted,
          hr.sorted'⟩
      · exact absurd (hnil.mpr hn) hne'
    · rcases register_cases terms d r' i q (eligibleBars covered' d i) with ⟨hn', -⟩ | ⟨-, heq'⟩
      · exact absurd (hnil.mp hn') hne
      · rw [heq, heq']
        have htrade : SameBarsLeft t terms.rules.remainder further
            ⟨d, i, q, q, eligibleBars covered d i⟩ ⟨d, i, q, q, eligibleBars covered' d i⟩ :=
          ⟨⟨rfl, rfl, rfl⟩, rfl, hbars, eligibleBars_sorted _ _ _, hlasting⟩
        exact ⟨hr.ledger, hr.fills, by rw [hr.log], List.rel_append hr.pending (.cons htrade .nil),
          hr.steps, hr.sorted, hr.sorted'⟩

/-- The projected book is the same. -/
theorem SameHistory.projected_eq {remainder : RemainderHandling} {r r' : Replay}
    (h : SameHistory t remainder further r r') : r.projected = r'.projected := by
  rw [Replay.projected, Replay.projected, h.ledger,
    intents_eq h.pending fun _ _ ha => ⟨ha.instrument, ha.intent⟩]

/-- A decision by `t`. -/
theorem decideAt_append {request : BarReplayRequest} {a b : VerifiedBarSnapshot}
    (happended : Appended t further a.bars b.bars)
    (hkeeps : KeepsBars t terms.rules.remainder (coveredBars request.policy further)
      (request.over a).covered) {d : DateTime}
    (hd : d ∈ decisionTimes (request.over a).covered) (hdt : d ≤ t) {r r' r₁ r₁' : Replay}
    {x x' : ReplayDecision} (hr : SameHistory t terms.rules.remainder further r r')
    (h : decideAt (request.over a) terms (request.over a).covered r d = .ok (r₁, x))
    (h' : decideAt (request.over b) terms (request.over b).covered r' d = .ok (r₁', x')) :
    SameHistory t terms.rules.remainder further r₁ r₁' ∧ x = x' := by
  obtain ⟨m, visible, view, target, hadv, hvis, hview, htarget, rfl, rfl⟩ := decideAt_ok h
  obtain ⟨m', visible', view', target', hadv', hvis', hview', htarget', rfl, rfl⟩ := decideAt_ok h'
  -- The appended bars neither start before the cut nor end by it.
  have hlater : ∀ bar ∈ further, t < bar.barEnd ∧ t ≤ bar.barStart :=
    fun bar hbar => ⟨happended.end_gt hbar, (happended.later bar hbar).1⟩
  have hm := advance_append hlater hdt hr hadv hadv'
  have hbook := hm.projected_eq
  -- They are not visible yet either, so both policies see the same bars.
  obtain rfl : visible = visible' := by
    rw [VerifiedBarSnapshot.visibleAt_ok hvis, VerifiedBarSnapshot.visibleAt_ok hvis']
    exact (happended.filter_eq fun bar hbar => by
      simpa using lt_of_le_of_lt hdt (happended.later bar hbar).2).symm
  obtain rfl : view = view' := Except.ok.inj (hview.symm.trans hview')
  rw [← hbook] at htarget'
  obtain rfl : target = target' := Except.ok.inj (htarget.symm.trans htarget')
  refine ⟨?_, rfl⟩
  rw [hbook]
  refine registerAll_append (happended.filter _) ?_ hkeeps hd hdt ⟨hm.ledger, hm.fills, by rw [hm.log],
    hm.pending, hm.steps, hm.sorted, hm.sorted'⟩
  intro bar hbar hfurther
  exact List.mem_filter.mpr ⟨hfurther, (List.mem_filter.mp hbar).2⟩

end History

/-! ### The loop after `t` -/

/-- What a loop that has closed every step by `t` keeps: its records by `t`. -/
structure PastFixed (t : DateTime) (fills : List SimulatedFill) (rows : List BarPnl) (r : Replay) :
    Prop where
  fills : r.fills.filter (fun fill => fill.effectiveAt ≤ t) = fills
  rows : r.ledger.rows.filter (fun row => row.knownAt ≤ t) = rows
  steps : ∀ step ∈ r.steps, t < step.1 ∧ ∀ bar ∈ step.2, bar.barEnd = step.1

/-- The same inside a step that becomes known after `t`. -/
structure StepPastFixed (t : DateTime) (fills : List SimulatedFill) (rows : List BarPnl)
    (s : StepState) : Prop where
  fills : s.fills.filter (fun fill => fill.effectiveAt ≤ t) = fills
  rows : s.ledger.rows.filter (fun row => row.knownAt ≤ t) = rows
  known : ∃ step, s.ledger.step = some step ∧ t < step.knownAt

section Past

variable {t : DateTime} {fills : List SimulatedFill} {rows : List BarPnl} {terms : ReplayTerms}

omit [DecimalArithmetic] in
/-- Fills that take effect later do not change what took effect by the cut. -/
theorem filter_append_later {records : List SimulatedFill} (h : ∀ fill ∈ records, t < fill.effectiveAt)
    (fills : List SimulatedFill) :
    (fills ++ records).filter (fun fill => fill.effectiveAt ≤ t) =
      fills.filter fun fill => fill.effectiveAt ≤ t := by
  have hnone : records.filter (fun fill => fill.effectiveAt ≤ t) = [] :=
    List.filter_eq_nil_iff.mpr fun fill hf => by simpa using h fill hf
  rw [List.filter_append, hnone, List.append_nil]

/-- A step that ends after the cut executes nothing that takes effect before it. -/
theorem executeDue_past {stepEnd : DateTime} (hend : t < stepEnd) {s s' : StepState}
    {trade trade' : PendingTrade} (hs : StepPastFixed t fills rows s)
    (h : executeDue terms stepEnd s trade = .ok (s', trade')) : StepPastFixed t fills rows s' := by
  rcases executeDue_cases h with ⟨rfl, -, -⟩ |
    ⟨bar, rest, attempt, ledger, -, hbar, -, hattempt, hsettle, rfl, -⟩
  · exact hs
  · obtain ⟨-, -, -, heffective, -, -⟩ := checkedAttempt_fields hattempt
    -- What is executed takes effect at the end of the step, after the cut.
    have hlate : t < attempt.effectiveAt := by rw [heffective, hbar]; exact hend
    have hrecords : ∀ fill ∈ attemptRecords terms trade attempt rest, t < fill.effectiveAt := by
      intro fill hfill
      unfold attemptRecords at hfill
      split at hfill
      · rcases List.mem_cons.mp hfill with rfl | hfill
        · exact hlate
        · rw [List.mem_singleton.mp hfill]; exact hlate
      · rw [List.mem_singleton.mp hfill]; exact hlate
    obtain ⟨step, hstep, hknown⟩ := hs.known
    obtain ⟨step', hstep', hcase⟩ := ReplayLedger.settle_ok hsettle
    rw [hstep] at hstep'
    cases hstep'
    refine ⟨(filter_append_later hrecords s.fills).trans hs.fills, ?_, ?_⟩
    · rcases hcase with ⟨-, rfl⟩ | ⟨_, _, -, -, -, -, -, rfl⟩ <;> exact hs.rows
    · rcases hcase with ⟨-, rfl⟩ | ⟨_, _, -, -, -, -, -, rfl⟩
      · exact ⟨step, hstep, hknown⟩
      · exact ⟨_, rfl, hknown⟩

omit [DecimalArithmetic] in
/-- A step is known no earlier than its first bar is visible. -/
theorem visibleAt_le_stepKnownAt (first : Bar) (bars : List Bar) :
    first.visibleAt ≤ ReplayLedger.stepKnownAt first bars := by
  have hall : ∀ (bars : List Bar) (latest : DateTime),
      latest ≤ bars.foldl (fun latest bar => max latest bar.visibleAt) latest := by
    intro bars
    induction bars with
    | nil => exact fun latest => le_refl latest
    | cons bar bars ih => exact fun latest => le_trans (le_max_left _ _) (ih _)
  exact hall bars first.visibleAt

/-- A step that ends after `t` becomes known after `t`. -/
theorem runStep_past {r r' : Replay} {step : Step} (hr : PastFixed t fills rows r)
    (hend : t < step.1) (hbars : ∀ bar ∈ step.2, bar.barEnd = step.1)
    (h : runStep terms r step = .ok r') : PastFixed t fills rows r' := by
  obtain ⟨opened, s, pending, finished, hopen, hexec, hfinish, rfl⟩ := runStep_ok h
  obtain ⟨first, rest, rolled, _, _, parts, hcons, -, hroll, -, rfl⟩ := ReplayLedger.openStep_ok hopen
  have hfirst : first.barEnd = step.1 := hbars first (hcons ▸ List.mem_cons_self)
  -- The row of the step is known only after the cut.
  have hknown : t < ReplayLedger.stepKnownAt first step.2 :=
    calc t < first.barEnd := hfirst ▸ hend
      _ ≤ first.visibleAt := first.end_le_visible
      _ ≤ ReplayLedger.stepKnownAt first step.2 := visibleAt_le_stepKnownAt first step.2
  have hrows : rolled.rows = r.ledger.rows := (ReplayLedger.rollDate_carried hroll).rows
  have hs : StepPastFixed t fills rows s := by
    refine executeAll_rule (P := fun _ _ x => StepPastFixed t fills rows x) ?_ ?_ hexec
    · intro done trade todo x x' trade' hx hdue
      exact executeDue_past hend hx hdue
    · exact ⟨hr.fills, by rw [hrows]; exact hr.rows, _, rfl, hknown⟩
  obtain ⟨open_, equity, hopened, -, -, rfl⟩ := ReplayLedger.finishStep_ok hfinish
  obtain ⟨open_', hopened', hlate⟩ := hs.known
  rw [hopened] at hopened'
  cases hopened'
  refine ⟨hs.fills, ?_, hr.steps⟩
  have hrow : [ReplayLedger.rowFor s.ledger open_ equity].filter (fun row => row.knownAt ≤ t) = [] :=
    List.filter_eq_nil_iff.mpr fun row hrow => by
      have hlt : t < (ReplayLedger.rowFor s.ledger open_ equity).knownAt := hlate
      rw [List.mem_singleton.mp hrow]
      simpa using hlt
  change (s.ledger.rows ++ [_]).filter _ = _
  rw [List.filter_append, hrow, List.append_nil]
  exact hs.rows

/-- Advancing past the cut leaves everything up to it as it is. -/
theorem advance_past {limit : Option DateTime} {r r' : Replay} (hr : PastFixed t fills rows r)
    (h : r.advance terms limit = .ok r') : PastFixed t fills rows r' := by
  refine (advanceSteps_rule (P := PastFixed t fills rows) ?_ hr rfl (List.suffix_refl r.steps) h).1
  intro x step rest x' hx hsteps _ _ hrun
  obtain ⟨hend, hbars⟩ := hx.steps step (hsteps ▸ List.mem_cons_self)
  have hx' : PastFixed t fills rows { x with steps := rest } :=
    ⟨hx.fills, hx.rows, fun s hs => hx.steps s (hsteps ▸ List.mem_cons_of_mem _ hs)⟩
  exact runStep_past hx' hend hbars hrun

/-- Decisions after `t` leave what was recorded by `t`. -/
theorem decideAll_past {request : BarReplayRequest} {covered : List Bar} {times : List DateTime}
    (htimes : ∀ d ∈ times, t < d) {r r' : Replay} {xs : List ReplayDecision}
    (hr : PastFixed t fills rows r) (h : decideAll request terms covered times r = .ok (r', xs)) :
    PastFixed t fills rows r' := by
  induction times generalizing r xs with
  | nil => cases h; exact hr
  | cons d times ih =>
    obtain ⟨m, x, rest, hm, hrest, -⟩ := decideAll_cons_ok h
    refine ih (fun e he => htimes e (List.mem_cons_of_mem _ he)) ?_ hrest
    obtain ⟨advanced, _, _, target, hadv, -, -, -, rfl, -⟩ := decideAt_ok hm
    have hadvanced := advance_past hr hadv
    refine registerAll_induct (P := PastFixed t fills rows) ?_
      ⟨hadvanced.fills, hadvanced.rows, hadvanced.steps⟩
    intro y delta hy
    -- A delta without a bar is recorded at its decision, after the cut.
    have hlate : ∀ fill ∈ [noLaterBar d delta.1 delta.2 d terms.priceSource],
        t < fill.effectiveAt := by
      intro fill hfill
      rw [List.mem_singleton.mp hfill]
      exact htimes d List.mem_cons_self
    rcases register_cases terms d y delta.1 delta.2 (eligibleBars covered d delta.1) with
      ⟨-, heq⟩ | ⟨-, heq⟩ <;> rw [heq]
    · exact ⟨(filter_append_later hlate y.fills).trans hy.fills, hy.rows, hy.steps⟩
    · exact ⟨hy.fills, hy.rows, hy.steps⟩

end Past

/-! ### The theorem -/

/-- A loop never has other steps left than at its start. -/
theorem decideAll_steps_subset {request : BarReplayRequest} {terms : ReplayTerms}
    {covered : List Bar} {times : List DateTime} {r r' : Replay} {xs : List ReplayDecision}
    (h : decideAll request terms covered times r = .ok (r', xs)) : r'.steps ⊆ r.steps := by
  induction times generalizing r xs with
  | nil => cases h; exact List.Subset.refl _
  | cons d times ih =>
    obtain ⟨m, x, rest, hm, hrest, -⟩ := decideAll_cons_ok h
    refine List.Subset.trans (ih hrest) ?_
    obtain ⟨advanced, _, _, target, hadv, -, -, -, rfl, -⟩ := decideAt_ok hm
    rw [registerAll_steps]
    exact (advanceSteps_rule (P := fun _ => True) (fun _ _ _ _ _ _ _ _ _ => trivial) trivial rfl
      (List.suffix_refl r.steps) hadv).2.1.subset

/-- The state of a run right after the steps by `t`, with what follows from it. -/
theorem CutRun.past {digest : List UInt8 → ContentHash} {request : BarReplayRequest}
    {result : SimulationResult} {closed : Replay} {run : CompletedRun digest request result closed}
    {t : DateTime} (cut : CutRun run t) (hsorted : cut.mid.steps.Pairwise fun a b => a.1 < b.1) :
    ∃ c, cut.mid.advance run.terms (some t) = .ok c ∧
      closed.fills.filter (fun fill => fill.effectiveAt ≤ t) =
        c.fills.filter (fun fill => fill.effectiveAt ≤ t) ∧
      closed.ledger.rows.filter (fun row => row.knownAt ≤ t) =
        c.ledger.rows.filter (fun row => row.knownAt ≤ t) := by
  have htimes : ∀ d ∈ (decisionTimes request.covered).filter (fun d => t < d), t < d :=
    fun d hd => by simpa using (List.mem_filter.mp hd).2
  obtain ⟨c, decided', hc, hdecides, hcloses⟩ := decideAll_through
    (fun d hd => le_of_lt (htimes d hd)) cut.decides_after run.closes
  have hsteps : ∀ step ∈ c.steps, t < step.1 ∧ ∀ bar ∈ step.2, bar.barEnd = step.1 := by
    obtain ⟨c', -, rfl⟩ := advance_ok hsorted hc
    intro step hstep
    obtain ⟨hmem, hlate⟩ := List.mem_filter.mp hstep
    refine ⟨by simpa [due] using hlate, fun bar hbar => ?_⟩
    have hgrid := (mem_stepsOf.mp (decideAll_steps_subset cut.decides_before hmem)).1
    rw [hgrid] at hbar
    simpa using (List.mem_filter.mp hbar).2
  have hpast := advance_past (decideAll_past htimes ⟨rfl, rfl, hsteps⟩ hdecides) hcloses
  exact ⟨c, hc, hpast.fills, hpast.rows⟩

/-- **Append stability.**  A replay over a snapshot with further bars, which start at `t` or later
    and become visible after `t`, has the same result through `t`, provided every trade decided by
    `t` in the instrument of an appended bar has a bar left without it. -/
theorem append_stable {digest : List UInt8 → ContentHash} {request : BarReplayRequest}
    {a b : VerifiedBarSnapshot} {t : DateTime} {further : List Bar}
    (happended : Appended t further a.bars b.bars)
    (hsource : b.priceSourceType = a.priceSourceType)
    (hkeeps : KeepsBars t request.policy.input.execution.remainder
      (coveredBars request.policy further) (request.over a).covered)
    {result result' : SimulationResult} (h : replayBars digest (request.over a) = .ok result)
    (h' : replayBars digest (request.over b) = .ok result') :
    result.through t = result'.through t := by
  obtain ⟨closed, h⟩ := replayBars_completed h
  obtain ⟨closed', h'⟩ := replayBars_completed h'
  obtain ⟨run⟩ := replayRun_completed h
  obtain ⟨run'⟩ := replayRun_completed h'
  -- Both runs are cut at the time, where their histories agree.
  obtain ⟨cut⟩ := run.cut t
  obtain ⟨cut'⟩ := run'.cut t
  have hrules : SameRules run.terms run'.terms := run.sameRules run'
  have hterms : run'.terms = run.terms := by
    have hledger := hrules.ledger
    have hconstraints := hrules.constraints
    simp only [CompletedRun.terms, replayTerms] at hledger hconstraints ⊢
    rw [hledger, hconstraints]
    simp only [BarReplayRequest.over, VerifiedBarSnapshot.port, hsource]
  have hcovered : Appended t further (request.over a).covered (request.over b).covered :=
    happended.filter _
  have hstart : SameHistory t run.terms.rules.remainder further
      (Replay.start (request.over a).covered) (Replay.start (request.over b).covered) :=
    ⟨rfl, rfl, rfl, .nil, hcovered.stepsOf_eq.symm, stepsOf_sorted _, stepsOf_sorted _⟩
  have hbefore' := cut'.decides_before
  rw [hcovered.decisionTimes_eq, hterms] at hbefore'
  obtain ⟨hmid, hdecisions⟩ := decideAll_lockstep (D := Eq)
    (fun d hd _ _ _ _ _ _ hr h h' => decideAt_append happended hkeeps (List.mem_filter.mp hd).1
      (by simpa using (List.mem_filter.mp hd).2) hr h h')
    hstart cut.decides_before hbefore'
  have hlater : ∀ bar ∈ further, t < bar.barEnd ∧ t ≤ bar.barStart :=
    fun bar hbar => ⟨happended.end_gt hbar, (happended.later bar hbar).1⟩
  obtain ⟨c, hc, hfills, hrows⟩ := cut.past hmid.sorted
  obtain ⟨c', hc', hfills', hrows'⟩ := cut'.past hmid.sorted'
  rw [hterms] at hc'
  have hsame := advance_append hlater (le_refl t) hmid hc hc'
  have hsort : ∀ r : Replay, r.sortedFills.filter (fun fill => fill.effectiveAt ≤ t) =
      (r.fills.filter fun fill => fill.effectiveAt ≤ t).insertionSort
        fun x y => Replay.fillKey x ≤ Replay.fillKey y :=
    fun r => filter_insertionSort _ _ _
  have hdecided : cut.before = cut'.before := List.forall₂_eq_eq_eq ▸ hdecisions
  unfold SimulationResult.through
  rw [cut.decisions_filter, cut'.decisions_filter, hdecided, run.content, run'.content]
  dsimp only
  rw [hsort closed, hsort closed', hfills, hfills', hrows, hrows', hsame.fills, hsame.ledger]

end

namespace SmallMarket

/-- The bar after `next`. -/
def third : Bar := ⟨barInput "b2" 2 3 3 10 2, by decide +kernel⟩

/-- A replay over a snapshot of the given bars. -/
def replayOver [DecimalArithmetic] (remainder : RemainderHandling) (bars : List Bar) :
    Except ApplicationError SimulationResult :=
  replayBars digest ((request remainder []).over (snapshot bars))

end SmallMarket

open RoundedDecimals

theorem append_stable_third : ∃ result result',
    SmallMarket.replayOver .carry [SmallMarket.cheap, SmallMarket.next] = .ok result ∧
    SmallMarket.replayOver .carry [SmallMarket.cheap, SmallMarket.next, SmallMarket.third] =
      .ok result' ∧
    result.through (SmallMarket.minute 1) = result'.through (SmallMarket.minute 1) := by
  obtain ⟨result, hrun, -⟩ := exists_ok_of_any
    (x := SmallMarket.replayOver .carry [SmallMarket.cheap, SmallMarket.next]) (p := fun _ => true)
    (by decide +kernel)
  obtain ⟨result', hrun', -⟩ := exists_ok_of_any
    (x := SmallMarket.replayOver .carry [SmallMarket.cheap, SmallMarket.next, SmallMarket.third])
    (p := fun _ => true) (by decide +kernel)
  have happended : Appended (SmallMarket.minute 1) [SmallMarket.third]
      (SmallMarket.snapshot [SmallMarket.cheap, SmallMarket.next]).bars
      (SmallMarket.snapshot [SmallMarket.cheap, SmallMarket.next, SmallMarket.third]).bars :=
    ⟨by decide +kernel, by decide +kernel⟩
  exact ⟨result, result', hrun, hrun',
    append_stable happended rfl (by unfold KeepsBars Lasting; decide +kernel) hrun hrun'⟩

/-- Bought at minute 1 with no later bar, the trade is recorded as such at minute 1.  With the next
    bar appended, nothing is recorded at minute 1. -/
theorem append_changes_past : ∃ result result',
    Appended (SmallMarket.minute 1) [SmallMarket.next] [SmallMarket.cheap]
      [SmallMarket.cheap, SmallMarket.next] ∧
    SmallMarket.replayOver .cancel [SmallMarket.cheap] = .ok result ∧
    SmallMarket.replayOver .cancel [SmallMarket.cheap, SmallMarket.next] = .ok result' ∧
    result.through (SmallMarket.minute 1) ≠ result'.through (SmallMarket.minute 1) := by
  obtain ⟨result, hrun, hfills⟩ := exists_ok_of_any
    (x := SmallMarket.replayOver .cancel [SmallMarket.cheap])
    (p := fun result => (result.through (SmallMarket.minute 1)).2.1.map SimulatedFill.noFill =
      [some .noLaterBar]) (by decide +kernel)
  obtain ⟨result', hrun', hfills'⟩ := exists_ok_of_any
    (x := SmallMarket.replayOver .cancel [SmallMarket.cheap, SmallMarket.next])
    (p := fun result => (result.through (SmallMarket.minute 1)).2.1 = []) (by decide +kernel)
  refine ⟨result, result', ⟨by decide +kernel, by decide +kernel⟩, hrun, hrun', ?_⟩
  intro hsame
  simp only [decide_eq_true_eq] at hfills hfills'
  rw [hsame, hfills'] at hfills
  cases hfills

end Ficant
