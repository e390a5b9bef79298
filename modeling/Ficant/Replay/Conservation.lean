import Ficant.Lib.StableSort
import Ficant.Replay.LedgerRules
import Ficant.Replay.Rules

namespace Ficant

open Lib DecimalArithmetic

/-!
# Trade conservation

Every trade a decision registers runs through its bars as a chain of records: each record asks for
what the one before left, and the last one leaves nothing or cancels the rest (`TradeChain`).

* `SettledExactly` — a settlement in which neither the face left nor the new position is rounded;
* `Tracked` — how far the chain of a registered trade is, given the trades still pending;
* `StepConserved` / `Conserved` — the invariant between two attempts and between two steps, as long as
  everything has been settled exactly;
* `trades_conserved` — when such a run returns, every chain is complete, and the book is the sum of the
  executed quantities;
* `trade_not_conserved` — a run in which the face left is rounded, and more is recorded than was
  wanted.

The invariant needs that a trade never waits for a bar whose step is closed.  This is where the
intervals of an instrument's bars must not overlap: then a later bar of a trade also ends later.
-/

/-! ### Chains of records -/

/-- What a part of some face leaves is a part of it too. -/
theorem PartOf.sub {q face : Decimal} (h : PartOf q face) : PartOf (face - q) face := by
  rcases h with ⟨hf, hq, hqf⟩ | ⟨hf, hqf, hq⟩
  · exact .inl ⟨hf, by linarith, by linarith⟩
  · exact .inr ⟨hf, by linarith, by linarith⟩

/-- The face a record leaves, as a number, and what it says about it agree. -/
def SimulatedFill.Accounted (fill : SimulatedFill) : Prop :=
  PartOf fill.quantity fill.requested ∧
    (fill.requested - fill.quantity = 0 → fill.remainder = none) ∧
    (fill.requested - fill.quantity ≠ 0 →
      ∃ r, fill.remainder = some r ∧ r.quantity = fill.requested - fill.quantity)

/-- A chain of records that carried `left` of the trade `delta` on to a later bar. -/
inductive OpenChain : Decimal → List SimulatedFill → Decimal → Prop
  | nil (delta : Decimal) : OpenChain delta [] delta
  | cons {delta left : Decimal} {fill : SimulatedFill} {rest : List SimulatedFill}
      (requested : fill.requested = delta) (accounted : fill.Accounted) (carried : fill.carried = true)
      (next : OpenChain (delta - fill.quantity) rest left) : OpenChain delta (fill :: rest) left

/-- A complete chain of records of the trade `delta`: each record asks for what the one before left
    and carried on, and the last one carries nothing on. -/
inductive TradeChain : Decimal → List SimulatedFill → Prop
  | last {delta : Decimal} {fill : SimulatedFill} (requested : fill.requested = delta)
      (accounted : fill.Accounted) (ended : fill.carried = false) : TradeChain delta [fill]
  | cons {delta : Decimal} {fill : SimulatedFill} {rest : List SimulatedFill}
      (requested : fill.requested = delta) (accounted : fill.Accounted) (carried : fill.carried = true)
      (next : TradeChain (delta - fill.quantity) rest) : TradeChain delta (fill :: rest)

/-- A record that is carried on leaves what it has not executed. -/
theorem OpenChain.snoc {delta left : Decimal} {records : List SimulatedFill} {fill : SimulatedFill}
    (h : OpenChain delta records left) (hreq : fill.requested = left) (hbal : fill.Accounted)
    (hcarried : fill.carried = true) :
    OpenChain delta (records ++ [fill]) (left - fill.quantity) := by
  induction h with
  | nil delta => exact .cons hreq hbal hcarried (.nil _)
  | cons hr hb hc _ ih => exact .cons hr hb hc (ih hreq)

/-- A record that is not carried on closes the trade. -/
theorem OpenChain.close {delta left : Decimal} {records : List SimulatedFill} {fill : SimulatedFill}
    (h : OpenChain delta records left) (hreq : fill.requested = left) (hbal : fill.Accounted)
    (hended : fill.carried = false) : TradeChain delta (records ++ [fill]) := by
  induction h with
  | nil delta => exact .last hreq hbal hended
  | cons hr hb hc _ ih => exact .cons hr hb hc (ih hreq)

/-- Executed quantities have the direction of the trade and never exceed it. -/
theorem TradeChain.partOf {delta : Decimal} {records : List SimulatedFill}
    (h : TradeChain delta records) : ∀ fill ∈ records, PartOf fill.quantity delta := by
  induction h with
  | last hreq hbal _ =>
    intro fill hf
    rw [List.mem_singleton.mp hf, ← hreq]
    exact hbal.1
  | cons hreq hbal _ _ ih =>
    intro fill hf
    have hpart : PartOf _ _ := hreq ▸ hbal.1
    rcases List.mem_cons.mp hf with rfl | hf
    · exact hpart
    · exact (ih fill hf).trans hpart.sub

/-- The face a record cancels. -/
def SimulatedFill.cancelled (fill : SimulatedFill) : Decimal :=
  match fill.remainder with
  | some remainder => if remainder.outcome = .cancelled then remainder.quantity else 0
  | none => 0

/-- The face the last record of a chain cancels. -/
def cancelledAtEnd (records : List SimulatedFill) : Decimal :=
  (records.getLast?.map SimulatedFill.cancelled).getD 0

/-- A record that carries nothing on accounts for all it was asked for. -/
theorem SimulatedFill.quantity_add_cancelled {fill : SimulatedFill} (hbal : fill.Accounted)
    (hended : fill.carried = false) : fill.quantity + fill.cancelled = fill.requested := by
  obtain ⟨-, hnone, hsome⟩ := hbal
  unfold cancelled
  by_cases hleft : fill.requested - fill.quantity = 0
  · rw [hnone hleft]
    linarith
  · obtain ⟨r, hr, hq⟩ := hsome hleft
    have hout : r.outcome = .cancelled := by
      cases ho : r.outcome with
      | cancelled => rfl
      | carried => simp [carried, hr, ho] at hended
    rw [hr]
    dsimp only
    rw [if_pos hout, hq]
    ring

/-- What a complete chain executes and what it finally cancels add up to the trade. -/
theorem TradeChain.sum {delta : Decimal} {records : List SimulatedFill}
    (h : TradeChain delta records) :
    (records.map SimulatedFill.quantity).sum + cancelledAtEnd records = delta := by
  induction h with
  | last hreq hbal hended =>
    simpa [cancelledAtEnd, hreq] using SimulatedFill.quantity_add_cancelled hbal hended
  | @cons delta fill rest hreq hbal hcarried next ih =>
    have hlast : cancelledAtEnd (fill :: rest) = cancelledAtEnd rest := by
      cases next <;> simp [cancelledAtEnd]
    rw [List.map_cons, List.sum_cons, hlast, add_assoc, ih]
    ring

/-- A carried record left something. -/
theorem SimulatedFill.left_ne_zero {fill : SimulatedFill} (hbal : fill.Accounted)
    (hcarried : fill.carried = true) : fill.requested - fill.quantity ≠ 0 := by
  intro hzero
  rw [carried, hbal.2.1 hzero] at hcarried
  cases hcarried

/-- A trade without a bar executes nothing and is not carried on. -/
theorem noLaterBar_accounted {q : Decimal} (hq : q ≠ 0) (d : DateTime) (i : VersionRef)
    (at_ : DateTime) (source : PriceSourceType) : (noLaterBar d i q at_ source).Accounted := by
  refine ⟨.zero q, ?_, ?_⟩
  · intro h
    exact absurd (by simpa [noLaterBar] using h) hq
  · intro _
    exact ⟨_, rfl, by simp [noLaterBar]⟩

/-! ### Settlements that round nothing -/

section

variable [DecimalArithmetic]

/-- Neither the face a fill leaves nor the position it leads to is rounded. -/
structure SettledExactly (before : ReplayLedger) (fill : SimulatedFill) : Prop where
  left : fill.left = fill.requested - fill.quantity
  position : plus (before.book.position fill.instrument) fill.quantity =
    before.book.position fill.instrument + fill.quantity

/-- Where the face left and the new position can be represented, nothing is rounded. -/
theorem SettledExactly.of_fits {before : ReplayLedger} {fill : SimulatedFill}
    (hleft : RustDecimal.Fits (fill.requested - fill.quantity : Decimal))
    (hposition : RustDecimal.Fits
      (before.book.position fill.instrument + fill.quantity : Decimal)) :
    SettledExactly before fill :=
  ⟨minus_exact hleft, plus_exact hposition⟩

instance decidableSettledExactly (before : ReplayLedger) (fill : SimulatedFill) :
    Decidable (SettledExactly before fill) :=
  decidable_of_iff
    (fill.left = fill.requested - fill.quantity ∧
      plus (before.book.position fill.instrument) fill.quantity =
        before.book.position fill.instrument + fill.quantity)
    ⟨fun h => ⟨h.1, h.2⟩, fun h => ⟨h.left, h.position⟩⟩

/-- Everything in a log was settled exactly. -/
def ExactLog (log : List ReplayEvent) : Prop :=
  ∀ before fill after, ReplayEvent.settled before fill after ∈ log → SettledExactly before fill

/-- The beginning of an exact log is exact. -/
theorem ExactLog.of_append {log more : List ReplayEvent} (h : ExactLog (log ++ more)) : ExactLog log :=
  fun before fill after hmem => h before fill after (List.mem_append_left _ hmem)

/-- Whether an event is no settlement that rounds something. -/
def ReplayEvent.exact : ReplayEvent → Bool
  | .settled before fill _ => SettledExactly before fill
  | _ => true

/-- An exact log, as a test on its events. -/
theorem ExactLog.of_all {log : List ReplayEvent} (h : log.all ReplayEvent.exact) : ExactLog log :=
  fun before fill after hmem =>
    of_decide_eq_true (List.all_eq_true.mp h (.settled before fill after) hmem)

/-- What is settled exactly is accounted for. -/
theorem SettledExactly.accounted {before : ReplayLedger} {fill : SimulatedFill}
    (h : SettledExactly before fill) (hbal : fill.Balanced) : fill.Accounted := by
  obtain ⟨hpart, hnone, hsome⟩ := hbal
  rw [h.left] at hnone hsome
  exact ⟨hpart, hnone, hsome⟩

/-- **One attempt moves a trade's chain on by its records.** -/
theorem attempt_chain {terms : ReplayTerms} {s : StepState} {trade : PendingTrade} {bar : Bar}
    {rest : List Bar} {attempt : SimulatedFill} {delta : Decimal} {records : List SimulatedFill}
    (hattempt : checkedAttempt terms s trade bar = .ok attempt)
    (hexact : SettledExactly s.ledger attempt) (hchain : OpenChain delta records trade.remaining) :
    ((trade.afterAttempt attempt rest).remaining ≠ 0 →
      OpenChain delta (records ++ attemptRecords terms trade attempt rest)
        (trade.afterAttempt attempt rest).remaining) ∧
    ((trade.afterAttempt attempt rest).remaining = 0 →
      TradeChain delta (records ++ attemptRecords terms trade attempt rest)) := by
  have hbal := hexact.accounted (checkedAttempt_balanced hattempt)
  have hreq : attempt.requested = trade.remaining := (checkedAttempt_fields hattempt).2.2.1
  have hminus : minus trade.remaining attempt.quantity = trade.remaining - attempt.quantity := by
    rw [← hreq]
    exact hexact.left
  -- A carried remainder leaves the chain open, unless no bar is left to carry it to.
  by_cases hcarried : attempt.carried = true
  · have hleft : trade.remaining - attempt.quantity ≠ 0 :=
      hreq ▸ SimulatedFill.left_ne_zero hbal hcarried
    have hopen := hchain.snoc hreq hbal hcarried
    by_cases hrest : rest = []
    · have hrec : attemptRecords terms trade attempt rest =
          [attempt] ++ [noLaterBar trade.decisionTime trade.instrument
            (trade.remaining - attempt.quantity) attempt.effectiveAt terms.priceSource] := by
        rw [attemptRecords, if_pos ⟨hcarried, hrest⟩, hminus]; rfl
      have hrem : (trade.afterAttempt attempt rest).remaining = 0 := by
        simp [PendingTrade.afterAttempt, hrest]
      refine ⟨fun h => absurd hrem h, fun _ => ?_⟩
      rw [hrec, ← List.append_assoc]
      exact hopen.close rfl (noLaterBar_accounted hleft ..) rfl
    · have hrec : attemptRecords terms trade attempt rest = [attempt] := by
        rw [attemptRecords, if_neg fun h => hrest h.2]
      have hrem : (trade.afterAttempt attempt rest).remaining =
          trade.remaining - attempt.quantity := by
        rw [PendingTrade.afterAttempt, if_pos ⟨hcarried, hrest⟩, hminus]
      rw [hrec, hrem]
      exact ⟨fun _ => hopen, fun h => absurd h hleft⟩
  -- An attempt that is not carried closes the chain.
  · have hended : attempt.carried = false := by simpa using hcarried
    have hrec : attemptRecords terms trade attempt rest = [attempt] := by
      rw [attemptRecords, if_neg fun h => hcarried h.1]
    have hrem : (trade.afterAttempt attempt rest).remaining = 0 := by
      rw [PendingTrade.afterAttempt, if_neg fun h => hcarried h.1]
    rw [hrec]
    exact ⟨fun h => absurd hrem h, fun _ => hchain.close hreq hbal hended⟩

end

/-! ### Registered trades and their records -/

/-- What identifies a trade: its decision time and its instrument. -/
abbrev TradeKey := DateTime × VersionRef

/-- The key of a pending trade. -/
def PendingTrade.key (trade : PendingTrade) : TradeKey := (trade.decisionTime, trade.instrument)

/-- The key of the trade a record belongs to. -/
def SimulatedFill.key (fill : SimulatedFill) : TradeKey := (fill.decisionTime, fill.instrument)

/-- The trades registered so far, with their deltas. -/
def registrations (log : List ReplayEvent) : List (TradeKey × Decimal) :=
  log.filterMap fun
    | .registered time instrument delta => some ((time, instrument), delta)
    | _ => none

/-- What is registered is what the log says. -/
theorem mem_registrations {log : List ReplayEvent} {d : DateTime} {i : VersionRef} {q : Decimal} :
    ((d, i), q) ∈ registrations log ↔ ReplayEvent.registered d i q ∈ log := by
  rw [registrations, List.mem_filterMap]
  constructor
  · rintro ⟨e, he, heq⟩
    cases e with
    | registered time instrument delta =>
      simp only [Option.some.injEq, Prod.mk.injEq] at heq
      obtain ⟨⟨rfl, rfl⟩, rfl⟩ := heq
      exact he
    | decided => cases heq
    | settled => cases heq
  · intro h
    exact ⟨_, h, rfl⟩

/-- Registrations of a longer log. -/
theorem registrations_append (log more : List ReplayEvent) :
    registrations (log ++ more) = registrations log ++ registrations more := by
  rw [registrations, List.filterMap_append]; rfl

/-- The records of one trade. -/
def recordsOf (fills : List SimulatedFill) (key : TradeKey) : List SimulatedFill :=
  fills.filter fun fill => fill.key = key

/-- Records of a trade in a longer list. -/
theorem recordsOf_append (fills more : List SimulatedFill) (key : TradeKey) :
    recordsOf (fills ++ more) key = recordsOf fills key ++ recordsOf more key := by
  rw [recordsOf, List.filter_append]; rfl

/-- All records of a trade are its own. -/
theorem recordsOf_own {records : List SimulatedFill} {key : TradeKey}
    (h : ∀ fill ∈ records, fill.key = key) : recordsOf records key = records :=
  List.filter_eq_self.mpr fun fill hf => by simpa using h fill hf

/-- Another trade has none of them. -/
theorem recordsOf_other {records : List SimulatedFill} {key other : TradeKey}
    (h : ∀ fill ∈ records, fill.key = key) (hne : other ≠ key) : recordsOf records other = [] :=
  List.filter_eq_nil_iff.mpr fun fill hf => by simpa [h fill hf] using Ne.symm hne

/-- How far a registered trade is: open while a pending trade has face left, else complete. -/
structure Tracked (fills : List SimulatedFill) (trades : List PendingTrade)
    (trade : TradeKey × Decimal) : Prop where
  running : ∀ t ∈ trades, t.key = trade.1 → t.remaining ≠ 0 →
    OpenChain trade.2 (recordsOf fills trade.1) t.remaining
  complete : (∀ t ∈ trades, t.key = trade.1 → t.remaining = 0) →
    TradeChain trade.2 (recordsOf fills trade.1)

/-- A pending trade waits for bars that end one after the other, all at times still to come. -/
structure TradeReady (ends : List DateTime) (trade : PendingTrade) : Prop where
  left : trade.remaining ≠ 0
  waits : trade.bars ≠ []
  increasing : trade.bars.Pairwise fun a b => a.barEnd < b.barEnd
  reachable : ∀ bar ∈ trade.bars, bar.barEnd ∈ ends

/-- Once the bar ending at `stepEnd` is behind a trade, its other bars end later. -/
theorem TradeReady.tail {stepEnd : DateTime} {ends : List DateTime}
    (hlater : ∀ e ∈ ends, stepEnd < e) {bars : List Bar}
    (hinc : bars.Pairwise fun a b => a.barEnd < b.barEnd)
    (hreach : ∀ bar ∈ bars, bar.barEnd ∈ stepEnd :: ends)
    (hhead : ∀ bar rest, bars = bar :: rest → bar.barEnd ≠ stepEnd) :
    ∀ bar ∈ bars, bar.barEnd ∈ ends := by
  intro bar hbar
  refine (List.mem_cons.mp (hreach bar hbar)).resolve_left fun heq => ?_
  cases bars with
  | nil => cases hbar
  | cons first rest =>
    have hne := hhead first rest rfl
    have hfirst : stepEnd < first.barEnd :=
      hlater _ ((List.mem_cons.mp (hreach first List.mem_cons_self)).resolve_left hne)
    rcases List.mem_cons.mp hbar with rfl | hrest
    · exact hne heq
    · have := (List.pairwise_cons.mp hinc).1 bar hrest
      exact absurd heq (ne_of_gt (lt_trans hfirst this))

/-- The face of an instrument that the fills executed. -/
def executedOf (fills : List SimulatedFill) (i : VersionRef) : Decimal :=
  ((fills.filter fun fill => fill.instrument = i).map SimulatedFill.quantity).sum

/-- Face executed in a longer list. -/
theorem executedOf_append (fills more : List SimulatedFill) (i : VersionRef) :
    executedOf (fills ++ more) i = executedOf fills i + executedOf more i := by
  simp [executedOf]

/-- Records of a trade without a bar left execute nothing. -/
theorem executedOf_noLaterBar (d : DateTime) (j : VersionRef) (q : Decimal) (at_ : DateTime)
    (source : PriceSourceType) (i : VersionRef) :
    executedOf [noLaterBar d j q at_ source] i = 0 := by
  by_cases h : j = i <;> simp [executedOf, noLaterBar, h]

section

variable [DecimalArithmetic]

/-- An attempt executes face of its own bond. -/
theorem executedOf_attemptRecords (terms : ReplayTerms) (trade : PendingTrade)
    (attempt : SimulatedFill) (rest : List Bar) (i : VersionRef) :
    executedOf (attemptRecords terms trade attempt rest) i =
      if i = attempt.instrument then attempt.quantity else 0 := by
  have hone : executedOf [attempt] i = if i = attempt.instrument then attempt.quantity else 0 := by
    by_cases h : i = attempt.instrument
    · simp [executedOf, h]
    · simp [executedOf, h, Ne.symm h]
  unfold attemptRecords
  split
  · rw [show ∀ a b : SimulatedFill, [a, b] = [a] ++ [b] from fun _ _ => rfl, executedOf_append,
      executedOf_noLaterBar, add_zero, hone]
  · exact hone

/-! ### Inside a step -/

/-- Between two attempts of the step ending at `stepEnd`, with the trades already tried (`done`) and
    those still to try (`todo`). -/
structure StepConserved (trades : List (TradeKey × Decimal)) (before : List SimulatedFill)
    (stepEnd : DateTime) (ends : List DateTime) (done todo : List PendingTrade) (s : StepState) :
    Prop where
  log : registrations s.log = trades
  nodup : ((done ++ todo).map PendingTrade.key).Nodup
  tried : ∀ t ∈ done, t.remaining ≠ 0 → TradeReady ends t
  ready : ∀ t ∈ todo, TradeReady (stepEnd :: ends) t
  tracked : ∀ g ∈ trades, Tracked s.fills (done ++ todo) g
  registered : ∀ t ∈ done ++ todo, ∃ q, (t.key, q) ∈ trades
  fills_registered : ∀ f ∈ s.fills, ∃ q, (f.key, q) ∈ trades
  positions : ∀ i, s.ledger.book.position i = executedOf s.fills i
  ordered : s.fills.Pairwise fun a b => a.effectiveAt ≤ b.effectiveAt
  placed : ∀ f ∈ s.fills, f ∈ before ∨ f.effectiveAt = stepEnd
  due : ∀ f ∈ s.fills, f.effectiveAt ≤ stepEnd

/-- The records of an attempt belong to its trade and to the end of its bar. -/
theorem attemptRecords_key {terms : ReplayTerms} {s : StepState} {trade : PendingTrade} {bar : Bar}
    {rest : List Bar} {attempt : SimulatedFill}
    (hattempt : checkedAttempt terms s trade bar = .ok attempt) :
    ∀ f ∈ attemptRecords terms trade attempt rest,
      f.key = trade.key ∧ f.effectiveAt = bar.barEnd := by
  obtain ⟨htime, hinst, -, hat, -, -⟩ := checkedAttempt_fields hattempt
  have hown : attempt.key = trade.key ∧ attempt.effectiveAt = bar.barEnd := by
    refine ⟨?_, hat⟩
    rw [SimulatedFill.key, htime, hinst]; rfl
  intro f hf
  unfold attemptRecords at hf
  split at hf
  · rcases List.mem_cons.mp hf with rfl | hf
    · exact hown
    · rw [List.mem_singleton.mp hf]
      exact ⟨rfl, hat⟩
  · rw [List.mem_singleton.mp hf]; exact hown

/-- A trade keeps its key. -/
theorem afterAttempt_key (trade : PendingTrade) (attempt : SimulatedFill) (rest : List Bar) :
    (trade.afterAttempt attempt rest).key = trade.key := by
  unfold PendingTrade.afterAttempt
  split <;> rfl

/-- A trade that goes on waits for its later bars. -/
theorem afterAttempt_ready {trade : PendingTrade} {attempt : SimulatedFill} {bar : Bar}
    {rest : List Bar} {ends : List DateTime} (hbars : trade.bars = bar :: rest)
    (hlater : ∀ e ∈ ends, bar.barEnd < e) (hready : TradeReady (bar.barEnd :: ends) trade)
    (hleft : (trade.afterAttempt attempt rest).remaining ≠ 0) :
    TradeReady ends (trade.afterAttempt attempt rest) := by
  have hinc := hbars ▸ hready.increasing
  by_cases hgo : attempt.carried = true ∧ rest ≠ []
  · rw [PendingTrade.afterAttempt, if_pos hgo] at hleft ⊢
    refine ⟨hleft, hgo.2, (List.pairwise_cons.mp hinc).2, ?_⟩
    refine TradeReady.tail hlater (List.pairwise_cons.mp hinc).2 ?_ ?_
    · intro b hb
      exact hready.reachable b (hbars ▸ List.mem_cons_of_mem _ hb)
    · intro b more hb
      have hmem : b ∈ rest := by
        rw [show rest = b :: more from hb]
        exact List.mem_cons_self
      exact ne_of_gt ((List.pairwise_cons.mp hinc).1 b hmem)
  · rw [PendingTrade.afterAttempt, if_neg hgo] at hleft
    exact absurd rfl hleft

omit [DecimalArithmetic] in
/-- Replacing one trade by its successor under the same key moves that trade's chain and no other. -/
theorem tracked_replace {fills records : List SimulatedFill} {done todo : List PendingTrade}
    {trade trade' : PendingTrade} {g : TradeKey × Decimal}
    (hnodup : ((done ++ trade :: todo).map PendingTrade.key).Nodup) (hkey : trade'.key = trade.key)
    (hrecords : ∀ f ∈ records, f.key = trade.key) (hleft : trade.remaining ≠ 0)
    (h : Tracked fills (done ++ trade :: todo) g)
    (hchain : OpenChain g.2 (recordsOf fills g.1) trade.remaining →
      (trade'.remaining ≠ 0 → OpenChain g.2 (recordsOf fills g.1 ++ records) trade'.remaining) ∧
      (trade'.remaining = 0 → TradeChain g.2 (recordsOf fills g.1 ++ records))) :
    Tracked (fills ++ records) (done ++ [trade'] ++ todo) g := by
  have hmem : ∀ t, t ∈ done ++ [trade'] ++ todo → t = trade' ∨ t ∈ done ++ trade :: todo := by
    intro t ht
    simp only [List.mem_append, List.mem_cons, List.not_mem_nil, or_false] at ht ⊢
    tauto
  by_cases hg : g.1 = trade.key
  · -- The trade itself: no other pending trade has its key.
    have hopen := h.running trade (by simp) hg.symm hleft
    obtain ⟨hrun, hdone⟩ := hchain hopen
    have hself : ∀ t ∈ done ++ [trade'] ++ todo, t.key = g.1 → t = trade' := by
      intro t ht hk
      simp only [List.map_append, List.map_cons, List.nodup_append, List.nodup_cons, List.mem_map,
        List.mem_cons] at hnodup
      simp only [List.mem_append, List.mem_cons, List.not_mem_nil, or_false] at ht
      rcases ht with (ht | ht) | ht
      · exact absurd (hk.trans hg) (hnodup.2.2 t.key ⟨t, ht, rfl⟩ trade.key (.inl rfl))
      · exact ht
      · exact absurd ⟨t, ht, hk.trans hg⟩ hnodup.2.1.1
    have hsplit : recordsOf (fills ++ records) g.1 = recordsOf fills g.1 ++ records := by
      rw [recordsOf_append, recordsOf_own fun f hf => (hrecords f hf).trans hg.symm]
    refine ⟨?_, ?_⟩
    · intro t ht hk hne
      rw [hself t ht hk] at hne ⊢
      rw [hsplit]
      exact hrun hne
    · intro hall
      rw [hsplit]
      exact hdone (hall trade' (by simp) (hkey.trans hg.symm))
  · have hsame : recordsOf (fills ++ records) g.1 = recordsOf fills g.1 := by
      rw [recordsOf_append, recordsOf_other hrecords hg, List.append_nil]
    refine ⟨?_, ?_⟩
    · intro t ht hk hne
      rw [hsame]
      rcases hmem t ht with rfl | ht
      · exact absurd (hk.symm.trans hkey) hg
      · exact h.running t ht hk hne
    · intro hall
      rw [hsame]
      refine h.complete fun t ht hk => ?_
      refine hall t ?_ hk
      simp only [List.mem_append, List.mem_cons, List.not_mem_nil, or_false] at ht ⊢
      rcases ht with ht | rfl | ht
      · exact .inl (.inl ht)
      · exact absurd hk.symm hg
      · exact .inr ht

/-- **One step of the loop over the pending trades** keeps what is executed and left of every
    trade. -/
theorem executeDue_conserved {terms : ReplayTerms} {trades : List (TradeKey × Decimal)}
    {before : List SimulatedFill} {stepEnd : DateTime} {ends : List DateTime}
    (hlater : ∀ e ∈ ends, stepEnd < e) {done todo : List PendingTrade}
    {trade trade' : PendingTrade} {s s' : StepState}
    (hs : ExactLog s.log → StepConserved trades before stepEnd ends done (trade :: todo) s)
    (h : executeDue terms stepEnd s trade = .ok (s', trade')) (hexact : ExactLog s'.log) :
    StepConserved trades before stepEnd ends (done ++ [trade']) todo s' := by
  have hexactBefore : ExactLog s.log := by
    rcases executeDue_cases h with ⟨rfl, -, -⟩ | ⟨_, _, _, _, -, -, -, -, -, rfl, -⟩
    · exact hexact
    · exact hexact.of_append
  replace hs := hs hexactBefore
  have hready := hs.ready trade List.mem_cons_self
  have htodo : ∀ t ∈ todo, TradeReady (stepEnd :: ends) t :=
    fun t ht => hs.ready t (List.mem_cons_of_mem _ ht)
  rcases executeDue_cases h with ⟨rfl, rfl, hskip⟩ |
    ⟨bar, rest, attempt, ledger, hbars, hend, hleft, hattempt, hsettle, rfl, rfl⟩
  · -- No attempt: the trade waits for a bar that ends later.
    have hsplit : done ++ [trade'] ++ todo = done ++ trade' :: todo := by simp
    refine ⟨hs.log, hsplit ▸ hs.nodup, ?_, htodo, hsplit ▸ hs.tracked, hsplit ▸ hs.registered,
      hs.fills_registered, hs.positions, hs.ordered, hs.placed, hs.due⟩
    intro t ht hne
    rcases List.mem_append.mp ht with ht | ht
    · exact hs.tried t ht hne
    · rw [List.mem_singleton.mp ht]
      exact ⟨hready.left, hready.waits, hready.increasing,
        TradeReady.tail hlater hready.increasing hready.reachable (hskip hready.left)⟩
  · subst hend
    have hrecords : ∀ f ∈ attemptRecords terms trade attempt rest,
        f.key = trade.key ∧ f.effectiveAt = bar.barEnd := attemptRecords_key hattempt
    have hinst : attempt.instrument = trade.instrument := (checkedAttempt_fields hattempt).2.1
    have hkey := afterAttempt_key trade attempt rest
    have hsettled : SettledExactly s.ledger attempt :=
      hexact s.ledger attempt ledger (List.mem_append_right _ List.mem_cons_self)
    obtain ⟨q, hq⟩ := hs.registered trade (by simp)
    refine ⟨?_, ?_, ?_, htodo, ?_, ?_, ?_, ?_, ?_, ?_, ?_⟩
    · rw [StepState.afterAttempt, registrations_append, hs.log]
      exact List.append_nil _
    · have := hs.nodup
      simpa [hkey] using this
    · intro t ht hne
      rcases List.mem_append.mp ht with ht | ht
      · exact hs.tried t ht hne
      · rw [List.mem_singleton.mp ht] at hne ⊢
        exact afterAttempt_ready hbars hlater hready hne
    · intro g hg
      exact tracked_replace hs.nodup hkey (fun f hf => (hrecords f hf).1) hleft (hs.tracked g hg)
        fun hopen => attempt_chain hattempt hsettled hopen
    · intro t ht
      simp only [List.mem_append, List.mem_cons, List.not_mem_nil, or_false] at ht
      rcases ht with (ht | rfl) | ht
      · exact hs.registered t (List.mem_append_left _ ht)
      · rw [hkey]; exact ⟨q, hq⟩
      · exact hs.registered t (by simp [ht])
    · intro f hf
      rcases List.mem_append.mp hf with hf | hf
      · exact hs.fills_registered f hf
      · rw [(hrecords f hf).1]; exact ⟨q, hq⟩
    · intro i
      have hpos := ReplayLedger.settle_position hsettle i
      change ledger.book.position i = executedOf (s.fills ++ _) i
      rw [hpos, executedOf_append, executedOf_attemptRecords, ← hs.positions i]
      by_cases hi : i = attempt.instrument
      · rw [if_pos hi]
        by_cases hzero : attempt.quantity = 0
        · rw [if_neg fun hand => hand.2 hzero, hzero, add_zero]
        · rw [if_pos ⟨hi, hzero⟩, hi, hsettled.position]
      · rw [if_neg hi, if_neg fun hand => hi hand.1, add_zero]
    · refine List.pairwise_append.mpr ⟨hs.ordered, ?_, ?_⟩
      · refine List.pairwise_of_forall_mem_list fun a ha b hb => ?_
        rw [(hrecords a ha).2, (hrecords b hb).2]
      · intro a ha b hb
        rw [(hrecords b hb).2]
        exact hs.due a ha
    · intro f hf
      rcases List.mem_append.mp hf with hf | hf
      · exact hs.placed f hf
      · exact .inr (hrecords f hf).2
    · intro f hf
      rcases List.mem_append.mp hf with hf | hf
      · exact hs.due f hf
      · exact le_of_eq (hrecords f hf).2

/-! ### Over a run -/

/-- The times at which the steps still open end. -/
def Replay.ends (r : Replay) : List DateTime := r.steps.map Prod.fst

/-- Between two steps: every registered trade is on its way or complete, every pending trade waits
    for steps still to come, and the book is what the fills executed. -/
structure Conserved (covered : List Bar) (done : List DateTime) (r : Replay) : Prop where
  keys : ((registrations r.log).map Prod.fst).Nodup
  times : ∀ g ∈ registrations r.log, g.1.1 ∈ done
  nonzero : ∀ g ∈ registrations r.log, g.2 ≠ 0
  nodup : (r.pending.map PendingTrade.key).Nodup
  ready : ∀ t ∈ r.pending, TradeReady r.ends t
  tracked : ∀ g ∈ registrations r.log, Tracked r.fills r.pending g
  registered : ∀ t ∈ r.pending, ∃ q, (t.key, q) ∈ registrations r.log
  fills_registered : ∀ f ∈ r.fills, ∃ q, (f.key, q) ∈ registrations r.log
  positions : ∀ i, r.ledger.book.position i = executedOf r.fills i
  ordered : r.fills.Pairwise fun a b => a.effectiveAt ≤ b.effectiveAt
  placed : ∀ f ∈ r.fills, f.effectiveAt ∈ done ∨
    ∃ step ∈ stepsOf covered, step ∉ r.steps ∧ f.effectiveAt = step.1
  due : ∀ f ∈ r.fills, ∀ e ∈ r.ends, f.effectiveAt ≤ e

/-- The log of a step starts with what happened before it. -/
theorem ExactLog.of_executeAll {terms : ReplayTerms} {stepEnd : DateTime}
    {trades trades' : List PendingTrade} {s s' : StepState} (hexact : ExactLog s'.log)
    (h : executeAll terms stepEnd trades s = .ok (s', trades')) : ExactLog s.log := by
  have hprefix := executeAll_rule (P := fun _ _ mid => s.log <+: mid.log) ?_ (List.prefix_refl _) h
  · obtain ⟨more, hmore⟩ := hprefix
    rw [← hmore] at hexact
    exact hexact.of_append
  · intro _ trade _ mid mid' trade' hmid hdue
    rcases executeDue_cases hdue with ⟨rfl, -, -⟩ | ⟨_, _, _, _, -, -, -, -, -, rfl, -⟩
    · exact hmid
    · exact hmid.trans (List.prefix_append _ _)

omit [DecimalArithmetic] in
/-- A trade with nothing left is not tracked by the pending list any more. -/
theorem Tracked.retain {fills : List SimulatedFill} {trades : List PendingTrade}
    {g : TradeKey × Decimal} (h : Tracked fills trades g) :
    Tracked fills (trades.filter fun t => t.remaining ≠ 0) g := by
  refine ⟨?_, ?_⟩
  · intro t ht hk hne
    exact h.running t (List.mem_filter.mp ht).1 hk hne
  · intro hall
    refine h.complete fun t ht hk => ?_
    by_contra hne
    exact hne (hall t (List.mem_filter.mpr ⟨ht, by simpa using hne⟩) hk)

/-- **One step of the replay**: all trades that are due are tried in turn. -/
theorem runStep_conserved {terms : ReplayTerms} {covered : List Bar} {done : List DateTime}
    {r r' : Replay} {step : Step} {rest : List Step}
    (hr : ExactLog r.log → Conserved covered done r)
    (hsteps : r.steps = step :: rest) (hsuffix : step :: rest <:+ stepsOf covered)
    (h : runStep terms { r with steps := rest } step = .ok r') (hexact : ExactLog r'.log) :
    Conserved covered done r' := by
  obtain ⟨opened, s, pending, finished, hopen, hexec, hfinish, rfl⟩ := runStep_ok h
  have hsorted : (step :: rest).Pairwise fun a b => a.1 < b.1 :=
    (stepsOf_sorted covered).sublist hsuffix.sublist
  -- The steps that are left end later than this one.
  have hlater : ∀ e ∈ rest.map Prod.fst, step.1 < e := by
    intro e he
    obtain ⟨later, hl, rfl⟩ := List.mem_map.mp he
    exact (List.pairwise_cons.mp hsorted).1 later hl
  have hends : r.ends = step.1 :: rest.map Prod.fst := by rw [Replay.ends, hsteps]; rfl
  have hstart : ExactLog r.log → StepConserved (registrations r.log) r.fills step.1
      (rest.map Prod.fst) [] r.pending ⟨opened, ∅, r.fills, r.log⟩ := by
    intro hexactBefore
    replace hr := hr hexactBefore
    refine ⟨rfl, hr.nodup, by simp, ?_, hr.tracked, hr.registered, hr.fills_registered, ?_,
      hr.ordered, fun f hf => .inl hf, ?_⟩
    · intro t ht; exact hends ▸ hr.ready t ht
    · intro i
      rw [← hr.positions i]
      simp only [SimulatedBook.position]
      rw [ReplayLedger.openStep_positions hopen]
    · intro f hf
      exact hr.due f hf step.1 (hends ▸ List.mem_cons_self)
  -- Every pending trade is tried once in the step.
  have hs := executeAll_rule
    (P := fun done todo s => ExactLog s.log →
      StepConserved (registrations r.log) r.fills step.1 (rest.map Prod.fst) done todo s)
    (fun _ _ _ _ _ _ hP hdue => executeDue_conserved hlater hP hdue) hstart hexec hexact
  replace hr := hr (hexact.of_executeAll hexec)
  -- Executing registers nothing.
  have hlog : registrations s.log = registrations r.log := hs.log
  have hnodup : (pending.map PendingTrade.key).Nodup := by simpa using hs.nodup
  refine ⟨?_, ?_, ?_, ?_, ?_, ?_, ?_, ?_, ?_, hs.ordered, ?_, ?_⟩
  · exact hlog ▸ hr.keys
  · exact hlog ▸ hr.times
  · exact hlog ▸ hr.nonzero
  · exact hnodup.sublist (List.filter_sublist.map _)
  · intro t ht
    obtain ⟨hmem, hne⟩ := List.mem_filter.mp ht
    exact hs.tried t hmem (by simpa using hne)
  · intro g hg
    have := hs.tracked g (hlog ▸ hg)
    rw [List.append_nil] at this
    exact this.retain
  · intro t ht
    show ∃ q, (t.key, q) ∈ registrations s.log
    rw [hlog]
    exact hs.registered t (by simpa using (List.mem_filter.mp ht).1)
  · intro f hf
    show ∃ q, (f.key, q) ∈ registrations s.log
    rw [hlog]
    exact hs.fills_registered f hf
  · intro i
    rw [← hs.positions i, ← ReplayLedger.finishStep_book hfinish]
  · intro f hf
    rcases hs.placed f hf with hf | hf
    · rcases hr.placed f hf with hd | ⟨other, hother, hnot, hat⟩
      · exact .inl hd
      · refine .inr ⟨other, hother, fun hin => hnot ?_, hat⟩
        rw [hsteps]; exact List.mem_cons_of_mem _ hin
    · refine .inr ⟨step, hsuffix.subset List.mem_cons_self, fun hin => ?_, hf⟩
      exact lt_irrefl _ (hlater step.1 (List.mem_map_of_mem hin))
  · intro f hf e he
    exact le_trans (hs.due f hf) (le_of_lt (hlater e he))

/-! ### Registering trades -/

/-- The bars of one instrument do not overlap. -/
def DisjointBars (bars : List Bar) : Prop :=
  bars.Pairwise fun a b =>
    a.instrument = b.instrument → a.barEnd ≤ b.barStart ∨ b.barEnd ≤ a.barStart

omit [DecimalArithmetic] in
/-- The bars a trade may execute in end one after the other. -/
theorem eligibleBars_increasing {covered : List Bar} (hdisjoint : DisjointBars covered)
    (d : DateTime) (i : VersionRef) :
    (eligibleBars covered d i).Pairwise fun a b => a.barEnd < b.barEnd := by
  have hsorted : (eligibleBars covered d i).Pairwise fun a b => a.scheduleKey ≤ b.scheduleKey :=
    List.pairwise_insertionSort _ _
  -- The bars of one instrument do not overlap, in whatever order they are listed.
  have hapart : (eligibleBars covered d i).Pairwise fun a b =>
      a.instrument = b.instrument → a.barEnd ≤ b.barStart ∨ b.barEnd ≤ a.barStart := by
    refine ((List.perm_insertionSort _ _).pairwise_iff ?_).mpr (hdisjoint.filter _)
    intro a b h he
    exact (h he.symm).symm
  have hown : ∀ b ∈ eligibleBars covered d i, b.instrument = i := by
    intro b hb
    have := (List.mem_filter.mp ((List.perm_insertionSort _ _).mem_iff.mp hb)).2
    exact (of_decide_eq_true this).1
  refine (hsorted.and hapart).imp_of_mem ?_
  rintro a b ha hb ⟨hle, hdis⟩
  have hstart : a.barStart ≤ b.barStart := by
    rcases Prod.Lex.le_iff.mp hle with h | h
    · exact le_of_lt h
    · exact le_of_eq h.1
  rcases hdis ((hown a ha).trans (hown b hb).symm) with h | h
  · exact lt_of_le_of_lt h b.start_lt_end
  · exact absurd (lt_of_lt_of_le b.start_lt_end h) (not_lt.mpr hstart)

omit [DecimalArithmetic] in
/-- Records and trades of other keys do not touch the chain of a registered trade. -/
theorem Tracked.extend {fills : List SimulatedFill} {trades : List PendingTrade}
    {g : TradeKey × Decimal} {key : TradeKey} (h : Tracked fills trades g)
    (more : List SimulatedFill) (new : List PendingTrade) (hne : g.1 ≠ key)
    (hmore : ∀ f ∈ more, f.key = key) (hnew : ∀ t ∈ new, t.key = key) :
    Tracked (fills ++ more) (trades ++ new) g := by
  have hrecords : recordsOf (fills ++ more) g.1 = recordsOf fills g.1 := by
    rw [recordsOf_append, recordsOf_other hmore hne, List.append_nil]
  refine ⟨?_, ?_⟩
  · intro t ht hk hleft
    rw [hrecords]
    rcases List.mem_append.mp ht with ht | ht
    · exact h.running t ht hk hleft
    · exact absurd (hk.symm.trans (hnew t ht)) hne
  · intro hall
    rw [hrecords]
    exact h.complete fun t ht hk => hall t (List.mem_append_left _ ht) hk

section Register

variable {terms : ReplayTerms} {covered : List Bar} {done : List DateTime} {d : DateTime} {r : Replay}
  {i : VersionRef} {q : Decimal}

omit [DecimalArithmetic] in
/-- A trade registered for the first time has no records yet. -/
theorem recordsOf_fresh (hr : Conserved covered done r)
    (hfresh : ∀ g ∈ registrations r.log, g.1 ≠ (d, i)) : recordsOf r.fills (d, i) = [] := by
  refine List.filter_eq_nil_iff.mpr fun f hf => ?_
  obtain ⟨p, hp⟩ := hr.fills_registered f hf
  simpa using hfresh _ hp

omit [DecimalArithmetic] in
/-- Registering one more trade at `d`, when the open steps are those that end after `d`. -/
theorem register_conserved (hdisjoint : DisjointBars covered) (hr : Conserved covered done r)
    (hd : d ∈ done) (hdone : ∀ e ∈ done, e ≤ d)
    (hopen : r.steps = (stepsOf covered).filter fun step => d < step.1)
    (hfresh : ∀ g ∈ registrations r.log, g.1 ≠ (d, i)) (hq : q ≠ 0) :
    Conserved covered done (r.register terms d i q (eligibleBars covered d i)) := by
  have hrecords := recordsOf_fresh hr hfresh
  have hpast : ∀ f ∈ r.fills, f.effectiveAt ≤ d := by
    intro f hf
    rcases hr.placed f hf with hin | ⟨step, hstep, hclosed, hat⟩
    · exact hdone _ hin
    · rw [hat]
      by_contra hlt
      exact hclosed (hopen ▸ List.mem_filter.mpr ⟨hstep, by simpa using hlt⟩)
  have hends : ∀ e ∈ r.ends, d ≤ e := by
    intro e he
    obtain ⟨step, hs, rfl⟩ := List.mem_map.mp he
    rw [hopen] at hs
    exact le_of_lt (by simpa using (List.mem_filter.mp hs).2)
  have hlog : registrations (r.log ++ [.registered d i q]) =
      registrations r.log ++ [((d, i), q)] := registrations_append _ _
  have hkeys : ((registrations (r.log ++ [.registered d i q])).map Prod.fst).Nodup := by
    rw [hlog, List.map_append]
    refine List.nodup_append.mpr ⟨hr.keys, by simp, ?_⟩
    intro k hk k' hk'
    obtain ⟨g, hg, rfl⟩ := List.mem_map.mp hk
    rw [show k' = (d, i) by simpa using hk']
    exact hfresh g hg
  have htimes : ∀ g ∈ registrations (r.log ++ [.registered d i q]), g.1.1 ∈ done := by
    intro g hg
    rw [hlog] at hg
    rcases List.mem_append.mp hg with hg | hg
    · exact hr.times g hg
    · rw [List.mem_singleton.mp hg]; exact hd
  have hnonzero : ∀ g ∈ registrations (r.log ++ [.registered d i q]), g.2 ≠ 0 := by
    intro g hg
    rw [hlog] at hg
    rcases List.mem_append.mp hg with hg | hg
    · exact hr.nonzero g hg
    · rw [List.mem_singleton.mp hg]; exact hq
  have hold : ∀ k, (∃ p, (k, p) ∈ registrations r.log) →
      ∃ p, (k, p) ∈ registrations (r.log ++ [.registered d i q]) := by
    rintro k ⟨p, hp⟩
    exact ⟨p, by rw [hlog]; exact List.mem_append_left _ hp⟩
  have hnew : ∃ p, ((d, i), p) ∈ registrations (r.log ++ [.registered d i q]) :=
    ⟨q, by rw [hlog]; exact List.mem_append_right _ List.mem_cons_self⟩
  have hfreshPending : ∀ t ∈ r.pending, t.key ≠ (d, i) := by
    intro t ht
    obtain ⟨p, hp⟩ := hr.registered t ht
    exact hfresh _ hp
  rcases register_cases terms d r i q (eligibleBars covered d i) with ⟨hnone, heq⟩ | ⟨hsome, heq⟩
  · -- No bar left: the trade is complete with one record.
    rw [heq]
    refine ⟨hkeys, htimes, hnonzero, hr.nodup, hr.ready, ?_, fun t ht => hold _ (hr.registered t ht),
      ?_, ?_, ?_, ?_, ?_⟩
    · intro g hg
      change g ∈ registrations (r.log ++ [.registered d i q]) at hg
      rw [hlog] at hg
      rcases List.mem_append.mp hg with hg | hg
      · have := (hr.tracked g hg).extend [noLaterBar d i q d terms.priceSource] [] (hfresh g hg)
          (fun f hf => by rw [List.mem_singleton.mp hf]; rfl) (by simp)
        simpa using this
      · rw [List.mem_singleton.mp hg]
        refine ⟨fun t ht hk => absurd hk (hfreshPending t ht), fun _ => ?_⟩
        change TradeChain q (recordsOf (r.fills ++ [noLaterBar d i q d terms.priceSource]) (d, i))
        rw [recordsOf_append, hrecords, List.nil_append,
          recordsOf_own (fun f hf => by rw [List.mem_singleton.mp hf]; rfl)]
        exact .last rfl (noLaterBar_accounted hq ..) rfl
    · intro f hf
      rcases List.mem_append.mp hf with hf | hf
      · exact hold _ (hr.fills_registered f hf)
      · rw [List.mem_singleton.mp hf]; exact hnew
    · intro j
      change r.ledger.book.position j = executedOf (r.fills ++ _) j
      rw [hr.positions j, executedOf_append, executedOf_noLaterBar, add_zero]
    · refine List.pairwise_append.mpr ⟨hr.ordered, by simp, ?_⟩
      intro a ha b hb
      rw [List.mem_singleton.mp hb]
      exact hpast a ha
    · intro f hf
      rcases List.mem_append.mp hf with hf | hf
      · exact hr.placed f hf
      · rw [List.mem_singleton.mp hf]; exact .inl hd
    · intro f hf e he
      rcases List.mem_append.mp hf with hf | hf
      · exact hr.due f hf e he
      · rw [List.mem_singleton.mp hf]; exact hends e he
  · -- The trade waits for bars that start at or after `d`, so their steps are still open.
    rw [heq]
    have hready : TradeReady r.ends ⟨d, i, q, q, eligibleBars covered d i⟩ := by
      refine ⟨hq, hsome, eligibleBars_increasing hdisjoint d i, ?_⟩
      intro bar hbar
      obtain ⟨hcov, -, hstart⟩ := mem_eligibleBars.mp hbar
      obtain ⟨step, hstep, hend, -⟩ := exists_step hcov
      have hlt : d < step.1 := hend ▸ lt_of_le_of_lt hstart bar.start_lt_end
      rw [Replay.ends, hopen, ← hend]
      exact List.mem_map_of_mem (List.mem_filter.mpr ⟨hstep, by simpa using hlt⟩)
    refine ⟨hkeys, htimes, hnonzero, ?_, ?_, ?_, ?_, fun f hf => hold _ (hr.fills_registered f hf),
      hr.positions, hr.ordered, hr.placed, hr.due⟩
    · change ((r.pending ++ [_]).map PendingTrade.key).Nodup
      rw [List.map_append]
      refine List.nodup_append.mpr ⟨hr.nodup, by simp, ?_⟩
      intro k hk k' hk'
      obtain ⟨t, ht, rfl⟩ := List.mem_map.mp hk
      rw [show k' = (d, i) by simpa [PendingTrade.key] using hk']
      exact hfreshPending t ht
    · intro t ht
      rcases List.mem_append.mp ht with ht | ht
      · exact hr.ready t ht
      · rw [List.mem_singleton.mp ht]; exact hready
    · intro g hg
      change g ∈ registrations (r.log ++ [.registered d i q]) at hg
      rw [hlog] at hg
      rcases List.mem_append.mp hg with hg | hg
      · have := (hr.tracked g hg).extend [] [⟨d, i, q, q, eligibleBars covered d i⟩] (hfresh g hg)
          (by simp) (fun t ht => by rw [List.mem_singleton.mp ht]; rfl)
        simpa using this
      · rw [List.mem_singleton.mp hg]
        change Tracked r.fills (r.pending ++ [_]) ((d, i), q)
        refine ⟨?_, ?_⟩
        · intro t ht hk _
          rcases List.mem_append.mp ht with ht | ht
          · exact absurd hk (hfreshPending t ht)
          · rw [List.mem_singleton.mp ht, hrecords]; exact .nil q
        · intro hall
          exact absurd (hall _ (List.mem_append_right _ List.mem_cons_self) rfl) hq
    · intro t ht
      rcases List.mem_append.mp ht with ht | ht
      · exact hold _ (hr.registered t ht)
      · rw [List.mem_singleton.mp ht]; exact hnew

end Register

/-- The instruments a decision trades are distinct, and no delta is zero. -/
theorem deltasToward_props (book : SimulatedBook) (target : TargetExposure) :
    ((book.deltasToward target).map Prod.fst).Nodup ∧
      ∀ delta ∈ book.deltasToward target, delta.2 ≠ 0 := by
  refine ⟨?_, ?_⟩
  · have hkeys : target.targets.keys.Nodup :=
      target.targets.keys_sorted.imp fun h => ne_of_lt h
    refine hkeys.sublist ?_
    unfold SimulatedBook.deltasToward SortedMap.keys
    -- A target that is reached already has no delta.
    induction target.targets.entries with
    | nil => exact .slnil
    | cons e rest ih =>
      rw [List.filterMap_cons]
      dsimp only
      by_cases hzero : minus e.2 (book.position e.1) = 0
      · rw [if_pos hzero]
        exact ih.cons _
      · rw [if_neg hzero]
        exact ih.cons_cons _
  · intro delta hdelta
    obtain ⟨e, -, he⟩ := List.mem_filterMap.mp hdelta
    dsimp only at he
    split at he
    · cases he
    · rename_i hne
      cases he
      exact hne

omit [DecimalArithmetic] in
/-- **A decision** adds its trades, each with all of its face left. -/
theorem registerAll_conserved {terms : ReplayTerms} {covered : List Bar} {done : List DateTime}
    {d : DateTime} {r : Replay} {deltas : List (VersionRef × Decimal)}
    (hdisjoint : DisjointBars covered) (hr : Conserved covered done r) (hd : d ∈ done)
    (hdone : ∀ e ∈ done, e ≤ d)
    (hopen : r.steps = (stepsOf covered).filter fun step => d < step.1)
    (hdeltas : (deltas.map Prod.fst).Nodup) (hnonzero : ∀ delta ∈ deltas, delta.2 ≠ 0)
    (hfresh : ∀ g ∈ registrations r.log, g.1.1 = d → g.1.2 ∉ deltas.map Prod.fst) :
    Conserved covered done (r.registerAll terms covered d deltas) := by
  induction deltas generalizing r with
  | nil => exact hr
  | cons delta rest ih =>
    obtain ⟨hnot, hrest⟩ := List.nodup_cons.mp hdeltas
    have hnew : ∀ g ∈ registrations r.log, g.1 ≠ (d, delta.1) := by
      intro g hg hk
      exact hfresh g hg (congrArg Prod.fst hk) (by rw [hk]; exact List.mem_cons_self)
    -- The first delta is new under its key, so registering it keeps the account.
    have hone : Conserved covered done
        (r.register terms d delta.1 delta.2 (eligibleBars covered d delta.1)) :=
      register_conserved hdisjoint hr hd hdone hopen hnew (hnonzero delta List.mem_cons_self)
    obtain ⟨hsteps, -, hlog⟩ := register_frame terms d r delta.1 delta.2
      (eligibleBars covered d delta.1)
    refine ih hone (hsteps.trans hopen) hrest (fun x hx => hnonzero x (List.mem_cons_of_mem _ hx)) ?_
    intro g hg hgd
    rw [hlog, registrations_append] at hg
    rcases List.mem_append.mp hg with hg | hg
    · exact fun hin => hfresh g hg hgd (List.mem_cons_of_mem _ hin)
    · rw [List.mem_singleton.mp hg]; exact hnot

/-- Registering trades settles nothing. -/
theorem ExactLog.of_registerAll {terms : ReplayTerms} {covered : List Bar} {d : DateTime} {r : Replay}
    {deltas : List (VersionRef × Decimal)}
    (hexact : ExactLog (r.registerAll terms covered d deltas).log) : ExactLog r.log := by
  have hprefix : r.log <+: (r.registerAll terms covered d deltas).log := by
    refine registerAll_induct (P := fun r' => r.log <+: r'.log) (fun r' delta hr => ?_)
      (List.prefix_refl _)
    rw [(register_frame ..).2.2]
    exact hr.trans (List.prefix_append _ _)
  obtain ⟨more, hmore⟩ := hprefix
  rw [← hmore] at hexact
  exact hexact.of_append

/-- **A whole run**, by induction on its decisions. -/
theorem CompletedRun.conserved {digest : List UInt8 → ContentHash} {request : BarReplayRequest}
    {result : SimulationResult} {closed : Replay}
    (run : CompletedRun digest request result closed) (hdisjoint : DisjointBars request.covered)
    (hexact : ExactLog closed.log) :
    Conserved request.covered (decisionTimes request.covered) closed ∧ closed.steps = [] := by
  have hinv := run.invariant (P := fun done r => ExactLog r.log → Conserved request.covered done r)
    ?_ ?_ ?_
  · exact ⟨hinv.1 hexact, hinv.2⟩
  · exact fun _ => ⟨.nil, by simp [Replay.start, registrations],
      by simp [Replay.start, registrations], .nil, by simp [Replay.start],
      by simp [Replay.start, registrations], by simp [Replay.start], by simp [Replay.start],
      fun i => rfl, .nil, by simp [Replay.start], by simp [Replay.start]⟩
  · intro done r step rest r' hr hsteps hsuffix hrun
    exact runStep_conserved hr hsteps hsuffix hrun
  · intro done d r target hr hbefore _ hopen hexact
    replace hr := hr (hexact.of_registerAll.of_append)
    obtain ⟨hnodup, hnonzero⟩ := deltasToward_props r.projected target
    have hlog : registrations (r.log ++ [.decided d r.projected]) = registrations r.log := by
      rw [registrations_append]; exact List.append_nil _
    -- Logging the decision registers nothing yet.
    have hseen : Conserved request.covered (done ++ [d])
        { r with log := r.log ++ [.decided d r.projected] } := by
      refine ⟨hlog ▸ hr.keys, ?_, hlog ▸ hr.nonzero, hr.nodup, hr.ready, hlog ▸ hr.tracked,
        hlog ▸ hr.registered, hlog ▸ hr.fills_registered, hr.positions, hr.ordered, ?_, hr.due⟩
      · intro g hg
        exact List.mem_append_left _ (hr.times g (hlog ▸ hg))
      · intro f hf
        exact (hr.placed f hf).imp (List.mem_append_left _) id
    refine registerAll_conserved hdisjoint hseen (by simp) ?_ hopen hnodup hnonzero ?_
    · intro e he
      rcases List.mem_append.mp he with he | he
      · exact le_of_lt (hbefore e he)
      · exact le_of_eq (List.mem_singleton.mp he)
    · intro g hg hgd
      change g ∈ registrations (r.log ++ [.decided d r.projected]) at hg
      rw [hlog] at hg
      exact absurd hgd (ne_of_lt (hbefore _ (hr.times g hg)))

omit [DecimalArithmetic] in
/-- The records of a trade are in time order already, so the result shows them as they happened. -/
theorem recordsOf_sortedFills {r : Replay}
    (hordered : r.fills.Pairwise fun a b => a.effectiveAt ≤ b.effectiveAt) (key : TradeKey) :
    recordsOf r.sortedFills key = recordsOf r.fills key := by
  unfold recordsOf Replay.sortedFills
  have hsort := filter_insertionSort
    (fun a b : SimulatedFill => Replay.fillKey a ≤ Replay.fillKey b) (fun fill => fill.key = key)
    r.fills
  rw [hsort]
  apply List.Pairwise.insertionSort_eq
  refine (hordered.filter _).imp_of_mem ?_
  intro a b ha hb hle
  have hka : a.key = key := by simpa using (List.mem_filter.mp ha).2
  have hkb : b.key = key := by simpa using (List.mem_filter.mp hb).2
  have hkey : a.key = b.key := hka.trans hkb.symm
  obtain ⟨htime, hinst⟩ := Prod.mk.inj hkey
  rcases lt_or_eq_of_le hle with hlt | heq
  · exact Prod.Lex.le_iff.mpr (.inl hlt)
  · refine le_of_eq ?_
    simp only [Replay.fillKey, heq, hinst, htime]

/-- **Trade conservation.**  Over covered bars that do not overlap, when a run returns in which every
    settlement was exact: the records of every registered trade are a complete chain, their quantities
    have the direction of the trade and, with what the last record cancels, add up to it; no trade is
    pending; no trade is registered twice and every record belongs to a registered trade; and every
    position of the book is the sum of the executed quantities of its instrument. -/
theorem trades_conserved (digest : List UInt8 → ContentHash) (request : BarReplayRequest)
    (result : SimulationResult) (closed : Replay)
    (hrun : replayRun digest request = .ok (result, closed))
    (hdisjoint : DisjointBars request.covered) (hexact : ExactLog closed.log) :
    (∀ d i q, ReplayEvent.registered d i q ∈ closed.log →
      q ≠ 0 ∧ TradeChain q (recordsOf result.content.fills (d, i)) ∧
        (∀ fill ∈ recordsOf result.content.fills (d, i), PartOf fill.quantity q) ∧
        ((recordsOf result.content.fills (d, i)).map SimulatedFill.quantity).sum +
          cancelledAtEnd (recordsOf result.content.fills (d, i)) = q) ∧
      closed.pending = [] ∧
      ((registrations closed.log).map Prod.fst).Nodup ∧
      (∀ fill ∈ result.content.fills,
        ∃ q, ReplayEvent.registered fill.decisionTime fill.instrument q ∈ closed.log) ∧
      ∀ i, result.content.book.position i =
        ((result.content.fills.filter fun fill => fill.instrument = i).map
          SimulatedFill.quantity).sum := by
  obtain ⟨run⟩ := replayRun_completed hrun
  obtain ⟨hc, hsteps⟩ := run.conserved hdisjoint hexact
  have hends : closed.ends = [] := by rw [Replay.ends, hsteps]; rfl
  -- A pending trade would wait for a bar of an open step, and there is none.
  have hpending : closed.pending = [] := by
    refine List.eq_nil_iff_forall_not_mem.mpr fun t ht => ?_
    have hready := hc.ready t ht
    obtain ⟨bar, hbar⟩ := List.exists_mem_of_ne_nil _ hready.waits
    have := hready.reachable bar hbar
    rw [hends] at this
    cases this
  have hfills : result.content.fills = closed.sortedFills := by rw [run.content]
  have hbook : result.content.book = closed.ledger.book := by rw [run.content]
  have hperm : closed.sortedFills.Perm closed.fills := List.perm_insertionSort _ _
  refine ⟨?_, hpending, hc.keys, ?_, ?_⟩
  · intro d i q hreg
    have hg := mem_registrations.mpr hreg
    rw [hfills, recordsOf_sortedFills hc.ordered]
    have hchain := (hc.tracked _ hg).complete (by rw [hpending]; simp)
    exact ⟨hc.nonzero _ hg, hchain, hchain.partOf, hchain.sum⟩
  · intro fill hfill
    rw [hfills] at hfill
    obtain ⟨q, hq⟩ := hc.fills_registered fill (hperm.mem_iff.mp hfill)
    exact ⟨q, mem_registrations.mp hq⟩
  · intro i
    rw [hbook, hfills, hc.positions i]
    exact ((hperm.filter _).map _).sum_eq.symm

end

/-! ### With operators that round -/

section

open RoundedDecimals

/-- A purchase of 10 that the next bar executes. -/
theorem trades_conserved_small : ∃ result closed,
    replayRun SmallMarket.digest (SmallMarket.request .carry [SmallMarket.cheap, SmallMarket.next]) =
      .ok (result, closed) ∧
    (registrations closed.log).length = 1 ∧ closed.pending = [] ∧
    ∀ i, result.content.book.position i =
      ((result.content.fills.filter fun fill => fill.instrument = i).map
        SimulatedFill.quantity).sum := by
  obtain ⟨⟨result, closed⟩, hrun, hlog⟩ := exists_ok_of_any
    (x := replayRun SmallMarket.digest
      (SmallMarket.request .carry [SmallMarket.cheap, SmallMarket.next]))
    (p := fun out => (registrations out.2.log).length = 1 ∧ out.2.log.all ReplayEvent.exact)
    (by decide +kernel)
  obtain ⟨hone, hexact⟩ := of_decide_eq_true hlog
  obtain ⟨-, hpending, -, -, hbook⟩ := trades_conserved _ _ result closed hrun
    (by unfold DisjointBars; decide +kernel) (.of_all hexact)
  exact ⟨result, closed, hrun, hone, hpending, hbook⟩

/-- **Face appears from nowhere.**  A third of the volume is executed of a trade of 10^9, and the
    rest is cancelled; the rest is rounded, and with what was executed it is more than the trade. -/
theorem trade_not_conserved : ∃ result closed,
    replayRun SmallMarket.digest (SmallMarket.thirds [SmallMarket.cheap, SmallMarket.large]) =
      .ok (result, closed) ∧
    DisjointBars (SmallMarket.thirds [SmallMarket.cheap, SmallMarket.large]).covered ∧
    ReplayEvent.registered (SmallMarket.minute 1) SmallMarket.bond (.scaled (10 ^ 9) 0) ∈ closed.log ∧
    ((recordsOf result.content.fills (SmallMarket.minute 1, SmallMarket.bond)).map
        SimulatedFill.quantity).sum +
      cancelledAtEnd (recordsOf result.content.fills (SmallMarket.minute 1, SmallMarket.bond)) =
        .scaled 100000000000000000000000000003 20 ∧
    Decimal.scaled 100000000000000000000000000003 20 ≠ .scaled (10 ^ 9) 0 := by
  obtain ⟨⟨result, closed⟩, hrun, hfaces⟩ := exists_ok_of_any
    (x := replayRun SmallMarket.digest (SmallMarket.thirds [SmallMarket.cheap, SmallMarket.large]))
    (p := fun out =>
      ((SmallMarket.minute 1, SmallMarket.bond), Decimal.scaled (10 ^ 9) 0) ∈ registrations out.2.log ∧
      ((recordsOf out.1.content.fills (SmallMarket.minute 1, SmallMarket.bond)).map
          SimulatedFill.quantity).sum +
        cancelledAtEnd (recordsOf out.1.content.fills (SmallMarket.minute 1, SmallMarket.bond)) =
          .scaled 100000000000000000000000000003 20) (by decide +kernel)
  obtain ⟨hregistered, hsum⟩ := of_decide_eq_true hfaces
  exact ⟨result, closed, hrun, by unfold DisjointBars; decide +kernel,
    mem_registrations.mp hregistered, hsum, by decide +kernel⟩

end

end Ficant
