import Ficant.Replay.Reconciliation

namespace Ficant

open Lib DecimalArithmetic

namespace ReplayLedger

/-!
# What a failed ledger call leaves behind

A call on the replay ledger that fails may be followed by others, so the ledger it leaves behind
matters (`ficant-domain/src/replay/ledger.rs`).

* `Reachable` — the ledgers that sequences of calls leave behind, the failing calls included;
* `Priced` — the invariant they share: every position has a mark and accrued interest, so only the
  coupon source can be missing something;
* `settle_atomic` — a failing `settle` puts the open step back and changes nothing;
* `openStep_atomic_iff` — a failing `open_step` changes nothing, unless the date rolls and a held
  bond has no coupon data: then the date is already the new one, and funding and the coupons of the
  bonds before it are booked.
-/

section

variable [DecimalArithmetic] {terms : LedgerTerms} {l l' : ReplayLedger}

/-! ### Reachable ledgers -/

/-- The ledger a call leaves behind. -/
def left : Except LedgerError ReplayLedger → ReplayLedger
  | .ok l => l
  | .error (_, l) => l

/-- The code that a failing call returns. -/
def codeOf : Except LedgerError ReplayLedger → Option DomainErrorCode
  | .ok _ => none
  | .error (code, _) => some code

omit [DecimalArithmetic] in
/-- A call is known by its code and the ledger it leaves behind. -/
theorem eq_ok_of_codeOf {result : Except LedgerError ReplayLedger} (h : codeOf result = none) :
    result = .ok (left result) := by
  cases result with
  | ok l => rfl
  | error e => cases h

omit [DecimalArithmetic] in
/-- A result with an error code is that error. -/
theorem eq_error_of_codeOf {result : Except LedgerError ReplayLedger} {code : DomainErrorCode}
    (h : codeOf result = some code) : result = .error (code, left result) := by
  cases result with
  | ok l => cases h
  | error e =>
    obtain rfl : e.1 = code := Option.some.inj h
    rfl

/-- A call on the ledger. -/
inductive Call
  | openStep (bars : List Bar)
  | settle (fill : SimulatedFill)
  | finishStep

/-- What a call does. -/
def Call.run (terms : LedgerTerms) (l : ReplayLedger) : Call → Except LedgerError ReplayLedger
  | .openStep bars => l.openStep terms bars
  | .settle fill => l.settle terms fill
  | .finishStep => l.finishStep

/-- The ledgers that sequences of calls leave behind, whether or not the calls succeed. -/
inductive Reachable (terms : LedgerTerms) : ReplayLedger → Prop
  | new : Reachable terms .new
  | call {l : ReplayLedger} (h : Reachable terms l) (c : Call) : Reachable terms (left (c.run terms l))

/-- `close_step` is a sequence of calls that ends at the first failing one. -/
theorem Reachable.closeStep (h : Reachable terms l) (bars : List Bar) (fills : List SimulatedFill) :
    Reachable terms (left (l.closeStep terms bars fills)) := by
  have hopened := h.call (.openStep bars)
  unfold ReplayLedger.closeStep
  cases hopen : l.openStep terms bars with
  | error e =>
    simp only [Call.run, hopen] at hopened
    exact hopened
  | ok opened =>
    simp only [Call.run, hopen, left] at hopened
    rw [ok_bind]
    -- the fills settle one by one, from any ledger that is reachable
    clear hopen h
    induction fills generalizing opened with
    | nil => exact hopened.call .finishStep
    | cons fill fills ih =>
      have hsettled := hopened.call (.settle fill)
      rw [List.foldlM_cons]
      cases hsettle : opened.settle terms fill with
      | error e =>
        simp only [Call.run, hsettle] at hsettled
        exact hsettled
      | ok settled =>
        simp only [Call.run, hsettle, left] at hsettled
        rw [ok_bind]
        exact ih settled hsettled

/-! ### Every position is priced -/

/-- No position is empty, and each has a mark and accrued interest. -/
structure Priced (l : ReplayLedger) : Prop where
  nonzero : ∀ i face, l.book.positions.get? i = some face → face ≠ 0
  marked : ∀ i face, l.book.positions.get? i = some face → (l.marks.get? i).isSome
  accrued : ∀ i face, l.book.positions.get? i = some face → (l.accrued.get? i).isSome

/-- What a roll of the date leaves alone, whether or not it succeeds: it books cash and renews
    accrued interest. -/
structure Rolled (l l' : ReplayLedger) : Prop where
  positions : l'.book.positions = l.book.positions
  marks : l'.marks = l.marks
  date : l'.date = l.date
  accrued : ∀ i, (l.accrued.get? i).isSome → (l'.accrued.get? i).isSome

omit [DecimalArithmetic] in
/-- Rolling the date keeps every position priced. -/
theorem Rolled.priced (h : Rolled l l') (hl : l.Priced) : l'.Priced where
  nonzero := h.positions ▸ hl.nonzero
  marked := by
    rw [h.positions, h.marks]
    exact hl.marked
  accrued := by
    rw [h.positions]
    exact fun i face hi => h.accrued i (hl.accrued i face hi)

omit [DecimalArithmetic] in
/-- Accrued interest that is renewed is still there. -/
theorem isSome_insert {m : SortedMap VersionRef Decimal} {i j : VersionRef} {value : Decimal}
    (h : (m.get? j).isSome) : ((m.insert i value).get? j).isSome := by
  rw [SortedMap.get?_insert]
  split
  · rfl
  · exact h

/-- Rolling the instruments rolls the ledger, whether it fails or not. -/
theorem rollInstruments_rolled {previous date : NaiveDate} {held : List (VersionRef × Decimal)}
    {parts : SortedMap VersionRef Parts} :
    (∀ l' parts', rollInstruments terms previous date held l parts = .ok (l', parts') → Rolled l l') ∧
      ∀ code l', rollInstruments terms previous date held l parts = .error (code, l') →
      Rolled l l' := by
  induction held generalizing l parts with
  | nil =>
    refine ⟨fun l' parts' h => ?_, fun code l' h => nomatch h⟩
    cases h
    exact ⟨rfl, rfl, rfl, fun i hi => hi⟩
  | cons e rest ih =>
    obtain ⟨instrument, face⟩ := e
    -- the bond carried first leaves positions, marks and date, and the rest carries on from there
    have hstep : ∀ {l' : ReplayLedger} {after paid : Decimal},
        Rolled { l with
          book := l.book.addCash (shifted (times face paid) 2)
          accrued := l.accrued.insert instrument after } l' → Rolled l l' := by
      intro l' after paid h
      exact ⟨h.positions, h.marks, h.date, fun i hi => h.accrued i (isSome_insert hi)⟩
    constructor
    · intro l' parts' h
      unfold rollInstruments at h
      split at h
      · exact hstep (ih.1 l' parts' h)
      · cases h
    · intro code l' h
      unfold rollInstruments at h
      split at h
      · exact hstep (ih.2 code l' h)
      · cases h
        exact ⟨rfl, rfl, rfl, fun i hi => hi⟩

/-- The coupon source knows the bond on a date that follows another. -/
def HasCarry (terms : LedgerTerms) (previous date : NaiveDate) (instrument : VersionRef) : Prop :=
  (terms.accruedOn date instrument).isSome ∧
    (terms.carry.couponPaid instrument terms.settlement previous date).isSome

/-- The carry of the bonds held succeeds when the coupon source knows them all. -/
theorem rollInstruments_isOk_iff {previous date : NaiveDate} {held : List (VersionRef × Decimal)}
    {parts : SortedMap VersionRef Parts} (hheld : ∀ e ∈ held, (l.accrued.get? e.1).isSome) :
    (∃ result, rollInstruments terms previous date held l parts = .ok result) ↔
      ∀ e ∈ held, HasCarry terms previous date e.1 := by
  induction held generalizing l parts with
  | nil => exact iff_of_true ⟨_, rfl⟩ fun e he => nomatch he
  | cons e rest ih =>
    obtain ⟨instrument, face⟩ := e
    have hbefore := hheld (instrument, face) List.mem_cons_self
    rw [List.forall_mem_cons, HasCarry]
    unfold rollInstruments
    obtain ⟨before, hbefore⟩ := Option.isSome_iff_exists.mp hbefore
    simp only [hbefore]
    cases hafter : terms.accruedOn date instrument with
    | none => simp
    | some after =>
      cases hpaid : terms.carry.couponPaid instrument terms.settlement previous date with
      | none => simp
      | some paid =>
        simp only [Option.isSome_some, true_and]
        exact ih fun e he => isSome_insert (hheld e (List.mem_cons_of_mem _ he))

/-- Positions that have marks are all marked. -/
theorem markInstruments_isSome {marks : SortedMap VersionRef Decimal}
    {held : List (VersionRef × Decimal)} (closes : SortedMap VersionRef Decimal)
    (parts : SortedMap VersionRef Parts)
    (h : ∀ e ∈ held, (marks.get? e.1).isSome) :
    (markInstruments marks closes held parts).isSome := by
  induction held generalizing parts with
  | nil => rfl
  | cons e rest ih =>
    obtain ⟨previous, hprevious⟩ := Option.isSome_iff_exists.mp (h e List.mem_cons_self)
    unfold markInstruments
    rw [hprevious]
    exact ih _ fun e he => h e (List.mem_cons_of_mem _ he)

/-- A failing roll of the date, with the ledger it leaves behind. -/
theorem rollDate_error {date : NaiveDate} {code : DomainErrorCode}
    (h : rollDate terms l date = .error (code, l')) :
    ∃ previous, l.date = some previous ∧ previous ≠ date ∧
      rollInstruments terms previous date l.book.positions.entries
        { l with
          date := some date
          book := l.book.addCash (fundingCharge terms l.book.cash previous date) } ∅ =
        .error (code, l') := by
  unfold rollDate at h
  dsimp only at h
  split at h
  · cases h
  rename_i previous hprevious
  split at h
  · cases h
  rename_i hne
  refine ⟨previous, hprevious, hne, ?_⟩
  -- Rolling fails only among the instruments, when date and funding are booked already.
  cases hroll : rollInstruments terms previous date l.book.positions.entries
      { l with
        date := some date
        book := l.book.addCash (fundingCharge terms l.book.cash previous date) } ∅ with
  | ok result =>
    rw [hroll] at h
    cases h
  | error e =>
    rw [hroll] at h
    exact congrArg Except.error (Except.error.inj h)

/-- A date roll, failing or not, keeps positions and marks and sets the date. -/
theorem rollDate_rolled {date : NaiveDate} :
    (∀ l' parts funding, rollDate terms l date = .ok (l', parts, funding) →
      Rolled { l with date := some date } l') ∧
    ∀ code l', rollDate terms l date = .error (code, l') → Rolled { l with date := some date } l' := by
  constructor
  · intro l' parts funding h
    rcases rollDate_ok h with ⟨rfl, -, -, -⟩ | ⟨previous, -, -, -, hroll⟩
    · exact ⟨rfl, rfl, rfl, fun i hi => hi⟩
    · have hrolled := rollInstruments_rolled.1 l' parts hroll
      exact ⟨hrolled.positions, hrolled.marks, hrolled.date, hrolled.accrued⟩
  · intro code l' h
    obtain ⟨previous, -, -, hroll⟩ := rollDate_error h
    have hrolled := rollInstruments_rolled.2 code l' hroll
    exact ⟨hrolled.positions, hrolled.marks, hrolled.date, hrolled.accrued⟩

/-- A failing `open_step` is refused at once, or fails on its way to the new date. -/
theorem openStep_error {bars : List Bar} {code : DomainErrorCode} (hl : l.Priced)
    (h : openStep terms l bars = .error (code, l')) :
    l' = l ∨ ∃ first rest, bars = first :: rest ∧ l.stepConsistent first bars = true ∧
      rollDate terms l first.localTradingDate = .error (code, l') := by
  cases bars with
  | nil =>
    cases h
    exact .inl rfl
  | cons first rest =>
    unfold openStep at h
    dsimp only at h
    split at h
    · cases h
      exact .inl rfl
    rename_i hconsistent
    refine .inr ⟨first, rest, rfl, by simpa using hconsistent, ?_⟩
    cases hroll : rollDate terms l first.localTradingDate with
    | error e =>
      rw [hroll] at h
      exact congrArg Except.error (Except.error.inj h)
    | ok result =>
      obtain ⟨rolled, parts, funding⟩ := result
      -- after the roll every position still has its mark, so marking cannot fail
      have hrolled := rollDate_rolled.1 rolled parts funding hroll
      have hheld : ∀ e ∈ l.book.positions.entries, (rolled.marks.get? e.1).isSome := by
        intro e he
        rw [hrolled.marks]
        exact hl.marked e.1 e.2 (entry_of_mem_held he)
      have hmarked := markInstruments_isSome (stepCloses (first :: rest)) parts hheld
      rw [hroll] at h
      simp only [ok_bind] at h
      split at h
      · rename_i hnone
        rw [hnone] at hmarked
        cases hmarked
      · cases h

/-! ### The invariant over all calls -/

/-- Opening a step keeps every position priced, whether it fails or not. -/
theorem Priced.openStep (hl : l.Priced) (bars : List Bar) :
    (left (l.openStep terms bars)).Priced := by
  have hdated : ∀ date, Priced { l with date := some date } :=
    fun date => ⟨hl.nonzero, hl.marked, hl.accrued⟩
  cases h : l.openStep terms bars with
  | ok l' =>
    obtain ⟨first, _, rolled, parts, funding, _, -, -, hroll, -, rfl⟩ := openStep_ok h
    have hrolled := (rollDate_rolled.1 rolled parts funding hroll).priced (hdated _)
    exact ⟨hrolled.nonzero, hrolled.marked, hrolled.accrued⟩
  | error e =>
    rcases openStep_error hl h with hsame | ⟨first, rest, -, -, hroll⟩
    · show e.2.Priced
      rw [hsame]
      exact hl
    · exact (rollDate_rolled.2 e.1 e.2 hroll).priced (hdated _)

/-- A failing `settle` puts the open step back and changes nothing else. -/
theorem settle_atomic {fill : SimulatedFill} {code : DomainErrorCode}
    (h : l.settle terms fill = .error (code, l')) : l' = l := by
  unfold settle at h
  split at h
  · cases h
    rfl
  split at h
  · cases h
  -- Every error is raised before anything is written.
  unfold execute at h
  dsimp only at h
  split at h
  · cases h
    rfl
  split at h
  · cases h
    rfl
  split at h
  · cases h
    rfl
  · cases h

/-- Settling a fill keeps every position priced, whether it fails or not. -/
theorem Priced.settle (hl : l.Priced) (fill : SimulatedFill) :
    (left (l.settle terms fill)).Priced := by
  cases h : l.settle terms fill with
  | error e =>
    show e.2.Priced
    rw [settle_atomic h]
    exact hl
  | ok l' =>
    obtain ⟨step, -, ⟨-, rfl⟩ | ⟨price, accrued, hquantity, -, -, -, -, rfl⟩⟩ := settle_ok h
    · exact hl
    · -- the bond that was traded gets accrued interest and, if it had none, a mark
      have hget : ∀ i face, (afterFill terms l fill step price accrued).book.positions.get? i =
          some face → i = fill.instrument ∨ l.book.positions.get? i = some face := by
        intro i face hi
        rw [afterFill, SimulatedBook.get?_addPosition] at hi
        split at hi
        · rename_i heq
          exact .inl heq
        · exact .inr hi
      constructor
      · intro i face hi
        rw [show (left (.ok (afterFill terms l fill step price accrued))).book =
          (l.book.addCash _).addPosition fill.instrument fill.quantity from rfl,
          SimulatedBook.get?_addPosition] at hi
        split at hi
        · split at hi
          · cases hi
          · rename_i hne
            rwa [← Option.some.inj hi]
        · exact hl.nonzero i face hi
      · intro i face hi
        show ((if (l.marks.get? fill.instrument).isSome then l.marks else l.marks.insert
          fill.instrument ((step.closes.get? fill.instrument).getD price)).get? i).isSome
        rcases hget i face hi with rfl | hold
        · split
          · assumption
          · rw [SortedMap.get?_insert_self]
            rfl
        · split
          · exact hl.marked i face hold
          · exact isSome_insert (hl.marked i face hold)
      · intro i face hi
        show ((l.accrued.insert fill.instrument accrued).get? i).isSome
        rcases hget i face hi with rfl | hold
        · rw [SortedMap.get?_insert_self]
          rfl
        · exact isSome_insert (hl.accrued i face hold)

/-- A failing `finish_step` takes the step away and leaves its closes as marks. -/
theorem finishStep_error {code : DomainErrorCode} (h : l.finishStep = .error (code, l')) :
    l' = l ∨ ∃ step, l' = l.marked step := by
  unfold finishStep at h
  split at h
  · cases h
    exact .inl rfl
  rename_i step hstep
  dsimp only at h
  split at h
  · cases h
    exact .inr ⟨step, rfl⟩
  split at h
  · cases h
    exact .inr ⟨step, rfl⟩
  · cases h

omit [DecimalArithmetic] in
/-- Marking a step keeps every position priced. -/
theorem Priced.marked_step (hl : l.Priced) (step : OpenStep) : (l.marked step).Priced where
  nonzero := hl.nonzero
  marked := by
    intro i face hi
    show ((l.marks.insertAll step.closes.entries).get? i).isSome
    rw [SortedMap.get?_insertAll_entries]
    cases step.closes.get? i with
    | some close => rfl
    | none => exact hl.marked i face hi
  accrued := hl.accrued

/-- Finishing a step keeps every position priced, whether it fails or not. -/
theorem Priced.finishStep (hl : l.Priced) : (left l.finishStep).Priced := by
  cases h : l.finishStep with
  | error e =>
    show e.2.Priced
    rcases finishStep_error h with hsame | ⟨step, hstep⟩
    · rw [hsame]
      exact hl
    · rw [hstep]
      exact hl.marked_step step
  | ok l' =>
    obtain ⟨step, equity, -, -, -, rfl⟩ := finishStep_ok h
    have hmarked := hl.marked_step step
    refine ⟨hmarked.nonzero, hmarked.marked, fun i face hi => ?_⟩
    -- only flat bonds are forgotten, and a position is never empty
    show ((forgetFlat l.book step.parts.keys l.accrued).get? i).isSome
    rw [get?_forgetFlat]
    · exact hl.accrued i face hi
    · rw [SimulatedBook.position, show l.book.positions.get? i = some face from hi]
      exact hl.nonzero i face hi

/-- **Every reachable ledger prices its positions.** -/
theorem Reachable.priced (h : Reachable terms l) : l.Priced := by
  induction h with
  | new =>
    constructor
    · intro i face hi; cases hi
    · intro i face hi; cases hi
    · intro i face hi; cases hi
  | call _ c ih =>
    cases c with
    | openStep bars => exact ih.openStep bars
    | settle fill => exact ih.settle fill
    | finishStep => exact ih.finishStep

/-! ### Failing calls -/

/-- The bars form a step that may follow, on another date than the last one, and the coupon source
    is missing data for a bond that is held. -/
def RollsWithoutCarry (terms : LedgerTerms) (l : ReplayLedger) (bars : List Bar) : Prop :=
  ∃ first rest previous, bars = first :: rest ∧ l.stepConsistent first bars = true ∧
    l.date = some previous ∧ previous ≠ first.localTradingDate ∧
    ∃ i face, l.book.positions.get? i = some face ∧
      ¬HasCarry terms previous first.localTradingDate i

/-- What a failing roll of the date lacks. -/
theorem rollDate_isError_iff {date : NaiveDate} (hl : l.Priced) :
    (∃ e, rollDate terms l date = .error e) ↔
      ∃ previous, l.date = some previous ∧ previous ≠ date ∧
        ∃ i face, l.book.positions.get? i = some face ∧ ¬HasCarry terms previous date i := by
  -- The instruments roll exactly when each of them has its carry.
  have hcarried : ∀ previous funding,
      (∃ result, rollInstruments terms previous date l.book.positions.entries
        { l with date := some date, book := l.book.addCash funding } ∅ = .ok result) ↔
      ∀ e ∈ l.book.positions.entries, HasCarry terms previous date e.1 :=
    fun previous funding => rollInstruments_isOk_iff
      fun e he => hl.accrued e.1 e.2 (entry_of_mem_held he)
  constructor
  · rintro ⟨⟨code, l'⟩, h⟩
    obtain ⟨previous, hprevious, hne, hroll⟩ := rollDate_error h
    refine ⟨previous, hprevious, hne, ?_⟩
    by_contra hcarry
    push Not at hcarry
    obtain ⟨result, hok⟩ := (hcarried previous _).mpr
      fun e he => hcarry e.1 e.2 (entry_of_mem_held he)
    rw [hok] at hroll
    cases hroll
  · rintro ⟨previous, hprevious, hne, i, face, hi, hcarry⟩
    cases h : rollDate terms l date with
    | error e => exact ⟨e, rfl⟩
    | ok result =>
      obtain ⟨rolled, parts, funding⟩ := result
      rcases rollDate_ok h with ⟨-, -, -, hsame⟩ | ⟨before, hbefore, -, -, hroll⟩
      · exact absurd (hsame previous hprevious) hne
      · obtain rfl := Option.some.inj (hprevious.symm.trans hbefore)
        have hall := (hcarried previous funding).mp ⟨_, hroll⟩
        exact absurd (hall (i, face) (SortedMap.mem_entries_iff.mpr hi)) hcarry

/-- Where data is missing, `open_step` fails, and the ledger it leaves behind already has the new
    date. -/
theorem RollsWithoutCarry.fails (hl : l.Priced) {bars : List Bar}
    (h : RollsWithoutCarry terms l bars) :
    ∃ code l', l.openStep terms bars = .error (code, l') ∧ l'.date ≠ l.date := by
  obtain ⟨first, rest, previous, rfl, hconsistent, hprevious, hne, i, face, hi, hcarry⟩ := h
  obtain ⟨⟨code, l'⟩, hroll⟩ := (rollDate_isError_iff hl).mpr
    ⟨previous, hprevious, hne, i, face, hi, hcarry⟩
  have hopen : l.openStep terms (first :: rest) = .error (code, l') := by
    unfold ReplayLedger.openStep
    dsimp only
    rw [if_neg (not_not.mpr hconsistent), hroll]
    rfl
  refine ⟨code, l', hopen, fun hsame => hne ?_⟩
  have hdate := (rollDate_rolled.2 code l' hroll).date
  rw [hsame, hprevious] at hdate
  exact Option.some.inj hdate

/-- A failing `open_step` changes nothing, unless the coupon source is missing data. -/
theorem openStep_atomic_iff (hl : l.Priced) (bars : List Bar) :
    (∀ code l', l.openStep terms bars = .error (code, l') → l' = l) ↔
      ¬RollsWithoutCarry terms l bars := by
  constructor
  · intro h hrolls
    obtain ⟨code, l', hopen, hdate⟩ := hrolls.fails hl
    exact hdate (congrArg date (h code l' hopen))
  · intro h code l' hopen
    rcases openStep_error hl hopen with hsame | ⟨first, rest, hbars, hconsistent, hroll⟩
    · exact hsame
    · obtain ⟨previous, hprevious, hne, hmissing⟩ := (rollDate_isError_iff hl).mp ⟨_, hroll⟩
      exact absurd ⟨first, rest, previous, hbars, hconsistent, hprevious, hne, hmissing⟩ h

/-- **Failing calls.** In every reachable ledger a failing `settle` changes nothing, and a failing
    `open_step` changes nothing if and only if no coupon data is missing on the way to a new date. -/
theorem ledger_atomic_iff (terms : LedgerTerms) (l : ReplayLedger) (hl : Reachable terms l) :
    (∀ fill code l', l.settle terms fill = .error (code, l') → l' = l) ∧
      ∀ bars, (∀ code l', l.openStep terms bars = .error (code, l') → l' = l) ↔
        ¬RollsWithoutCarry terms l bars :=
  ⟨fun _ _ _ => settle_atomic, fun bars => openStep_atomic_iff hl.priced bars⟩

end

end ReplayLedger

namespace SmallMarket

/-- The day after `date`. -/
def nextDate : NaiveDate :=
  .ymd 2026 7 21

/-- A bar on the next trading date, half an hour after midnight in Shanghai. -/
def overnight : Bar :=
  ⟨{ barInput "b9" 900 901 901 10 2 with localTradingDate := nextDate }, by decide +kernel⟩

/-- A coupon source whose table ends on the first date. -/
def endingCarry : BondCarry :=
  { carry with accruedInterest := fun _ _ day => if day = date then some 0 else none }

/-- Terms without costs or funding. -/
def endingTerms : LedgerTerms :=
  ⟨endingCarry, (request .cancel []).funding, .none, .t1⟩

section

variable [DecimalArithmetic]

/-- The purchase of 10 of the bond in the first bar. -/
def purchase : SimulatedFill :=
  attemptInBar (minute 0) bond 10 cheap 0 (policyInput .cancel).execution .realTrade

/-- The ledger after a step on the first date, in which the bond was bought. -/
def heldOvernight : ReplayLedger :=
  ReplayLedger.left (ReplayLedger.new.closeStep endingTerms [cheap] [purchase])

/-- The ledger that opening a step on the next date leaves behind. -/
def afterFailure : ReplayLedger :=
  ReplayLedger.left (heldOvernight.openStep endingTerms [overnight])

end

end SmallMarket

namespace ReplayLedger

open RoundedDecimals

/-- A step without bars is refused, and the ledger that holds the bond stays as it is. -/
theorem ledger_atomic_small :
    Reachable SmallMarket.endingTerms SmallMarket.heldOvernight ∧
      ∀ code l', SmallMarket.heldOvernight.openStep SmallMarket.endingTerms [] = .error (code, l') →
        l' = SmallMarket.heldOvernight := by
  have hreachable : Reachable SmallMarket.endingTerms SmallMarket.heldOvernight :=
    Reachable.new.closeStep _ _
  refine ⟨hreachable, ((ledger_atomic_iff _ _ hreachable).2 []).mpr ?_⟩
  rintro ⟨first, rest, previous, hbars, -⟩
  cases hbars

/-- The bond is held overnight and the coupon source does not know it on the next date: `open_step`
    fails, and the date of the ledger is already the next one.  The same call then succeeds. -/
theorem openStep_failure_keeps_date :
    Reachable SmallMarket.endingTerms SmallMarket.heldOvernight ∧
      SmallMarket.heldOvernight.openStep SmallMarket.endingTerms [SmallMarket.overnight] =
        .error (.brokenLineage, SmallMarket.afterFailure) ∧
      SmallMarket.heldOvernight.date = some SmallMarket.date ∧
      SmallMarket.afterFailure.date = some SmallMarket.nextDate ∧
      SmallMarket.afterFailure ≠ SmallMarket.heldOvernight ∧
      (SmallMarket.afterFailure.openStep SmallMarket.endingTerms
        [SmallMarket.overnight]).toOption.isSome = true := by
  have hdate : SmallMarket.heldOvernight.date = some SmallMarket.date := by decide +kernel
  have hafter : SmallMarket.afterFailure.date = some SmallMarket.nextDate := by decide +kernel
  refine ⟨Reachable.new.closeStep _ _, eq_error_of_codeOf (by decide +kernel), hdate, hafter, ?_,
    by decide +kernel⟩
  intro hsame
  rw [hsame, hdate] at hafter
  exact absurd (Option.some.inj hafter) (by decide)

end ReplayLedger

end Ficant
