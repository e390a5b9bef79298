import Ficant.Research.JournalBytes
import Ficant.Runtime.GraphExecution

namespace Ficant

open Lib

/-!
# The journal of a run in memory

`ficant-runtime/src/journal.rs`.  An append takes the journal and gives the answer with the journal
afterwards, so that what a refused append leaves behind is a statement about the code.

* `PerRunJournal.append` — the append of one event;
* `SharedRunJournal` — the same journal behind a mutex.  The critical section is the whole append,
  so any number of clients in any interleaving is a list of steps;
* `Chained` — numbered from one, of one run, linked by hash, in the order of time;
* `PerRunJournal.Keyed` — idempotency keys and events correspond one to one.
-/

/-! ### Requests and answers -/

/-- `IdempotencyKey`. -/
structure IdempotencyKey where
  text : String

instance : LinearOrder IdempotencyKey :=
  LinearOrder.lift' IdempotencyKey.text fun a b h => by cases a; cases b; simpa using h

/-- `IdempotencyKey::new`. -/
def IdempotencyKey.new (value : String) : Except RuntimeError IdempotencyKey :=
  if properName value then .ok ⟨value⟩ else .error (.domain .invalidValue)

/-- `JournalAppend`. -/
structure JournalAppend where
  input : RunJournalInput
  claimedHash : ContentHash
  deriving DecidableEq

/-- The arguments of an append. -/
structure AppendRequest where
  idempotencyKey : IdempotencyKey
  expectedNextSequence : ℕ
  command : JournalAppend

/-- `AppendResult`. -/
structure AppendResult where
  event : RunJournal
  inserted : Bool
  deriving DecidableEq

/-! ### The journal -/

/-- `PerRunJournal`. -/
structure PerRunJournal where
  runId : Ulid
  events : List RunJournal
  idempotency : SortedMap IdempotencyKey RunJournal

namespace PerRunJournal

/-- `PerRunJournal::new`. -/
def new (runId : Ulid) : PerRunJournal := ⟨runId, [], ∅⟩

variable (digest : List UInt8 → ContentHash)

/-- The checks of an append with a new idempotency key, in the source's order. -/
def checkNext (journal : PerRunJournal) (expectedNextSequence : ℕ) (event : RunJournal) :
    Except RuntimeError Unit :=
  let actualNextSequence := journal.events.length + 1
  if 2 ^ 64 ≤ actualNextSequence then .error (.domain .journalSequenceConflict)
  else if expectedNextSequence ≠ actualNextSequence then
    .error (.concurrencyConflict expectedNextSequence actualNextSequence)
  else if event.input.runId ≠ journal.runId then .error .runIdentityConflict
  else if event.input.sequence ≠ actualNextSequence then .error (.domain .journalSequenceConflict)
  else
    match journal.events.getLast? with
    | none => .ok ()
    | some previous => (event.validateAfter digest previous).mapError .domain

/-- `PerRunJournal::append`. -/
def append (journal : PerRunJournal) (request : AppendRequest) :
    Except RuntimeError AppendResult × PerRunJournal :=
  match RunJournal.new digest request.command.input request.command.claimedHash with
  | .error code => (.error (.domain code), journal)
  | .ok event =>
    match journal.idempotency.get? request.idempotencyKey with
    | some existing =>
      if existing.eventHash = event.eventHash then (.ok ⟨existing, false⟩, journal)
      else (.error .idempotencyConflict, journal)
    | none =>
      match journal.checkNext digest request.expectedNextSequence event with
      | .error error => (.error error, journal)
      | .ok () =>
        (.ok ⟨event, true⟩,
          { journal with
            events := journal.events ++ [event]
            idempotency := journal.idempotency.insert request.idempotencyKey event })

end PerRunJournal

/-- `SharedRunJournal`: the journal behind its mutex, which a panicking holder leaves poisoned. -/
structure SharedRunJournal where
  inner : PerRunJournal
  poisoned : Bool

/-- One step of the clients of a shared journal. -/
inductive SharedStep
  | append (request : AppendRequest)
  | poison

namespace SharedRunJournal

/-- `SharedRunJournal::new`. -/
def new (runId : Ulid) : SharedRunJournal := ⟨.new runId, false⟩

variable (digest : List UInt8 → ContentHash)

/-- `SharedRunJournal::append`. -/
def append (shared : SharedRunJournal) (request : AppendRequest) :
    Except RuntimeError AppendResult × SharedRunJournal :=
  if shared.poisoned then (.error (.concurrencyConflict request.expectedNextSequence 0), shared)
  else
    let (result, inner) := shared.inner.append digest request
    (result, { shared with inner })

/-- The journal after a step. -/
def step (shared : SharedRunJournal) : SharedStep → SharedRunJournal
  | .append request => (shared.append digest request).2
  | .poison => { shared with poisoned := true }

/-- The journal after the steps of all clients, in the order in which they took the lock. -/
def run (shared : SharedRunJournal) (steps : List SharedStep) : SharedRunJournal :=
  steps.foldl (step digest) shared

/-- The append adds an event. -/
def Inserts (shared : SharedRunJournal) (request : AppendRequest) : Prop :=
  ∃ event, (shared.append digest request).1 = .ok ⟨event, true⟩

end SharedRunJournal

/-! ### Chained events -/

/-- Events that form a journal: canonical, of one run, numbered from one, linked by hash and in the
    order of time. -/
structure Chained (digest : List UInt8 → ContentHash) (runId : Ulid) (events : List RunJournal) :
    Prop where
  canonical : ∀ event ∈ events, event.verifyCanonical digest = .ok ()
  run : ∀ event ∈ events, event.input.runId = runId
  sequence : ∀ i event, events[i]? = some event → event.input.sequence = i + 1
  first : ∀ event, events[0]? = some event → event.input.prevHash = none
  linked : ∀ i previous event, events[i]? = some previous → events[i + 1]? = some event →
    event.input.prevHash = some previous.eventHash
  ordered : ∀ i previous event, events[i]? = some previous → events[i + 1]? = some event →
    previous.input.occurredAt.instant ≤ event.input.occurredAt.instant

namespace Chained

variable {digest : List UInt8 → ContentHash} {runId : Ulid} {events : List RunJournal}

theorem nil (digest : List UInt8 → ContentHash) (runId : Ulid) : Chained digest runId [] where
  canonical := by simp
  run := by simp
  sequence := by simp
  first := by simp
  linked := by simp
  ordered := by simp

/-- Indices into a list with one more element at its end. -/
theorem getElem?_snoc {α : Type*} {l : List α} {a b : α} {i : ℕ} (h : (l ++ [a])[i]? = some b) :
    l[i]? = some b ∨ (i = l.length ∧ b = a) := by
  rcases lt_trichotomy i l.length with hi | hi | hi
  · left
    rwa [List.getElem?_append_left hi] at h
  · right
    subst hi
    simp only [List.getElem?_concat_length, Option.some.injEq] at h
    exact ⟨rfl, h.symm⟩
  · rw [List.getElem?_eq_none (by simp; omega)] at h
    cases h

/-- The step rule: a canonical event at the end of its run's journal. -/
theorem snoc (h : Chained digest runId events) {event : RunJournal}
    (hcanonical : event.verifyCanonical digest = .ok ()) (hrun : event.input.runId = runId)
    (hsequence : event.input.sequence = events.length + 1)
    (hprev : event.input.prevHash = events.getLast?.map RunJournal.eventHash)
    (htime : ∀ last ∈ events.getLast?,
      last.input.occurredAt.instant ≤ event.input.occurredAt.instant) :
    Chained digest runId (events ++ [event]) := by
  -- the neighbours at `i` and `i + 1` are old ones, or the old last event and the new one
  have hpair : ∀ i previous next, (events ++ [event])[i]? = some previous →
      (events ++ [event])[i + 1]? = some next →
      (events[i]? = some previous ∧ events[i + 1]? = some next) ∨
        (events.getLast? = some previous ∧ next = event) := by
    intro i previous next hprevious hnext
    rcases getElem?_snoc hnext with hnext | ⟨hi, rfl⟩
    · have hlt := (List.getElem?_eq_some_iff.mp hnext).1
      rw [List.getElem?_append_left (by omega)] at hprevious
      exact .inl ⟨hprevious, hnext⟩
    · rw [List.getElem?_append_left (by omega)] at hprevious
      refine .inr ⟨?_, rfl⟩
      rw [List.getLast?_eq_getElem?, ← hi]
      simpa using hprevious
  refine ⟨?_, ?_, ?_, ?_, ?_, ?_⟩
  · intro e he
    rcases List.mem_append.mp he with he | he
    · exact h.canonical e he
    · rwa [List.mem_singleton.mp he]
  · intro e he
    rcases List.mem_append.mp he with he | he
    · exact h.run e he
    · rwa [List.mem_singleton.mp he]
  · intro i e he
    rcases getElem?_snoc he with he | ⟨rfl, rfl⟩
    · exact h.sequence i e he
    · exact hsequence
  · intro e he
    rcases getElem?_snoc he with he | ⟨hempty, rfl⟩
    · exact h.first e he
    · rw [hprev, List.getLast?_eq_getElem?, ← hempty, List.getElem?_eq_none (by omega)]
      rfl
  · intro i previous next hprevious hnext
    rcases hpair i previous next hprevious hnext with ⟨hp, hn⟩ | ⟨hlast, rfl⟩
    · exact h.linked i previous next hp hn
    · rw [hprev, hlast]
      rfl
  · intro i previous next hprevious hnext
    rcases hpair i previous next hprevious hnext with ⟨hp, hn⟩ | ⟨hlast, rfl⟩
    · exact h.ordered i previous next hp hn
    · exact htime previous hlast

/-- No event stands twice in a chained journal. -/
theorem index_eq (h : Chained digest runId events) {i j : ℕ} {event : RunJournal}
    (hi : events[i]? = some event) (hj : events[j]? = some event) : i = j := by
  have := h.sequence i event hi
  have := h.sequence j event hj
  omega

/-- Every event of a chained journal passes the replay's position check. -/
theorem verifyJournalPosition (h : Chained digest runId events) {i : ℕ} {event : RunJournal}
    (hi : events[i]? = some event) :
    verifyJournalPosition digest event (if i = 0 then none else events[i - 1]?) runId i =
      .ok () := by
  have hcanonical := h.canonical event (List.mem_of_getElem? hi)
  refine bind_eq_ok.mpr ⟨(), mapError_eq_ok.mpr hcanonical, ?_⟩
  rw [if_neg (not_not.mpr (h.run event (List.mem_of_getElem? hi))),
    if_neg (not_not.mpr (h.sequence i event hi))]
  cases i with
  | zero => rfl
  | succ i =>
    have hlt := (List.getElem?_eq_some_iff.mp hi).1
    obtain ⟨previous, hprevious⟩ : ∃ previous, events[i]? = some previous :=
      ⟨_, List.getElem?_eq_getElem (by omega)⟩
    have hmem := List.mem_of_getElem? hprevious
    rw [if_neg (by omega), Nat.add_sub_cancel, hprevious]
    refine mapError_eq_ok.mpr (RunJournal.validateAfter_eq_ok hcanonical
      (h.canonical previous hmem) ?_ ?_ (h.linked i previous event hprevious hi)
      (h.ordered i previous event hprevious hi))
    · rw [h.run event (List.mem_of_getElem? hi), h.run previous hmem]
    · rw [h.sequence i previous hprevious, h.sequence (i + 1) event hi]

end Chained

/-! ### One append -/

namespace PerRunJournal

variable {digest : List UInt8 → ContentHash} {journal : PerRunJournal} {request : AppendRequest}

/-- What an accepted event of a new key satisfies. -/
theorem checkNext_eq_ok {expected : ℕ} {event : RunJournal}
    (h : journal.checkNext digest expected event = .ok ()) :
    expected = journal.events.length + 1 ∧ event.input.runId = journal.runId ∧
      event.input.sequence = journal.events.length + 1 ∧
      ∀ previous ∈ journal.events.getLast?, event.input.prevHash = some previous.eventHash ∧
        previous.input.occurredAt.instant ≤ event.input.occurredAt.instant := by
  simp only [checkNext] at h
  split at h
  · cases h
  split at h
  · cases h
  rename_i hexpected
  split at h
  · cases h
  rename_i hrun
  split at h
  · cases h
  rename_i hsequence
  refine ⟨not_not.mp hexpected, not_not.mp hrun, not_not.mp hsequence, ?_⟩
  intro previous hlast
  rw [Option.mem_def] at hlast
  rw [hlast] at h
  exact RunJournal.of_validateAfter (mapError_eq_ok.mp h)

/-- What an append can do: refuse, answer from the key, or add the event. -/
theorem append_cases (digest : List UInt8 → ContentHash) (journal : PerRunJournal)
    (request : AppendRequest) :
    (∃ error, journal.append digest request = (.error error, journal)) ∨
    (∃ event stored, RunJournal.new digest request.command.input request.command.claimedHash =
        .ok event ∧ journal.idempotency.get? request.idempotencyKey = some stored ∧
      stored.eventHash = event.eventHash ∧
      journal.append digest request = (.ok ⟨stored, false⟩, journal)) ∨
    (∃ event, RunJournal.new digest request.command.input request.command.claimedHash =
        .ok event ∧ journal.idempotency.get? request.idempotencyKey = none ∧
      journal.checkNext digest request.expectedNextSequence event = .ok () ∧
      journal.append digest request = (.ok ⟨event, true⟩,
        { journal with
          events := journal.events ++ [event]
          idempotency := journal.idempotency.insert request.idempotencyKey event })) := by
  rw [append]
  cases hnew : RunJournal.new digest request.command.input request.command.claimedHash with
  | error code => exact .inl ⟨_, rfl⟩
  | ok event =>
    simp only
    -- A key that is known answers with its event, if it is the same one.
    cases hget : journal.idempotency.get? request.idempotencyKey with
    | some stored =>
      simp only
      by_cases hhash : stored.eventHash = event.eventHash
      · rw [if_pos hhash]
        exact .inr (.inl ⟨event, stored, rfl, rfl, hhash, rfl⟩)
      · rw [if_neg hhash]
        exact .inl ⟨_, rfl⟩
    | none =>
      simp only
      cases hcheck : journal.checkNext digest request.expectedNextSequence event with
      | error error => exact .inl ⟨_, rfl⟩
      | ok _ => exact .inr (.inr ⟨event, rfl, by simp, hcheck, rfl⟩)

/-- Idempotency keys and events correspond one to one. -/
structure Keyed (journal : PerRunJournal) : Prop where
  stored : ∀ key event, journal.idempotency.get? key = some event →
    ∃! i : ℕ, journal.events[i]? = some event
  key : ∀ event ∈ journal.events, ∃! key, journal.idempotency.get? key = some event

/-- The journal of a run is chained and keyed. -/
structure Integral (digest : List UInt8 → ContentHash) (journal : PerRunJournal) : Prop where
  chained : Chained digest journal.runId journal.events
  keyed : journal.Keyed

theorem integral_new (digest : List UInt8 → ContentHash) (runId : Ulid) :
    (new runId).Integral digest where
  chained := .nil digest runId
  keyed := ⟨by simp [new], by simp [new]⟩

/-- A canonical event that passes the checks extends the chain. -/
theorem chained_snoc (h : Chained digest journal.runId journal.events) {event : RunJournal}
    {expected : ℕ} (hcanonical : event.verifyCanonical digest = .ok ())
    (hcheck : journal.checkNext digest expected event = .ok ()) :
    Chained digest journal.runId (journal.events ++ [event]) := by
  obtain ⟨-, hrun, hsequence, hlast⟩ := checkNext_eq_ok hcheck
  refine h.snoc hcanonical hrun hsequence ?_ fun last hl => (hlast last hl).2
  cases hget : journal.events.getLast? with
  | some last => exact (hlast last hget).1
  | none =>
    -- the first event of a journal: a canonical event with sequence one has no predecessor
    have hempty := List.getLast?_eq_none_iff.mp hget
    rw [hempty] at hsequence
    exact RunJournal.prevHash_of_first hcanonical hsequence

/-- A new key for a new event keeps the correspondence. -/
theorem keyed_insert (h : journal.Integral digest) {key : IdempotencyKey} {event : RunJournal}
    (hchained : Chained digest journal.runId (journal.events ++ [event]))
    (hkey : journal.idempotency.get? key = none) :
    ({ journal with
        events := journal.events ++ [event]
        idempotency := journal.idempotency.insert key event } : PerRunJournal).Keyed := by
  have hnew : event ∉ journal.events := by
    intro hmem
    obtain ⟨i, hi⟩ := List.getElem?_of_mem hmem
    have hlt := (List.getElem?_eq_some_iff.mp hi).1
    have : i = journal.events.length := hchained.index_eq
      (by rwa [List.getElem?_append_left hlt]) (by simp)
    omega
  constructor
  · intro k e hget
    have hexists : ∃ i : ℕ, (journal.events ++ [event])[i]? = some e := by
      simp only [SortedMap.get?_insert] at hget
      split at hget
      · obtain rfl := Option.some.inj hget
        exact ⟨journal.events.length, by simp⟩
      · obtain ⟨i, hi, -⟩ := h.keyed.stored k e hget
        have hlt := (List.getElem?_eq_some_iff.mp hi).1
        exact ⟨i, by rwa [List.getElem?_append_left hlt]⟩
    obtain ⟨i, hi⟩ := hexists
    exact ⟨i, hi, fun j hj => hchained.index_eq hj hi⟩
  · intro e he
    by_cases heq : e = event
    · subst heq
      refine ⟨key, by simp, ?_⟩
      intro k hk
      by_contra hne
      simp only [SortedMap.get?_insert, if_neg hne] at hk
      obtain ⟨i, hi, -⟩ := h.keyed.stored k e hk
      exact hnew (List.mem_of_getElem? hi)
    · have hold : e ∈ journal.events := by
        rcases List.mem_append.mp he with he | he
        · exact he
        · exact absurd (List.mem_singleton.mp he) heq
      obtain ⟨k, hk, huniq⟩ := h.keyed.key e hold
      -- the old key stays the only one: the new key carries the new event
      have hkne : k ≠ key := by
        rintro rfl
        rw [hkey] at hk
        cases hk
      refine ⟨k, by simpa [SortedMap.get?_insert, hkne] using hk, ?_⟩
      intro k' hk'
      simp only [SortedMap.get?_insert] at hk'
      split at hk'
      · exact absurd (Option.some.inj hk').symm heq
      · exact huniq k' hk'

/-- **Step lemma.** An append keeps the journal's integrity and its run. -/
theorem append_integral (h : journal.Integral digest) :
    (journal.append digest request).2.Integral digest ∧
      (journal.append digest request).2.runId = journal.runId := by
  rcases append_cases digest journal request with ⟨error, heq⟩ | ⟨event, stored, -, -, -, heq⟩ |
    ⟨event, hnew, hkey, hcheck, heq⟩
  · rw [heq]
    exact ⟨h, rfl⟩
  · rw [heq]
    exact ⟨h, rfl⟩
  · rw [heq]
    have hchained := chained_snoc h.chained (RunJournal.new_eq_ok hnew).2.2 hcheck
    exact ⟨⟨hchained, keyed_insert h hchained hkey⟩, rfl⟩

end PerRunJournal

/-! ### Any number of clients -/

namespace SharedRunJournal

variable {digest : List UInt8 → ContentHash} {shared : SharedRunJournal} {request : AppendRequest}

/-- An append under the lock is the append of the journal, or a refusal that changes nothing. -/
theorem append_inner (digest : List UInt8 → ContentHash) (shared : SharedRunJournal)
    (request : AppendRequest) :
    (∃ error, shared.append digest request = (.error error, shared)) ∨
      shared.append digest request = ((shared.inner.append digest request).1,
        { shared with inner := (shared.inner.append digest request).2 }) := by
  by_cases hpoisoned : shared.poisoned = true
  · left
    rw [append, if_pos hpoisoned]
    exact ⟨_, rfl⟩
  · right
    rw [append, if_neg hpoisoned]

/-- What one step of a client does to the journal: nothing, or one append. -/
theorem step_inner (digest : List UInt8 → ContentHash) (shared : SharedRunJournal)
    (action : SharedStep) :
    (shared.step digest action).inner = shared.inner ∨
      ∃ request, (shared.step digest action).inner = (shared.inner.append digest request).2 := by
  cases action with
  | poison => exact .inl rfl
  | append request =>
    rcases append_inner digest shared request with ⟨error, heq⟩ | heq
    · exact .inl (by rw [step, heq])
    · exact .inr ⟨request, by rw [step, heq]⟩

/-- **Run lemma.** What every append keeps holds of the journal after any steps. -/
theorem run_inner {P : PerRunJournal → Prop} (steps : List SharedStep) (h : P shared.inner)
    (happend : ∀ journal request, P journal → P (journal.append digest request).2) :
    P (shared.run digest steps).inner := by
  induction steps generalizing shared with
  | nil => exact h
  | cons action steps ih =>
    apply ih
    rcases step_inner digest shared action with heq | ⟨request, heq⟩
    · rwa [heq]
    · rw [heq]
      exact happend _ _ h

theorem run_integral (digest : List UInt8 → ContentHash) (runId : Ulid)
    (steps : List SharedStep) :
    ((new runId).run digest steps).inner.Integral digest ∧
      ((new runId).run digest steps).inner.runId = runId := by
  refine run_inner (P := fun journal => journal.Integral digest ∧ journal.runId = runId) steps
    ⟨PerRunJournal.integral_new digest runId, rfl⟩ fun journal request h => ?_
  obtain ⟨hintegral, hrun⟩ := PerRunJournal.append_integral h.1
  exact ⟨hintegral, hrun.trans h.2⟩

/-- No step removes an event. -/
theorem length_run_le (digest : List UInt8 → ContentHash) (shared : SharedRunJournal)
    (steps : List SharedStep) :
    shared.inner.events.length ≤ (shared.run digest steps).inner.events.length := by
  refine run_inner (P := fun journal => shared.inner.events.length ≤ journal.events.length) steps
    le_rfl fun journal request h => ?_
  rcases PerRunJournal.append_cases digest journal request with ⟨_, heq⟩ | ⟨_, _, -, -, -, heq⟩ |
    ⟨event, -, -, -, heq⟩
  · rwa [heq]
  · rwa [heq]
  · rw [heq]
    simp only [List.length_append, List.length_singleton]
    omega

/-- An append that adds an event was made at the expected sequence. -/
theorem Inserts.length (h : shared.Inserts digest request) :
    request.expectedNextSequence = shared.inner.events.length + 1 ∧
      (shared.append digest request).2.inner.events.length = request.expectedNextSequence := by
  obtain ⟨event, hresult⟩ := h
  rcases append_inner digest shared request with ⟨error, heq⟩ | heq
  · rw [heq] at hresult
    cases hresult
  rw [heq] at hresult ⊢
  rcases PerRunJournal.append_cases digest shared.inner request with ⟨_, hin⟩ |
    ⟨_, _, -, -, -, hin⟩ | ⟨_, -, -, hcheck, hin⟩
  · rw [hin] at hresult
    cases hresult
  · rw [hin] at hresult
    cases hresult
  · have hexpected := (PerRunJournal.checkNext_eq_ok hcheck).1
    rw [hin]
    simp [hexpected]

/-- Of two appends with the same expected sequence at most one adds an event. -/
theorem Inserts.not_later (h : shared.Inserts digest request) {later : AppendRequest}
    (hsame : later.expectedNextSequence = request.expectedNextSequence)
    (steps : List SharedStep) :
    ¬((shared.append digest request).2.run digest steps).Inserts digest later := by
  intro hlater
  have hbefore := h.length.2
  have hafter := hlater.length.1
  have hgrow := length_run_le digest (shared.append digest request).2 steps
  omega

/-- **The journal of a run keeps its integrity under any interleaving.**  After any steps of any
    clients the events are chained and correspond to the keys; and for one more append: a refusal
    changes nothing; a known key never adds an event and is answered with the stored one, for an
    event with the same hash (the same event, where the digest keeps the two preimages apart); an
    added event is the last one and takes its key; and no later append with the same expected
    sequence adds another. -/
theorem run_integrity (digest : List UInt8 → ContentHash) (runId : Ulid)
    (steps : List SharedStep) (request : AppendRequest) :
    let shared := (new runId).run digest steps
    let journal := shared.inner
    let answer := shared.append digest request
    journal.runId = runId ∧ Chained digest runId journal.events ∧ journal.Keyed ∧
    (∀ error, answer.1 = .error error → answer.2 = shared) ∧
    (∀ stored, journal.idempotency.get? request.idempotencyKey = some stored →
      answer.2 = shared ∧ ∀ result, answer.1 = .ok result → result = ⟨stored, false⟩ ∧
        ∃ event, RunJournal.new digest request.command.input request.command.claimedHash =
            .ok event ∧ event.eventHash = stored.eventHash ∧
          (event.input.Encodable → stored.input.Encodable →
            NoCollision digest event.input.canonicalBytes stored.input.canonicalBytes →
            event = stored)) ∧
    (∀ result, answer.1 = .ok result →
      journal.idempotency.get? request.idempotencyKey = none →
      result.inserted = true ∧ answer.2.inner.events = journal.events ++ [result.event] ∧
        ∀ key, answer.2.inner.idempotency.get? key =
          if key = request.idempotencyKey then some result.event
          else journal.idempotency.get? key) ∧
    (∀ between later, later.expectedNextSequence = request.expectedNextSequence →
      shared.Inserts digest request → ¬(answer.2.run digest between).Inserts digest later) := by
  intro shared journal answer
  obtain ⟨hintegral, hrun⟩ := run_integral digest runId steps
  refine ⟨hrun, hrun ▸ hintegral.chained, hintegral.keyed, ?_, ?_, ?_, ?_⟩
  · intro error herror
    -- The lock is poisoned, or the call is answered by the journal.
    rcases append_inner digest shared request with ⟨_, heq⟩ | heq
    · exact congrArg Prod.snd heq
    rcases PerRunJournal.append_cases digest journal request with ⟨_, hin⟩ |
      ⟨_, _, -, -, -, hin⟩ | ⟨_, -, -, -, hin⟩
    · exact (congrArg Prod.snd heq).trans (by rw [hin])
    · rw [show answer.1 = _ from congrArg Prod.fst heq, hin] at herror
      cases herror
    · rw [show answer.1 = _ from congrArg Prod.fst heq, hin] at herror
      cases herror
  · intro stored hstored
    rcases append_inner digest shared request with ⟨_, heq⟩ | heq
    · refine ⟨congrArg Prod.snd heq, fun result hresult => ?_⟩
      rw [show answer.1 = _ from congrArg Prod.fst heq] at hresult
      cases hresult
    rcases PerRunJournal.append_cases digest journal request with ⟨_, hin⟩ |
      ⟨event, found, hnew, hget, hhash, hin⟩ | ⟨_, -, hnone, -, -⟩
    · refine ⟨(congrArg Prod.snd heq).trans (by rw [hin]), fun result hresult => ?_⟩
      rw [show answer.1 = _ from congrArg Prod.fst heq, hin] at hresult
      cases hresult
    · obtain rfl := Option.some.inj (hget.symm.trans hstored)
      refine ⟨(congrArg Prod.snd heq).trans (by rw [hin]), fun result hresult => ?_⟩
      rw [show answer.1 = _ from congrArg Prod.fst heq, hin] at hresult
      refine ⟨(Except.ok.inj hresult).symm, event, hnew, hhash.symm, ?_⟩
      -- Equal hashes come from equal events, unless the digest collides on them.
      intro hevent hfound hdigest
      obtain ⟨i, hi, -⟩ := hintegral.keyed.stored _ _ hget
      exact RunJournal.eq_of_eventHash (RunJournal.new_eq_ok hnew).2.2
        (hintegral.chained.canonical _ (List.mem_of_getElem? hi)) hevent hfound hdigest hhash.symm
    · rw [hstored] at hnone
      cases hnone
  · intro result hresult hnone
    rcases append_inner digest shared request with ⟨_, heq⟩ | heq
    · rw [show answer.1 = _ from congrArg Prod.fst heq] at hresult
      cases hresult
    rw [show answer.1 = _ from congrArg Prod.fst heq] at hresult
    rw [show answer.2 = _ from congrArg Prod.snd heq]
    rcases PerRunJournal.append_cases digest journal request with ⟨_, hin⟩ |
      ⟨_, _, -, hget, -, -⟩ | ⟨event, -, -, -, hin⟩
    · rw [hin] at hresult
      cases hresult
    · rw [hnone] at hget
      cases hget
    · rw [hin] at hresult ⊢
      obtain rfl := Except.ok.inj hresult
      exact ⟨rfl, rfl, fun key => SortedMap.get?_insert _ _ _ _⟩
  · intro between later hsame hinserts
    exact hinserts.not_later hsame between

end SharedRunJournal

end Ficant
