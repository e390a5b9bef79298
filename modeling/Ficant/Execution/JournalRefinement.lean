import Ficant.Execution.JournalStore
import Ficant.Runtime.GraphReplay

namespace Ficant

open Lib

/-!
# The durable journal refines the one in memory

Any number of clients run `persistJournal` statement by statement.  The stored rows of a run are
compared with the journal in memory that has taken the same appends.

* `Db.memory` — that journal, as a function of the tables;
* `JournalStore` — the invariant of the committed tables: rows and idempotency records correspond,
  and the events of every run are those in memory;
* `JournalStore.writes`, `JournalStore.memory_writes` — the step lemmas;
* `runs_persistJournal` — the proof outline.  Nothing in the transaction looks at the time of the
  predecessor, so the order of time is a condition on the insertion (`inTimeOrder`).
-/

/-! ### The journal in memory behind the table -/

/-- The arguments that the journal in memory gets for a stored row. -/
def JournalRow.request (row : JournalRow) : AppendRequest :=
  ⟨⟨row.idempotencyKey⟩, row.event.input.sequence, ⟨row.event.input, row.event.eventHash⟩⟩

/-- The journal after a list of appends. -/
def PerRunJournal.appendAll (digest : List UInt8 → ContentHash) (journal : PerRunJournal)
    (requests : List AppendRequest) : PerRunJournal :=
  requests.foldl (fun journal request => (journal.append digest request).2) journal

namespace Db

/-- The stored rows of a run, in order. -/
def rowsOf (db : Db) (tenant run : Ulid) : List JournalRow :=
  (db.journal.entries.filter fun e => ofRun tenant run e.1).map Prod.snd

/-- The journal in memory after the appends that are stored. -/
def memory (digest : List UInt8 → ContentHash) (db : Db) (tenant run : Ulid) : PerRunJournal :=
  (PerRunJournal.new run).appendAll digest ((db.rowsOf tenant run).map JournalRow.request)

variable {db : Db} {t r : Ulid}

/-- The events of a run are those of its rows. -/
theorem journalOf_eq : db.journalOf t r = (db.rowsOf t r).map JournalRow.event := by
  simp [journalOf, journalRows, rowsOf]

/-- The rows of a run are those found under its name. -/
theorem mem_rowsOf {row : JournalRow} :
    row ∈ db.rowsOf t r ↔ ∃ q, db.journalRow? t r q = some row := by
  constructor
  · intro h
    obtain ⟨⟨key, row⟩, hmem, rfl⟩ := List.mem_map.mp h
    obtain ⟨hentry, hrun⟩ := List.mem_filter.mp hmem
    simp only [ofRun, decide_eq_true_eq] at hrun
    obtain ⟨rfl, rfl⟩ := hrun
    exact ⟨_, SortedMap.mem_entries_iff.mp hentry⟩
  · rintro ⟨q, h⟩
    exact List.mem_map.mpr ⟨(toLex (t, toLex (r, q)), row),
      List.mem_filter.mpr ⟨SortedMap.mem_entries_iff.mpr h, by simp [ofRun]⟩, rfl⟩

/-- A row of another run leaves the rows of this one alone. -/
theorem rowsOf_write_other {t' r' : Ulid} {q : ℕ} {row : JournalRow} (h : ¬(t = t' ∧ r = r')) :
    (db.write (.journal t' r' q row)).rowsOf t r = db.rowsOf t r := by
  have hkey : ofRun t r (toLex (t', toLex (r', q))) = false := by
    rw [ofRun, decide_eq_false_iff_not]
    rintro ⟨rfl, rfl⟩
    exact h ⟨rfl, rfl⟩
  simp only [rowsOf, write]
  rw [SortedMap.filter_insert_of_not (p := ofRun t r) _ _ hkey]

/-- A row above all others of its run comes last. -/
theorem rowsOf_write_journal {q : ℕ} {row : JournalRow}
    (h : ∀ q' row', db.journalRow? t r q' = some row' → q' < q) :
    (db.write (.journal t r q row)).rowsOf t r = db.rowsOf t r ++ [row] := by
  have hkey : ofRun t r (toLex (t, toLex (r, q))) = true := by simp [ofRun]
  simp only [rowsOf, write]
  rw [SortedMap.filter_insert_of_lt (p := ofRun t r) _ _ hkey]
  · simp
  · rintro ⟨key, old⟩ he hrun
    simp only [ofRun, decide_eq_true_eq] at hrun
    obtain ⟨rfl, rfl⟩ := hrun
    have hlt := h _ old (SortedMap.mem_entries_iff.mp he)
    exact Prod.Lex.toLex_lt_toLex.mpr (.inr ⟨rfl, Prod.Lex.toLex_lt_toLex.mpr (.inr ⟨rfl, hlt⟩)⟩)

@[simp] theorem rowsOf_write_sequence {t' r' : Ulid} {next : ℕ} :
    (db.write (.sequence t' r' next)).rowsOf t r = db.rowsOf t r := rfl

@[simp] theorem rowsOf_write_idempotency {t' : Ulid} {scope key : String} {row : IdempotencyRow} :
    (db.write (.idempotency t' scope key row)).rowsOf t r = db.rowsOf t r := rfl

end Db

namespace PerRunJournal

variable {digest : List UInt8 → ContentHash}

/-- The last append comes after all others. -/
theorem appendAll_concat (journal : PerRunJournal) (requests : List AppendRequest)
    (request : AppendRequest) :
    journal.appendAll digest (requests ++ [request]) =
      ((journal.appendAll digest requests).append digest request).2 := by
  simp [appendAll]

/-- Appends keep the integrity of a journal and its run. -/
theorem appendAll_integral {journal : PerRunJournal} (h : journal.Integral digest)
    (requests : List AppendRequest) :
    (journal.appendAll digest requests).Integral digest ∧
      (journal.appendAll digest requests).runId = journal.runId := by
  induction requests using List.reverseRecOn with
  | nil => exact ⟨h, rfl⟩
  | append_singleton requests request ih =>
    rw [appendAll_concat]
    have happend : (((journal.appendAll digest requests).append digest request).2).Integral digest ∧
        (((journal.appendAll digest requests).append digest request).2).runId =
          (journal.appendAll digest requests).runId := append_integral ih.1
    exact ⟨happend.1, happend.2.trans ih.2⟩

/-- The keys of a journal are the keys of the appends that made it. -/
theorem appendAll_key {run : Ulid} {requests : List AppendRequest} {key : IdempotencyKey}
    {event : RunJournal}
    (h : ((new run).appendAll digest requests).idempotency.get? key = some event) :
    ∃ request ∈ requests, request.idempotencyKey = key ∧
      RunJournal.new digest request.command.input request.command.claimedHash = .ok event := by
  induction requests using List.reverseRecOn with
  | nil => simp [appendAll, new] at h
  | append_singleton requests request ih =>
    rw [appendAll_concat] at h
    have hold : ((new run).appendAll digest requests).idempotency.get? key = some event →
        ∃ other ∈ requests ++ [request], other.idempotencyKey = key ∧
          RunJournal.new digest other.command.input other.command.claimedHash = .ok event := by
      intro hget
      obtain ⟨other, hmem, hother⟩ := ih hget
      exact ⟨other, List.mem_append_left _ hmem, hother⟩
    -- Refused and repeated requests leave the keys alone; an appended one adds its own.
    rcases append_cases digest ((new run).appendAll digest requests) request with ⟨_, heq⟩ |
      ⟨_, _, -, -, -, heq⟩ | ⟨added, hnew, -, -, heq⟩
    · rw [heq] at h
      exact hold h
    · rw [heq] at h
      exact hold h
    · rw [heq] at h
      simp only [SortedMap.get?_insert] at h
      split at h
      · rename_i hkey
        obtain rfl := Option.some.inj h
        exact ⟨request, by simp, hkey.symm, hnew⟩
      · exact hold h

end PerRunJournal

/-! ### The invariant -/

/-- The committed tables: every row was issued, rows and idempotency records correspond, a key is
    stored once, and the rows of every run are what the journal in memory holds after the same
    appends. -/
structure JournalStore (digest : List UInt8 → ContentHash) (db : Db) : Prop where
  issued : ∀ t r q row, db.journalRow? t r q = some row → ∃ c : IssuedAppend digest,
    c.command.tenant = t ∧ c.command.runId = r ∧ c.command.expectedNextSequence = q ∧
      c.command.row = row ∧ q < 2 ^ 63
  recorded : ∀ t r q row, db.journalRow? t r q = some row →
    (db.idempotency? t appendScope row.idempotencyKey).isSome
  stored : ∀ t key record, db.idempotency? t appendScope key = some record →
    ∃ r q row, db.journalRow? t r q = some row ∧ row.idempotencyKey = key ∧
      row.fingerprint = record.fingerprint
  unique : ∀ t r q row r' q' row', db.journalRow? t r q = some row →
    db.journalRow? t r' q' = some row' → row.idempotencyKey = row'.idempotencyKey → r = r' ∧ q = q'
  refines : ∀ t r, (db.memory digest t r).events = db.journalOf t r
  counter : ∀ t r next, db.sequence? t r = some next → next = (db.journalOf t r).length + 1

/-- Tables in which runs are created and nothing is appended yet.  Other operations may have left
    their idempotency records. -/
structure Db.Unwritten (db : Db) : Prop where
  journal : db.journal = ∅
  idempotency : ∀ t key, db.idempotency? t appendScope key = none
  sequences : ∀ t r next, db.sequence? t r = some next → next = 1

/-- What an append needs to hold when it commits. -/
structure AppendJournalEvent.Ready (command : AppendJournalEvent) (db : Db) : Prop where
  free : db.idempotency? command.tenant appendScope command.idempotencyKey.text = none
  next : db.sequence? command.tenant command.runId = some command.expectedNextSequence
  linked : command.expectedNextSequence = 1 ∨ ∃ previous,
    db.journalRow? command.tenant command.runId (command.expectedNextSequence - 1) = some previous ∧
      command.event.input.prevHash = some previous.event.eventHash
  ordered : ∀ last ∈ (db.journalOf command.tenant command.runId).getLast?,
    last.input.occurredAt.instant ≤ command.event.input.occurredAt.instant

/-- The writes of an append that adds its event. -/
def AppendJournalEvent.writes (command : AppendJournalEvent) : List Write :=
  [.idempotency command.tenant appendScope command.idempotencyKey.text command.record,
    .sequence command.tenant command.runId (command.expectedNextSequence + 1),
    .journal command.tenant command.runId command.event.input.sequence command.row]

/-- **The start.** Tables without a row of the journal are as the invariant wants them. -/
theorem Db.Unwritten.journalStore {db : Db} (h : db.Unwritten) (digest : List UInt8 → ContentHash) :
    JournalStore digest db := by
  have hrow : ∀ t r q, db.journalRow? t r q = none := fun t r q => by
    simp [Db.journalRow?, h.journal]
  have hrows : ∀ t r, db.rowsOf t r = [] := fun t r => by simp [Db.rowsOf, h.journal]
  refine ⟨?_, ?_, ?_, ?_, ?_, ?_⟩
  · intro t r q row hget
    rw [hrow] at hget
    cases hget
  · intro t r q row hget
    rw [hrow] at hget
    cases hget
  · intro t key record hget
    rw [h.idempotency] at hget
    cases hget
  · intro t r q row r' q' row' hget
    rw [hrow] at hget
    cases hget
  · intro t r
    simp [Db.memory, Db.journalOf_eq, hrows, PerRunJournal.appendAll, PerRunJournal.new]
  · intro t r next hnext
    simp [Db.journalOf_eq, hrows, h.sequences t r next hnext]

namespace JournalStore

variable {digest : List UInt8 → ContentHash} {db : Db} {t r : Ulid}

/-- The journal in memory is integral, whatever the rows are. -/
theorem memory_integral (digest : List UInt8 → ContentHash) (db : Db) (t r : Ulid) :
    (db.memory digest t r).Integral digest ∧ (db.memory digest t r).runId = r :=
  PerRunJournal.appendAll_integral (PerRunJournal.integral_new digest r) _

/-- The stored events of a run are chained. -/
theorem chained (h : JournalStore digest db) (t r : Ulid) : Chained digest r (db.journalOf t r) := by
  obtain ⟨hintegral, hrun⟩ := memory_integral digest db t r
  have hchained := hintegral.chained
  rwa [hrun, h.refines] at hchained

/-- A row stands in the journal at its sequence. -/
theorem getElem_journalOf (h : JournalStore digest db) {q : ℕ} {row : JournalRow}
    (hrow : db.journalRow? t r q = some row) :
    0 < q ∧ q ≤ (db.journalOf t r).length ∧ (db.journalOf t r)[q - 1]? = some row.event := by
  obtain ⟨c, -, -, rfl, rfl, -⟩ := h.issued t r q row hrow
  have hmem : c.command.event ∈ db.journalOf t r := by
    rw [Db.journalOf_eq]
    exact List.mem_map.mpr ⟨_, Db.mem_rowsOf.mpr ⟨_, hrow⟩, rfl⟩
  obtain ⟨i, hi⟩ := List.getElem?_of_mem hmem
  have hsequence := (h.chained t r).sequence i _ hi
  rw [c.sequence_eq] at hsequence
  have hlt := (List.getElem?_eq_some_iff.mp hi).1
  refine ⟨c.sequence_pos, by omega, ?_⟩
  rw [hsequence, Nat.add_sub_cancel]
  exact hi

/-- A key of the journal in memory is the key of a stored row. -/
theorem exists_row_of_key (h : JournalStore digest db) {key : IdempotencyKey} {event : RunJournal}
    (hget : (db.memory digest t r).idempotency.get? key = some event) :
    ∃ q row, db.journalRow? t r q = some row ∧ row.idempotencyKey = key.text ∧ row.event = event := by
  obtain ⟨request, hmem, hkey, hnew⟩ := PerRunJournal.appendAll_key hget
  obtain ⟨row, hrow, rfl⟩ := List.mem_map.mp hmem
  obtain ⟨q, hget⟩ := Db.mem_rowsOf.mp hrow
  obtain ⟨c, -, -, -, rfl, -⟩ := h.issued t r q row hget
  have hevent : (c.command.event) = event := Except.ok.inj (c.new_request.symm.trans hnew)
  exact ⟨q, _, hget, by rw [← hkey]; rfl, hevent⟩

/-- A key without an idempotency record is new to the journal in memory. -/
theorem memory_key_none (h : JournalStore digest db) {key : IdempotencyKey}
    (hfree : db.idempotency? t appendScope key.text = none) :
    (db.memory digest t r).idempotency.get? key = none := by
  rw [Option.eq_none_iff_forall_ne_some]
  intro event hget
  obtain ⟨q, row, hrow, hkey, -⟩ := h.exists_row_of_key hget
  have hrecorded := h.recorded t r q row hrow
  rw [hkey, hfree] at hrecorded
  cases hrecorded

/-- The journal in memory knows the event of a stored row by its key. -/
theorem memory_key (h : JournalStore digest db) {q : ℕ} {row : JournalRow}
    (hrow : db.journalRow? t r q = some row) :
    (db.memory digest t r).idempotency.get? ⟨row.idempotencyKey⟩ = some row.event := by
  obtain ⟨-, -, hindex⟩ := h.getElem_journalOf hrow
  have hmem := List.mem_of_getElem? hindex
  rw [← h.refines] at hmem
  obtain ⟨key, hkey, -⟩ := (memory_integral digest db t r).1.keyed.key _ hmem
  -- the row of that key has the same event, so the same sequence, so it is this row
  obtain ⟨q', row', hrow', hkey', hevent⟩ := h.exists_row_of_key hkey
  obtain ⟨c, -, -, rfl, rfl, -⟩ := h.issued t r q row hrow
  obtain ⟨c', -, -, rfl, rfl, -⟩ := h.issued t r q' row' hrow'
  have hevent : c'.command.event = c.command.event := hevent
  have hq : c'.command.expectedNextSequence = c.command.expectedNextSequence := by
    rw [← c'.sequence_eq, ← c.sequence_eq, hevent]
  rw [hq, hrow] at hrow'
  have hsame : c.command.row.idempotencyKey = key.text := by
    rw [Option.some.inj hrow']
    exact hkey'
  rw [hsame]
  exact hkey

variable {c : IssuedAppend digest}

/-- The counter stands one above the last row. -/
theorem length_of_ready (h : JournalStore digest db) (hready : c.command.Ready db) :
    (db.journalOf c.command.tenant c.command.runId).length + 1 = c.command.expectedNextSequence :=
  (h.counter _ _ _ hready.next).symm

/-- The predecessor that the append has looked up is the last event. -/
theorem prevHash_of_ready (h : JournalStore digest db) (hready : c.command.Ready db) :
    c.command.event.input.prevHash =
      (db.journalOf c.command.tenant c.command.runId).getLast?.map RunJournal.eventHash := by
  have hlength := h.length_of_ready hready
  rcases hready.linked with hfirst | ⟨previous, hrow, hprev⟩
  · have hempty : db.journalOf c.command.tenant c.command.runId = [] := by
      apply List.eq_nil_of_length_eq_zero
      omega
    rw [hempty]
    exact RunJournal.prevHash_of_first c.canonical (c.sequence_eq.trans hfirst)
  · obtain ⟨-, -, hindex⟩ := h.getElem_journalOf hrow
    rw [hprev, List.getLast?_eq_getElem?]
    have hlast : (db.journalOf c.command.tenant c.command.runId).length - 1 =
        c.command.expectedNextSequence - 1 - 1 := by omega
    rw [hlast, hindex]
    rfl

/-- **Step lemma, checks.** The journal in memory accepts an append that is ready to commit. -/
theorem checkNext_memory (h : JournalStore digest db) (hready : c.command.Ready db)
    (hsmall : c.command.expectedNextSequence < 2 ^ 63) :
    (db.memory digest c.command.tenant c.command.runId).checkNext digest
      c.command.expectedNextSequence c.command.event = .ok () := by
  have hlength := h.length_of_ready hready
  have hchained := h.chained c.command.tenant c.command.runId
  obtain ⟨-, hrun⟩ := memory_integral digest db c.command.tenant c.command.runId
  have hsequence := c.sequence_eq
  simp only [PerRunJournal.checkNext, h.refines, hrun]
  rw [if_neg (by omega), if_neg (by omega), if_neg (not_not.mpr c.runId_eq), if_neg (by omega)]
  cases hlast : (db.journalOf c.command.tenant c.command.runId).getLast? with
  | none => rfl
  | some last =>
    have hprev := h.prevHash_of_ready hready
    rw [hlast] at hprev
    have hmem : last ∈ db.journalOf c.command.tenant c.command.runId :=
      List.mem_of_getLast? hlast
    have hindex := hlast
    rw [List.getLast?_eq_getElem?] at hindex
    have hpos : 0 < (db.journalOf c.command.tenant c.command.runId).length :=
      List.length_pos_of_mem hmem
    have hlastSequence := hchained.sequence _ _ hindex
    refine mapError_eq_ok.mpr (RunJournal.validateAfter_eq_ok c.canonical
      (hchained.canonical last hmem) ?_ (by omega) hprev (hready.ordered last hlast))
    rw [c.runId_eq, hchained.run last hmem]

/-- The journal in memory takes the append. -/
theorem append_memory (h : JournalStore digest db) (hready : c.command.Ready db)
    (hsmall : c.command.expectedNextSequence < 2 ^ 63) :
    let memory := db.memory digest c.command.tenant c.command.runId
    memory.append digest c.command.request = (.ok ⟨c.command.event, true⟩,
      { memory with
        events := memory.events ++ [c.command.event]
        idempotency := memory.idempotency.insert c.command.idempotencyKey c.command.event }) := by
  intro memory
  have hkey := h.memory_key_none (r := c.command.runId) hready.free
  have hcheck := h.checkNext_memory hready hsmall
  show PerRunJournal.append digest memory _ = _
  rw [PerRunJournal.append, c.new_request]
  simp only [AppendJournalEvent.request]
  rw [hkey, hcheck]

/-! ### What an append leaves behind -/

section Writes

variable (c) (db)

/-- The writes of an append add its row and no other. -/
theorem journalRow?_writes (t r : Ulid) (q : ℕ) :
    (writeAll db c.command.writes).journalRow? t r q =
      if t = c.command.tenant ∧ r = c.command.runId ∧ q = c.command.expectedNextSequence then
        some c.command.row
      else db.journalRow? t r q := by
  simp [AppendJournalEvent.writes, c.sequence_eq]

/-- They add the record of its key and no other. -/
theorem idempotency?_writes (t : Ulid) (scope key : String) :
    (writeAll db c.command.writes).idempotency? t scope key =
      if t = c.command.tenant ∧ scope = appendScope ∧ key = c.command.idempotencyKey.text then
        some c.command.record
      else db.idempotency? t scope key := by
  simp [AppendJournalEvent.writes]

/-- They move the counter of its run and no other. -/
theorem sequence?_writes (t r : Ulid) :
    (writeAll db c.command.writes).sequence? t r =
      if t = c.command.tenant ∧ r = c.command.runId then some (c.command.expectedNextSequence + 1)
      else db.sequence? t r := by
  simp [AppendJournalEvent.writes]

/-- The rows of other runs stay as they are. -/
theorem rowsOf_writes_other {t r : Ulid} (hother : ¬(t = c.command.tenant ∧ r = c.command.runId)) :
    (writeAll db c.command.writes).rowsOf t r = db.rowsOf t r := by
  simp [AppendJournalEvent.writes, Db.rowsOf_write_other hother]

end Writes

/-- The position of an append that is ready is free. -/
theorem journalRow?_of_ready (h : JournalStore digest db) (hready : c.command.Ready db) :
    db.journalRow? c.command.tenant c.command.runId c.command.expectedNextSequence = none := by
  rw [Option.eq_none_iff_forall_ne_some]
  intro row hrow
  have hbound := (h.getElem_journalOf hrow).2.1
  have hlength := h.length_of_ready hready
  omega

/-- The new row comes last in its run. -/
theorem rowsOf_writes (h : JournalStore digest db) (hready : c.command.Ready db) :
    (writeAll db c.command.writes).rowsOf c.command.tenant c.command.runId =
      db.rowsOf c.command.tenant c.command.runId ++ [c.command.row] := by
  have hlength := h.length_of_ready hready
  simp only [AppendJournalEvent.writes, writeAll_cons, writeAll_nil, Db.store_write]
  rw [Db.rowsOf_write_journal]
  · simp
  · intro q row hrow
    simp only [Db.journalRow?_write] at hrow
    have hbound := (h.getElem_journalOf hrow).2.1
    have hsequence := c.sequence_eq
    omega

/-- **Step lemma, refinement.** The append in the table is the append in memory. -/
theorem memory_writes (h : JournalStore digest db) (hready : c.command.Ready db) (t r : Ulid) :
    (writeAll db c.command.writes).memory digest t r =
      if t = c.command.tenant ∧ r = c.command.runId then
        ((db.memory digest t r).append digest c.command.request).2
      else db.memory digest t r := by
  split
  · rename_i heq
    obtain ⟨rfl, rfl⟩ := heq
    have hrequest : c.command.row.request = c.command.request := by
      show (⟨⟨c.command.idempotencyKey.text⟩, c.command.event.input.sequence, _⟩ : AppendRequest) = _
      rw [c.sequence_eq]
      rfl
    rw [Db.memory, h.rowsOf_writes hready, List.map_append, List.map_singleton, hrequest,
      PerRunJournal.appendAll_concat]
    rfl
  · rename_i hother
    rw [Db.memory, rowsOf_writes_other db c hother]
    rfl

/-- **Step lemma, invariant.** An append that is ready keeps the tables consistent. -/
theorem writes (h : JournalStore digest db) (hready : c.command.Ready db)
    (hsmall : c.command.expectedNextSequence < 2 ^ 63) :
    JournalStore digest (writeAll db c.command.writes) := by
  have hrows := h.rowsOf_writes hready
  have hfree : ∀ r q row, db.journalRow? c.command.tenant r q = some row →
      row.idempotencyKey ≠ c.command.idempotencyKey.text := by
    intro r q row hrow hkey
    have hrecorded := h.recorded _ r q row hrow
    rw [hkey, hready.free] at hrecorded
    cases hrecorded
  refine ⟨?_, ?_, ?_, ?_, ?_, ?_⟩
  · intro t r q row hrow
    rw [journalRow?_writes] at hrow
    split at hrow
    · rename_i heq
      obtain ⟨rfl, rfl, rfl⟩ := heq
      exact ⟨c, rfl, rfl, rfl, Option.some.inj hrow, hsmall⟩
    · exact h.issued t r q row hrow
  · intro t r q row hrow
    rw [journalRow?_writes] at hrow
    rw [idempotency?_writes]
    split at hrow
    · rename_i heq
      obtain ⟨rfl, rfl, rfl⟩ := heq
      obtain rfl := Option.some.inj hrow
      simp [AppendJournalEvent.row]
    · have hrecorded := h.recorded t r q row hrow
      split
      · rfl
      · exact hrecorded
  · intro t key record hrecord
    rw [idempotency?_writes] at hrecord
    split at hrecord
    · rename_i heq
      obtain ⟨rfl, -, rfl⟩ := heq
      obtain rfl := Option.some.inj hrecord
      exact ⟨c.command.runId, c.command.expectedNextSequence, c.command.row,
        by rw [journalRow?_writes, if_pos ⟨rfl, rfl, rfl⟩], rfl, rfl⟩
    · obtain ⟨r, q, row, hrow, hkey, hfingerprint⟩ := h.stored t key record hrecord
      refine ⟨r, q, row, ?_, hkey, hfingerprint⟩
      rw [journalRow?_writes, if_neg]
      · exact hrow
      · rintro ⟨rfl, rfl, rfl⟩
        rw [h.journalRow?_of_ready hready] at hrow
        cases hrow
  · intro t r q row r' q' row' hrow hrow' hkey
    rw [journalRow?_writes] at hrow hrow'
    split at hrow <;> split at hrow'
    · rename_i heq heq'
      exact ⟨heq.2.1.trans heq'.2.1.symm, heq.2.2.trans heq'.2.2.symm⟩
    · rename_i heq _
      obtain ⟨rfl, rfl, rfl⟩ := heq
      obtain rfl := Option.some.inj hrow
      exact absurd hkey.symm (hfree r' q' row' hrow')
    · rename_i _ heq
      obtain ⟨rfl, rfl, rfl⟩ := heq
      obtain rfl := Option.some.inj hrow'
      exact absurd hkey (hfree r q row hrow)
    · exact h.unique t r q row r' q' row' hrow hrow' hkey
  · intro t r
    rw [h.memory_writes hready, Db.journalOf_eq]
    split
    · rename_i heq
      obtain ⟨rfl, rfl⟩ := heq
      rw [h.append_memory hready hsmall, hrows]
      simp [h.refines, Db.journalOf_eq, AppendJournalEvent.row]
    · rename_i hother
      rw [h.refines, rowsOf_writes_other db c hother, Db.journalOf_eq]
  · intro t r next hnext
    rw [sequence?_writes] at hnext
    rw [Db.journalOf_eq]
    split at hnext
    · rename_i heq
      obtain ⟨rfl, rfl⟩ := heq
      have hlength := h.length_of_ready hready
      rw [Db.journalOf_eq] at hlength
      obtain rfl := Option.some.inj hnext
      rw [hrows]
      simp only [List.map_append, List.map_singleton, List.length_append, List.length_singleton]
      omega
    · rename_i hother
      rw [rowsOf_writes_other db c hother, ← Db.journalOf_eq]
      exact h.counter t r next hnext

end JournalStore

/-! ### Outlines -/

/-- The condition on the insertions: an event occurs no earlier than the last stored one of its
    run. -/
def inTimeOrder : Tag → Db → Prop
  | .journalInsert tenant run occurredAt, db =>
    ∀ last ∈ (db.journalOf tenant run).getLast?, last.input.occurredAt.instant ≤ occurredAt
  | _, _ => True

/-- What every append keeps: the tables are consistent, and a stored row stays. -/
def journalRules (digest : List UInt8 → ContentHash) : Rules Key Db Write Tag where
  inv := JournalStore digest
  guarantee db db' := ∀ t r q row, db.journalRow? t r q = some row → db'.journalRow? t r q = some row
  rely L db db' := (∀ t r q row, db.journalRow? t r q = some row →
    db'.journalRow? t r q = some row) ∧ ∀ k m, (k, m) ∈ L → Db.agree k db db'
  condition := inTimeOrder
  guard := Write.guard

/-- What an append that reports an event does to the tables. -/
inductive AppendStep {digest : List UInt8 → ContentHash} (c : IssuedAppend digest) :
    RunJournal → Db → Db → Prop
  | added {db : Db} (hready : c.command.Ready db) (hsmall : c.command.expectedNextSequence < 2 ^ 63) :
      AppendStep c c.command.event db (writeAll db c.command.writes)
  | replayed {db : Db} {row : JournalRow}
      (hrecord : db.idempotency? c.command.tenant appendScope c.command.idempotencyKey.text =
        some c.command.record)
      (hrow : db.journalRow? c.command.tenant c.command.runId c.command.expectedNextSequence =
        some row)
      (hsmall : c.command.expectedNextSequence < 2 ^ 63) : AppendStep c row.event db db

/-- The end of a transaction that does what its append says. -/
def journalPost (digest : List UInt8 → ContentHash) :
    Post Key Db Write (IssuedAppend digest × RunJournal) := fun result F L W =>
  (journalRules digest).Commits F L W ∧
    ∀ db, JournalStore digest db → F db → AppendStep result.1 result.2 db (writeAll db W)

section Outlines

variable {digest : List UInt8 → ContentHash} {L : Locks}

/-- A record that is locked does not change. -/
theorem stable_idempotency {t : Ulid} {scope key : String} {row : Option IdempotencyRow}
    {m : LockMode} (h : (.idempotency t scope key, m) ∈ L) :
    (journalRules digest).Stable L fun db => db.idempotency? t scope key = row := by
  intro db db' _ _ hrow hrely
  have hagree : db.idempotency? t scope key = db'.idempotency? t scope key := hrely.2 _ _ h
  rw [← hagree]
  exact hrow

/-- A row that is there is never changed, locked or not. -/
theorem stable_journalRow {t r : Ulid} {q : ℕ} {row : JournalRow} :
    (journalRules digest).Stable L fun db => db.journalRow? t r q = some row :=
  fun _ _ _ _ hrow hrely => hrely.1 _ _ _ _ hrow

/-- Under the lock of its counter the journal of a run stands still. -/
theorem stable_sequence {t r : Ulid} {next : ℕ} {m : LockMode} (h : (.sequence t r, m) ∈ L) :
    (journalRules digest).Stable L fun db => db.sequence? t r = some next := by
  intro db db' _ _ hnext hrely
  have hagree : Db.agree (.sequence t r) db db' := hrely.2 _ _ h
  rw [← hagree.1]
  exact hnext

/-- While the counter of a run is locked, no row is added to it. -/
theorem stable_journalOf {t r : Ulid} {P : List RunJournal → Prop} {m : LockMode}
    (h : (.sequence t r, m) ∈ L) :
    (journalRules digest).Stable L fun db => P (db.journalOf t r) := by
  intro db db' _ _ hP hrely
  have hagree : Db.agree (.sequence t r) db db' := hrely.2 _ _ h
  show P ((db'.journalRows t r).map Prod.snd)
  rw [← hagree.2]
  exact hP

/-- **The first statement.** The record is new and written, or it is there with the same content. -/
theorem runs_lockIdempotency {t : Ulid} {scope key : String} {row : IdempotencyRow}
    {post : Post Key Db Write IdempotencyOutcome}
    (hfresh : post .fresh (fun db => db.idempotency? t scope key = none)
      [(.idempotency t scope key, .exclusive)] [.idempotency t scope key row])
    (hreplay : post .replay (fun db => db.idempotency? t scope key = some row)
      [(.idempotency t scope key, .exclusive)] []) :
    (lockIdempotency t scope key row).Runs (journalRules digest) post (fun _ => True) [] [] := by
  intro now locked db hdb _ _ eff he
  simp only [insertIdempotency, writeAll_nil] at he
  split at he
  · -- the key is taken: read the record under its lock
    obtain rfl := Except.ok.inj he
    refine ⟨fun _ => True, trivial, fun _ _ _ _ _ _ => trivial, ?_⟩
    intro now locked db hdb _ _ eff he
    simp only [selectIdempotency, List.append_nil, writeAll_nil] at he
    obtain rfl := Except.ok.inj he
    refine ⟨fun db' => db'.idempotency? t scope key = db.idempotency? t scope key, rfl,
      stable_idempotency (m := .exclusive) (by simp), ?_⟩
    refine Program.runs_ite_fail fun hsame => ?_
    have hsame : db.idempotency? t scope key = some row := not_not.mp hsame
    rw [hsame]
    exact hreplay
  · rename_i hfree
    obtain rfl := Except.ok.inj he
    rw [Option.not_isSome_iff_eq_none] at hfree
    exact ⟨fun db => db.idempotency? t scope key = none, hfree,
      stable_idempotency (m := .exclusive) (by simp), hfresh⟩

/-- What the look-up of the predecessor gives: the hash of a row that will stay. -/
def AppendJournalEvent.Previous (command : AppendJournalEvent) (previous : Option ContentHash)
    (db : Db) : Prop :=
  command.expectedNextSequence = 1 ∨ previous = none ∨ ∃ row,
    db.journalRow? command.tenant command.runId (command.expectedNextSequence - 1) = some row ∧
      previous = some row.event.eventHash

/-- A predecessor that was found stays what it is. -/
theorem stable_previous {command : AppendJournalEvent} {previous : Option ContentHash} :
    (journalRules digest).Stable L (command.Previous previous) := by
  rintro db db' _ _ (hfirst | hnone | ⟨row, hrow, hprevious⟩) hrely
  · exact .inl hfirst
  · exact .inr (.inl hnone)
  · exact .inr (.inr ⟨row, hrely.1 _ _ _ _ hrow, hprevious⟩)

/-- A select writes nothing and takes no lock. -/
theorem selectEvent_eq_ok {t r owner : Ulid} {q : ℕ} {now : DateTime} {locked : Key → Bool} {db : Db}
    {eff : Effect Key Write (Option RunJournal)}
    (h : (selectEvent t r q owner).exec now locked db = .ok eff) :
    ∃ found, eff = ⟨found, [], []⟩ ∧
      (found = none ∨ ∃ row, db.journalRow? t r q = some row ∧ found = some row.event) := by
  obtain rfl := Except.ok.inj h
  refine ⟨_, rfl, ?_⟩
  split
  · cases db.journalRow? t r q with
    | none => exact .inl rfl
    | some row => exact .inr ⟨row, rfl, rfl⟩
  · exact .inl rfl

/-- A number goes to the database only when it fits into 63 bits. -/
theorem versionI64_eq_ok {value out : ℕ} (h : versionI64 value = .ok out) :
    out = value ∧ value < 2 ^ 63 := by
  unfold versionI64 at h
  split at h
  · rename_i hsmall
    exact ⟨(Except.ok.inj h).symm, hsmall⟩
  · cases h

/-- **The second statement.** The predecessor is found, unless the append is the first one. -/
theorem runs_expectedPrevious {command : AppendJournalEvent} {F : Db → Prop} {record : Write}
    (hrecord : ∀ db : Db, (db.write record).journalRow? command.tenant command.runId
      (command.expectedNextSequence - 1) =
        db.journalRow? command.tenant command.runId (command.expectedNextSequence - 1))
    {post : Post Key Db Write (Option ContentHash)} (hF : (journalRules digest).Stable L F)
    (hpost : ∀ previous, post previous (fun db => F db ∧ command.Previous previous db) L [record]) :
    (expectedPrevious command).Runs (journalRules digest) post F L [record] := by
  unfold expectedPrevious
  -- The first event has no predecessor; every later one reads it from the table.
  split
  · rename_i hfirst
    have hfact : (fun db => F db ∧ command.Previous none db) = F := by
      funext db
      simp [AppendJournalEvent.Previous, hfirst]
    have := hpost none
    rwa [hfact] at this
  · rw [Program.runs_bind]
    refine Program.runs_ofExcept fun sequence hsequence => ?_
    obtain ⟨rfl, -⟩ := versionI64_eq_ok hsequence
    intro now locked db hdb hdbF _ eff he
    obtain ⟨found, hfound, hcases⟩ := selectEvent_eq_ok he
    simp only [writeAll_cons, writeAll_nil, Db.store_write, hrecord] at hcases
    obtain rfl := hfound
    simp only [List.append_nil]
    -- What is read stays true, since rows are never changed and never removed.
    refine ⟨fun db' => F db' ∧ command.Previous (found.map RunJournal.eventHash) db', ⟨hdbF, ?_⟩,
      hF.and stable_previous, hpost _⟩
    rcases hcases with rfl | ⟨row, hrow, rfl⟩
    · exact .inr (.inl rfl)
    · exact .inr (.inr ⟨row, hrow, rfl⟩)

/-- **The third statement.** The counter stood at the expected number, and is locked and moved. -/
theorem advanceSequence_eq_ok {t r owner : Ulid} {q next : ℕ} {now : DateTime} {locked : Key → Bool}
    {db : Db} {eff : Effect Key Write (Option ℕ)}
    (h : (advanceSequence t r q owner).exec now locked db = .ok eff)
    (hnext : eff.value = some next) :
    db.sequence? t r = some q ∧ q + 1 < 2 ^ 63 ∧
      eff = ⟨some (q + 1), [(.sequence t r, .exclusive)], [.sequence t r (q + 1)]⟩ := by
  simp only [advanceSequence] at h
  split at h
  · rename_i hwhere
    split at h
    · rename_i hsmall
      exact ⟨hwhere.1, hsmall, (Except.ok.inj h).symm⟩
    · cases h
  · obtain rfl := Except.ok.inj h
    cases hnext

/-- **The last statement.** The constraints of the table hold of the row that is inserted. -/
theorem insertJournal_eq_ok {t r : Ulid} {row : JournalRow} {now : DateTime} {locked : Key → Bool}
    {db : Db} {eff : Effect Key Write Unit}
    (h : (insertJournal t r row).exec now locked db = .ok eff) :
    ((row.event.input.sequence = 1 ∧ row.event.input.prevHash = none) ∨
        (1 < row.event.input.sequence ∧ row.event.input.prevHash.isSome)) ∧
      eff.writes = [.journal t r row.event.input.sequence row] := by
  simp only [insertJournal] at h
  split at h
  · cases h
  rename_i hshape
  split at h
  · cases h
  split at h
  · cases h
  · obtain rfl := Except.ok.inj h
    exact ⟨not_not.mp hshape, rfl⟩

/-- An append that is ready stays so while it holds both locks. -/
theorem stable_ready {command : AppendJournalEvent}
    (hrecord : (.idempotency command.tenant appendScope command.idempotencyKey.text,
      LockMode.exclusive) ∈ L)
    (hsequence : (.sequence command.tenant command.runId, LockMode.exclusive) ∈ L) :
    (journalRules digest).Stable L command.Ready := by
  intro db db' hdb hdb' hready hrely
  refine ⟨stable_idempotency hrecord db db' hdb hdb' hready.free hrely,
    stable_sequence hsequence db db' hdb hdb' hready.next hrely, ?_,
    stable_journalOf (P := fun events => ∀ last ∈ events.getLast?,
      last.input.occurredAt.instant ≤ command.event.input.occurredAt.instant)
      hsequence db db' hdb hdb' hready.ordered hrely⟩
  rcases hready.linked with hfirst | ⟨previous, hrow, hprev⟩
  · exact .inl hfirst
  · exact .inr ⟨previous, hrely.1 _ _ _ _ hrow, hprev⟩

/-- An append that is ready commits. -/
theorem commits_writes {c : IssuedAppend digest}
    (hsmall : c.command.expectedNextSequence < 2 ^ 63)
    (hrecord : (.idempotency c.command.tenant appendScope c.command.idempotencyKey.text,
      LockMode.exclusive) ∈ L)
    (hsequence : (.sequence c.command.tenant c.command.runId, LockMode.exclusive) ∈ L) :
    (journalRules digest).Commits c.command.Ready L c.command.writes := by
  refine ⟨fun w hw => ?_, fun db hdb hready => ⟨JournalStore.writes hdb hready hsmall, ?_⟩⟩
  · simp only [AppendJournalEvent.writes, List.mem_cons, List.not_mem_nil, or_false] at hw
    rcases hw with rfl | rfl | rfl
    · exact hrecord
    · exact hsequence
    · exact hsequence
  · intro t r q row hrow
    rw [JournalStore.journalRow?_writes, if_neg]
    · exact hrow
    · rintro ⟨rfl, rfl, rfl⟩
      rw [JournalStore.journalRow?_of_ready hdb hready] at hrow
      cases hrow

/-- The outline of an append. -/
theorem runs_persistJournal (c : IssuedAppend digest) :
    (persistJournal c.command).Runs (journalRules digest)
      (fun event => journalPost digest (c, event)) (fun _ => True) [] [] := by
  unfold persistJournal
  rw [Program.runs_bind]
  refine Program.runs_ofExcept fun _ _ => ?_
  rw [Program.runs_bind]
  refine runs_lockIdempotency ?_ ?_
  · -- a fresh key: predecessor, counter, insertion
    simp only
    rw [Program.runs_bind]
    refine runs_expectedPrevious ?_ (stable_idempotency (m := .exclusive) (by simp)) fun previous => ?_
    · intro db
      simp
    refine Program.runs_ite_fail fun hprevious => ?_
    obtain rfl : previous = c.command.event.input.prevHash := not_not.mp hprevious
    rw [Program.runs_bind]
    refine Program.runs_ofExcept fun sequence hsequence => ?_
    obtain ⟨rfl, hsmall⟩ := versionI64_eq_ok hsequence
    intro now locked db hdb hF _ eff he
    cases hadvanced : eff.value with
    | none =>
      exact ⟨fun _ => True, trivial, fun _ _ _ _ _ _ => trivial, trivial⟩
    | some next =>
      obtain ⟨hnext, hbound, rfl⟩ := advanceSequence_eq_ok he hadvanced
      simp only [writeAll_cons, writeAll_nil, Db.store_write, Db.sequence?_write] at hnext
      refine ⟨fun db =>
        (db.idempotency? c.command.tenant appendScope c.command.idempotencyKey.text = none ∧
          c.command.Previous c.command.event.input.prevHash db) ∧
        db.sequence? c.command.tenant c.command.runId = some c.command.expectedNextSequence,
        ⟨hF, hnext⟩, ((stable_idempotency (m := .exclusive) (by simp)).and stable_previous).and
          (stable_sequence (m := .exclusive) (by simp)), ?_⟩
      simp only [Program.bind]
      rw [if_neg (by simp), Program.runs_bind]
      refine Program.runs_ofExcept fun _ _ => ?_
      intro now locked db hdb hF hordered eff he
      obtain ⟨hshape, hwrites⟩ := insertJournal_eq_ok he
      have hready : c.command.Ready db := by
        refine ⟨hF.1.1, hF.2, ?_, hordered⟩
        rcases hF.1.2 with hfirst | hnone | ⟨row, hrow, hprevious⟩
        · exact .inl hfirst
        · rcases hshape with ⟨hfirst, -⟩ | ⟨-, hsome⟩
          · exact .inl (c.sequence_eq.symm.trans hfirst)
          · rw [show c.command.row.event.input.prevHash = none from hnone] at hsome
            cases hsome
        · exact .inr ⟨row, hrow, hprevious⟩
      refine ⟨c.command.Ready, hready, stable_ready (by simp) (by simp), ?_⟩
      rw [hwrites]
      exact ⟨commits_writes hsmall (by simp) (by simp), fun db _ hready => .added hready hsmall⟩
  · -- a replay: the event at the position of the append
    simp only
    rw [Program.runs_bind]
    refine Program.runs_ofExcept fun sequence hsequence => ?_
    obtain ⟨rfl, hsmall⟩ := versionI64_eq_ok hsequence
    intro now locked db hdb hF _ eff he
    obtain ⟨found, rfl, hfound⟩ := selectEvent_eq_ok he
    rcases hfound with rfl | ⟨row, hrow, rfl⟩
    · exact ⟨fun _ => True, trivial, fun _ _ _ _ _ _ => trivial, trivial⟩
    · refine ⟨fun db =>
        db.idempotency? c.command.tenant appendScope c.command.idempotencyKey.text =
          some c.command.record ∧
        db.journalRow? c.command.tenant c.command.runId c.command.expectedNextSequence = some row,
        ⟨hF, hrow⟩,
        (stable_idempotency (m := .exclusive) (by simp)).and stable_journalRow, ?_⟩
      refine ⟨⟨by simp, fun db hdb _ => ⟨hdb, fun _ _ _ _ h => h⟩⟩, fun db _ h => ?_⟩
      exact .replayed h.1 h.2 hsmall

end Outlines

/-! ### Any number of clients -/

/-- The append as a transaction that reports on it. -/
def IssuedAppend.body {digest : List UInt8 → ContentHash} (c : IssuedAppend digest) :
    Program DateTime Key Db Write (IssuedAppend digest × ApplicationError) Tag
      (IssuedAppend digest × RunJournal) :=
  (persistJournal c.command).mapBoth (fun error => (c, error)) fun event => (c, event)

/-- The clients of the durable journal. -/
abbrev JournalSystem (digest : List UInt8 → ContentHash) :=
  System DateTime Key Db Write (IssuedAppend digest × ApplicationError) Tag
    (IssuedAppend digest × RunJournal)

/-- **Every run of appends keeps the invariant**, where each insertion is in the order of time. -/
theorem journal_sound {digest : List UInt8 → ContentHash} {start : Db}
    (hstart : JournalStore digest start) {clock : DateTime} {sys : JournalSystem digest}
    (hsys : System.Reachable IssuedAppend.body inTimeOrder ⟨start, clock, ∅⟩ sys) :
    System.Sound (journalRules digest) (journalPost digest) sys := by
  have hrely : ∀ L db db', (journalRules digest).guarantee db db' →
      (∀ k m, (k, m) ∈ L → Db.agree k db db') → (journalRules digest).rely L db db' :=
    fun _ _ _ hguarantee hagree => ⟨hguarantee, hagree⟩
  exact System.Reachable.sound Db.agree Db.agree_refl Db.agree_trans Db.agree_write hrely
    (fun _ _ _ _ h => h.1) (fun c => Program.runs_mapBoth.mpr (runs_persistJournal c))
    (System.Sound.start hstart clock) hsys

/-- The append that a replay is answered from. -/
theorem AppendStep.stored {digest : List UInt8 → ContentHash} {c : IssuedAppend digest}
    {event : RunJournal} {db db' : Db} (hdb : JournalStore digest db)
    (h : AppendStep c event db db')
    (hknown : (db.idempotency? c.command.tenant appendScope c.command.idempotencyKey.text).isSome) :
    db' = db ∧ ∃ stored : IssuedAppend digest, stored.command.tenant = c.command.tenant ∧
      stored.command.idempotencyKey.text = c.command.idempotencyKey.text ∧
      db.journalRow? stored.command.tenant stored.command.runId
        stored.command.expectedNextSequence = some stored.command.row ∧
      (NoCollision digest c.preimage stored.preimage → event = stored.command.event ∧
        (db.memory digest c.command.tenant c.command.runId).append digest c.command.request =
          (.ok ⟨event, false⟩, db.memory digest c.command.tenant c.command.runId)) := by
  cases h with
  | added hready =>
    rw [hready.free] at hknown
    cases hknown
  | @replayed _ row hrecord hrow hsmall =>
    obtain ⟨r, q, found, hfound, hkey, hfingerprint⟩ := hdb.stored _ _ _ hrecord
    obtain ⟨stored, htenant, rfl, rfl, rfl, hbound⟩ := hdb.issued _ r q found hfound
    refine ⟨rfl, stored, htenant, hkey, by rw [htenant]; exact hfound, fun hdigest => ?_⟩
    -- equal fingerprints of different preimages would be a collision, so the positions agree
    have hfingerprint : stored.command.fingerprint = c.command.fingerprint := hfingerprint
    rw [stored.fingerprint_eq, c.fingerprint_eq] at hfingerprint
    obtain ⟨hrun, hsequence, hhash⟩ :=
      IssuedAppend.preimage_inj hsmall hbound (hdigest hfingerprint.symm)
    rw [hrun, hsequence, hfound] at hrow
    obtain rfl := Option.some.inj hrow
    refine ⟨rfl, ?_⟩
    rw [PerRunJournal.append, c.new_request]
    have hget : (db.memory digest c.command.tenant c.command.runId).idempotency.get?
        c.command.request.idempotencyKey = some stored.command.event := by
      have hmemory := hdb.memory_key hfound
      rw [← hrun, hkey] at hmemory
      exact hmemory
    simp only [hget]
    rw [if_pos hhash.symm]
    rfl

/-- **The durable journal refines the one in memory.**  Any number of clients append events statement
    by statement, interleaved in any way, each event no earlier than the last stored one of its run
    when it is inserted.  In every state reached:

    * the stored events of every run are those of the journal in memory after the same appends: they
      are chained, and each of them passes the replay's position check;
    * an idempotency key is stored at most once;
    * an append with a known key reports the event stored for that key, as the journal in memory
      does, and changes nothing;
    * an append with a new key reports its event, and the step it makes is the step of the journal in
      memory;
    * every other turn changes nothing. -/
theorem durableJournal_refines (digest : List UInt8 → ContentHash) {start : Db}
    (hstart : start.Unwritten) {clock : DateTime} {sys : JournalSystem digest}
    (hsys : System.Reachable IssuedAppend.body inTimeOrder ⟨start, clock, ∅⟩ sys) :
    (∀ tenant run,
      let events := sys.committed.journalOf tenant run
      events = (sys.committed.memory digest tenant run).events ∧ Chained digest run events ∧
        ∀ i event, events[i]? = some event → verifyJournalPosition digest event
          (if i = 0 then none else events[i - 1]?) run i = .ok ()) ∧
    (∀ tenant run sequence row run' sequence' row',
      sys.committed.journalRow? tenant run sequence = some row →
      sys.committed.journalRow? tenant run' sequence' = some row' →
      row.idempotencyKey = row'.idempotencyKey → run = run' ∧ sequence = sequence') ∧
    (∀ (a : Action DateTime (IssuedAppend digest)) c event,
      sys.report? a = some (.ok (c, event)) →
      let memory := sys.committed.memory digest c.command.tenant c.command.runId
      let record := sys.committed.idempotency? c.command.tenant appendScope
        c.command.idempotencyKey.text
      (record.isSome → (∀ sys', sys.step? IssuedAppend.body a = some sys' →
          sys'.committed = sys.committed) ∧
        ∃ stored : IssuedAppend digest, stored.command.tenant = c.command.tenant ∧
          stored.command.idempotencyKey.text = c.command.idempotencyKey.text ∧
          sys.committed.journalRow? stored.command.tenant stored.command.runId
            stored.command.expectedNextSequence = some stored.command.row ∧
          (NoCollision digest c.preimage stored.preimage → event = stored.command.event ∧
            memory.append digest c.command.request = (.ok ⟨event, false⟩, memory))) ∧
      (record = none → event = c.command.event ∧
        (memory.append digest c.command.request).1 = .ok ⟨event, true⟩ ∧
        ∀ sys', sys.step? IssuedAppend.body a = some sys' → ∀ tenant run,
          sys'.committed.memory digest tenant run =
            if tenant = c.command.tenant ∧ run = c.command.runId then
              (memory.append digest c.command.request).2
            else sys.committed.memory digest tenant run)) ∧
    (∀ a sys', sys.step? IssuedAppend.body a = some sys' →
      (∀ r, sys.report? a ≠ some (.ok r)) → sys'.committed = sys.committed) := by
  have hsound := journal_sound (hstart.journalStore digest) hsys
  have hstore : JournalStore digest sys.committed := hsound.inv
  refine ⟨fun tenant run => ?_, hstore.unique, fun a c event hreport => ?_,
    fun a sys' hstep hnone => ?_⟩
  · have hchained := hstore.chained tenant run
    exact ⟨(hstore.refines tenant run).symm, hchained,
      fun i event hi => hchained.verifyJournalPosition hi⟩
  · obtain ⟨F, L, W, hF, hpost, hcommitted⟩ := hsound.report_ok IssuedAppend.body hreport
    have happend : AppendStep c event sys.committed (writeAll sys.committed W) :=
      hpost.2 sys.committed hstore hF
    -- A repeated append finds the stored event; a new one adds the row of its event.
    refine ⟨fun hknown => ?_, fun hfree => ?_⟩
    · obtain ⟨hsame, hstored⟩ := happend.stored hstore hknown
      exact ⟨fun sys' hstep => (hcommitted sys' hstep).trans hsame, hstored⟩
    · generalize hwritten : writeAll sys.committed W = written at happend hcommitted
      cases happend with
      | replayed hrecord =>
        rw [hfree] at hrecord
        cases hrecord
      | added hready hsmall =>
        refine ⟨rfl, by rw [hstore.append_memory hready hsmall], fun sys' hstep tenant run => ?_⟩
        rw [hcommitted sys' hstep, hstore.memory_writes hready]
        -- Appends to one run leave every other journal as it is.
        by_cases hown : tenant = c.command.tenant ∧ run = c.command.runId
        · obtain ⟨rfl, rfl⟩ := hown
          rfl
        · rw [if_neg hown, if_neg hown]
  · rcases System.committed_of_step? hstep with hsame | ⟨r, hr⟩
    · exact hsame
    · exact absurd hr (hnone r)

namespace TwoAppends

open SmallRun (digest)

def owner : OwnerRef := ⟨⟨1⟩, ⟨2⟩⟩

def runId : Ulid := ⟨3⟩

def instant (seconds : ℕ) (h : seconds ≤ 10000) : DateTime :=
  .ofSeconds seconds (by omega) (by omega)

/-- A run of the owner with an empty journal. -/
def db : Db :=
  let run : ExperimentRun :=
    { experimentRunId := runId, owner, dataSnapshot := ⟨⟨4⟩, none, none⟩
      universeSnapshot := ⟨⟨5⟩, none, none⟩, rulePacks := [], runtimeImageDigest := digest []
      parametersHash := digest [], seed := 0, state := .running, revision := 1, lineage := [] }
  (default : Db).write (.run ⟨1⟩ runId ⟨run, "run", digest []⟩) |>.write (.sequence ⟨1⟩ runId 1)

theorem unwritten : db.Unwritten := by
  refine ⟨rfl, fun _ _ => rfl, fun t r next h => ?_⟩
  simp only [db, Db.sequence?_write] at h
  split at h
  · exact (Option.some.inj h).symm
  · cases h

def event (id : Ulid) (sequence seconds : ℕ) (h : seconds ≤ 10000) (prevHash : Option ContentHash) :
    RunJournal :=
  let input : RunJournalInput :=
    { journalEventId := id, runId, sequence, eventType := .artifactPublished
      occurredAt := ⟨instant seconds h, "UTC", SmallRun.occurredAt.localTradingDate⟩
      payloadType := "note", payloadSchema := "v1", payload := [0], prevHash }
  ⟨input, digest input.canonicalBytes⟩

def first : RunJournal := event ⟨10⟩ 1 10 (by decide) none

/-- The second event, ten seconds after the first one. -/
def later : RunJournal := event ⟨11⟩ 2 20 (by decide) (some first.eventHash)

/-- The second event, five seconds before the first one. -/
def earlier : RunJournal := event ⟨11⟩ 2 5 (by decide) (some first.eventHash)

def scope : AccessScope := ⟨⟨1⟩, ⟨6⟩, [⟨2⟩], digest []⟩

def command? (key : String) (event : RunJournal) : Option AppendJournalEvent :=
  (AppendJournalEvent.new digest scope owner runId event.input.sequence event ⟨key⟩).toOption

def append (key : String) (event : RunJournal) (hcommand : (command? key event).isSome)
    (hevent : RunJournal.new digest event.input event.eventHash = .ok event)
    (hsame : ((command? key event).get hcommand).event = event) : IssuedAppend digest where
  command := (command? key event).get hcommand
  event := ⟨_, _, hsame.symm ▸ hevent⟩
  constructed := ⟨_, _, _, _, _, _, eq_ok_get hcommand⟩

def appendFirst : IssuedAppend digest :=
  append "a" first (by decide +kernel) (by decide +kernel) (by decide +kernel)

def appendLater : IssuedAppend digest :=
  append "b" later (by decide +kernel) (by decide +kernel) (by decide +kernel)

def appendEarlier : IssuedAppend digest :=
  append "b" earlier (by decide +kernel) (by decide +kernel) (by decide +kernel)

def start : JournalSystem digest := ⟨db, instant 0 (by decide), ∅⟩

/-- The first append and then another one. -/
def schedule (c : IssuedAppend digest) : List (Action DateTime (IssuedAppend digest)) :=
  [.start 0 appendFirst, .statement 0, .start 1 c, .statement 1, .statement 0, .statement 0, .commit 0,
    .statement 1, .statement 1, .statement 1, .commit 1]

def inOrder : Tag → Db → Bool
  | .journalInsert tenant run occurredAt, db =>
    (db.journalOf tenant run).getLast?.all fun last => last.input.occurredAt.instant ≤ occurredAt
  | _, _ => true

end TwoAppends

/-- The table takes an event that occurs before its predecessor; the journal in memory and the
    replay refuse it. -/
theorem durableJournal_goes_back :
    TwoAppends.start.committed.Unwritten ∧
      ∃ sys, System.Reachable IssuedAppend.body (fun _ _ => True) TwoAppends.start sys ∧
        sys.committed.journalOf ⟨1⟩ TwoAppends.runId = [TwoAppends.first, TwoAppends.earlier] ∧
        (sys.committed.memory SmallRun.digest ⟨1⟩ TwoAppends.runId).events = [TwoAppends.first] ∧
        verifyJournalPosition SmallRun.digest TwoAppends.earlier (some TwoAppends.first)
          TwoAppends.runId 1 = .error (.domain .invalidEffectiveTime) := by
  refine ⟨TwoAppends.unwritten, ?_⟩
  obtain ⟨sys, hrun, hcheck⟩ := (Option.any_eq_true
    (fun sys : JournalSystem SmallRun.digest => decide (sys.committed.journalOf ⟨1⟩ TwoAppends.runId =
      [TwoAppends.first, TwoAppends.earlier] ∧
      (sys.committed.memory SmallRun.digest ⟨1⟩ TwoAppends.runId).events = [TwoAppends.first])) _).mp
    (by decide +kernel : (TwoAppends.start.run? IssuedAppend.body
      (TwoAppends.schedule TwoAppends.appendEarlier)).any _ = true)
  obtain ⟨hjournal, hmemory⟩ := of_decide_eq_true hcheck
  exact ⟨sys, System.reachable_of_run? .refl hrun, hjournal, hmemory, by decide +kernel⟩

theorem durableJournal_refines_later :
    ∃ sys, TwoAppends.start.runPassing? TwoAppends.inOrder IssuedAppend.body
        (TwoAppends.schedule TwoAppends.appendLater) = some sys ∧
      sys.committed.journalOf ⟨1⟩ TwoAppends.runId = [TwoAppends.first, TwoAppends.later] ∧
      Chained SmallRun.digest TwoAppends.runId [TwoAppends.first, TwoAppends.later] := by
  obtain ⟨sys, hrun, hcheck⟩ := (Option.any_eq_true
    (fun sys : JournalSystem SmallRun.digest => decide (sys.committed.journalOf ⟨1⟩ TwoAppends.runId =
      [TwoAppends.first, TwoAppends.later])) _).mp
    (by decide +kernel : (TwoAppends.start.runPassing? TwoAppends.inOrder IssuedAppend.body
      (TwoAppends.schedule TwoAppends.appendLater)).any _ = true)
  have hjournal := of_decide_eq_true hcheck
  -- The test that is run implies the condition on the order in time.
  have htest : ∀ tag db, TwoAppends.inOrder tag db = true → inTimeOrder tag db := by
    intro tag db h
    cases tag with
    | journalInsert tenant run occurredAt =>
      intro last hlast
      rw [Option.mem_def] at hlast
      simpa [TwoAppends.inOrder, hlast] using h
    | plain => trivial
    | nodeStart => trivial
  have hrefines := durableJournal_refines SmallRun.digest TwoAppends.unwritten
    (System.reachable_of_runPassing? htest .refl hrun)
  exact ⟨sys, hrun, hjournal, hjournal ▸ (hrefines.1 ⟨1⟩ TwoAppends.runId).2.1⟩

end Ficant
