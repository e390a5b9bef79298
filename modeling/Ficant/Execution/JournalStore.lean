import Ficant.Application.Fingerprint
import Ficant.Execution.Tables
import Ficant.Primitives.HashText
import Ficant.Runtime.Journal

namespace Ficant

open Lib

/-!
# The durable journal

The append of one event to the journal of a run in PostgreSQL
(`ficant-storage/src/postgres/journal.rs`), beside the one in memory of `Ficant.Runtime.Journal`.

* `AppendJournalEvent` — the command and its fingerprint (`ficant-application`);
* `persistJournal` — an idempotency record, the predecessor's hash, a compare-and-set on the counter
  of the run and the insertion;
* `IssuedAppend` — a command whose event and fields come from their constructors; the preimage of its
  fingerprint determines the position and the hash of the event.
-/

/-! ### Commands -/

/-- `IdempotencyKey::scoped_to`. -/
def IdempotencyKey.scopedTo (key : IdempotencyKey) (scope : AccessScope) :
    Except ApplicationError IdempotencyKey :=
  let text := key.text ++ "/scope-" ++ hashHex scope.fingerprint
  if properName text then .ok ⟨text⟩ else .error ⟨.validationFailed, false⟩

/-- `AppendJournalEvent`. -/
structure AppendJournalEvent where
  scope : AccessScope
  targetOwner : OwnerRef
  runId : Ulid
  expectedNextSequence : ℕ
  event : RunJournal
  idempotencyKey : IdempotencyKey
  fingerprint : ContentHash
  deriving DecidableEq

/-- `journal_bytes`. -/
def journalBytes (event : RunJournal) : List UInt8 :=
  fingerprintBytes "run-journal/v1" [(2, event.eventHash.bytes)]

/-- What the fingerprint of an append is the digest of. -/
def appendFingerprintBytes (scope : AccessScope) (owner : OwnerRef) (runId : Ulid) (sequence : ℕ)
    (event : RunJournal) : List UInt8 :=
  fingerprintBytes "append-journal-event/v2"
    [(2, scope.fingerprint.bytes), (3, ownerRefBytes owner), (4, utf8 runId.text),
      (5, bigEndian 8 sequence), (6, journalBytes event)]

/-- `AppendJournalEvent::new`. -/
def AppendJournalEvent.new (digest : List UInt8 → ContentHash) (scope : AccessScope)
    (targetOwner : OwnerRef) (runId : Ulid) (expectedNextSequence : ℕ) (event : RunJournal)
    (idempotencyKey : IdempotencyKey) : Except ApplicationError AppendJournalEvent := do
  scope.authorize targetOwner
  if expectedNextSequence = 0 ∨ event.input.sequence ≠ expectedNextSequence then
    .error ⟨.concurrencyConflict, true⟩
  else if event.input.runId ≠ runId then .error ⟨.lineageIncomplete, false⟩
  else
    let key ← idempotencyKey.scopedTo scope
    pure
      { scope, targetOwner, runId, expectedNextSequence, event
        idempotencyKey := key
        fingerprint := digest
          (appendFingerprintBytes scope targetOwner runId expectedNextSequence event) }

/-! ### Statements -/

/-- A transaction of the journal. -/
abbrev JournalTx := Program DateTime Key Db Write ApplicationError Tag

/-- `INSERT INTO core.idempotency_records … ON CONFLICT DO NOTHING`: whether the record is new. -/
def insertIdempotency (tenant : Ulid) (scope key : String) (row : IdempotencyRow) :
    Statement DateTime Key Db Write ApplicationError Tag Bool where
  tag := .plain
  exec _ _ db :=
    if (db.idempotency? tenant scope key).isSome then .ok ⟨false, [], []⟩
    else .ok ⟨true, [(.idempotency tenant scope key, .exclusive)],
      [.idempotency tenant scope key row]⟩

/-- `SELECT … FROM core.idempotency_records … FOR UPDATE`. -/
def selectIdempotency (tenant : Ulid) (scope key : String) :
    Statement DateTime Key Db Write ApplicationError Tag (Option IdempotencyRow) where
  tag := .plain
  exec _ _ db :=
    .ok ⟨db.idempotency? tenant scope key, [(.idempotency tenant scope key, .exclusive)], []⟩

/-- `lock_idempotency`. -/
def lockIdempotency (tenant : Ulid) (scope key : String) (row : IdempotencyRow) :
    JournalTx IdempotencyOutcome := do
  let inserted ← .ofStatement (insertIdempotency tenant scope key row)
  if inserted then pure .fresh
  else do
    let existing ← .ofStatement (selectIdempotency tenant scope key)
    if existing ≠ some row then .fail ⟨.alreadyExists, false⟩ else pure .replay

/-- `version_i64`. -/
def versionI64 (value : ℕ) : Except ApplicationError ℕ :=
  if value < 2 ^ 63 then .ok value else .error ⟨.validationFailed, false⟩

/-- The run belongs to the owner. -/
def Db.ownedBy (db : Db) (tenant run owner : Ulid) : Bool :=
  (db.run? tenant run).any fun row => row.run.owner.ownerId = owner

/-- `SELECT … FROM research.run_journal … JOIN research.experiment_runs …` at one sequence. -/
def selectEvent (tenant run : Ulid) (sequence : ℕ) (owner : Ulid) :
    Statement DateTime Key Db Write ApplicationError Tag (Option RunJournal) where
  tag := .plain
  exec _ _ db :=
    .ok ⟨if db.ownedBy tenant run owner then (db.journalRow? tenant run sequence).map JournalRow.event
      else none, [], []⟩

/-- `UPDATE research.run_journal_sequences … WHERE next_sequence = $3 … RETURNING next_sequence`. -/
def advanceSequence (tenant run : Ulid) (expected : ℕ) (owner : Ulid) :
    Statement DateTime Key Db Write ApplicationError Tag (Option ℕ) where
  tag := .plain
  exec _ _ db :=
    if db.sequence? tenant run = some expected ∧ db.ownedBy tenant run owner then
      if expected + 1 < 2 ^ 63 then
        .ok ⟨some (expected + 1), [(.sequence tenant run, .exclusive)],
          [.sequence tenant run (expected + 1)]⟩
      else .error ⟨.validationFailed, false⟩
    else .ok ⟨none, [], []⟩

/-- A row that a unique index of `research.run_journal` does not admit beside another one. -/
def JournalRow.clashes (row other : JournalRow) : Bool :=
  row.event.input.journalEventId = other.event.input.journalEventId ∨
    row.idempotencyKey = other.idempotencyKey ∨ row.event.eventHash = other.event.eventHash

/-- `INSERT INTO research.run_journal` with the constraints of the table. -/
def insertJournal (tenant run : Ulid) (row : JournalRow) :
    Statement DateTime Key Db Write ApplicationError Tag Unit where
  tag := .journalInsert tenant run row.event.input.occurredAt.instant
  exec _ _ db :=
    let input := row.event.input
    if ¬((input.sequence = 1 ∧ input.prevHash = none) ∨
        (1 < input.sequence ∧ input.prevHash.isSome)) then .error ⟨.validationFailed, false⟩
    else if (db.journalRow? tenant run input.sequence).isSome ∨
        db.journal.entries.any (fun e => (ofLex e.1).1 = tenant && row.clashes e.2) then
      .error ⟨.alreadyExists, false⟩
    else if db.run? tenant run = none then .error ⟨.lineageIncomplete, false⟩
    else .ok ⟨(), [(.journal tenant run input.sequence, .exclusive),
        (.journalEvent tenant input.journalEventId, .exclusive),
        (.journalIdempotency tenant row.idempotencyKey, .exclusive),
        (.journalHash tenant row.event.eventHash, .exclusive)],
      [.journal tenant run input.sequence row]⟩

/-! ### The append -/

/-- The scope of the idempotency records of the journal. -/
def appendScope : String := "run-journal:append:v2"

namespace AppendJournalEvent

/-- The tenant of the target owner. -/
def tenant (command : AppendJournalEvent) : Ulid := command.targetOwner.tenantId

/-- The row that an append inserts. -/
def row (command : AppendJournalEvent) : JournalRow :=
  ⟨command.event, command.idempotencyKey.text, command.fingerprint⟩

/-- The idempotency record of an append. -/
def record (command : AppendJournalEvent) : IdempotencyRow :=
  ⟨command.fingerprint, command.event.input.journalEventId⟩

/-- The arguments that the journal in memory gets for the same append. -/
def request (command : AppendJournalEvent) : AppendRequest :=
  ⟨command.idempotencyKey, command.expectedNextSequence,
    ⟨command.event.input, command.event.eventHash⟩⟩

end AppendJournalEvent

/-- The hash of the event before the one expected next, as `persist_journal` looks it up. -/
def expectedPrevious (command : AppendJournalEvent) : JournalTx (Option ContentHash) :=
  if command.expectedNextSequence = 1 then pure none
  else do
    let sequence ← .ofExcept (versionI64 (command.expectedNextSequence - 1))
    let previous ← .ofStatement
      (selectEvent command.tenant command.runId sequence command.targetOwner.ownerId)
    pure (previous.map RunJournal.eventHash)

/-- `persist_journal`. -/
def persistJournal (command : AppendJournalEvent) : JournalTx RunJournal := do
  .ofExcept (command.scope.authorize command.targetOwner)
  let owner := command.targetOwner.ownerId
  let outcome ← lockIdempotency command.tenant appendScope command.idempotencyKey.text command.record
  match outcome with
  | .replay =>
    let sequence ← .ofExcept (versionI64 command.expectedNextSequence)
    let payload ← .ofStatement (selectEvent command.tenant command.runId sequence owner)
    match payload with
    | some event => pure event
    | none => .fail ⟨.storageUnavailable, false⟩
  | .fresh =>
    let previous ← expectedPrevious command
    if previous ≠ command.event.input.prevHash then .fail ⟨.lineageIncomplete, false⟩
    else do
      let sequence ← .ofExcept (versionI64 command.expectedNextSequence)
      let advanced ← .ofStatement (advanceSequence command.tenant command.runId sequence owner)
      if advanced = none then .fail ⟨.concurrencyConflict, true⟩
      else do
        let _ ← .ofExcept (versionI64 command.event.input.sequence)
        .ofStatement (insertJournal command.tenant command.runId command.row)
        pure command.event

/-! ### Clients -/

/-- An append as a client issues it: its event and its command come from their constructors. -/
structure IssuedAppend (digest : List UInt8 → ContentHash) where
  command : AppendJournalEvent
  event : ∃ input claimedHash, RunJournal.new digest input claimedHash = .ok command.event
  constructed : ∃ scope owner runId sequence event key,
    AppendJournalEvent.new digest scope owner runId sequence event key = .ok command

/-- What the constructor of a command establishes. -/
theorem AppendJournalEvent.new_eq_ok {digest : List UInt8 → ContentHash} {scope : AccessScope}
    {owner : OwnerRef} {runId : Ulid} {sequence : ℕ} {event : RunJournal} {key : IdempotencyKey}
    {command : AppendJournalEvent}
    (h : AppendJournalEvent.new digest scope owner runId sequence event key = .ok command) :
    command.expectedNextSequence ≠ 0 ∧
      command.event.input.sequence = command.expectedNextSequence ∧
      command.event.input.runId = command.runId ∧
      command.fingerprint = digest (appendFingerprintBytes command.scope command.targetOwner
        command.runId command.expectedNextSequence command.event) := by
  obtain ⟨_, -, h⟩ := bind_eq_ok.mp h
  split at h
  · cases h
  rename_i hsequence
  split at h
  · cases h
  rename_i hrun
  obtain ⟨_, -, h⟩ := bind_eq_ok.mp h
  obtain rfl := Except.ok.inj h
  push Not at hsequence
  exact ⟨hsequence.1, hsequence.2, not_not.mp hrun, rfl⟩

namespace IssuedAppend

variable {digest : List UInt8 → ContentHash} (c : IssuedAppend digest)

/-- The event of a checked append verifies. -/
theorem canonical : c.command.event.verifyCanonical digest = .ok () := by
  obtain ⟨input, claimedHash, hnew⟩ := c.event
  exact (RunJournal.new_eq_ok hnew).2.2

/-- The expected sequence of a checked append is positive. -/
theorem sequence_pos : 0 < c.command.expectedNextSequence := by
  obtain ⟨_, _, _, _, _, _, hnew⟩ := c.constructed
  exact Nat.pos_of_ne_zero (AppendJournalEvent.new_eq_ok hnew).1

/-- The event of a checked append carries the expected sequence. -/
theorem sequence_eq : c.command.event.input.sequence = c.command.expectedNextSequence := by
  obtain ⟨_, _, _, _, _, _, hnew⟩ := c.constructed
  exact (AppendJournalEvent.new_eq_ok hnew).2.1

/-- The event of a checked append belongs to the run of the command. -/
theorem runId_eq : c.command.event.input.runId = c.command.runId := by
  obtain ⟨_, _, _, _, _, _, hnew⟩ := c.constructed
  exact (AppendJournalEvent.new_eq_ok hnew).2.2.1

/-- What the fingerprint of the command is the digest of. -/
def preimage : List UInt8 :=
  appendFingerprintBytes c.command.scope c.command.targetOwner c.command.runId
    c.command.expectedNextSequence c.command.event

/-- The fingerprint of a checked append is the hash of its preimage. -/
theorem fingerprint_eq : c.command.fingerprint = digest c.preimage := by
  obtain ⟨_, _, _, _, _, _, hnew⟩ := c.constructed
  exact (AppendJournalEvent.new_eq_ok hnew).2.2.2

/-- The event of an issued append passes the constructor again. -/
theorem new_request : RunJournal.new digest c.command.request.command.input
    c.command.request.command.claimedHash = .ok c.command.event := by
  obtain ⟨input, claimedHash, hnew⟩ := c.event
  obtain ⟨hinput, hhash, -⟩ := RunJournal.new_eq_ok hnew
  show RunJournal.new digest c.command.event.input c.command.event.eventHash = _
  rw [hinput, hhash, hnew]

end IssuedAppend

/-- Two fields of equal length split alike. -/
theorem taggedField_append_inj {tag v v' rest rest' : List UInt8} (hlength : v.length = v'.length)
    (h : taggedField tag v ++ rest = taggedField tag v' ++ rest') : v = v' ∧ rest = rest' := by
  obtain ⟨hfield, hrest⟩ := List.append_inj h (by simp [taggedField, hlength])
  simp only [taggedField, List.append_assoc, hlength, List.append_cancel_left_eq] at hfield
  exact ⟨hfield, hrest⟩

/-- Two owners are written in equally many bytes. -/
theorem length_ownerRefBytes (a b : OwnerRef) :
    (ownerRefBytes a).length = (ownerRefBytes b).length := by
  simp [ownerRefBytes, fingerprintBytes, taggedField, Ulid.length_utf8_text]

/-- Two events are written in equally many bytes. -/
theorem length_journalBytes (a b : RunJournal) :
    (journalBytes a).length = (journalBytes b).length := by
  simp [journalBytes, fingerprintBytes, taggedField, ContentHash.length_eq]

/-- The preimage of a fingerprint determines the position and the hash of the event. -/
theorem IssuedAppend.preimage_inj {digest : List UInt8 → ContentHash} {a b : IssuedAppend digest}
    (ha : a.command.expectedNextSequence < 2 ^ 63) (hb : b.command.expectedNextSequence < 2 ^ 63)
    (h : a.preimage = b.preimage) :
    a.command.runId = b.command.runId ∧
      a.command.expectedNextSequence = b.command.expectedNextSequence ∧
      a.command.event.eventHash = b.command.event.eventHash := by
  -- every field has a fixed length, so the fields are read off one after the other
  simp only [preimage, appendFingerprintBytes, fingerprintBytes, List.flatMap_cons,
    List.flatMap_nil, List.append_nil, List.append_cancel_left_eq] at h
  obtain ⟨-, h⟩ := taggedField_append_inj (by simp [ContentHash.length_eq]) h
  obtain ⟨-, h⟩ := taggedField_append_inj (length_ownerRefBytes _ _) h
  obtain ⟨hrun, h⟩ := taggedField_append_inj (by simp [Ulid.length_utf8_text]) h
  obtain ⟨hsequence, h⟩ := taggedField_append_inj (by simp) h
  rw [← List.append_nil (taggedField _ _),
    ← List.append_nil (taggedField _ (journalBytes b.command.event))] at h
  obtain ⟨hevent, -⟩ := taggedField_append_inj (length_journalBytes _ _) h
  simp only [journalBytes, fingerprintBytes, List.flatMap_cons, List.flatMap_nil,
    List.append_cancel_left_eq] at hevent
  obtain ⟨hhash, -⟩ := taggedField_append_inj (by simp [ContentHash.length_eq]) hevent
  refine ⟨Ulid.text_injective (utf8_inj hrun), bigEndian_inj (by omega) (by omega) hsequence, ?_⟩
  cases ha : a.command.event.eventHash
  cases hb : b.command.event.eventHash
  simpa [ha, hb] using hhash

end Ficant
