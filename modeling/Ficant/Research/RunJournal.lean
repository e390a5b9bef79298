import Ficant.Lib.Bytes
import Ficant.Lib.Except
import Ficant.Primitives

namespace Ficant

open Lib

/-!
# The run journal

The hash-chained events of a run (`ficant-domain/src/research/run_journal.rs`).  SHA-256 is a
third-party package and enters as a function `digest` from bytes to `ContentHash`.

* `RunJournalInput.canonicalBytes` — the preimage of an event's hash, field by field;
* `RunJournal.new` — an event, once its claimed hash is the hash of its fields;
* `RunJournal.validateAfter` — one event may follow another.
-/

/-- `JournalEventType`. -/
inductive JournalEventType
  | runCreated | runStarted | runSucceeded | runFailed | runCancelled | artifactPublished
  | signalSetPublished | nodeStarted | nodeSucceeded | nodeFailed | nodeCheckpointed
  deriving DecidableEq, Repr

/-- `JournalEventType::canonical_code`. -/
def JournalEventType.canonicalCode : JournalEventType → ℕ
  | .runCreated => 1
  | .runStarted => 2
  | .runSucceeded => 3
  | .runFailed => 4
  | .runCancelled => 5
  | .artifactPublished => 6
  | .signalSetPublished => 7
  | .nodeStarted => 8
  | .nodeSucceeded => 9
  | .nodeFailed => 10
  | .nodeCheckpointed => 11

/-- `RunJournalInput`. -/
structure RunJournalInput where
  journalEventId : Ulid
  runId : Ulid
  sequence : ℕ
  eventType : JournalEventType
  occurredAt : MarketTime
  payloadType : String
  payloadSchema : String
  payload : List UInt8
  prevHash : Option ContentHash
  deriving DecidableEq

/-- `append_field`: a tag, the length and the bytes. -/
def appendField (tag : ℕ) (value : List UInt8) : List UInt8 :=
  bigEndian 1 tag ++ bigEndian 8 value.length ++ value

namespace RunJournalInput

/-- chrono's `timestamp`. -/
def timestampSeconds (t : DateTime) : ℤ := t.timestamp

/-- chrono's `timestamp_subsec_nanos`. -/
def subsecNanos (t : DateTime) : ℕ := t.subsecNanos

/-- `RunJournalInput::canonical_bytes`. -/
def canonicalBytes (input : RunJournalInput) : List UInt8 :=
  utf8 "FJRN" ++ bigEndian 2 1 ++
    appendField 1 (utf8 input.journalEventId.text) ++
    appendField 2 (utf8 input.runId.text) ++
    appendField 3 (bigEndian 8 input.sequence) ++
    appendField 4 (bigEndian 1 input.eventType.canonicalCode) ++
    appendField 5 (bigEndian 8 (timestampSeconds input.occurredAt.instant % 2 ^ 64).toNat) ++
    appendField 6 (bigEndian 4 (subsecNanos input.occurredAt.instant)) ++
    appendField 7 (utf8 input.occurredAt.marketTimezone) ++
    appendField 8
      (bigEndian 4 (input.occurredAt.localTradingDate.year % 2 ^ 32).toNat ++
        bigEndian 1 input.occurredAt.localTradingDate.month ++
        bigEndian 1 input.occurredAt.localTradingDate.day) ++
    appendField 9 (utf8 input.payloadType) ++
    appendField 10 (utf8 input.payloadSchema) ++
    appendField 11 input.payload ++
    appendField 12 (writeOptional ContentHash.bytes input.prevHash)

/-- `RunJournalInput::validate`. -/
def validate (input : RunJournalInput) : Except DomainErrorCode Unit :=
  if input.sequence = 0 ∨ (input.sequence = 1 ∧ input.prevHash.isSome) ∨
      (1 < input.sequence ∧ input.prevHash = none) then .error .journalSequenceConflict
  else if !properName input.payloadType || !properName input.payloadSchema ||
      input.payload.isEmpty then .error .invalidValue
  else .ok ()

/-- `RunJournalInput::canonical_hash`. -/
def canonicalHash (digest : List UInt8 → ContentHash) (input : RunJournalInput) :
    Except DomainErrorCode ContentHash := do
  input.validate
  pure (digest input.canonicalBytes)

end RunJournalInput

/-- `RunJournal`: an event and the hash of its fields. -/
structure RunJournal where
  input : RunJournalInput
  eventHash : ContentHash
  deriving DecidableEq

namespace RunJournal

variable (digest : List UInt8 → ContentHash)

/-- `RunJournal::new`. -/
def new (input : RunJournalInput) (claimedHash : ContentHash) :
    Except DomainErrorCode RunJournal := do
  let canonicalHash ← input.canonicalHash digest
  if canonicalHash ≠ claimedHash then .error .contentHashMismatch
  else pure ⟨input, canonicalHash⟩

/-- `RunJournal::verify_canonical`. -/
def verifyCanonical (event : RunJournal) : Except DomainErrorCode Unit := do
  let hash ← event.input.canonicalHash digest
  if hash ≠ event.eventHash then .error .contentHashMismatch else pure ()

/-- `RunJournal::validate_after`. -/
def validateAfter (event previous : RunJournal) : Except DomainErrorCode Unit := do
  event.verifyCanonical digest
  previous.verifyCanonical digest
  if event.input.runId ≠ previous.input.runId ∨
      previous.input.sequence + 1 ≠ event.input.sequence then .error .journalSequenceConflict
  else if event.input.prevHash ≠ some previous.eventHash then .error .contentHashMismatch
  else if event.input.occurredAt.instant < previous.input.occurredAt.instant then
    .error .invalidEffectiveTime
  else pure ()

variable {digest}

/-- An event made by the constructor keeps its fields and has their hash. -/
theorem new_eq_ok {input : RunJournalInput} {claimedHash : ContentHash} {event : RunJournal}
    (h : new digest input claimedHash = .ok event) :
    event.input = input ∧ event.eventHash = claimedHash ∧ event.verifyCanonical digest = .ok () := by
  obtain ⟨hash, hhash, hmake⟩ := bind_eq_ok.mp h
  split at hmake
  · cases hmake
  · rename_i heq
    obtain rfl := not_not.mp heq
    obtain rfl := Except.ok.inj hmake
    refine ⟨rfl, rfl, bind_eq_ok.mpr ⟨hash, hhash, ?_⟩⟩
    simp only [ne_eq, not_true_eq_false, if_false]
    rfl

/-- The hash of a canonical event is the digest of its fields. -/
theorem eventHash_of_verifyCanonical {event : RunJournal}
    (h : event.verifyCanonical digest = .ok ()) :
    event.eventHash = digest event.input.canonicalBytes := by
  obtain ⟨hash, hhash, h⟩ := bind_eq_ok.mp h
  obtain ⟨_, -, hdigest⟩ := bind_eq_ok.mp hhash
  split at h
  · cases h
  · rename_i heq
    rw [← not_not.mp heq]
    exact (Except.ok.inj hdigest).symm

/-- A canonical event with sequence one has no predecessor. -/
theorem prevHash_of_first {event : RunJournal} (h : event.verifyCanonical digest = .ok ())
    (hsequence : event.input.sequence = 1) : event.input.prevHash = none := by
  obtain ⟨_, hhash, -⟩ := bind_eq_ok.mp h
  obtain ⟨_, hvalidate, -⟩ := bind_eq_ok.mp hhash
  rw [RunJournalInput.validate] at hvalidate
  split at hvalidate
  · cases hvalidate
  · rename_i hvalid
    push Not at hvalid
    simpa using hvalid.2.1 hsequence

/-- What an event has that may follow another. -/
theorem of_validateAfter {event previous : RunJournal}
    (h : event.validateAfter digest previous = .ok ()) :
    event.input.prevHash = some previous.eventHash ∧
      previous.input.occurredAt.instant ≤ event.input.occurredAt.instant := by
  obtain ⟨_, -, h⟩ := bind_eq_ok.mp h
  obtain ⟨_, -, h⟩ := bind_eq_ok.mp h
  split at h
  · cases h
  split at h
  · cases h
  rename_i hhash
  split at h
  · cases h
  rename_i htime
  exact ⟨not_not.mp hhash, not_lt.mp htime⟩

/-- The next event of a run may follow the last one. -/
theorem validateAfter_eq_ok {event previous : RunJournal}
    (hevent : event.verifyCanonical digest = .ok ())
    (hprevious : previous.verifyCanonical digest = .ok ())
    (hrun : event.input.runId = previous.input.runId)
    (hsequence : previous.input.sequence + 1 = event.input.sequence)
    (hhash : event.input.prevHash = some previous.eventHash)
    (htime : previous.input.occurredAt.instant ≤ event.input.occurredAt.instant) :
    event.validateAfter digest previous = .ok () := by
  refine bind_eq_ok.mpr ⟨(), hevent, bind_eq_ok.mpr ⟨(), hprevious, ?_⟩⟩
  rw [if_neg (by simp [hrun, hsequence]), if_neg (by simp [hhash]), if_neg (not_lt.mpr htime)]
  rfl

end RunJournal

end Ficant
