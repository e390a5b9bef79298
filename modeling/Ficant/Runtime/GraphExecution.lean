import Ficant.Research.ExperimentRun
import Ficant.Research.ResearchGraph
import Ficant.Research.RunJournal

namespace Ficant

open Lib

/-!
# Replaying a graph execution

What a run's journal says about its graph (`ficant-runtime/src/graph_execution.rs`).

* `GraphNodeEvent` — the payload of a node event, its bytes and their decoding
  (`GraphNodeEvent.decode_encode`: what was written is read back).
* `transition` — the state machine over the events of a run.
* `replayGraphExecution` — checks the hash chain and runs the state machine over the journal.
* `replayEvents_position` — where the replay of a journal stands.
-/

/-- `RuntimeError`. -/
inductive RuntimeError
  | domain (code : DomainErrorCode)
  | idempotencyConflict
  | concurrencyConflict (expected actual : ℕ)
  | runIdentityConflict
  deriving DecidableEq, Repr

/-- `invalid_value`. -/
def invalidValue : RuntimeError := .domain .invalidValue

/-- `invalid_transition`. -/
def invalidTransition : RuntimeError := .domain .invalidStateTransition

/-- `sequence_conflict`. -/
def sequenceConflict : RuntimeError := .domain .journalSequenceConflict

/-! ### Node events -/

/-- `GraphNodeEvent`. -/
structure GraphNodeEvent where
  nodeId : Ulid
  attempt : ℕ
  evidenceHash : Option ContentHash
  positive : 0 < attempt

instance : DecidableEq GraphNodeEvent := fun a b =>
  decidable_of_iff
    (a.nodeId = b.nodeId ∧ a.attempt = b.attempt ∧ a.evidenceHash = b.evidenceHash)
    (by cases a; cases b; simp)

namespace GraphNodeEvent

/-- `PAYLOAD_TYPE`. -/
def payloadType : String := "ficant.graph-node-event"

/-- `PAYLOAD_SCHEMA`. -/
def payloadSchema : String := "ficant.graph-node-event.v1"

/-- `MAGIC`. -/
def magic : List UInt8 := [70, 71, 78, 69]

/-- `GraphNodeEvent::new`. -/
def new (nodeId : Ulid) (attempt : ℕ) (evidenceHash : Option ContentHash) :
    Except DomainErrorCode GraphNodeEvent :=
  if h : attempt = 0 then .error .invalidValue
  else .ok ⟨nodeId, attempt, evidenceHash, Nat.pos_of_ne_zero h⟩

/-- `GraphNodeEvent::encode`. -/
def encode (event : GraphNodeEvent) : List UInt8 :=
  magic ++ bigEndian 2 1 ++ utf8 event.nodeId.text ++ bigEndian 4 event.attempt ++
    writeOptional ContentHash.bytes event.evidenceHash

/-- The kinds of event that carry a node payload, and whether it has evidence. -/
def expectsEvidence : JournalEventType → Option Bool
  | .nodeStarted => some false
  | .nodeSucceeded | .nodeFailed | .nodeCheckpointed => some true
  | _ => none

/-- The evidence at the end of a payload. -/
def decodeEvidence (payload : List UInt8) : Except RuntimeError (Option ContentHash) :=
  if payload.getD 36 0 = 0 ∧ payload.length = 37 then .ok none
  else if payload.getD 36 0 = 1 ∧ payload.length = 69 then
    ((ContentHash.fromBytes ((payload.drop 37).take 32)).map some).mapError .domain
  else .error invalidValue

/-- `GraphNodeEvent::decode`. -/
def decode (event : RunJournal) : Except RuntimeError GraphNodeEvent :=
  let payload := event.input.payload
  if event.input.payloadType ≠ payloadType ∨ event.input.payloadSchema ≠ payloadSchema then
    .error invalidValue
  else if payload.length < 37 ∨ payload.take 4 ≠ magic ∨
      (payload.drop 4).take 2 ≠ bigEndian 2 1 then .error invalidValue
  else do
    let text ← match fromUtf8 ((payload.drop 6).take 26) with
      | none => .error invalidValue
      | some text => .ok text
    let nodeId ← (Ulid.new text).mapError .domain
    let attempt := fromBigEndian ((payload.drop 32).take 4)
    let evidenceHash ← decodeEvidence payload
    let result ← (new nodeId attempt evidenceHash).mapError .domain
    if expectsEvidence event.input.eventType ≠ some result.evidenceHash.isSome then
      .error invalidValue
    else pure result

theorem new_eq_ok {nodeId : Ulid} {attempt : ℕ} {evidenceHash : Option ContentHash}
    {event : GraphNodeEvent} (h : new nodeId attempt evidenceHash = .ok event) :
    event.nodeId = nodeId ∧ event.attempt = attempt ∧ event.evidenceHash = evidenceHash := by
  unfold new at h
  split at h
  · cases h
  · obtain rfl := Except.ok.inj h
    exact ⟨rfl, rfl, rfl⟩

theorem length_encode (event : GraphNodeEvent) :
    event.encode.length = if event.evidenceHash.isSome then 69 else 37 := by
  simp only [encode, List.length_append, Ulid.length_utf8_text, length_bigEndian, magic]
  cases event.evidenceHash with
  | none => rfl
  | some hash => simp [writeOptional, hash.length_eq]

/-- The evidence is read back. -/
theorem decodeEvidence_encode (event : GraphNodeEvent) :
    decodeEvidence event.encode = .ok event.evidenceHash := by
  have hlength := length_encode event
  -- the 36 bytes in front of the evidence
  have hhead : (magic ++ bigEndian 2 1 ++ utf8 event.nodeId.text ++
      bigEndian 4 event.attempt).length = 36 := by
    simp [Ulid.length_utf8_text, magic]
  cases hevidence : event.evidenceHash with
  | none =>
    have hbyte : event.encode.getD 36 0 = 0 := by
      rw [encode, List.getD_append_right _ _ _ _ (by omega), hhead, hevidence]
      rfl
    rw [hevidence] at hlength
    rw [decodeEvidence, if_pos ⟨hbyte, by simpa using hlength⟩]
  | some hash =>
    have hbyte : event.encode.getD 36 0 = 1 := by
      rw [encode, List.getD_append_right _ _ _ _ (by omega), hhead, hevidence]
      rfl
    have htail : (event.encode.drop 37).take 32 = hash.bytes := by
      have hsplit : event.encode = (magic ++ bigEndian 2 1 ++ utf8 event.nodeId.text ++
          bigEndian 4 event.attempt ++ [1]) ++ hash.bytes := by
        simp [encode, hevidence, writeOptional]
      rw [hsplit, List.drop_left' (by rw [List.length_append, hhead]; rfl)]
      exact List.take_of_length_le (le_of_eq hash.length_eq)
    have hsome : ¬(event.encode.getD 36 0 = 0 ∧ event.encode.length = 37) := by
      rintro ⟨hzero, -⟩
      rw [hbyte] at hzero
      cases hzero
    rw [hevidence] at hlength
    rw [decodeEvidence, if_neg hsome, if_pos ⟨hbyte, by simpa using hlength⟩, htail,
      ContentHash.fromBytes, dif_pos hash.length_eq]
    rfl

/-- **Node events round trip.** What `encode` wrote into an event of a fitting kind, `decode`
    reads back. -/
theorem decode_encode {event : RunJournal} {payload : GraphNodeEvent}
    (htype : event.input.payloadType = payloadType)
    (hschema : event.input.payloadSchema = payloadSchema)
    (hpayload : event.input.payload = payload.encode) (hfits : payload.attempt < 2 ^ 32)
    (hkind : expectsEvidence event.input.eventType = some payload.evidenceHash.isSome) :
    decode event = .ok payload := by
  have hlength : ¬payload.encode.length < 37 := by
    rw [length_encode]
    split <;> omega
  have hmagic : payload.encode.take 4 = magic := by
    simp [encode, magic]
  have hversion : (payload.encode.drop 4).take 2 = bigEndian 2 1 := by
    simp [encode, magic, bigEndian]
  -- The node identity always takes 26 bytes, so every field stands at a fixed place.
  have htext : (payload.encode.drop 6).take 26 = utf8 payload.nodeId.text := by
    have hsplit : payload.encode = (magic ++ bigEndian 2 1) ++ (utf8 payload.nodeId.text ++
        (bigEndian 4 payload.attempt ++ writeOptional ContentHash.bytes payload.evidenceHash)) := by
      simp [encode]
    rw [hsplit, List.drop_left' (by simp [magic]), List.take_left' (Ulid.length_utf8_text _)]
  have hattempt : (payload.encode.drop 32).take 4 = bigEndian 4 payload.attempt := by
    have hsplit : payload.encode = (magic ++ bigEndian 2 1 ++ utf8 payload.nodeId.text) ++
        (bigEndian 4 payload.attempt ++ writeOptional ContentHash.bytes payload.evidenceHash) := by
      simp [encode]
    rw [hsplit, List.drop_left' (by simp [magic, Ulid.length_utf8_text]),
      List.take_left' (length_bigEndian _ _)]
  have hnew : new payload.nodeId payload.attempt payload.evidenceHash = .ok payload := by
    rw [new, dif_neg payload.positive.ne']
  unfold decode
  simp only [htype, hschema, hpayload, hlength, hmagic, hversion, htext, hattempt, fromUtf8_utf8,
    fromBigEndian_bigEndian (show payload.attempt < 256 ^ 4 by omega), ne_eq, not_true_eq_false,
    or_self, if_false]
  simp only [bind, Except.bind, Ulid.new_text, decodeEvidence_encode, Except.mapError, hnew, hkind,
    not_true_eq_false, if_false]
  rfl

end GraphNodeEvent

/-! ### The state machine -/

/-- `GraphCheckpoint`. -/
structure GraphCheckpoint where
  nodeId : Ulid
  attempt : ℕ
  outputHash : ContentHash
  journalSequence : ℕ
  journalHash : ContentHash
  deriving DecidableEq

/-- `Phase`. -/
inductive Phase
  | initial
  | created
  | ready (index : ℕ)
  | active (index attempt : ℕ)
  | awaitingCheckpoint (index attempt : ℕ) (outputHash : ContentHash)
  | nodeFailed
  | terminal (state : RunState)
  deriving DecidableEq

/-- What the replay has gathered: the phase, the completed nodes and the last checkpoint. -/
structure Progress where
  phase : Phase
  completedNodes : List Ulid
  lastCheckpoint : Option GraphCheckpoint
  deriving DecidableEq

/-- `require_node_identity`. -/
def requireNodeIdentity (payload : GraphNodeEvent) (order : List Ulid) (index : ℕ) :
    Except RuntimeError Unit :=
  if order[index]? ≠ some payload.nodeId then .error invalidTransition else .ok ()

/-- `require_node`. -/
def requireNode (payload : GraphNodeEvent) (order : List Ulid) (index attempt : ℕ) :
    Except RuntimeError Unit :=
  if order[index]? ≠ some payload.nodeId ∨ payload.attempt ≠ attempt then .error invalidTransition
  else .ok ()

/-- A later attempt of a node that was started before. -/
def restart (progress : Progress) (event : RunJournal) (order : List Ulid) (index attempt : ℕ) :
    Except RuntimeError Progress := do
  let payload ← GraphNodeEvent.decode event
  requireNodeIdentity payload order index
  if payload.attempt ≤ attempt then .error invalidTransition
  else pure { progress with phase := .active index payload.attempt }

/-- The node is complete and its checkpoint recorded; the next node is up. -/
def checkpoint (progress : Progress) (event : RunJournal) (nodeId : Ulid) (index attempt : ℕ)
    (outputHash : ContentHash) : Progress where
  phase := .ready (index + 1)
  completedNodes := progress.completedNodes ++ [nodeId]
  lastCheckpoint := some
    { nodeId, attempt, outputHash
      journalSequence := event.input.sequence
      journalHash := event.eventHash }

/-- `transition`. -/
def transition (order : List Ulid) (progress : Progress) (event : RunJournal) :
    Except RuntimeError Progress :=
  match progress.phase, event.input.eventType with
  | .initial, .runCreated => .ok { progress with phase := .created }
  | .created, .runStarted => .ok { progress with phase := .ready 0 }
  | .ready index, .nodeStarted => do
    let payload ← GraphNodeEvent.decode event
    requireNodeIdentity payload order index
    pure { progress with phase := .active index payload.attempt }
  | .active index attempt, .nodeStarted => restart progress event order index attempt
  | .awaitingCheckpoint index attempt _, .nodeStarted => restart progress event order index attempt
  | .active index attempt, .nodeSucceeded => do
    let payload ← GraphNodeEvent.decode event
    requireNode payload order index attempt
    match payload.evidenceHash with
    | none => .error invalidValue
    | some outputHash =>
      pure { progress with phase := .awaitingCheckpoint index attempt outputHash }
  | .awaitingCheckpoint index attempt outputHash, .nodeCheckpointed => do
    let payload ← GraphNodeEvent.decode event
    requireNode payload order index attempt
    if payload.evidenceHash ≠ some outputHash then .error invalidValue
    else
      match order[index]? with
      | none => .error invalidTransition
      | some nodeId => pure (checkpoint progress event nodeId index attempt outputHash)
  | .active index attempt, .nodeFailed => do
    let payload ← GraphNodeEvent.decode event
    requireNode payload order index attempt
    pure { progress with phase := .nodeFailed }
  | .ready index, .runSucceeded =>
    if index = order.length then .ok { progress with phase := .terminal .succeeded }
    else .error invalidTransition
  | .nodeFailed, .runFailed => .ok { progress with phase := .terminal .failed }
  | .ready _, .runCancelled | .active _ _, .runCancelled | .awaitingCheckpoint _ _ _, .runCancelled =>
    .ok { progress with phase := .terminal .cancelled }
  | _, _ => .error invalidTransition

/-! ### The replay -/

/-- `verify_journal_position`: the event is canonical, belongs to the run, stands at its index and
    follows the previous event. -/
def verifyJournalPosition (digest : List UInt8 → ContentHash) (event : RunJournal)
    (previous : Option RunJournal) (runId : Ulid) (index : ℕ) : Except RuntimeError Unit := do
  (event.verifyCanonical digest).mapError .domain
  if event.input.runId ≠ runId then .error .runIdentityConflict
  else if event.input.sequence ≠ index + 1 then .error sequenceConflict
  else
    match previous with
    | none => pure ()
    | some previous => (event.validateAfter digest previous).mapError .domain

/-- The loop state of the replay. -/
structure ReplayCursor where
  progress : Progress
  previous : Option RunJournal
  index : ℕ

/-- One round of the replay's loop. -/
def replayEvent (digest : List UInt8 → ContentHash) (order : List Ulid) (runId : Ulid)
    (cursor : ReplayCursor) (event : RunJournal) : Except RuntimeError ReplayCursor := do
  verifyJournalPosition digest event cursor.previous runId cursor.index
  let progress ← transition order cursor.progress event
  pure ⟨progress, some event, cursor.index + 1⟩

/-- The loop of the replay. -/
def replayEvents (digest : List UInt8 → ContentHash) (order : List Ulid) (runId : Ulid)
    (events : List RunJournal) : Except RuntimeError ReplayCursor :=
  events.foldlM (replayEvent digest order runId) ⟨⟨.initial, [], none⟩, none, 0⟩

/-- `GraphReplayResult`. -/
structure GraphReplayResult where
  runId : Ulid
  runState : RunState
  completedNodes : List Ulid
  resumeNode : Option Ulid
  lastCheckpoint : Option GraphCheckpoint
  eventCount : ℕ
  deriving DecidableEq

/-- The state of the run and the node to resume at, in each phase. -/
def Phase.outcome (order : List Ulid) : Phase → Except RuntimeError (RunState × Option Ulid)
  | .initial => .error invalidTransition
  | .created => .ok (.created, none)
  | .ready index => .ok (.running, order[index]?)
  | .active index _ => .ok (.running, order[index]?)
  | .awaitingCheckpoint index _ _ => .ok (.running, order[index]?)
  | .nodeFailed => .ok (.running, none)
  | .terminal state => .ok (state, none)

/-- `replay_graph_execution`. -/
def replayGraphExecution (digest : List UInt8 → ContentHash) (graph : ResearchGraph)
    (events : List RunJournal) : Except RuntimeError GraphReplayResult :=
  match events with
  | [] => .error invalidTransition
  | first :: _ => do
    let runId := first.input.runId
    let cursor ← replayEvents digest graph.topologicalOrder runId events
    let (runState, resumeNode) ← cursor.progress.phase.outcome graph.topologicalOrder
    pure
      { runId, runState, resumeNode
        completedNodes := cursor.progress.completedNodes
        lastCheckpoint := cursor.progress.lastCheckpoint
        eventCount := events.length }

section Replay

variable {digest : List UInt8 → ContentHash} {order : List Ulid} {runId : Ulid}

/-- What one round checks and does. -/
theorem replayEvent_eq_ok {cursor out : ReplayCursor} {event : RunJournal}
    (h : replayEvent digest order runId cursor event = .ok out) :
    verifyJournalPosition digest event cursor.previous runId cursor.index = .ok () ∧
      transition order cursor.progress event = .ok out.progress ∧
      out.previous = some event ∧ out.index = cursor.index + 1 := by
  obtain ⟨_, hposition, h⟩ := bind_eq_ok.mp h
  obtain ⟨progress, hprogress, h⟩ := bind_eq_ok.mp h
  obtain rfl := Except.ok.inj h
  exact ⟨hposition, hprogress, rfl, rfl⟩

/-- A journal that replays, replays up to each of its events. -/
theorem replayEvents_append {events later : List RunJournal} {cursor : ReplayCursor}
    (h : replayEvents digest order runId (events ++ later) = .ok cursor) :
    ∃ middle, replayEvents digest order runId events = .ok middle ∧
      later.foldlM (replayEvent digest order runId) middle = .ok cursor := by
  rw [replayEvents, List.foldlM_append] at h
  exact bind_eq_ok.mp h

theorem verifyJournalPosition_eq_ok {event : RunJournal} {previous : Option RunJournal} {index : ℕ}
    (h : verifyJournalPosition digest event previous runId index = .ok ()) :
    event.verifyCanonical digest = .ok () ∧ event.input.runId = runId ∧
      event.input.sequence = index + 1 := by
  obtain ⟨_, hcanonical, h⟩ := bind_eq_ok.mp h
  refine ⟨mapError_eq_ok.mp hcanonical, ?_⟩
  split at h
  · cases h
  rename_i hrun
  split at h
  · cases h
  rename_i hsequence
  exact ⟨not_not.mp hrun, not_not.mp hsequence⟩

/-- Where the replay of a journal stands: after all of it, behind its last event, which is
    canonical and has the run's identifier. -/
theorem replayEvents_position {events : List RunJournal} {cursor : ReplayCursor}
    (h : replayEvents digest order runId events = .ok cursor) :
    cursor.index = events.length ∧ cursor.previous = events.getLast? ∧
      ∀ event ∈ events.getLast?, event.verifyCanonical digest = .ok () ∧
        event.input.runId = runId ∧ event.input.sequence = events.length := by
  induction events using List.reverseRecOn generalizing cursor with
  | nil =>
    obtain rfl := Except.ok.inj h
    exact ⟨rfl, rfl, by simp⟩
  | append_singleton events event ih =>
    obtain ⟨middle, hmiddle, h⟩ := replayEvents_append h
    rw [List.foldlM_cons] at h
    obtain ⟨out, hout, h⟩ := bind_eq_ok.mp h
    obtain rfl := Except.ok.inj h
    obtain ⟨hposition, -, hprevious, hindex⟩ := replayEvent_eq_ok hout
    obtain ⟨hcanonical, hrun, hsequence⟩ := verifyJournalPosition_eq_ok hposition
    have hlength := (ih hmiddle).1
    refine ⟨by simp [hindex, hlength], by simp [hprevious], ?_⟩
    intro last hlast
    rw [List.getLast?_concat, Option.mem_some_iff] at hlast
    subst hlast
    exact ⟨hcanonical, hrun, by simp [hsequence, hlength]⟩

end Replay

end Ficant
