import Ficant.Storage.DefinitionPayload

namespace Ficant.Payload

open Lib

/-!
# Stored records of runs

The payloads of what a run leaves behind (`ficant-storage/src/postgres/codec.rs`): the run itself, its
artifacts and signal sets, the events of its journal, and the curves it was made with.

* `encodeRun`, `decodeRun` — a run is stored with its state and its revision; the decoder makes a
  new run and moves it through its states until it has that revision (`replayRevisions`);
* `encodeArtifact`, `encodeSignal`, `encodeJournal`, `encodeCurveSnapshot` and their decoders;
* `record_payload_exact` — every record comes back, and what the decoders accept is a run that could
  have been made and an event that has its own hash.

Where the source looks for the end before it calls a constructor, the constructor is behind
`decodePayload`.
-/

/-! ### Codes -/

/-- `run_state_code`. -/
def runStateCode : RunState → ℕ
  | .created => 1
  | .running => 2
  | .succeeded => 3
  | .failed => 4
  | .cancelled => 5

/-- `decode_run_state`. -/
def runStateOfCode : ℕ → Option RunState
  | 1 => some .created
  | 2 => some .running
  | 3 => some .succeeded
  | 4 => some .failed
  | 5 => some .cancelled
  | _ => none

/-- `artifact_kind_code`. -/
def artifactKindCode : ArtifactKind → ℕ
  | .generic => 1
  | .signalSet => 5

/-- `decode_artifact_kind`. -/
def artifactKindOfCode : ℕ → Option ArtifactKind
  | 1 => some .generic
  | 5 => some .signalSet
  | _ => none

/-- `journal_event_type_code`. -/
def journalEventTypeCode : JournalEventType → ℕ
  | .runCreated => 1
  | .runStarted => 2
  | .runSucceeded => 3
  | .runFailed => 4
  | .runCancelled => 5
  | .artifactPublished => 6
  | .signalSetPublished => 7
  | .nodeStarted => 8
  | .nodeSucceeded => 9
  | .nodeFailed => 10
  | .nodeCheckpointed => 11

/-- `decode_journal_event_type`. -/
def journalEventTypeOfCode : ℕ → Option JournalEventType
  | 1 => some .runCreated
  | 2 => some .runStarted
  | 3 => some .runSucceeded
  | 4 => some .runFailed
  | 5 => some .runCancelled
  | 6 => some .artifactPublished
  | 7 => some .signalSetPublished
  | 8 => some .nodeStarted
  | 9 => some .nodeSucceeded
  | 10 => some .nodeFailed
  | 11 => some .nodeCheckpointed
  | _ => none

/-! ### The encoders -/

/-- `encode_run`. -/
def encodeRun (value : ExperimentRun) : List UInt8 :=
  header ++ (prefixedText value.experimentRunId.text ++ (encodeOwner value.owner ++
    (encodeLineageRef value.dataSnapshot ++ (encodeLineageRef value.universeSnapshot ++
    (writeList encodeVersionRef value.rulePacks ++ (encodeHash value.runtimeImageDigest ++
    (encodeHash value.parametersHash ++ (bigEndian 8 value.seed ++
    (encodeCode (runStateCode value.state) ++ bigEndian 8 value.revision)))))))))

/-- `encode_artifact`. -/
def encodeArtifact (value : Artifact) : List UInt8 :=
  header ++ (prefixedText value.artifactId.text ++ (encodeOwner value.owner ++
    (encodeCode (artifactKindCode value.kind) ++ (prefixedText value.mediaType ++
    (encodeHash value.contentHash ++ (bigEndian 8 value.blobSize ++ encodeLineage value.lineage))))))

/-- `encode_signal`. -/
def encodeSignal (value : SignalSet) : List UInt8 :=
  let i := value.input
  header ++ (prefixedText i.signalSetId.text ++ (encodeOwner i.owner ++
    (encodeLineageRef i.artifact ++ (prefixedText i.experimentRunId.text ++
    (encodeLineageRef i.dataSnapshot ++ (encodeLineageRef i.universeSnapshot ++
    (writeList encodeVersionRef i.rulePacks ++ (encodeLineage i.inputArtifacts ++
    encodePeriod i.valid))))))))

/-- `encode_journal`. -/
def encodeJournal (value : RunJournal) : List UInt8 :=
  let i := value.input
  header ++ (prefixedText i.journalEventId.text ++ (prefixedText i.runId.text ++
    (bigEndian 8 i.sequence ++ (encodeCode (journalEventTypeCode i.eventType) ++
    (encodeMarketTime i.occurredAt ++ (prefixedText i.payloadType ++
    (prefixedText i.payloadSchema ++ (encodeBytes i.payload ++ (encodeOptionalHash i.prevHash ++
    encodeHash value.eventHash)))))))))

/-- The time of knowledge of a curve: nothing where there is none. -/
def encodeKnowledge : Option KnowledgeTime → List UInt8
  | some knowledge =>
    encodeBool true ++ (encodeMarketTime knowledge.visibleAt ++ prefixedText knowledge.curveFamilyId)
  | none => []

/-- `encode_curve_snapshot`. -/
def encodeCurveSnapshot (value : CurveSnapshot) : List UInt8 :=
  let i := value.input
  header ++ (prefixedText i.curveSnapshotId.text ++ (encodeOwner i.owner ++
    (encodeMarketTime i.asOf ++ (encodeUnitRef i.currency ++ (prefixedText i.curveKind ++
    (encodeVersionRef i.calendar ++ (encodeVersionRef i.rulePack ++ (prefixedText i.pointSchema ++
    (encodeHash i.contentHash ++ (encodeLineage i.lineage ++ (encodeCode 1 ++
    encodeKnowledge value.knowledge)))))))))))

/-! ### The decoders -/

/-- What a run is stored as. -/
structure StoredRun where
  input : ExperimentRunInput
  state : RunState
  revision : ℕ

/-- The fields of `decode_run`. -/
def decodeRunFields : PayloadReader StoredRun := do
  let experimentRunId ← decodeUlid
  let owner ← decodeOwner
  let dataSnapshot ← decodeLineageRef
  let universeSnapshot ← decodeLineageRef
  let rulePacks ← list decodeVersionRef
  let runtimeImageDigest ← decodeHash
  let parametersHash ← decodeHash
  let seed ← u64
  let state ← coded runStateOfCode
  let revision ← u64
  pure ⟨⟨experimentRunId, owner, dataSnapshot, universeSnapshot, rulePacks, runtimeImageDigest,
    parametersHash, seed⟩, state, revision⟩

/-- The loop of `decode_run`: the last change is to the stored state, the ones before are to
    running. -/
def replayRevisions (state : RunState) (revision : ℕ) (value : ExperimentRun) :
    Except DomainErrorCode ExperimentRun :=
  if hlt : value.revision < revision then
    match h : value.transition (if value.revision + 1 = revision then state else .running)
        value.revision with
    | .ok next =>
      have : revision - next.revision < revision - value.revision := by
        obtain ⟨-, rfl⟩ := ExperimentRun.transition_eq_ok h
        show revision - (value.revision + 1) < _
        omega
      replayRevisions state revision next
    | .error error => .error error
  else .ok value
termination_by revision - value.revision

/-- The run that its fields stand for. -/
def rebuildRun (stored : StoredRun) : Except ApplicationError ExperimentRun := do
  let created ← (ExperimentRun.new stored.input).mapError mapDomainError
  let value ← (replayRevisions stored.state stored.revision created).mapError mapDomainError
  if value.state ≠ stored.state ∨ value.revision ≠ stored.revision then .error codecError
  else .ok value

/-- `decode_run`. -/
def decodeRun (payload : List UInt8) : Option (Except (Failure ApplicationError) ExperimentRun) :=
  decodeThen decodeRunFields rebuildRun payload

/-- `decode_artifact`. -/
def decodeArtifact (payload : List UInt8) : Option (Except (Failure ApplicationError) Artifact) :=
  decodePayload (do
    let artifactId ← decodeUlid
    let owner ← decodeOwner
    let kind ← coded artifactKindOfCode
    let mediaType ← string
    let contentHash ← decodeHash
    let blobSize ← u64
    let lineage ← decodeLineage
    construct (Artifact.new artifactId owner kind mediaType contentHash blobSize lineage)) payload

section Timed

variable (zones : ZoneTable) (texts : TextParsers) (digest : List UInt8 → ContentHash)

/-- The fields of `decode_signal`. -/
def decodeSignalFields : PayloadReader SignalSetInput := do
  let signalSetId ← decodeUlid
  let owner ← decodeOwner
  let artifact ← decodeLineageRef
  let experimentRunId ← decodeUlid
  let dataSnapshot ← decodeLineageRef
  let universeSnapshot ← decodeLineageRef
  let rulePacks ← list decodeVersionRef
  let inputArtifacts ← decodeLineage
  let valid ← decodePeriod zones texts
  pure ⟨signalSetId, owner, artifact, experimentRunId, dataSnapshot, universeSnapshot, rulePacks,
    inputArtifacts, valid⟩

/-- `decode_signal`. -/
def decodeSignal (payload : List UInt8) : Option (Except (Failure ApplicationError) SignalSet) :=
  decodeThen (decodeSignalFields zones texts)
    (fun input => (SignalSet.new input).mapError mapDomainError) payload

/-- The fields of `decode_journal`, with the hash that is claimed. -/
def decodeJournalFields : PayloadReader (RunJournalInput × ContentHash) := do
  let journalEventId ← decodeUlid
  let runId ← decodeUlid
  let sequence ← u64
  let eventType ← coded journalEventTypeOfCode
  let occurredAt ← decodeMarketTime zones texts
  let payloadType ← string
  let payloadSchema ← string
  let payload ← bytes
  let prevHash ← decodeOptionalHash
  let claimedHash ← decodeHash
  pure (⟨journalEventId, runId, sequence, eventType, occurredAt, payloadType, payloadSchema, payload,
    prevHash⟩, claimedHash)

/-- `decode_journal`. -/
def decodeJournal (payload : List UInt8) : Option (Except (Failure ApplicationError) RunJournal) :=
  decodeThen (decodeJournalFields zones texts)
    (fun event => (RunJournal.new digest event.1 event.2).mapError mapDomainError) payload

/-- The fields of a curve that every one has. -/
def decodeCurveInput : PayloadReader CurveSnapshotInput := do
  let curveSnapshotId ← decodeUlid
  let owner ← decodeOwner
  let asOf ← decodeMarketTime zones texts
  let currency ← decodeUnitRef
  let curveKind ← string
  let calendar ← decodeVersionRef
  let rulePack ← decodeVersionRef
  let pointSchema ← string
  let contentHash ← decodeHash
  let lineage ← decodeLineage
  let inputKind ← coded fun code => if code = 1 then some ArtifactInputKind.externalFixture else none
  pure ⟨curveSnapshotId, owner, asOf, currency, curveKind, calendar, rulePack, pointSchema,
    contentHash, lineage, inputKind⟩

/-- The time of knowledge that may follow a curve. -/
def decodeKnowledge (curve : CurveSnapshot) : PayloadReader CurveSnapshot := do
  let ended ← atEnd
  if ended then pure curve
  else do
    let present ← bool
    if present then do
      let visibleAt ← decodeMarketTime zones texts
      let curveFamilyId ← string
      construct (curve.withKnowledgeTime visibleAt curveFamilyId)
    else Reader.fail ↑codecError

/-- `decode_curve_snapshot`. -/
def decodeCurveSnapshot (payload : List UInt8) :
    Option (Except (Failure ApplicationError) CurveSnapshot) :=
  decodePayload (do
    let input ← decodeCurveInput zones texts
    let curve ← construct (CurveSnapshot.new input)
    decodeKnowledge zones texts curve) payload

end Timed

/-! ### The states of a run -/

/-- A step of the loop. -/
theorem replayRevisions_step {state : RunState} {revision : ℕ} {value next : ExperimentRun}
    (hlt : value.revision < revision)
    (h : value.transition (if value.revision + 1 = revision then state else .running)
      value.revision = .ok next) :
    replayRevisions state revision value = replayRevisions state revision next := by
  rw [replayRevisions, dif_pos hlt]
  split
  · rename_i other hother
    rw [h] at hother
    rw [Except.ok.inj hother]
  · rename_i error herror
    rw [h] at herror
    cases herror

/-- The end of the loop. -/
theorem replayRevisions_done {state : RunState} {revision : ℕ} {value : ExperimentRun}
    (h : ¬ value.revision < revision) : replayRevisions state revision value = .ok value := by
  rw [replayRevisions, dif_neg h]

/-- The loop makes transitions only. -/
theorem replayRevisions_built {state : RunState} {revision : ℕ} {value out : ExperimentRun}
    (hvalue : value.Built) (h : replayRevisions state revision value = .ok out) : out.Built := by
  -- By induction on the revisions that are still to be replayed.
  generalize hleft : revision - value.revision = left
  induction left using Nat.strong_induction_on generalizing value with
  | _ left ih =>
    by_cases hlt : value.revision < revision
    · cases hnext : value.transition (if value.revision + 1 = revision then state else .running)
          value.revision with
      | ok next =>
        rw [replayRevisions_step hlt hnext] at h
        obtain ⟨-, hfields⟩ := ExperimentRun.transition_eq_ok hnext
        have hrevision : next.revision = value.revision + 1 := by rw [hfields]
        exact ih _ (by omega) (.transition hvalue hnext) h rfl
      | error error =>
        rw [replayRevisions, dif_pos hlt] at h
        split at h
        · rename_i next hok
          rw [hnext] at hok
          cases hok
        · cases h
    · rw [replayRevisions_done hlt] at h
      obtain rfl := Except.ok.inj h
      exact hvalue

/-- A change of state that is allowed, at a small revision. -/
theorem transition_of_allowed {run : ExperimentRun} {next : RunState}
    (h : ExperimentRun.allowed run.state next = true) (hsmall : run.revision < 3) :
    run.transition next run.revision =
    .ok { run with state := next, revision := run.revision + 1 } := by
  unfold ExperimentRun.transition
  rw [if_neg (not_not.mpr rfl), h]
  simp only [Bool.not_true, Bool.false_eq_true, if_false]
  rw [if_neg (by omega)]

/-- The fields of a run when it was new. -/
def runInput (run : ExperimentRun) : ExperimentRunInput where
  experimentRunId := run.experimentRunId
  owner := run.owner
  dataSnapshot := run.dataSnapshot
  universeSnapshot := run.universeSnapshot
  rulePacks := run.rulePacks
  runtimeImageDigest := run.runtimeImageDigest
  parametersHash := run.parametersHash
  seed := run.seed

/-- A run that was built is built again of its fields: the revision says how many changes there
    were. -/
theorem rebuildRun_eq {run : ExperimentRun} (h : run.WellFormed) :
    rebuildRun ⟨runInput run, run.state, run.revision⟩ = .ok run := by
  obtain ⟨hlineage, hruled, -, hrevision⟩ := h
  have hnew : ExperimentRun.new (runInput run) =
    .ok { run with state := .created, revision := 1 } := by
    unfold ExperimentRun.new runInput
    rw [if_neg hruled, hlineage]
  -- the first change is to running: the last one where the run is running now
  have hfirst : run.state ≠ .created → (2 = run.revision → run.state = .running) → 1 < run.revision →
      replayRevisions run.state run.revision { run with state := .created, revision := 1 } =
        replayRevisions run.state run.revision { run with state := .running, revision := 2 } := by
    intro _ hrunning hlt
    apply replayRevisions_step hlt
    have hnext : (if (1 : ℕ) + 1 = run.revision then run.state else .running) = .running := by
      by_cases h : (1 : ℕ) + 1 = run.revision
      · rw [if_pos h, hrunning h]
      · rw [if_neg h]
    show ExperimentRun.transition _ (if (1 : ℕ) + 1 = run.revision then run.state else .running) 1 = _
    rw [hnext]
    rfl
  -- the second one is to the end
  have hend : ExperimentRun.allowed .running run.state = true → run.revision = 3 →
      replayRevisions run.state run.revision { run with state := .created, revision := 1 } =
        .ok run := by
    intro hallowed hthree
    rw [hfirst (by rintro h; rw [h] at hallowed; cases hallowed) (by omega) (by omega), hthree]
    have hstep := @transition_of_allowed { run with state := .running, revision := 2 } run.state
      hallowed (by simp)
    rw [replayRevisions_step (by simp) hstep, replayRevisions_done (by simp)]
    show Except.ok { run with revision := 3 } = _
    rw [← hthree]
  have hreplay : replayRevisions run.state run.revision
      { run with state := .created, revision := 1 } = .ok run := by
    cases hstate : run.state with
    | created =>
      have hone : run.revision = 1 := by rw [hrevision, hstate]
      rw [replayRevisions_done (by simp [hone]), ← hstate, ← hone]
    | running =>
      have htwo : run.revision = 2 := by rw [hrevision, hstate]
      rw [← hstate, hfirst (by simp [hstate]) (fun _ => hstate) (by omega)]
      rw [replayRevisions_done (by simp [htwo]), ← hstate, ← htwo]
    | succeeded =>
      rw [← hstate]
      exact hend (by rw [hstate]; rfl) (by rw [hrevision, hstate])
    | failed =>
      rw [← hstate]
      exact hend (by rw [hstate]; rfl) (by rw [hrevision, hstate])
    | cancelled =>
      rw [← hstate]
      exact hend (by rw [hstate]; rfl) (by rw [hrevision, hstate])
  unfold rebuildRun
  refine bind_eq_ok.mpr ⟨_, mapError_eq_ok.mpr hnew, ?_⟩
  refine bind_eq_ok.mpr ⟨_, mapError_eq_ok.mpr hreplay, ?_⟩
  simp

/-- What is rebuilt was built, and has the stored state and revision. -/
theorem rebuildRun_eq_ok {stored : StoredRun} {run : ExperimentRun}
    (hseed : stored.input.seed < 2 ^ 64) (h : rebuildRun stored = .ok run) :
    run.Built ∧ run.state = stored.state ∧ run.revision = stored.revision := by
  obtain ⟨created, hnew, h⟩ := bind_eq_ok.mp h
  obtain ⟨value, hreplay, h⟩ := bind_eq_ok.mp h
  rw [mapError_eq_ok] at hnew hreplay
  by_cases hbad : value.state ≠ stored.state ∨ value.revision ≠ stored.revision
  · rw [if_pos hbad] at h
    cases h
  · rw [if_neg hbad] at h
    obtain rfl := Except.ok.inj h
    push Not at hbad
    exact ⟨replayRevisions_built (.new hseed hnew) hreplay, hbad⟩

/-! ### Reading back -/

section Reading

open Reader

/-- The references of a run. -/
def runReferences (run : ExperimentRun) : List LineageRef := [run.dataSnapshot, run.universeSnapshot]

/-- The references of a signal set. -/
def signalReferences (signal : SignalSet) : List LineageRef :=
  [signal.input.artifact, signal.input.dataSnapshot, signal.input.universeSnapshot] ++
    signal.input.inputArtifacts

/-- The times of a curve. -/
def curveTimes (curve : CurveSnapshot) : List MarketTime :=
  curve.input.asOf :: (curve.knowledge.map KnowledgeTime.visibleAt).toList

/-- References are read back from their list. -/
theorem reads_versionRefs (values : List VersionRef) :
    Reads (list decodeVersionRef) (writeList encodeVersionRef values) values :=
  reads_list_self encodeVersionRef_ne_nil fun value _ => codec_faithful.versionRef value

/-- The constructor, behind the end of the payload. -/
theorem decodeThen_encode {α β : Type} {read : PayloadReader α} {written : List UInt8} {a : α} {b : β}
    {build : α → Except ApplicationError β} (h : Reads read written a) (hbuild : build a = .ok b)
    (hlength : (header ++ written).length < 2 ^ 64) :
    decodeThen read build (header ++ written) = some (.ok b) := by
  unfold decodeThen
  rw [decodePayload_encode h.all hlength, Option.map_some]
  exact congrArg some (mapError_eq_ok.mpr hbuild)

/-- **A run is read back from its payload.** -/
theorem decodeRun_encode {run : ExperimentRun} (hrun : run.Built)
    (hreferences : ∀ reference ∈ runReferences run, reference.Exact)
    (hlength : (encodeRun run).length < 2 ^ 64) : decodeRun (encodeRun run) = some (.ok run) := by
  have hwell := hrun.wellFormed
  have hstate : Reads (coded runStateOfCode) (encodeCode (runStateCode run.state)) run.state := by
    cases run.state <;> exact reads_coded (by decide) rfl
  have hrevision : run.revision < 2 ^ 64 := by
    have := hwell.revision_eq
    split at this <;> omega
  have hread : Reads decodeRunFields _ ⟨runInput run, run.state, run.revision⟩ :=
    (codec_faithful.ulid _).bind ((codec_faithful.owner _).bind
      ((reads_lineageRef (hreferences run.dataSnapshot (by simp [runReferences]))).bind
      ((reads_lineageRef (hreferences run.universeSnapshot (by simp [runReferences]))).bind
      ((reads_versionRefs _).bind ((codec_faithful.hash _).bind ((codec_faithful.hash _).bind
      ((reads_u64 _ hwell.seed_fits).bind (hstate.bind
      ((reads_u64 _ hrevision).thenPure (reads_pure _))))))))))
  exact decodeThen_encode hread (rebuildRun_eq hwell) hlength

/-- **An artifact is read back from its payload.** -/
theorem decodeArtifact_encode {artifact : Artifact}
    (hreferences : ∀ reference ∈ artifact.lineage, reference.Exact)
    (hlength : (encodeArtifact artifact).length < 2 ^ 64) :
    decodeArtifact (encodeArtifact artifact) = some (.ok artifact) := by
  have hkind : Reads (coded artifactKindOfCode) (encodeCode (artifactKindCode artifact.kind))
      artifact.kind := by
    cases artifact.kind <;> exact reads_coded (by decide) rfl
  have hnew : Artifact.new artifact.artifactId artifact.owner artifact.kind artifact.mediaType
      artifact.contentHash artifact.blobSize artifact.lineage = .ok artifact := by
    unfold Artifact.new
    rw [dif_pos ⟨artifact.media_proper, artifact.positive, artifact.fits⟩, dif_pos artifact.traced]
  refine decodePayload_encode (Reads.all ?_) hlength
  exact (codec_faithful.ulid _).bind ((codec_faithful.owner _).bind (hkind.bind ((reads_string _).bind
    ((codec_faithful.hash _).bind ((reads_u64 _ artifact.fits).bind
    ((reads_lineage hreferences).thenPure (reads_construct hnew)))))))

variable {zones : ZoneTable} {texts : TextParsers} {digest : List UInt8 → ContentHash}

/-- **A signal set is read back from its payload.** -/
theorem decodeSignal_encode (htexts : texts.ReadsBack) {signal : SignalSet}
    (hreferences : ∀ reference ∈ signalReferences signal, reference.Exact)
    (hfrom : StoredTime zones signal.input.valid.from_)
    (hto : StoredTime zones signal.input.valid.to_)
    (hlength : (encodeSignal signal).length < 2 ^ 64) :
    decodeSignal zones texts (encodeSignal signal) = some (.ok signal) := by
  have hnew : SignalSet.new signal.input = .ok signal := by
    unfold SignalSet.new
    split
    · rfl
    · rename_i error herror
      exact absurd (signal.valid.symm.trans herror) (by simp)
  -- Every reference of the signal keeps its version or its hash.
  have hexact : ∀ reference, reference = signal.input.artifact ∨
      reference = signal.input.dataSnapshot ∨ reference = signal.input.universeSnapshot ∨
      reference ∈ signal.input.inputArtifacts → reference.Exact := by
    intro reference hmem
    apply hreferences
    simpa [signalReferences] using hmem
  have hread : Reads (decodeSignalFields zones texts) _ signal.input :=
    (codec_faithful.ulid _).bind ((codec_faithful.owner _).bind
      ((reads_lineageRef (hexact signal.input.artifact (by simp))).bind
      ((codec_faithful.ulid _).bind
        ((reads_lineageRef (hexact signal.input.dataSnapshot (by simp))).bind
      ((reads_lineageRef (hexact signal.input.universeSnapshot (by simp))).bind
      ((reads_versionRefs _).bind
      ((reads_lineage fun reference hmem => hexact reference (by simp [hmem])).bind
      ((reads_period htexts hfrom hto).thenPure (reads_pure _)))))))))
  exact decodeThen_encode hread (mapError_eq_ok.mpr hnew) hlength

/-- **A journal event is read back from its payload.** -/
theorem decodeJournal_encode (htexts : texts.ReadsBack) {event : RunJournal}
    (hcanonical : event.verifyCanonical digest = .ok ()) (hsequence : event.input.sequence < 2 ^ 64)
    (htime : StoredTime zones event.input.occurredAt)
    (hlength : (encodeJournal event).length < 2 ^ 64) :
    decodeJournal zones texts digest (encodeJournal event) = some (.ok event) := by
  have htype : Reads (coded journalEventTypeOfCode)
      (encodeCode (journalEventTypeCode event.input.eventType)) event.input.eventType := by
    cases event.input.eventType <;> exact reads_coded (by decide) rfl
  -- The event verified, so building it again gives the stored hash.
  have hnew : RunJournal.new digest event.input event.eventHash = .ok event := by
    obtain ⟨hash, hhash, hverify⟩ := bind_eq_ok.mp hcanonical
    by_cases heq : hash ≠ event.eventHash
    · rw [if_pos heq] at hverify
      cases hverify
    · refine bind_eq_ok.mpr ⟨hash, hhash, ?_⟩
      rw [if_neg heq, not_not.mp heq]
      rfl
  have hread : Reads (decodeJournalFields zones texts) _ (event.input, event.eventHash) :=
    (codec_faithful.ulid _).bind
    ((codec_faithful.ulid _).bind ((reads_u64 _ hsequence).bind (htype.bind
      ((reads_marketTime htexts htime).bind ((reads_string _).bind ((reads_string _).bind
      ((reads_bytes _).bind ((reads_optionalHash _).bind
      ((codec_faithful.hash _).thenPure (reads_pure _))))))))))
  exact decodeThen_encode hread (mapError_eq_ok.mpr hnew) hlength

/-- The time of knowledge comes back; a curve without one ends behind its input. -/
theorem readsAll_knowledge (htexts : texts.ReadsBack) {curve : CurveSnapshot}
    (htimes : ∀ time ∈ curveTimes curve, StoredTime zones time) :
    ReadsAll (decodeKnowledge zones texts { curve with knowledge := none, ordered := by simp })
      (encodeKnowledge curve.knowledge) curve := by
  obtain ⟨input, knowledge, hvalid, hordered⟩ := curve
  -- Knowledge comes last; a payload that ends here has none.
  cases knowledge with
  | none => exact fun _ => rfl
  | some knowledge =>
    have hnew : CurveSnapshot.withKnowledgeTime
        { input := input, knowledge := none, valid := hvalid, ordered := by simp }
        knowledge.visibleAt knowledge.curveFamilyId =
        .ok ⟨input, some knowledge, hvalid, hordered⟩ := by
      unfold CurveSnapshot.withKnowledgeTime
      rw [dif_pos knowledge.proper]
      exact dif_pos (hordered knowledge rfl)
    have htime := htimes knowledge.visibleAt (by simp [curveTimes])
    intro hlength
    have hend : atEnd (encodeKnowledge (some knowledge)) =
        some (.ok (false, encodeKnowledge (some knowledge))) := rfl
    unfold decodeKnowledge
    rw [andThen_of_ok hend]
    simp only [Bool.false_eq_true, if_false]
    apply Reads.all ?_ hlength
    refine (reads_bool true).bind ?_
    rw [if_pos rfl]
    exact (reads_marketTime htexts htime).bind ((reads_string _).thenPure (reads_construct hnew))

/-- The fields that every curve has. -/
theorem reads_curveInput (htexts : texts.ReadsBack) {input : CurveSnapshotInput}
    (hreferences : ∀ reference ∈ input.lineage, reference.Exact)
    (htime : StoredTime zones input.asOf) :
    Reads (decodeCurveInput zones texts)
      (prefixedText input.curveSnapshotId.text ++ (encodeOwner input.owner ++
        (encodeMarketTime input.asOf ++ (encodeUnitRef input.currency ++
        (prefixedText input.curveKind ++ (encodeVersionRef input.calendar ++
        (encodeVersionRef input.rulePack ++ (prefixedText input.pointSchema ++
        (encodeHash input.contentHash ++ (encodeLineage input.lineage ++ encodeCode 1))))))))))
      input := by
  have hkind : Reads (coded fun code =>
      if code = 1 then some ArtifactInputKind.externalFixture else none) (encodeCode 1)
      input.inputKind := by
    cases input.inputKind
    exact reads_coded (by decide) rfl
  exact (codec_faithful.ulid _).bind ((codec_faithful.owner _).bind
    ((reads_marketTime htexts htime).bind ((reads_unitRef _).bind ((reads_string _).bind
    ((codec_faithful.versionRef _).bind ((codec_faithful.versionRef _).bind ((reads_string _).bind
    ((codec_faithful.hash _).bind ((reads_lineage hreferences).bind
    (hkind.thenPure (reads_pure _)))))))))))

/-- **A curve snapshot is read back from its payload.** -/
theorem decodeCurveSnapshot_encode (htexts : texts.ReadsBack) {curve : CurveSnapshot}
    (hreferences : ∀ reference ∈ curve.input.lineage, reference.Exact)
    (htimes : ∀ time ∈ curveTimes curve, StoredTime zones time)
    (hlength : (encodeCurveSnapshot curve).length < 2 ^ 64) :
    decodeCurveSnapshot zones texts (encodeCurveSnapshot curve) = some (.ok curve) := by
  have hnew : CurveSnapshot.new curve.input =
      .ok { curve with knowledge := none, ordered := by simp } := by
    unfold CurveSnapshot.new
    split
    · rfl
    · rename_i error herror
      exact absurd (curve.valid.symm.trans herror) (by simp)
  have hinput := reads_curveInput htexts hreferences (htimes curve.input.asOf (by simp [curveTimes]))
  have hknowledge := readsAll_knowledge htexts htimes
  refine decodePayload_encode ?_ hlength
  intro hwritten
  have hcurve : ReadsAll (construct (CurveSnapshot.new curve.input) >>= decodeKnowledge zones texts)
      (encodeKnowledge curve.knowledge) curve := (reads_construct hnew).bindAll hknowledge
  have hall := Reads.bindAll (f := fun input =>
    construct (CurveSnapshot.new input) >>= decodeKnowledge zones texts) hinput hcurve
  simp only [List.append_assoc] at hall
  exact hall hwritten

end Reading

/-! ### What the decoders accept -/

section Accepting

open Reader

/-- What comes out of a payload came out of its reader. -/
theorem decodePayload_yields {α : Type} {read : PayloadReader α} {post : α → Prop}
    (h : Yields read post) {payload : List UInt8} {a : α}
    (hdecode : decodePayload read payload = some (.ok a)) : post a := by
  unfold decodePayload at hdecode
  by_cases hheader : header <+: payload
  · rw [if_pos hheader, Option.map_eq_some_iff] at hdecode
    obtain ⟨result, hresult, hfst⟩ := hdecode
    cases result with
    | error error => cases hfst
    | ok pair =>
      obtain rfl : pair.1 = a := Except.ok.inj hfst
      have hall : Yields (read >>= fun value => finish >>= fun _ => pure value) post :=
        h.bind fun value hvalue => (yields_any finish).bind fun _ _ => yields_pure hvalue
      exact hall _ pair.1 pair.2 hresult
  · rw [if_neg hheader] at hdecode
    cases hdecode

/-- The constructor got what was read. -/
theorem decodeThen_yields {α β : Type} {read : PayloadReader α} {post : α → Prop}
    {build : α → Except ApplicationError β} (h : Yields read post) {payload : List UInt8} {b : β}
    (hdecode : decodeThen read build payload = some (.ok b)) :
    ∃ a, post a ∧ build a = .ok b := by
  rw [decodeThen, Option.map_eq_some_iff] at hdecode
  obtain ⟨fields, hfields, hbuild⟩ := hdecode
  cases fields with
  | error error => cases hbuild
  | ok a => exact ⟨a, decodePayload_yields h hfields, mapError_eq_ok.mp hbuild⟩

/-- A stored seed has 64 bits. -/
theorem yields_runFields : Yields decodeRunFields fun stored => stored.input.seed < 2 ^ 64 :=
  (yields_any _).bind fun _ _ => (yields_any _).bind fun _ _ => (yields_any _).bind fun _ _ =>
    (yields_any _).bind fun _ _ => (yields_any _).bind fun _ _ => (yields_any _).bind fun _ _ =>
      (yields_any _).bind fun _ _ => (yields_u64 _).bind fun _ hseed =>
        (yields_any _).bind fun _ _ => (yields_any _).bind fun _ _ => yields_pure hseed

/-- A run that is accepted could have been made by a constructor call and changes of state. -/
theorem decodeRun_built {payload : List UInt8} {run : ExperimentRun}
    (h : decodeRun payload = some (.ok run)) : run.Built := by
  obtain ⟨stored, hseed, hbuild⟩ := decodeThen_yields yields_runFields h
  exact (rebuildRun_eq_ok hseed hbuild).1

/-- An event that is accepted has its own hash. -/
theorem decodeJournal_canonical {zones : ZoneTable} {texts : TextParsers}
    {digest : List UInt8 → ContentHash} {payload : List UInt8} {event : RunJournal}
    (h : decodeJournal zones texts digest payload = some (.ok event)) :
    event.verifyCanonical digest = .ok () := by
  obtain ⟨fields, -, hbuild⟩ := decodeThen_yields (yields_any _) h
  exact (RunJournal.new_eq_ok (mapError_eq_ok.mp hbuild)).2.2

end Accepting

/-- **Stored records, exactly.**  Runs that were built, artifacts, signal sets, canonical events and
    curves come back as they were; a payload that is accepted as a run holds one that could have
    been built, and one that is accepted as an event holds one with its own hash. -/
theorem record_payload_exact (zones : ZoneTable) (texts : TextParsers) (htexts : texts.ReadsBack)
    (digest : List UInt8 → ContentHash) :
    (∀ run : ExperimentRun, run.Built → (∀ reference ∈ runReferences run, reference.Exact) →
      (encodeRun run).length < 2 ^ 64 → decodeRun (encodeRun run) = some (.ok run)) ∧
    (∀ artifact : Artifact, (∀ reference ∈ artifact.lineage, reference.Exact) →
      (encodeArtifact artifact).length < 2 ^ 64 →
      decodeArtifact (encodeArtifact artifact) = some (.ok artifact)) ∧
    (∀ signal : SignalSet, (∀ reference ∈ signalReferences signal, reference.Exact) →
      StoredTime zones signal.input.valid.from_ → StoredTime zones signal.input.valid.to_ →
      (encodeSignal signal).length < 2 ^ 64 →
      decodeSignal zones texts (encodeSignal signal) = some (.ok signal)) ∧
    (∀ event : RunJournal, event.verifyCanonical digest = .ok () → event.input.sequence < 2 ^ 64 →
      StoredTime zones event.input.occurredAt → (encodeJournal event).length < 2 ^ 64 →
      decodeJournal zones texts digest (encodeJournal event) = some (.ok event)) ∧
    (∀ curve : CurveSnapshot, (∀ reference ∈ curve.input.lineage, reference.Exact) →
      (∀ time ∈ curveTimes curve, StoredTime zones time) →
      (encodeCurveSnapshot curve).length < 2 ^ 64 →
      decodeCurveSnapshot zones texts (encodeCurveSnapshot curve) = some (.ok curve)) ∧
    (∀ payload run, decodeRun payload = some (.ok run) → run.Built) ∧
    (∀ payload event, decodeJournal zones texts digest payload = some (.ok event) →
      event.verifyCanonical digest = .ok ()) :=
  ⟨fun _ => decodeRun_encode, fun _ => decodeArtifact_encode, fun _ => decodeSignal_encode htexts,
    fun _ => decodeJournal_encode htexts, fun _ => decodeCurveSnapshot_encode htexts,
    fun _ _ => decodeRun_built, fun _ _ => decodeJournal_canonical⟩

/-- The run and the curve of the samples, in their payloads. -/
theorem record_payload_sample :
    decodeRun (encodeRun Fingerprint.sampleRun) = some (.ok Fingerprint.sampleRun) ∧
      decodeCurveSnapshot .utc displayedTexts (encodeCurveSnapshot Fingerprint.sampleCurve) =
        some (.ok Fingerprint.sampleCurve) := by
  obtain ⟨hrun, -, -, -, hcurve, -⟩ := record_payload_exact .utc displayedTexts
    displayedTexts_readsBack fun _ => Fingerprint.sampleHash
  refine ⟨hrun Fingerprint.sampleRun Fingerprint.sampleRun_built ?_ (by decide +kernel),
    hcurve Fingerprint.sampleCurve ?_ ?_ (by decide +kernel)⟩
  · decide
  · decide
  · intro time hmem
    obtain rfl := List.mem_singleton.mp hmem
    rfl

end Ficant.Payload
