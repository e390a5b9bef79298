import Ficant.Application.Governance

namespace Ficant

open Lib
open Fingerprint (sampleDigest sampleHash)

/-!
# What a governed fingerprint binds

A replay of a governed command is accepted when a record with the same fingerprint is stored.

* `Platform.AuthorizedPrincipal.bytes_inj` — a principal is determined by its bytes;
* `ChangeJustification.cuts` — where the texts of a justification end.  `change_bytes` writes reason,
  addresses and hashes one after the other without saying where one ends, so it determines the
  justification among those cut alike (`changeBytes_inj_of_cuts`) and no further;
* `Recut` — two commands that differ only in where these texts are cut;
* `runChanges` — the table of records after any sequence of changes, each record of a market command
  made by that command (`runChanges_recorded`).
-/

/-! ### Principals -/

/-- The code of a role tells it apart. -/
theorem platformRoleCode_injective : Function.Injective platformRoleCode := by
  intro a b h
  cases a <;> cases b <;> first | rfl | exact absurd h (by decide)

/-- Lists of texts are told apart text by text. -/
theorem map_utf8_inj {l m : List String} (h : l.map utf8 = m.map utf8) : l = m :=
  List.map_injective_iff.mpr (fun _ _ => utf8_inj) h

theorem map_ulidText_inj {l m : List Ulid}
    (h : (l.map fun id => utf8 id.text) = m.map fun id => utf8 id.text) : l = m :=
  List.map_injective_iff.mpr (fun _ _ => Ulid.eq_of_utf8) h

/-- The bytes of a principal determine it. -/
theorem Platform.AuthorizedPrincipal.bytes_inj {a b : Platform.AuthorizedPrincipal}
    (la : a.bytes.length < lengthLimit) (h : a.bytes = b.bytes) : a = b := by
  obtain ⟨hfields, -⟩ := fields_eq_of_bytes la h
  simp only [List.cons.injEq, Prod.mk.injEq, true_and] at hfields
  obtain ⟨hsubject, hactor, htenant, hrest⟩ := hfields
  -- the owners end where the role begins, the scopes where the credential begins
  obtain ⟨howners, hrest⟩ := map_tag_append_inj (by simp) (by simp) hrest
  simp only [List.cons.injEq, Prod.mk.injEq, true_and] at hrest
  obtain ⟨⟨hrole, -⟩, hrest⟩ := hrest
  obtain ⟨hscopes, hcredential⟩ := map_tag_append_inj (by simp) (by simp) hrest
  simp only [List.cons.injEq, Prod.mk.injEq, true_and, and_true] at hcredential
  have := utf8_inj hsubject
  have := Ulid.eq_of_utf8 hactor
  have := Ulid.eq_of_utf8 htenant
  have := map_ulidText_inj howners
  have := platformRoleCode_injective hrole
  have := map_utf8_inj hscopes
  have := ContentHash.ext_bytes hcredential
  cases a
  cases b
  simp_all

/-! ### Justifications -/

namespace ChangeJustification

/-- The texts and hashes of a justification, in the order in which they are written. -/
def pieces (change : ChangeJustification) : List (List UInt8) :=
  utf8 change.reason :: change.sources.flatMap fun source => [utf8 source.uri, source.sha256.bytes]

/-- The lengths of the texts: the reason and the address of each source. -/
def cuts (change : ChangeJustification) : List ℕ :=
  (utf8 change.reason).length :: change.sources.map fun source => (utf8 source.uri).length

/-- The bytes of a change are its pieces without anything between them. -/
theorem flatten_pieces (change : ChangeJustification) :
    change.pieces.flatten = changeBytes change := by
  rw [pieces, changeBytes, List.flatten_cons]
  congr 1
  induction change.sources with
  | nil => rfl
  | cons source sources ih => simp [ih]

/-- Hashes have a fixed length, so the cuts of the texts are the cuts of all pieces. -/
theorem lengths_pieces (change : ChangeJustification) :
    change.pieces.map List.length =
      (utf8 change.reason).length ::
        (change.sources.map fun source => (utf8 source.uri).length).flatMap fun n => [n, 32] := by
  rw [pieces, List.map_cons]
  congr 1
  induction change.sources with
  | nil => rfl
  | cons source sources ih => simp [ih, source.sha256.length_eq]

/-- The pieces of the sources tell them apart: a text and a hash in turn. -/
theorem sources_eq_of_pieces {l m : List SourceDocumentRef}
    (h : (l.flatMap fun source => [utf8 source.uri, source.sha256.bytes]) =
      m.flatMap fun source => [utf8 source.uri, source.sha256.bytes]) : l = m := by
  induction l generalizing m with
  | nil =>
    cases m with
    | nil => rfl
    | cons b m => cases h
  | cons a l ih =>
    cases m with
    | nil => cases h
    | cons b m =>
      simp only [List.flatMap_cons, List.cons_append, List.nil_append, List.cons.injEq] at h
      -- Every source is two pieces, so the pieces of both lists pair up.
      obtain ⟨huri, hhash, hrest⟩ := h
      rw [ih hrest]
      congr 1
      have := utf8_inj huri
      have := ContentHash.ext_bytes hhash
      cases a
      cases b
      simp_all

/-- **The pieces of a change tell it apart**; their concatenation does not. -/
theorem pieces_injective : Function.Injective pieces := by
  intro a b h
  simp only [pieces, List.cons.injEq] at h
  have := utf8_inj h.1
  have := sources_eq_of_pieces h.2
  cases a
  cases b
  simp_all

/-- Justifications that are cut at the same places are told apart by their bytes. -/
theorem changeBytes_inj_of_cuts {a b : ChangeJustification} (hcuts : a.cuts = b.cuts)
    (h : changeBytes a = changeBytes b) : a = b := by
  apply pieces_injective
  rw [List.eq_iff_flatten_eq, flatten_pieces, flatten_pieces, lengths_pieces, lengths_pieces]
  simp only [cuts, List.cons.injEq] at hcuts
  exact ⟨h, by rw [hcuts.1, hcuts.2]⟩

end ChangeJustification

/-! ### Governed commands -/

namespace GovernedCommand

variable {digest : List UInt8 → ContentHash} {c d : GovernedCommand}

/-- Equal fingerprints come with equal requests: what a replay relies on. -/
def Binds (digest : List UInt8 → ContentHash) (c d : GovernedCommand) : Prop :=
  c.fingerprint digest = d.fingerprint digest →
    c.commandFingerprint digest = d.commandFingerprint digest ∧
    c.context.principal = d.context.principal ∧
    c.context.change.reason = d.context.change.reason ∧
    c.context.change.sources = d.context.change.sources ∧
    c.authorizationRef = d.authorizationRef

/-- The two are the same command of the same principal, and their justifications are one text cut at
    different places. -/
def Recut (digest : List UInt8 → ContentHash) (c d : GovernedCommand) : Prop :=
  c.command.operation = d.command.operation ∧
    c.commandFingerprint digest = d.commandFingerprint digest ∧
    c.context.principal = d.context.principal ∧
    c.context.change.cuts ≠ d.context.change.cuts ∧
    c.context.change.pieces.flatten = d.context.change.pieces.flatten

/-- The digest keeps apart what two governed commands have it compute, and no text is longer than a
    64-bit length can say. -/
structure Apart (digest : List UInt8 → ContentHash) (c d : GovernedCommand) : Prop where
  request : NoCollision digest (c.preimage digest) (d.preimage digest)
  principal : NoCollision digest c.context.principal.bytes d.context.principal.bytes
  short : (c.preimage digest).length < lengthLimit
  short_principal : c.context.principal.bytes.length < lengthLimit

/-- The name of the operation is in the namespace. -/
theorem governedNamespace_eq_iff {m n : MarketCommand} :
    m.governedNamespace = n.governedNamespace ↔ m.operation = n.operation := by
  cases m <;> cases n <;> simp [MarketCommand.governedNamespace, MarketCommand.operation]

/-- What the fingerprint does bind: everything but the cuts of the justification. -/
theorem fingerprint_eq_iff (h : Apart digest c d) :
    c.fingerprint digest = d.fingerprint digest ↔
      c.command.operation = d.command.operation ∧
      c.commandFingerprint digest = d.commandFingerprint digest ∧
      c.context.principal = d.context.principal ∧
      changeBytes c.context.change = changeBytes d.context.change := by
  constructor
  · intro heq
    obtain ⟨hspace, hfields⟩ := fingerprintBytes_inj h.short (h.request heq)
    simp only [authorizationRef, Option.elim_none, List.cons.injEq, Prod.mk.injEq, true_and,
      and_true] at hfields
    obtain ⟨hprincipal, hcommand, hchange⟩ := hfields
    have hbytes := h.principal (ContentHash.ext_bytes hprincipal)
    exact ⟨governedNamespace_eq_iff.mp hspace, ContentHash.ext_bytes hcommand,
      Platform.AuthorizedPrincipal.bytes_inj h.short_principal hbytes, hchange⟩
  · rintro ⟨hoperation, hcommand, hprincipal, hchange⟩
    unfold fingerprint preimage governedBytes
    rw [governedNamespace_eq_iff.mpr hoperation, hcommand, hprincipal, hchange]
    rfl

/-- A fingerprint binds a request exactly where no recut of it is compared with it. -/
theorem binds_iff_not_recut (h : Apart digest c d) : Binds digest c d ↔ ¬ Recut digest c d := by
  constructor
  · rintro hbinds ⟨hoperation, hcommand, hprincipal, hcuts, htext⟩
    rw [ChangeJustification.flatten_pieces, ChangeJustification.flatten_pieces] at htext
    obtain ⟨-, -, hreason, hsources, -⟩ :=
      hbinds ((fingerprint_eq_iff h).mpr ⟨hoperation, hcommand, hprincipal, htext⟩)
    exact hcuts (by rw [ChangeJustification.cuts, ChangeJustification.cuts, hreason, hsources])
  · intro hrecut heq
    obtain ⟨hoperation, hcommand, hprincipal, hbytes⟩ := (fingerprint_eq_iff h).mp heq
    have hcuts : c.context.change.cuts = d.context.change.cuts := by
      by_contra hcuts
      apply hrecut
      refine ⟨hoperation, hcommand, hprincipal, hcuts, ?_⟩
      rwa [ChangeJustification.flatten_pieces, ChangeJustification.flatten_pieces]
    have hchange := ChangeJustification.changeBytes_inj_of_cuts hcuts hbytes
    exact ⟨hcommand, hprincipal, by rw [hchange], by rw [hchange], rfl⟩

end GovernedCommand

/-! ### Runs of changes -/

/-- A transaction that may leave a change record: a market command with its outcome, or a change of
    another kind. -/
inductive ChangeStep
  | market (command : GovernedCommand) (before : ContentHash) (outcome : IdempotencyOutcome)
  | other (tenant : Ulid) (record : FoundationChangeRecord)
    (foreign : record.input.operation ∉
      [.appendMarketFact, .correctMarketFact, .publishCurveSnapshot])

/-- The market commands among the steps. -/
def ChangeStep.command? : ChangeStep → Option GovernedCommand
  | market command _ _ => some command
  | other _ _ _ => none

/-- The table after a step; a transaction that fails leaves it as it was. -/
def ChangeStep.apply (digest : List UInt8 → ContentHash) (table : ChangeTable) :
    ChangeStep → ChangeTable
  | market command before outcome => (command.persist digest table before outcome).toOption.getD table
  | other tenant record _ => (insertChange table tenant record).toOption.getD table

/-- The table after any sequence of steps, from the empty one. -/
def runChanges (digest : List UInt8 → ContentHash) (steps : List ChangeStep) : ChangeTable :=
  steps.foldl (ChangeStep.apply digest) []

section Runs

variable {digest : List UInt8 → ContentHash}

/-- The row was written by one of the steps: a market command leaves its justification and its
    fingerprint in it. -/
def Recorded (digest : List UInt8 → ContentHash) (steps : List ChangeStep)
    (row : Ulid × FoundationChangeRecord) : Prop :=
  (∃ command, some command ∈ steps.map ChangeStep.command? ∧
    row.2.input.operation = command.command.operation ∧
    row.2.input.change = command.context.change ∧
    row.2.input.requestFingerprint = command.fingerprint digest) ∨
  row.2.input.operation ∉ [.appendMarketFact, .correctMarketFact, .publishCurveSnapshot]

/-- What was recorded stays recorded. -/
theorem Recorded.mono {steps : List ChangeStep} {step : ChangeStep}
    {row : Ulid × FoundationChangeRecord} (h : Recorded digest steps row) :
    Recorded digest (steps ++ [step]) row := by
  rcases h with ⟨command, hmem, hrest⟩ | hforeign
  · exact .inl ⟨command, by simp only [List.map_append, List.mem_append, hmem, true_or], hrest⟩
  · exact .inr hforeign

/-- An insertion adds the record and nothing else. -/
theorem mem_of_insertChange {table table' : ChangeTable} {tenant : Ulid}
    {record : FoundationChangeRecord} (h : insertChange table tenant record = .ok table')
    {row : Ulid × FoundationChangeRecord} (hmem : row ∈ table') :
    row ∈ table ∨ row = (tenant, record) := by
  unfold insertChange at h
  split at h
  · cases h
  · cases h
    simpa using hmem

/-- A record is what the constructor was given. -/
theorem FoundationChangeRecord.new_eq_ok {input : FoundationChangeRecordInput}
    {record : FoundationChangeRecord} (h : FoundationChangeRecord.new input = .ok record) :
    record.input = input := by
  unfold FoundationChangeRecord.new at h
  split at h
  · cases h
    rfl
  · cases h

/-- The record of a command carries its justification and its fingerprint. -/
theorem GovernedCommand.changeRecord_eq_ok {c : GovernedCommand} {before : ContentHash}
    {record : FoundationChangeRecord} (h : c.changeRecord digest before = .ok record) :
    record.input.operation = c.command.operation ∧ record.input.resource = c.command.resource ∧
      record.input.change = c.context.change ∧
      record.input.requestFingerprint = c.fingerprint digest := by
  unfold changeRecord at h
  rw [FoundationChangeRecord.new_eq_ok (mapError_eq_ok.mp h)]
  exact ⟨rfl, rfl, rfl, rfl⟩

/-- A command whose justification names a source has a record. -/
theorem GovernedCommand.exists_changeRecord {c : GovernedCommand} {before : ContentHash}
    (hsources : c.context.change.sources ≠ []) :
    ∃ record, c.changeRecord digest before = .ok record := by
  have hjustified : c.context.change.isAuthorizedImportReason = false := by
    rw [ChangeJustification.isAuthorizedImportReason, List.isEmpty_eq_false_iff]
    exact hsources
  refine ⟨⟨_, ?_⟩, mapError_eq_ok.mpr (dif_pos ?_)⟩
  all_goals
    cases hcommand : c.command <;>
      simp [FoundationChangeRecordInput.refused, hjustified, MarketCommand.operation,
        MarketCommand.resource, FoundationChangeOperation.resourceKind,
        FoundationResourceKind.isVersioned, GovernedCommand.authorizationRef]

/-- What a committed market command does to the table. -/
theorem GovernedCommand.persist_eq_ok {c : GovernedCommand} {before : ContentHash}
    {outcome : IdempotencyOutcome} {table table' : ChangeTable}
    (h : c.persist digest table before outcome = .ok table') :
    ∃ record, c.changeRecord digest before = .ok record ∧
      persistGovernanceOutcome table c.command.owner.tenantId record (c.fingerprint digest) outcome =
        .ok table' :=
  bind_eq_ok.mp h

/-- An accepted replay changes nothing and has found a row of the same request. -/
theorem replay_eq_ok {table table' : ChangeTable} {tenant : Ulid} {record : FoundationChangeRecord}
    {fingerprint : ContentHash}
    (h : persistGovernanceOutcome table tenant record fingerprint .replay = .ok table') :
    table' = table ∧ ∃ row ∈ table,
      sameRequest tenant record.input.operation record.input.resource fingerprint row := by
  simp only [persistGovernanceOutcome, verifyChangeReplay] at h
  by_cases hfound : ∃ row ∈ table,
      sameRequest tenant record.input.operation record.input.resource fingerprint row
  · rw [if_pos hfound] at h
    cases h
    exact ⟨rfl, hfound⟩
  · rw [if_neg hfound] at h
    cases h

/-- One step adds only a row that it records. -/
theorem ChangeStep.mem_apply {table : ChangeTable} {step : ChangeStep} (steps : List ChangeStep)
    {row : Ulid × FoundationChangeRecord} (hmem : row ∈ step.apply digest table) :
    row ∈ table ∨ Recorded digest (steps ++ [step]) row := by
  cases step with
  -- A step of another operation adds at most its own record.
  | other tenant record foreign =>
    rw [apply] at hmem
    cases hinsert : insertChange table tenant record with
    | error error =>
      rw [hinsert] at hmem
      exact .inl hmem
    | ok table' =>
      rw [hinsert] at hmem
      rcases mem_of_insertChange hinsert hmem with hold | rfl
      · exact .inl hold
      · exact .inr (.inr foreign)
  | market command before outcome =>
    rw [apply] at hmem
    cases hpersist : command.persist digest table before outcome with
    | error error =>
      rw [hpersist] at hmem
      exact .inl hmem
    | ok table' =>
      rw [hpersist] at hmem
      obtain ⟨record, hrecord, houtcome⟩ := GovernedCommand.persist_eq_ok hpersist
      cases outcome with
      -- A replay returns the stored outcome and writes nothing.
      | replay =>
        rw [show (Except.ok table' : Except ApplicationError _).toOption.getD table = table' from rfl,
          (replay_eq_ok houtcome).1] at hmem
        exact .inl hmem
      | fresh =>
        rcases mem_of_insertChange houtcome hmem with hold | rfl
        · exact .inl hold
        · obtain ⟨hoperation, -, hchange, hfingerprint⟩ := GovernedCommand.changeRecord_eq_ok hrecord
          exact .inr (.inl ⟨command, by simp [ChangeStep.command?], hoperation, hchange, hfingerprint⟩)

/-- Every row of the table was written by a step of the run. -/
theorem runChanges_recorded (steps : List ChangeStep) {row : Ulid × FoundationChangeRecord}
    (hmem : row ∈ runChanges digest steps) : Recorded digest steps row := by
  induction steps using List.reverseRecOn with
  | nil => cases hmem
  | append_singleton steps step ih =>
    rw [runChanges, List.foldl_append] at hmem
    rcases ChangeStep.mem_apply steps hmem with hold | hnew
    · exact (ih hold).mono
    · exact hnew

/-- A command of the market is one of three operations. -/
theorem MarketCommand.operation_mem (command : MarketCommand) : command.operation ∈
    [FoundationChangeOperation.appendMarketFact, .correctMarketFact, .publishCurveSnapshot] := by
  cases command <;> simp [MarketCommand.operation]

/-- An accepted replay finds the record of a command with the same fingerprint, and of the very
    justification unless that command is a recut. -/
theorem replay_same_change {steps : List ChangeStep} {c : GovernedCommand} {before : ContentHash}
    {table : ChangeTable}
    (hsafe : ∀ d, some d ∈ steps.map ChangeStep.command? →
      GovernedCommand.Apart digest c d ∧ ¬ GovernedCommand.Recut digest c d)
    (h : c.persist digest (runChanges digest steps) before .replay = .ok table) :
    ∃ row ∈ runChanges digest steps,
      sameRequest c.command.owner.tenantId c.command.operation c.command.resource
        (c.fingerprint digest) row ∧
      row.2.input.change = c.context.change := by
  obtain ⟨record, hrecord, houtcome⟩ := GovernedCommand.persist_eq_ok h
  obtain ⟨hoperation, hresource, -, -⟩ := GovernedCommand.changeRecord_eq_ok hrecord
  obtain ⟨-, row, hmem, hsame⟩ := replay_eq_ok houtcome
  rw [hoperation, hresource] at hsame
  refine ⟨row, hmem, hsame, ?_⟩
  rcases runChanges_recorded steps hmem with ⟨d, hd, -, hchange, hfingerprint⟩ | hforeign
  · obtain ⟨hapart, hrecut⟩ := hsafe d hd
    obtain ⟨-, -, hreason, hsources, -⟩ := (GovernedCommand.binds_iff_not_recut hapart).mpr hrecut
      (hsame.2.2.2.symm.trans hfingerprint)
    rw [hchange]
    cases hc : c.context.change
    cases hdc : d.context.change
    simp_all
  · rw [hsame.2.1] at hforeign
    exact absurd (MarketCommand.operation_mem c.command) hforeign

end Runs

/-- **A replay is the same request, but for the cuts of its justification.**  Equal fingerprints of two
    governed commands come with the same command, principal, reason, sources and authorization exactly
    when neither is a recut of the other; and after any run of changes without such a recut, an
    accepted replay has found a record that carries the submitted justification. -/
theorem governed_replay_bound (digest : List UInt8 → ContentHash) :
    (∀ c d : GovernedCommand, GovernedCommand.Apart digest c d →
      (GovernedCommand.Binds digest c d ↔ ¬ GovernedCommand.Recut digest c d)) ∧
    (∀ (steps : List ChangeStep) (c : GovernedCommand) (before : ContentHash) (table : ChangeTable),
      (∀ d, some d ∈ steps.map ChangeStep.command? →
        GovernedCommand.Apart digest c d ∧ ¬ GovernedCommand.Recut digest c d) →
      c.persist digest (runChanges digest steps) before .replay = .ok table →
      ∃ row ∈ runChanges digest steps,
        sameRequest c.command.owner.tenantId c.command.operation c.command.resource
          (c.fingerprint digest) row ∧
        row.2.input.change = c.context.change) :=
  ⟨fun _ _ => GovernedCommand.binds_iff_not_recut, fun _ _ _ _ => replay_same_change⟩

/-! ### A justification cut in two ways -/

/-- An administrator of the owner of the sample trade. -/
def sampleAdministrator : Platform.AuthorizedPrincipal :=
  ⟨"ops", ⟨7⟩, Fingerprint.sampleOwner.tenantId, [Fingerprint.sampleOwner.ownerId], .platformAdmin,
    ["facts:write"], Fingerprint.sampleHash⟩

/-- A reason with one source. -/
def sampleChange (reason uri : String) (hreason : validReason reason = true)
    (huri : boundedText 2048 uri = true) : ChangeJustification :=
  ⟨reason, [⟨uri, Fingerprint.sampleHash, huri⟩], hreason, List.pairwise_singleton _ _⟩

/-- The text `fixdoc`, as the reason `fix` with the source `doc`. -/
def fixDoc : ChangeJustification := sampleChange "fix" "doc" (by decide) (by decide)

/-- The same text, as the reason `fixd` with the source `oc`. -/
def fixdOc : ChangeJustification := sampleChange "fixd" "oc" (by decide) (by decide)

/-- The sample trade, appended by the administrator under a justification. -/
def sampleAppend (change : ChangeJustification) : GovernedCommand :=
  ⟨⟨sampleAdministrator, change, ⟨8⟩, Fingerprint.sampleTime⟩, .append Fingerprint.sampleTrade⟩

theorem length_sampleAppend (digest : List UInt8 → ContentHash) {change : ChangeJustification}
    (h : (changeBytes change).length < 2 ^ 63) :
    ((sampleAppend change).preimage digest).length < lengthLimit := by
  have hhash : ∀ hash : ContentHash, hash.bytes.length = 32 := fun hash => hash.length_eq
  have hspace : (utf8 "governed-append-market-fact/v1").length = 30 := by decide +kernel
  have hmagic : (utf8 "FCMD").length = 4 := by decide +kernel
  simp only [GovernedCommand.preimage, governedBytes, fingerprintBytes, taggedField, sampleAppend,
    MarketCommand.governedNamespace, GovernedCommand.authorizationRef, Option.elim_none,
    List.flatMap_cons, List.flatMap_nil, List.length_append, List.length_cons, List.length_nil,
    length_bigEndian, hhash, hspace, hmagic, lengthLimit]
  omega

/-- The commands of the samples are apart in all but the change. -/
theorem sampleAppend_apart (digest : List UInt8 → ContentHash) {change change' : ChangeJustification}
    (h : (changeBytes change).length < 2 ^ 63) (heq : changeBytes change = changeBytes change') :
    GovernedCommand.Apart digest (sampleAppend change) (sampleAppend change') where
  request _ := by
    simp only [GovernedCommand.preimage, governedBytes, sampleAppend, heq]
    rfl
  principal _ := rfl
  short := length_sampleAppend digest h
  short_principal := (by decide +kernel : sampleAdministrator.bytes.length < lengthLimit)

/-- The same letters are cut at another place. -/
theorem changeBytes_fixDoc : changeBytes fixDoc = changeBytes fixdOc := by decide +kernel

theorem sampleAppend_recut (digest : List UInt8 → ContentHash) :
    GovernedCommand.Recut digest (sampleAppend fixDoc) (sampleAppend fixdOc) :=
  ⟨rfl, rfl, rfl, (by decide +kernel : fixDoc.cuts ≠ fixdOc.cuts),
    (by decide +kernel : fixDoc.pieces.flatten = fixdOc.pieces.flatten)⟩

/-- The record of the sample, with its fresh change in the table. -/
theorem runChanges_sample (digest : List UInt8 → ContentHash) (before : ContentHash) :
    ∃ record, (sampleAppend fixDoc).changeRecord digest before = .ok record ∧
      runChanges digest [.market (sampleAppend fixDoc) before .fresh] =
        [(Fingerprint.sampleOwner.tenantId, record)] := by
  have hnew : ∃ record, (sampleAppend fixDoc).changeRecord digest before = .ok record :=
    GovernedCommand.exists_changeRecord (by simp [sampleAppend, fixDoc, sampleChange])
  obtain ⟨record, hrecord⟩ := hnew
  refine ⟨record, hrecord, ?_⟩
  have hpersist : (sampleAppend fixDoc).persist digest [] before .fresh =
      .ok [(Fingerprint.sampleOwner.tenantId, record)] := by
    rw [GovernedCommand.persist, hrecord]
    rfl
  simp only [runChanges, List.foldl_cons, List.foldl_nil, ChangeStep.apply, hpersist]
  rfl

/-- A command whose change is in the table under its fingerprint may be replayed. -/
theorem replay_sample (digest : List UInt8 → ContentHash) (before : ContentHash)
    {change : ChangeJustification} (hsources : change.sources ≠ [])
    (hfingerprint : (sampleAppend fixDoc).fingerprint digest =
      (sampleAppend change).fingerprint digest) :
    (sampleAppend change).persist digest
        (runChanges digest [.market (sampleAppend fixDoc) before .fresh]) before .replay =
      .ok (runChanges digest [.market (sampleAppend fixDoc) before .fresh]) := by
  obtain ⟨record, hrecord, htable⟩ := runChanges_sample digest before
  obtain ⟨hoperation, hresource, -, hstored⟩ := GovernedCommand.changeRecord_eq_ok hrecord
  have hnew : ∃ record', (sampleAppend change).changeRecord digest before = .ok record' :=
    GovernedCommand.exists_changeRecord hsources
  obtain ⟨record', hrecord'⟩ := hnew
  obtain ⟨hoperation', hresource', -, -⟩ := GovernedCommand.changeRecord_eq_ok hrecord'
  rw [htable]
  refine bind_eq_ok.mpr ⟨record', hrecord', ?_⟩
  -- The table already holds a record of this operation, resource and fingerprint.
  have hfound : ∃ row ∈ [(Fingerprint.sampleOwner.tenantId, record)],
      sameRequest (sampleAppend change).command.owner.tenantId record'.input.operation
        record'.input.resource ((sampleAppend change).fingerprint digest) row := by
    refine ⟨_, List.mem_cons_self, rfl, ?_, ?_, hstored.trans hfingerprint⟩
    · rw [hoperation, hoperation']
      rfl
    · rw [hresource, hresource']
      rfl
  rw [persistGovernanceOutcome, verifyChangeReplay, if_pos hfound]
  rfl

/-- The two samples show both directions, and a replay of the first finds its own justification. -/
theorem governed_replay_samples :
    ¬ GovernedCommand.Binds sampleDigest (sampleAppend fixDoc) (sampleAppend fixdOc) ∧
    GovernedCommand.Binds sampleDigest (sampleAppend fixDoc) (sampleAppend fixDoc) ∧
    ∃ row ∈ runChanges sampleDigest [.market (sampleAppend fixDoc) sampleHash .fresh],
      sameRequest Fingerprint.sampleOwner.tenantId .appendMarketFact
        ⟨.marketFact, Fingerprint.sampleTrade.id, none⟩
        ((sampleAppend fixDoc).fingerprint sampleDigest) row ∧
      row.2.input.change = fixDoc := by
  obtain ⟨hbinds, hreplay⟩ := governed_replay_bound sampleDigest
  have hshort : (changeBytes fixDoc).length < 2 ^ 63 := by decide +kernel
  have hself : ¬ GovernedCommand.Recut sampleDigest (sampleAppend fixDoc) (sampleAppend fixDoc) :=
    fun h => h.2.2.2.1 rfl
  refine ⟨fun h => ?_, ?_, ?_⟩
  · exact (hbinds _ _ (sampleAppend_apart sampleDigest hshort changeBytes_fixDoc)).mp h
      (sampleAppend_recut sampleDigest)
  · exact (hbinds _ _ (sampleAppend_apart sampleDigest hshort rfl)).mpr hself
  · refine hreplay _ _ sampleHash _ (fun d hd => ?_) (replay_sample sampleDigest sampleHash
      (by simp [fixDoc, sampleChange]) rfl)
    simp only [List.map_cons, ChangeStep.command?, List.map_nil, List.mem_singleton,
      Option.some.injEq] at hd
    subst hd
    exact ⟨sampleAppend_apart sampleDigest hshort rfl, hself⟩

/-- The reason `fix` with the source `doc` is stored; the reason `fixd` with the source `oc` has the
    same fingerprint and is accepted as its replay. -/
theorem recut_accepted_as_replay :
    GovernedCommand.newAppend sampleDigest (sampleAppend fixDoc).context Fingerprint.sampleTrade =
      .ok (sampleAppend fixDoc) ∧
    GovernedCommand.newAppend sampleDigest (sampleAppend fixdOc).context Fingerprint.sampleTrade =
      .ok (sampleAppend fixdOc) ∧
    (sampleAppend fixDoc).fingerprint sampleDigest =
      (sampleAppend fixdOc).fingerprint sampleDigest ∧
    fixDoc.reason ≠ fixdOc.reason ∧ fixDoc.sources ≠ fixdOc.sources ∧
    (let table := runChanges sampleDigest [.market (sampleAppend fixDoc) sampleHash .fresh]
     (sampleAppend fixdOc).persist sampleDigest table sampleHash .replay = .ok table ∧
     ∀ row ∈ table, row.2.input.change ≠ fixdOc) := by
  -- nothing depends on which digest and which table hash the sample takes
  generalize sampleDigest = digest, sampleHash = before
  have hfingerprint :
      (sampleAppend fixDoc).fingerprint digest = (sampleAppend fixdOc).fingerprint digest :=
    (GovernedCommand.fingerprint_eq_iff (sampleAppend_apart digest (by decide +kernel)
      changeBytes_fixDoc)).mpr ⟨rfl, rfl, rfl, changeBytes_fixDoc⟩
  have hdifferent : fixDoc ≠ fixdOc := by decide +kernel
  refine ⟨rfl, rfl, hfingerprint, by decide +kernel, by decide +kernel,
    replay_sample digest before (by simp [fixdOc, sampleChange]) hfingerprint, fun row hmem => ?_⟩
  obtain ⟨record, hrecord, htable⟩ := runChanges_sample digest before
  rw [htable] at hmem
  obtain rfl := List.mem_singleton.mp hmem
  rw [(GovernedCommand.changeRecord_eq_ok hrecord).2.2.1]
  exact hdifferent

end Ficant
