import Ficant.Application.FingerprintBinding
import Ficant.Platform.Registry

namespace Ficant

open Lib

/-!
# Governed changes

A change to foundation data carries who made it and why (`ficant-domain/src/governance.rs`,
`ficant-application/src/ports/governance.rs`, `ports/access.rs`, `ports/facts.rs`), and leaves a record
(`ficant-storage/src/postgres/governance.rs`).

* `ChangeJustification` — a reason and the documents behind it, sorted and without repetition;
* `FoundationChangeContext` — a principal with a justification;
* `MarketCommand` — append a fact, correct one, or publish a curve snapshot; `GovernedCommand` is
  such a command in a context, and `GovernedCommand.fingerprint` its identity;
* `FoundationChangeRecord` — what is stored of a governed change;
* `persistGovernanceOutcome` — a fresh change is recorded, a replay must find its record.

The evidence for units and rules that a fact command carries is not modelled: no fingerprint reads it.
-/

/-- `map_domain_error`. -/
def mapDomainError : DomainErrorCode → ApplicationError
  | .invalidId | .invalidUnit | .invalidEffectiveTime | .invalidValue => ⟨.validationFailed, false⟩
  | .versionConflict => ⟨.versionConflict, true⟩
  | .contentHashMismatch => ⟨.hashMismatch, false⟩
  | .brokenLineage => ⟨.lineageIncomplete, false⟩
  | .invalidStateTransition => ⟨.stateConflict, false⟩
  | .journalSequenceConflict => ⟨.concurrencyConflict, true⟩

/-- `char::is_control`: the characters of the Unicode category `Cc`. -/
def isControl (c : Char) : Bool := c.toNat ≤ 0x1F ∨ (0x7F ≤ c.toNat ∧ c.toNat ≤ 0x9F)

/-- A name of bounded size without control characters. -/
def boundedText (limit : ℕ) (s : String) : Bool :=
  properName s ∧ (utf8 s).length ≤ limit ∧ (s.toList.any isControl) = false

/-! ### Justifications -/

/-- `SourceDocumentRef`. -/
structure SourceDocumentRef where
  uri : String
  sha256 : ContentHash
  valid : boundedText 2048 uri = true

/-- `SourceDocumentRef::new`. -/
def SourceDocumentRef.new (uri : String) (sha256 : ContentHash) :
    Except DomainErrorCode SourceDocumentRef :=
  if h : boundedText 2048 uri = true then .ok ⟨uri, sha256, h⟩ else .error .invalidValue

/-- The derived order: by `uri`, then by hash. -/
def SourceDocumentRef.key (source : SourceDocumentRef) : String ×ₗ List ℕ :=
  toLex (source.uri, source.sha256.bytes.map UInt8.toNat)

theorem SourceDocumentRef.key_injective : Function.Injective SourceDocumentRef.key := by
  rintro ⟨ua, ha, _⟩ ⟨ub, hb, _⟩ h
  simp only [SourceDocumentRef.key, toLex_inj, Prod.mk.injEq] at h
  obtain ⟨rfl, hbytes⟩ := h
  obtain rfl := ContentHash.ext_bytes
    (List.map_injective_iff.mpr (fun _ _ => UInt8.toNat_inj.mp) hbytes)
  rfl

instance : LinearOrder SourceDocumentRef :=
  LinearOrder.lift' SourceDocumentRef.key SourceDocumentRef.key_injective

/-- `validate_reason`, as a check. -/
def validReason (reason : String) : Bool := boundedText 1024 reason

/-- `ChangeJustification`. -/
structure ChangeJustification where
  reason : String
  sources : List SourceDocumentRef
  reason_valid : validReason reason = true
  sorted : sources.Pairwise (· < ·)
  deriving DecidableEq

/-- `ChangeJustification::new`. -/
def ChangeJustification.new (reason : String) (sources : List SourceDocumentRef) :
    Except DomainErrorCode ChangeJustification :=
  if h : validReason reason = true then
    let sorted := SortedMap.sortedSet sources
    if sorted = [] then .error .invalidValue
    else .ok ⟨reason, sorted, h, SortedMap.sortedSet_sorted sources⟩
  else .error .invalidValue

/-- `ChangeJustification::for_authorized_import`. -/
def ChangeJustification.forAuthorizedImport (reason : String) :
    Except DomainErrorCode ChangeJustification :=
  if h : validReason reason = true then .ok ⟨reason, [], h, .nil⟩ else .error .invalidValue

/-- `ChangeJustification::is_authorized_import_reason`. -/
def ChangeJustification.isAuthorizedImportReason (change : ChangeJustification) : Bool :=
  change.sources.isEmpty

/-! ### Principals -/

open Platform in
/-- `platform_role_code`. -/
def platformRoleCode : PlatformRole → UInt8
  | .platformAdmin => 1
  | .researcher => 2

/-- A scope that `AuthorizedPrincipal::new` accepts. -/
def validScope (scope : String) : Bool :=
  properName scope ∧ (utf8 scope).length ≤ 128 ∧
    scope.toList.all fun c => c.isAlphanum || c == ':' || c == '-' || c == '_' || c == '.'

namespace Platform.AuthorizedPrincipal

variable (digest : List UInt8 → ContentHash)

/-- `AuthorizedPrincipal::new`, without the derived scope and fingerprint. -/
def new (subjectId : String) (actorId tenantId : Ulid) (allowedOwnerIds : List Ulid)
    (activeRole : PlatformRole) (scopes : List String) (credentialFingerprint : ContentHash) :
    Except ApplicationError AuthorizedPrincipal :=
  if boundedText 256 subjectId = true ∧ scopes.all validScope then
    if SortedMap.sortedSet allowedOwnerIds = [] then .error (mapDomainError .invalidValue)
    else .ok ⟨subjectId, actorId, tenantId, SortedMap.sortedSet allowedOwnerIds, activeRole,
      SortedMap.sortedSet scopes, credentialFingerprint⟩
  else .error (mapDomainError .invalidValue)

/-- The bytes behind the fingerprint of a principal. -/
def bytes (principal : AuthorizedPrincipal) : List UInt8 :=
  fingerprintBytes "authorized-principal/v1"
    ((2, utf8 principal.subjectId) :: (3, utf8 principal.actorId.text) ::
      (4, utf8 principal.tenantId.text) ::
      ((principal.allowedOwnerIds.map fun owner => ((5 : UInt8), utf8 owner.text)) ++
        (6, [platformRoleCode principal.activeRole]) ::
        ((principal.scopes.map fun scope => ((7 : UInt8), utf8 scope)) ++
          [(8, principal.credentialFingerprint.bytes)])))

/-- `AuthorizedPrincipal::fingerprint`. -/
def fingerprint (principal : AuthorizedPrincipal) : ContentHash := digest principal.bytes

/-- `AuthorizedPrincipal::access_scope`. -/
def accessScope (principal : AuthorizedPrincipal) : Except ApplicationError AccessScope :=
  AccessScope.new digest principal.tenantId principal.actorId principal.allowedOwnerIds

/-- `AuthorizedPrincipal::authorize_mutation`. -/
def authorizeMutation (principal : AuthorizedPrincipal) (requiredRole : PlatformRole)
    (requiredScope : String) (owner : OwnerRef) : Except ApplicationError Unit := do
  if principal.activeRole ≠ requiredRole then throw ⟨.forbidden, false⟩
  if requiredScope ∉ principal.scopes then throw ⟨.forbidden, false⟩
  let scope ← principal.accessScope digest
  scope.authorize owner

end Platform.AuthorizedPrincipal

/-- `FoundationChangeContext`. -/
structure FoundationChangeContext where
  principal : Platform.AuthorizedPrincipal
  change : ChangeJustification
  recordId : Ulid
  occurredAt : MarketTime
  deriving DecidableEq

/-- `FoundationChangeContext::administrator`. -/
def FoundationChangeContext.administrator (principal : Platform.AuthorizedPrincipal)
    (change : ChangeJustification) (recordId : Ulid) (occurredAt : MarketTime) :
    Except ApplicationError FoundationChangeContext :=
  if principal.activeRole ≠ .platformAdmin then .error ⟨.forbidden, false⟩
  else if change.isAuthorizedImportReason then .error (mapDomainError .invalidValue)
  else .ok ⟨principal, change, recordId, occurredAt⟩

/-! ### Records -/

/-- `FoundationResourceKind`. -/
inductive FoundationResourceKind
  | dataSource | dataSourceAuthorization | marketDefinition | marketFact | curveSnapshot
  | dataSnapshot | universeSnapshot | subject | subjectState | positionSnapshot
  | dataHealthThresholdProfile
  deriving DecidableEq, Repr

/-- `FoundationResourceKind::is_versioned`. -/
def FoundationResourceKind.isVersioned : FoundationResourceKind → Bool
  | .dataSource | .dataSourceAuthorization | .marketDefinition | .subject
  | .dataHealthThresholdProfile => true
  | _ => false

/-- `FoundationResourceRef`. -/
structure FoundationResourceRef where
  kind : FoundationResourceKind
  id : Ulid
  version : Option Version
  deriving DecidableEq

/-- `FoundationChangeOperation`. -/
inductive FoundationChangeOperation
  | registerDataSource | publishDataSourceAuthorization | appendMarketDefinition | appendMarketFact
  | correctMarketFact | publishCurveSnapshot | importCanonicalQuoteSnapshot
  | publishUniverseSnapshot | registerSubject | publishSubjectState | publishPositionSnapshot
  | configureDataHealthThreshold
  deriving DecidableEq, Repr

/-- `FoundationChangeOperation::resource_kind`. -/
def FoundationChangeOperation.resourceKind : FoundationChangeOperation → FoundationResourceKind
  | .registerDataSource => .dataSource
  | .publishDataSourceAuthorization => .dataSourceAuthorization
  | .appendMarketDefinition => .marketDefinition
  | .appendMarketFact | .correctMarketFact => .marketFact
  | .publishCurveSnapshot => .curveSnapshot
  | .importCanonicalQuoteSnapshot => .dataSnapshot
  | .publishUniverseSnapshot => .universeSnapshot
  | .registerSubject => .subject
  | .publishSubjectState => .subjectState
  | .publishPositionSnapshot => .positionSnapshot
  | .configureDataHealthThreshold => .dataHealthThresholdProfile

/-- `FoundationChangeRecordInput`. -/
structure FoundationChangeRecordInput where
  recordId : Ulid
  actorId : Ulid
  owner : OwnerRef
  activeRole : Platform.PlatformRole
  operation : FoundationChangeOperation
  resource : FoundationResourceRef
  beforeHash : Option ContentHash
  afterHash : ContentHash
  change : ChangeJustification
  requestFingerprint : ContentHash
  occurredAt : MarketTime
  authorizationRef : Option VersionRef
  deriving DecidableEq

/-- What `FoundationChangeRecord::new` refuses. -/
def FoundationChangeRecordInput.refused (input : FoundationChangeRecordInput) : Bool :=
  let isImport : Bool := input.operation = .importCanonicalQuoteSnapshot
  input.change.isAuthorizedImportReason != isImport ||
    isImport != input.authorizationRef.isSome ||
    (isImport && input.activeRole ≠ .researcher) ||
    (!isImport && input.activeRole ≠ .platformAdmin) ||
    input.resource.kind ≠ input.operation.resourceKind ||
    input.resource.version.isSome != input.resource.kind.isVersioned

/-- `FoundationChangeRecord`. -/
structure FoundationChangeRecord where
  input : FoundationChangeRecordInput
  valid : input.refused = false
  deriving DecidableEq

/-- `FoundationChangeRecord::new`. -/
def FoundationChangeRecord.new (input : FoundationChangeRecordInput) :
    Except DomainErrorCode FoundationChangeRecord :=
  if h : input.refused = false then .ok ⟨input, h⟩ else .error .invalidValue

/-! ### Governed market commands -/

/-- `VerifiedBlobRef`. -/
structure VerifiedBlobRef where
  contentHash : ContentHash
  size : ℕ
  fits : size < 2 ^ 64

instance : DecidableEq VerifiedBlobRef := fun a b =>
  decidable_of_iff
    (a.contentHash = b.contentHash ∧ a.size = b.size)
    (by cases a; cases b; simp)

/-- `AppendMarketFact`, `CorrectMarketFact` and `PublishCurveSnapshot`. -/
inductive MarketCommand
  | append (fact : MarketFact)
  | correct (originalFactId : Ulid) (correction : MarketFact)
  | publish (scope : AccessScope) (curve : CurveSnapshot) (verifiedBlob : VerifiedBlobRef)

namespace MarketCommand

open Fingerprint

/-- `AppendMarketFact::new`. -/
def newAppend (fact : MarketFact) : Except ApplicationError MarketCommand :=
  if fact.supersedesId.isSome then .error (mapDomainError .brokenLineage) else .ok (append fact)

/-- `CorrectMarketFact::new`. -/
def newCorrect (originalFactId : Ulid) (correction : MarketFact) :
    Except ApplicationError MarketCommand :=
  if correction.supersedesId ≠ some originalFactId then .error (mapDomainError .brokenLineage)
  else .ok (correct originalFactId correction)

/-- `PublishCurveSnapshot::new`. -/
def newPublish (scope : AccessScope) (curve : CurveSnapshot) (declaredBlobSize : ℕ)
    (verifiedBlob : VerifiedBlobRef) : Except ApplicationError MarketCommand := do
  scope.authorize curve.input.owner
  if curve.input.contentHash ≠ verifiedBlob.contentHash then
    throw (mapDomainError .contentHashMismatch)
  if declaredBlobSize = 0 ∨ declaredBlobSize ≠ verifiedBlob.size then
    throw (mapDomainError .invalidValue)
  if curve.input.lineage = [] then throw (mapDomainError .brokenLineage)
  return publish scope curve verifiedBlob

/-- The bytes behind the fingerprint of a command. -/
def bytes : MarketCommand → List UInt8
  | append fact => fingerprintBytes "append-market-fact/v1" [(2, factBytes fact)]
  | correct originalFactId correction =>
    fingerprintBytes "correct-market-fact/v1"
      [(2, utf8 originalFactId.text), (3, factBytes correction)]
  | publish scope curve verifiedBlob =>
    fingerprintBytes "publish-curve-snapshot/v1"
      [(2, scope.fingerprint.bytes), (3, ownerRefBytes curve.input.owner),
        (4, curveSnapshotBytes curve),
        (5, verifiedBlob.contentHash.bytes), (6, bigEndian 8 verifiedBlob.size)]

/-- The namespace of the governed fingerprint. -/
def governedNamespace : MarketCommand → String
  | append _ => "governed-append-market-fact/v1"
  | correct _ _ => "governed-correct-market-fact/v1"
  | publish _ _ _ => "governed-publish-curve-snapshot/v1"

/-- The operation of the change record. -/
def operation : MarketCommand → FoundationChangeOperation
  | append _ => .appendMarketFact
  | correct _ _ => .correctMarketFact
  | publish _ _ _ => .publishCurveSnapshot

/-- The owner of the fact or the curve. -/
def owner : MarketCommand → OwnerRef
  | append fact => fact.owner
  | correct _ correction => correction.owner
  | publish _ curve _ => curve.input.owner

/-- `FoundationResourceRef::unversioned` of the fact or the curve. -/
def resource : MarketCommand → FoundationResourceRef
  | append fact => ⟨.marketFact, fact.id, none⟩
  | correct _ correction => ⟨.marketFact, correction.id, none⟩
  | publish _ curve _ => ⟨.curveSnapshot, curve.input.curveSnapshotId, none⟩

/-- The hash of the fact that a correction replaces. -/
def beforeHash (before : ContentHash) : MarketCommand → Option ContentHash
  | correct _ _ => some before
  | _ => none

/-- The hash of the stored value; `market_fact_content_hash` of a fact. -/
def afterHash (digest : List UInt8 → ContentHash) : MarketCommand → ContentHash
  | append fact => digest (factBytes fact)
  | correct _ correction => digest (factBytes correction)
  | publish _ curve _ => curve.input.contentHash

end MarketCommand

/-- `change_bytes`. -/
def changeBytes (change : ChangeJustification) : List UInt8 :=
  utf8 change.reason ++ change.sources.flatMap fun source => utf8 source.uri ++ source.sha256.bytes

/-- The bytes behind `governed_fingerprint`. -/
def governedBytes (digest : List UInt8 → ContentHash) (space : String)
    (context : FoundationChangeContext) (command : ContentHash) (authorization : Option VersionRef) :
    List UInt8 :=
  fingerprintBytes space
    ((2, (context.principal.fingerprint digest).bytes) :: (3, command.bytes) ::
      (4, changeBytes context.change) ::
      authorization.elim [] fun reference => [(5, Fingerprint.versionRefBytes reference)])

/-- `GovernedAppendMarketFact`, `GovernedCorrectMarketFact` and `GovernedPublishCurveSnapshot`. -/
structure GovernedCommand where
  context : FoundationChangeContext
  command : MarketCommand

namespace GovernedCommand

variable (digest : List UInt8 → ContentHash)

/-- `MARKET_FACT_WRITE_SCOPE`. -/
def marketFactWriteScope : String := "facts:write"

/-- `GovernedAppendMarketFact::new`. -/
def newAppend (context : FoundationChangeContext) (fact : MarketFact) :
    Except ApplicationError GovernedCommand := do
  context.principal.authorizeMutation digest .platformAdmin marketFactWriteScope fact.owner
  let append ← MarketCommand.newAppend fact
  return ⟨context, append⟩

/-- `GovernedCorrectMarketFact::new`. -/
def newCorrect (context : FoundationChangeContext) (originalFactId : Ulid)
    (correction : MarketFact) : Except ApplicationError GovernedCommand := do
  context.principal.authorizeMutation digest .platformAdmin marketFactWriteScope correction.owner
  let correction ← MarketCommand.newCorrect originalFactId correction
  return ⟨context, correction⟩

/-- `GovernedPublishCurveSnapshot::new`. -/
def newPublish (context : FoundationChangeContext) (curve : CurveSnapshot) (declaredBlobSize : ℕ)
    (verifiedBlob : VerifiedBlobRef) : Except ApplicationError GovernedCommand := do
  context.principal.authorizeMutation digest .platformAdmin marketFactWriteScope curve.input.owner
  let scope ← context.principal.accessScope digest
  let publish ← MarketCommand.newPublish scope curve declaredBlobSize verifiedBlob
  return ⟨context, publish⟩

variable (c : GovernedCommand)

/-- The fingerprint of the command itself. -/
def commandFingerprint : ContentHash := digest c.command.bytes

/-- The authorization reference, which market commands never have. -/
def authorizationRef (_ : GovernedCommand) : Option VersionRef := none

/-- What the fingerprint of a governed command is the digest of. -/
def preimage : List UInt8 :=
  governedBytes digest c.command.governedNamespace c.context (c.commandFingerprint digest)
    c.authorizationRef

/-- `GovernedAppendMarketFact::fingerprint` and its two siblings. -/
def fingerprint : ContentHash := digest (c.preimage digest)

/-- `change_record`: for a correction `before` is the hash of the fact it corrects. -/
def changeRecord (before : ContentHash) : Except ApplicationError FoundationChangeRecord :=
  (FoundationChangeRecord.new
    { recordId := c.context.recordId
      actorId := c.context.principal.actorId
      owner := c.command.owner
      activeRole := .platformAdmin
      operation := c.command.operation
      resource := c.command.resource
      beforeHash := c.command.beforeHash before
      afterHash := c.command.afterHash digest
      change := c.context.change
      requestFingerprint := c.fingerprint digest
      occurredAt := c.context.occurredAt
      authorizationRef := c.authorizationRef }).mapError mapDomainError

end GovernedCommand

/-! ### The table of records -/

/-- `core.foundation_change_records` with the sources of each record. -/
abbrev ChangeTable := List (Ulid × FoundationChangeRecord)

/-- The unique key `(tenant_id, request_fingerprint, operation, resource_ref)` of a row. -/
def sameRequest (tenant : Ulid) (operation : FoundationChangeOperation)
    (resource : FoundationResourceRef) (fingerprint : ContentHash)
    (row : Ulid × FoundationChangeRecord) : Prop :=
  row.1 = tenant ∧ row.2.input.operation = operation ∧ row.2.input.resource = resource ∧
    row.2.input.requestFingerprint = fingerprint

instance (tenant : Ulid) (operation : FoundationChangeOperation) (resource : FoundationResourceRef)
    (fingerprint : ContentHash) : DecidablePred (sameRequest tenant operation resource fingerprint) :=
  fun _ => inferInstanceAs (Decidable (_ ∧ _ ∧ _ ∧ _))

/-- `insert_change`: the primary key and the unique key of the table are checked. -/
def insertChange (table : ChangeTable) (tenant : Ulid) (record : FoundationChangeRecord) :
    Except ApplicationError ChangeTable :=
  if ∃ row ∈ table, (row.1 = tenant ∧ row.2.input.recordId = record.input.recordId) ∨
      sameRequest tenant record.input.operation record.input.resource
        record.input.requestFingerprint row then
    .error ⟨.alreadyExists, false⟩
  else .ok (table ++ [(tenant, record)])

/-- `verify_change_replay`. -/
def verifyChangeReplay (table : ChangeTable) (tenant : Ulid) (operation : FoundationChangeOperation)
    (resource : FoundationResourceRef) (fingerprint : ContentHash) : Except ApplicationError Unit :=
  if ∃ row ∈ table, sameRequest tenant operation resource fingerprint row then .ok ()
  else .error ⟨.immutableViolation, false⟩

/-- `persist_governance_outcome`. -/
def persistGovernanceOutcome (table : ChangeTable) (tenant : Ulid) (change : FoundationChangeRecord)
    (fingerprint : ContentHash) : IdempotencyOutcome → Except ApplicationError ChangeTable
  | .fresh => insertChange table tenant change
  | .replay => do
    verifyChangeReplay table tenant change.input.operation change.input.resource fingerprint
    return table

/-- The governance part of `append_governed_fact`, `append_governed_correction` and
    `publish_governed_curve_snapshot`. -/
def GovernedCommand.persist (digest : List UInt8 → ContentHash) (table : ChangeTable)
    (c : GovernedCommand) (before : ContentHash) (outcome : IdempotencyOutcome) :
    Except ApplicationError ChangeTable := do
  let change ← c.changeRecord digest before
  persistGovernanceOutcome table c.command.owner.tenantId change (c.fingerprint digest) outcome

end Ficant
