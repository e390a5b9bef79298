import Ficant.Research.ExperimentRun
import Ficant.Research.JournalBytes
import Ficant.Research.ResearchGraph

namespace Ficant

open Lib

/-!
# Formal output evidence

What a formal output was computed from, and the bytes its identity is a digest of
(`ficant-runtime/src/native_execution.rs`).

* `CanonicalWriter` — a magic text, the name of the record and tagged fields;
* `FormalInputBinding`, `CodeBinding`, `RuntimeBinding`, `FormalImplementationBinding` — the parts;
* `FormalOutputEvidence.new` — sorts the inputs and implementations by role and refuses roles that
  occur twice.
-/

/-! ### The canonical writer -/

namespace CanonicalWriter

/-- `CanonicalWriter::field`. -/
def field (tag : ℕ) (value : List UInt8) : List UInt8 := taggedField (bigEndian 2 tag) value

/-- `CanonicalWriter::new`. -/
def new (domain : String) : List UInt8 :=
  utf8 "FICANT-EVIDENCE" ++ [0] ++ field 1 (utf8 domain)

/-- `CanonicalWriter::u64`. -/
def u64 (tag value : ℕ) : List UInt8 := field tag (bigEndian 8 value)

/-- `CanonicalWriter::optional_u64`. -/
def optionalU64 (tag : ℕ) (value : Option ℕ) : List UInt8 :=
  field tag (writeOptional (bigEndian 8) value)

/-- `CanonicalWriter::optional`. -/
def optional (tag : ℕ) (value : Option (List UInt8)) : List UInt8 :=
  field tag (writeOptional (taggedField []) value)

end CanonicalWriter

/-! ### Names -/

/-- `ensure_git_sha`. -/
def ensureGitSha (value : String) : Except DomainErrorCode Unit :=
  if value.toList.length ≠ 40 ∨
      ¬value.toList.all (fun c => c.isDigit || ('a' ≤ c && c ≤ 'f')) then .error .invalidValue
  else .ok ()

/-- `ensure_role`. -/
def ensureRole (value : String) : Except DomainErrorCode Unit :=
  if value = "" ∨ 128 < (utf8 value).length ∨ trim value ≠ value ∨
      ¬value.toList.all (fun c => c.isLower || c.isDigit || c = '.' || c = '_' || c = '-') then
    .error .invalidValue
  else .ok ()

/-- `u8::is_ascii_whitespace`. -/
def isAsciiWhitespace (c : Char) : Bool := c = ' ' || c = '\t' || c = '\n' || c = '\r' || c.toNat = 12

/-- `ensure_stable_identity`. -/
def ensureStableIdentity (value : String) : Except DomainErrorCode Unit :=
  if value = "" ∨ 256 < (utf8 value).length ∨ trim value ≠ value ∨
      ¬value.toList.all (fun c => c.toNat < 128) ∨ value.toList.any isAsciiWhitespace then
    .error .invalidValue
  else .ok ()

/-! ### Input bindings -/

/-- `FormalInputKind`. -/
inductive FormalInputKind
  | subject | dataSnapshot | universeSnapshot | rulePack | artifact | definition | instrument
  | calendar | unit | dataSource | curveSnapshot | factorDefinition | positionSnapshot
  | dataHealthProfile | curveNodeDefinition | portfolio | book | portfolioGroup | benchmark
  | portfolioMetricConvention | fact | portfolioValuationSnapshot | benchmarkLevelSnapshot
  | portfolioPerformanceConvention
  deriving DecidableEq, Repr

namespace FormalInputKind

/-- `FormalInputKind::code`. -/
def code : FormalInputKind → ℕ
  | subject => 1
  | dataSnapshot => 2
  | universeSnapshot => 3
  | rulePack => 4
  | artifact => 5
  | definition => 6
  | instrument => 7
  | calendar => 8
  | unit => 9
  | dataSource => 10
  | curveSnapshot => 11
  | factorDefinition => 12
  | positionSnapshot => 13
  | dataHealthProfile => 14
  | curveNodeDefinition => 15
  | portfolio => 16
  | book => 17
  | portfolioGroup => 18
  | benchmark => 19
  | portfolioMetricConvention => 20
  | fact => 21
  | portfolioValuationSnapshot => 22
  | benchmarkLevelSnapshot => 23
  | portfolioPerformanceConvention => 24

/-- `FormalInputKind::uses_named_reference`. -/
def usesNamedReference : FormalInputKind → Bool
  | factorDefinition | curveNodeDefinition => true
  | _ => false

/-- `FormalInputKind::uses_versioned_object`. -/
def usesVersionedObject : FormalInputKind → Bool
  | subject | rulePack | definition | instrument | calendar | unit | dataSource
  | dataHealthProfile | portfolio | book | portfolioGroup | benchmark
  | portfolioMetricConvention | portfolioPerformanceConvention | fact => true
  | _ => false

end FormalInputKind

/-- `NamedContentRef`. -/
structure NamedContentRef where
  identity : String
  contentHash : ContentHash
  identity_stable : ensureStableIdentity identity = .ok ()
  deriving DecidableEq

/-- `FormalInputReference`. -/
inductive FormalInputReference
  | object (reference : LineageRef)
  | named (reference : NamedContentRef)
  deriving DecidableEq

/-- `object_reference_bytes`. -/
def objectReferenceBytes (reference : LineageRef) : List UInt8 :=
  CanonicalWriter.new "exact-lineage-reference/v1" ++
    CanonicalWriter.field 2 (utf8 reference.objectId.text) ++
    CanonicalWriter.optionalU64 3 (reference.version.map Version.value) ++
    CanonicalWriter.optional 4 (reference.contentHash.map ContentHash.bytes)

/-- `FormalInputReference::canonical_bytes`. -/
def FormalInputReference.canonicalBytes : FormalInputReference → List UInt8
  | .object reference => CanonicalWriter.new "formal-input-reference/v1" ++
      CanonicalWriter.field 2 [1] ++ CanonicalWriter.field 3 (objectReferenceBytes reference)
  | .named reference => CanonicalWriter.new "formal-input-reference/v1" ++
      CanonicalWriter.field 2 [2] ++ CanonicalWriter.field 3 (utf8 reference.identity) ++
      CanonicalWriter.field 4 reference.contentHash.bytes

/-- `owner_bytes`. -/
def ownerBytes (owner : OwnerRef) : List UInt8 :=
  CanonicalWriter.new "owner-ref/v1" ++ CanonicalWriter.field 2 (utf8 owner.tenantId.text) ++
    CanonicalWriter.field 3 (utf8 owner.ownerId.text)

/-- `market_time_bytes`. -/
def marketTimeBytes (time : MarketTime) : List UInt8 :=
  CanonicalWriter.new "market-time/v1" ++ CanonicalWriter.field 2 (secondsBytes time.instant) ++
    CanonicalWriter.field 3 (nanosBytes time.instant) ++
    CanonicalWriter.field 4 (utf8 time.marketTimezone) ++
    CanonicalWriter.field 5 (utf8 time.localTradingDate.text)

/-- `FormalInputBindingInput`. -/
structure FormalInputBindingInput where
  role : String
  kind : FormalInputKind
  owner : OwnerRef
  reference : FormalInputReference
  observedAt : Option MarketTime
  visibleAt : Option MarketTime
  effectiveFrom : Option MarketTime
  effectiveTo : Option MarketTime
  deriving DecidableEq

/-- `validate_reference`. -/
def validateReference (kind : FormalInputKind) (reference : FormalInputReference) :
    Except DomainErrorCode Unit :=
  match kind.usesNamedReference, reference with
  | true, .named _ => .ok ()
  | true, .object _ | false, .named _ => .error .brokenLineage
  | false, .object reference =>
    if reference.contentHash = none ∨ reference.version.isSome ≠ kind.usesVersionedObject then
      .error .brokenLineage
    else .ok ()

/-- `validate_times`. -/
def validateTimes (observedAt visibleAt effectiveFrom effectiveTo : Option MarketTime) :
    Except DomainErrorCode Unit :=
  if (∃ o ∈ observedAt, ∃ v ∈ visibleAt, v.instant < o.instant) ∨
      effectiveFrom.isSome ≠ effectiveTo.isSome ∨
      (∃ f ∈ effectiveFrom, ∃ t ∈ effectiveTo, t.instant ≤ f.instant) then
    .error .invalidEffectiveTime
  else .ok ()

/-- The checks of `FormalInputBinding::new`. -/
def FormalInputBindingInput.validate (input : FormalInputBindingInput) :
    Except DomainErrorCode Unit := do
  ensureRole input.role
  validateReference input.kind input.reference
  validateTimes input.observedAt input.visibleAt input.effectiveFrom input.effectiveTo

/-- `FormalInputBinding`: a checked input. -/
structure FormalInputBinding extends FormalInputBindingInput where
  valid : toFormalInputBindingInput.validate = .ok ()
  deriving DecidableEq

namespace FormalInputBinding

/-- `FormalInputBinding::new`. -/
def new (input : FormalInputBindingInput) : Except DomainErrorCode FormalInputBinding :=
  match h : input.validate with
  | .error code => .error code
  | .ok () => .ok ⟨input, h⟩

/-- `FormalInputBinding::canonical_bytes`. -/
def canonicalBytes (binding : FormalInputBinding) : List UInt8 :=
  CanonicalWriter.new "formal-input-binding/v1" ++
    CanonicalWriter.field 2 (utf8 binding.role) ++
    CanonicalWriter.field 3 (bigEndian 1 binding.kind.code) ++
    CanonicalWriter.field 4 (ownerBytes binding.owner) ++
    CanonicalWriter.field 5 binding.reference.canonicalBytes ++
    CanonicalWriter.optional 6 (binding.observedAt.map marketTimeBytes) ++
    CanonicalWriter.optional 7 (binding.visibleAt.map marketTimeBytes) ++
    CanonicalWriter.optional 8 (binding.effectiveFrom.map marketTimeBytes) ++
    CanonicalWriter.optional 9 (binding.effectiveTo.map marketTimeBytes)

end FormalInputBinding

/-! ### Code, runtime and implementations -/

/-- `CodeBinding`. -/
structure CodeBinding where
  gitCommitSha : String
  gitTreeSha : String
  digest : ContentHash
  deriving DecidableEq

namespace CodeBinding

/-- `code_digest`. -/
def codeDigest (digest : List UInt8 → ContentHash) (commit tree : String) : ContentHash :=
  digest (CanonicalWriter.new "code-binding-digest/v1" ++ CanonicalWriter.field 2 (utf8 commit) ++
    CanonicalWriter.field 3 (utf8 tree))

/-- `CodeBinding::new`. -/
def new (digest : List UInt8 → ContentHash) (gitCommitSha gitTreeSha : String) :
    Except DomainErrorCode CodeBinding := do
  ensureGitSha gitCommitSha
  ensureGitSha gitTreeSha
  pure ⟨gitCommitSha, gitTreeSha, codeDigest digest gitCommitSha gitTreeSha⟩

/-- `CodeBinding::canonical_bytes`. -/
def canonicalBytes (binding : CodeBinding) : List UInt8 :=
  CanonicalWriter.new "code-binding/v1" ++ CanonicalWriter.field 2 (utf8 binding.gitCommitSha) ++
    CanonicalWriter.field 3 (utf8 binding.gitTreeSha) ++
    CanonicalWriter.field 4 binding.digest.bytes

end CodeBinding

/-- `RuntimeBinding`. -/
structure RuntimeBinding where
  imageDigest : ContentHash
  environmentDigest : ContentHash
  deriving DecidableEq

/-- `RuntimeBinding::canonical_bytes`. -/
def RuntimeBinding.canonicalBytes (binding : RuntimeBinding) : List UInt8 :=
  CanonicalWriter.new "runtime-binding/v1" ++ CanonicalWriter.field 2 binding.imageDigest.bytes ++
    CanonicalWriter.field 3 binding.environmentDigest.bytes

/-- `FormalImplementationBinding`. -/
structure FormalImplementationBinding where
  role : String
  digest : ContentHash
  role_valid : ensureRole role = .ok ()
  deriving DecidableEq

/-- `FormalImplementationBinding::canonical_bytes`. -/
def FormalImplementationBinding.canonicalBytes (binding : FormalImplementationBinding) :
    List UInt8 :=
  CanonicalWriter.new "formal-implementation-binding/v1" ++
    CanonicalWriter.field 2 (utf8 binding.role) ++ CanonicalWriter.field 3 binding.digest.bytes

/-! ### Evidence -/

/-- `FormalOutputEvidenceInput`. -/
structure FormalOutputEvidenceInput where
  schemaId : String
  subject : FormalInputBinding
  consumedInputs : List FormalInputBinding
  code : CodeBinding
  runtime : RuntimeBinding
  implementations : List FormalImplementationBinding
  parametersHash : ContentHash
  seed : Option ℕ
  resultHash : ContentHash
  deriving DecidableEq

/-- `FormalOutputEvidence`: the sorted input and its identity. -/
structure FormalOutputEvidence extends FormalOutputEvidenceInput where
  outputIdentity : ContentHash
  deriving DecidableEq

/-- `FormalOutputEvidence::identity_bytes`. -/
def FormalOutputEvidenceInput.identityBytes (evidence : FormalOutputEvidenceInput) : List UInt8 :=
  CanonicalWriter.new "ficant/formal-output-evidence/v1" ++
    CanonicalWriter.field 2 (utf8 evidence.schemaId) ++
    CanonicalWriter.field 3 evidence.subject.canonicalBytes ++
    (CanonicalWriter.u64 4 evidence.consumedInputs.length ++
      evidence.consumedInputs.flatMap fun input => CanonicalWriter.field 5 input.canonicalBytes) ++
    CanonicalWriter.field 6 evidence.code.canonicalBytes ++
    CanonicalWriter.field 7 evidence.runtime.canonicalBytes ++
    (CanonicalWriter.u64 8 evidence.implementations.length ++
      evidence.implementations.flatMap fun implementation =>
        CanonicalWriter.field 9 implementation.canonicalBytes) ++
    CanonicalWriter.field 10 evidence.parametersHash.bytes ++
    CanonicalWriter.optionalU64 11 evidence.seed ++
    CanonicalWriter.field 12 evidence.resultHash.bytes

namespace FormalOutputEvidence

/-- The order of `compare_inputs`: by role, then by canonical bytes. -/
def inputKey (binding : FormalInputBinding) : String ×ₗ List ℕ :=
  toLex (binding.role, binding.canonicalBytes.map UInt8.toNat)

/-- `FormalOutputEvidence::new`. -/
def new (digest : List UInt8 → ContentHash) (input : FormalOutputEvidenceInput) :
    Except DomainErrorCode FormalOutputEvidence := do
  ensureStableIdentity input.schemaId
  if input.subject.kind ≠ .subject ∨ input.subject.role ≠ "subject" then .error .brokenLineage
  else
    let consumedInputs := input.consumedInputs.insertionSort fun a b => inputKey a ≤ inputKey b
    if ResearchGraph.adjacentEqual (fun b : FormalInputBinding => b.role) consumedInputs ∨
        consumedInputs.any (fun binding => binding.role = "subject") then .error .brokenLineage
    else
      let implementations := input.implementations.insertionSort fun a b => a.role ≤ b.role
      if ResearchGraph.adjacentEqual FormalImplementationBinding.role implementations then
        .error .invalidValue
      else
        let sorted := { input with consumedInputs, implementations }
        pure ⟨sorted, digest sorted.identityBytes⟩

end FormalOutputEvidence

end Ficant
