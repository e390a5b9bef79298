import Ficant.Runtime.FormalEvidence
import Ficant.Runtime.GraphExecution

namespace Ficant

open Lib

/-!
# Reproducibility identities

Everything that may change the result of a native graph run, frozen under one digest
(`ficant-runtime/src/native_execution.rs`).

* `ReproducibilityIdentity.build` — sorts the caller's lists, checks that they cover the graph and
  digests the canonical bytes; `new` and `newFormal` call it without and with a subject and code;
* `ExecutionInstanceIdentity` — such an identity for one run.
-/

/-- `NodeImplementation`. -/
structure NodeImplementation where
  nodeId : Ulid
  implementationDigest : ContentHash
  deriving DecidableEq

/-- `RulePackBinding`. -/
structure RulePackBinding where
  rulePackId : String
  version : Version
  contentHash : ContentHash
  deriving DecidableEq

/-- The derived order of `RulePackBinding`: by identifier, version and hash. -/
def RulePackBinding.key (binding : RulePackBinding) : String ×ₗ ℕ ×ₗ List ℕ :=
  toLex (binding.rulePackId,
    toLex (binding.version.value, binding.contentHash.bytes.map UInt8.toNat))

/-- `ExecutionExternalInput`. -/
structure ExecutionExternalInput where
  inputId : String
  valueType : TypedValue
  payload : List UInt8
  contentHash : ContentHash
  deriving DecidableEq

/-- `ExecutionExternalInput::new`. -/
def ExecutionExternalInput.new (digest : List UInt8 → ContentHash) (inputId : String)
    (valueType : TypedValue) (payload : List UInt8) : Except RuntimeError ExecutionExternalInput :=
  if inputId = "" ∨ trim inputId ≠ inputId ∨ payload = [] then .error invalidValue
  else .ok ⟨inputId, valueType, payload, digest payload⟩

/-- `ReproducibilityIdentityInput`. -/
structure ReproducibilityIdentityInput where
  externalInputs : List ExecutionExternalInput
  dataSnapshotHash : ContentHash
  universeSnapshotHash : ContentHash
  parametersHash : ContentHash
  runtimeImageDigest : ContentHash
  environmentDigest : ContentHash
  seed : ℕ
  rulePackBindings : List RulePackBinding
  nodeImplementations : List NodeImplementation
  deriving DecidableEq

/-- The fields of `ReproducibilityIdentity` that its digest is made of. -/
structure ReproducibilityContent where
  externalInputs : List ExecutionExternalInput
  rulePackBindings : List RulePackBinding
  dataSnapshotHash : ContentHash
  universeSnapshotHash : ContentHash
  graphDigest : ContentHash
  parametersHash : ContentHash
  runtimeImageDigest : ContentHash
  environmentDigest : ContentHash
  seed : ℕ
  nodeImplementations : List NodeImplementation
  subject : Option FormalInputBinding
  code : Option CodeBinding
  deriving DecidableEq

/-- `ReproducibilityIdentity`. -/
structure ReproducibilityIdentity extends ReproducibilityContent where
  digest : ContentHash
  deriving DecidableEq

/-! ### The bytes of an identity -/

/-- The bytes of an external input: its payload enters through its hash. -/
def externalInputBytes (input : ExecutionExternalInput) : List UInt8 :=
  prefixedText input.inputId ++ ResearchGraph.typedValueBytes input.valueType ++
    input.contentHash.bytes

/-- The bytes of a rule pack binding. -/
def rulePackBytes (binding : RulePackBinding) : List UInt8 :=
  prefixedText binding.rulePackId ++ bigEndian 8 binding.version.value ++ binding.contentHash.bytes

/-- The bytes of a node implementation. -/
def implementationBytes (binding : NodeImplementation) : List UInt8 :=
  prefixedText binding.nodeId.text ++ binding.implementationDigest.bytes

namespace ReproducibilityContent

/-- The part of the canonical bytes that every identity has, behind the magic text. -/
def commonBytes (c : ReproducibilityContent) : List UInt8 :=
  writeList externalInputBytes c.externalInputs ++ writeList rulePackBytes c.rulePackBindings ++
    c.graphDigest.bytes ++ c.dataSnapshotHash.bytes ++ c.universeSnapshotHash.bytes ++
    c.parametersHash.bytes ++ c.runtimeImageDigest.bytes ++ c.environmentDigest.bytes ++
    bigEndian 8 c.seed ++ writeList implementationBytes c.nodeImplementations

/-- `ReproducibilityIdentity::canonical_bytes`: version 2 ends with the subject and the code. -/
def canonicalBytes (c : ReproducibilityContent) : List UInt8 :=
  match c.subject, c.code with
  | some subject, some code =>
    utf8 "ficant/reproducibility-identity/v2" ++ c.commonBytes ++
      taggedField [] subject.canonicalBytes ++ taggedField [] code.canonicalBytes
  | _, _ => utf8 "ficant/reproducibility-identity/v1" ++ c.commonBytes

end ReproducibilityContent

/-! ### The constructor -/

namespace ReproducibilityIdentity

/-- The external inputs cover the graph's declarations. -/
def inputsCover (graph : ResearchGraph) (externalInputs : List ExecutionExternalInput) : Bool :=
  !ResearchGraph.adjacentEqual ExecutionExternalInput.inputId externalInputs &&
    externalInputs.length = graph.externalInputs.length &&
    (externalInputs.zip graph.externalInputs).all fun pair =>
      pair.1.inputId = pair.2.inputId ∧ pair.1.valueType = pair.2.valueType

/-- The implementations cover the graph's nodes. -/
def implementationsCover (graph : ResearchGraph) (implementations : List NodeImplementation) :
    Bool :=
  !ResearchGraph.adjacentEqual NodeImplementation.nodeId implementations &&
    implementations.length = graph.nodes.length &&
    (implementations.zip graph.nodes).all fun pair => pair.1.nodeId = pair.2.nodeId

/-- `ReproducibilityIdentity::build`. -/
def build (digest : List UInt8 → ContentHash) (graph : ResearchGraph)
    (input : ReproducibilityIdentityInput) (subject : Option FormalInputBinding)
    (code : Option CodeBinding) : Except RuntimeError ReproducibilityIdentity :=
  let externalInputs := input.externalInputs.insertionSort fun a b => a.inputId ≤ b.inputId
  if !inputsCover graph externalInputs then .error invalidValue
  else
    let nodeImplementations := input.nodeImplementations.insertionSort fun a b => a.nodeId ≤ b.nodeId
    if !implementationsCover graph nodeImplementations then .error invalidValue
    else if input.rulePackBindings.any (fun binding =>
        binding.rulePackId = "" ∨ trim binding.rulePackId ≠ binding.rulePackId) then
      .error invalidValue
    else
      let rulePackBindings := input.rulePackBindings.insertionSort fun a b => a.key ≤ b.key
      if ResearchGraph.adjacentEqual (fun b : RulePackBinding => (b.rulePackId, b.version))
          rulePackBindings then .error invalidValue
      else
        let content : ReproducibilityContent :=
          { externalInputs, rulePackBindings, nodeImplementations, subject, code
            dataSnapshotHash := input.dataSnapshotHash
            universeSnapshotHash := input.universeSnapshotHash
            graphDigest := graph.digest
            parametersHash := input.parametersHash
            runtimeImageDigest := input.runtimeImageDigest
            environmentDigest := input.environmentDigest
            seed := input.seed }
        .ok ⟨content, digest content.canonicalBytes⟩

/-- `ReproducibilityIdentity::new`. -/
def new (digest : List UInt8 → ContentHash) (graph : ResearchGraph)
    (input : ReproducibilityIdentityInput) : Except RuntimeError ReproducibilityIdentity :=
  build digest graph input none none

/-- `ReproducibilityIdentity::new_formal`. -/
def newFormal (digest : List UInt8 → ContentHash) (graph : ResearchGraph)
    (input : ReproducibilityIdentityInput) (subject : FormalInputBinding) (code : CodeBinding) :
    Except RuntimeError ReproducibilityIdentity :=
  if subject.kind ≠ .subject ∨ subject.role ≠ "subject" then .error invalidValue
  else build digest graph input (some subject) (some code)

/-- `ReproducibilityIdentity::implementation`; the bindings are sorted, so the binary search finds
    the node's. -/
def implementation (identity : ReproducibilityIdentity) (nodeId : Ulid) : Option ContentHash :=
  (identity.nodeImplementations.find? fun binding => binding.nodeId = nodeId).map
    NodeImplementation.implementationDigest

end ReproducibilityIdentity

/-- `ExecutionInstanceIdentity`. -/
structure ExecutionInstanceIdentity where
  runId : Ulid
  reproducibility : ReproducibilityIdentity
  digest : ContentHash
  deriving DecidableEq

/-- `ExecutionInstanceIdentity::from_reproducibility`. -/
def ExecutionInstanceIdentity.fromReproducibility (digest : List UInt8 → ContentHash) (runId : Ulid)
    (reproducibility : ReproducibilityIdentity) : ExecutionInstanceIdentity :=
  ⟨runId, reproducibility, digest (utf8 "ficant/execution-instance-identity/v1" ++
    prefixedText runId.text ++ reproducibility.digest.bytes)⟩

end Ficant
