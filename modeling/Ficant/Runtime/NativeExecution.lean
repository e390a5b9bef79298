import Ficant.Research.GraphOrder
import Ficant.Runtime.GraphReplay
import Ficant.Runtime.OutputEnvelope
import Ficant.Runtime.ReproducibilityIdentity

namespace Ficant

open Lib

/-!
# Native graph execution

The in-process run of a graph (`ficant-runtime/src/native_execution.rs`): every node's executor is
called in topological order, on the outputs of its upstream nodes and on the external inputs.

* `executeNativeNode` — one call, between a check of the inputs and a check of the outputs;
* `executeNativeGraphWithExternalInputs` — the entry checks, the loop over the order and the result;
* `GraphRun.calls` — the calls made so far, which no branch reads: it is what the results below are
  about;
* `GraphRun.Complete` — the invariant of the loop: the nodes called so far are a prefix of the
  order, each of their outputs is stored, and every call was fed by the graph's own edges.

An executor works "without external side effects", so it is a function of its request.
-/

/-- `broken`. -/
def broken : RuntimeError := .domain .brokenLineage

/-! ### Nodes and their executors -/

/-- `NativeNodeRequest`. -/
structure NativeNodeRequest (digest : List UInt8 → ContentHash) where
  node : ResearchNode
  identity : ReproducibilityIdentity
  inputs : List (NativePortValue digest)

/-- `NativeNode`. -/
structure NativeNode (digest : List UInt8 → ContentHash) where
  nodeId : Ulid
  implementationDigest : ContentHash
  execute : NativeNodeRequest digest → Except RuntimeError (List (NativePortValue digest))

/-- `NativeNodeArtifact`. -/
structure NativeNodeArtifact where
  nodeId : Ulid
  contractDigest : ContentHash
  implementationDigest : ContentHash
  inputArtifacts : List ContentHash
  outputHashes : List ContentHash
  outputEnvelopeHash : ContentHash
  artifactDigest : ContentHash
  deriving DecidableEq

/-- One call of an executor: the request and what it returned. -/
structure NativeCall (digest : List UInt8 → ContentHash) where
  request : NativeNodeRequest digest
  outputs : List (NativePortValue digest)

/-- `NativeNodeExecution`, with the call it made. -/
structure NativeNodeExecution (digest : List UInt8 → ContentHash) where
  outputs : List (NativePortValue digest)
  outputEnvelope : List UInt8
  artifact : NativeNodeArtifact
  call : NativeCall digest

/-- `NativeExecutionResult`. -/
structure NativeExecutionResult where
  identity : ExecutionInstanceIdentity
  artifacts : List NativeNodeArtifact
  resultDigest : ContentHash
  deriving DecidableEq

variable {digest : List UInt8 → ContentHash}

/-- The values stand on the ports, one on each and of its type. -/
def matchesPorts (values : List (NativePortValue digest)) (ports : List PortType) : Bool :=
  values.length = ports.length && (values.zip ports).all fun pair =>
    pair.1.portName = pair.2.portName ∧ pair.1.valueType = pair.2.valueType

/-- `artifact_digest`. -/
def artifactDigest (digest : List UInt8 → ContentHash) (identity : ContentHash)
    (node : ResearchNode) (implementation : ContentHash) (inputs outputs : List ContentHash)
    (outputEnvelopeHash : ContentHash) : ContentHash :=
  digest (utf8 "ficant/native-node-artifact/v2" ++ identity.bytes ++ prefixedText node.nodeId.text ++
    node.contract.digest.bytes ++ implementation.bytes ++ writeList ContentHash.bytes inputs ++
    writeList ContentHash.bytes outputs ++ outputEnvelopeHash.bytes)

/-- The values in the order of their ports. -/
def sortedByPort (values : List (NativePortValue digest)) : List (NativePortValue digest) :=
  values.insertionSort fun a b => a.portName ≤ b.portName

/-- The distinct hashes in order: `sort` and `dedup`. -/
def distinctHashes (hashes : List ContentHash) : List ContentHash :=
  (hashes.insertionSort fun a b => a.bytes.map UInt8.toNat ≤ b.bytes.map UInt8.toNat).destutter
    (· ≠ ·)

/-- `execute_native_node`. -/
def executeNativeNode (node : ResearchNode) (identity : ReproducibilityIdentity)
    (executor : NativeNode digest) (inputs : List (NativePortValue digest))
    (inputArtifacts : List ContentHash) : Except RuntimeError (NativeNodeExecution digest) :=
  if executor.nodeId ≠ node.nodeId ∨
      identity.implementation node.nodeId ≠ some executor.implementationDigest then
    .error invalidValue
  else if !matchesPorts (sortedByPort inputs) node.contract.inputTypes then .error invalidValue
  else do
    let request : NativeNodeRequest digest := ⟨node, identity, sortedByPort inputs⟩
    let returned ← executor.execute request
    let outputs := sortedByPort returned
    if !matchesPorts outputs node.contract.outputTypes then .error invalidValue
    else
      let outputHashes := outputs.map NativePortValue.contentHash
      let outputEnvelope := canonicalOutputBytes outputs
      let outputEnvelopeHash := digest outputEnvelope
      pure
        { outputs, outputEnvelope
          artifact :=
            { nodeId := node.nodeId
              contractDigest := node.contract.digest
              implementationDigest := executor.implementationDigest
              inputArtifacts := distinctHashes inputArtifacts
              outputHashes, outputEnvelopeHash
              artifactDigest := artifactDigest digest identity.digest node
                executor.implementationDigest (distinctHashes inputArtifacts) outputHashes
                outputEnvelopeHash }
          call := ⟨request, returned⟩ }

/-! ### The graph -/

/-- A map with one entry for each element of a list; two elements of one key are refused. -/
def registryOf {κ α : Type} [LinearOrder κ] (key : α → κ) (l : List α) :
    Except RuntimeError (SortedMap κ α) :=
  l.foldlM
    (fun registry a =>
      if (registry.get? (key a)).isSome then .error invalidValue
      else .ok (registry.insert (key a) a)) ∅

/-- `executor_registry`. -/
def executorRegistry (executors : List (NativeNode digest)) :
    Except RuntimeError (SortedMap Ulid (NativeNode digest)) :=
  registryOf NativeNode.nodeId executors

/-- One declaration of `external_input_registry`: the input handed over is the frozen one. -/
def checkDeclaration (identity : ReproducibilityIdentity)
    (registry : SortedMap String ExecutionExternalInput) (declaration : GraphExternalInput) :
    Except RuntimeError Unit :=
  match registry.get? declaration.inputId with
  | none => .error broken
  | some actual =>
    match identity.externalInputs.find? fun input => input.inputId = declaration.inputId with
    | none => .error broken
    | some frozen =>
      if actual.valueType ≠ declaration.valueType ∨ actual.valueType ≠ frozen.valueType ∨
          actual.contentHash ≠ frozen.contentHash then .error hashMismatch
      else .ok ()

/-- `external_input_registry`. -/
def externalInputRegistry (graph : ResearchGraph) (identity : ReproducibilityIdentity)
    (externalInputs : List ExecutionExternalInput) :
    Except RuntimeError (SortedMap String ExecutionExternalInput) :=
  if externalInputs.length ≠ graph.externalInputs.length then .error invalidValue
  else do
    let registry ← registryOf ExecutionExternalInput.inputId externalInputs
    graph.externalInputs.forM (checkDeclaration identity registry)
    pure registry

/-- `research_nodes`. -/
def researchNodes (graph : ResearchGraph) : SortedMap Ulid ResearchNode :=
  SortedMap.ofList (graph.nodes.map fun node => (node.nodeId, node))

/-- The state of the loop, and the calls made so far. -/
structure GraphRun (digest : List UInt8 → ContentHash) where
  outputs : SortedMap (Ulid ×ₗ String) (NativePortValue digest)
  artifacts : SortedMap Ulid NativeNodeArtifact
  calls : List (NativeCall digest)

namespace GraphRun

/-- The input that an edge carries, and the artifact it comes from. -/
def edgeInput (run : GraphRun digest) (edge : ResearchEdge) :
    Except RuntimeError (NativePortValue digest × ContentHash) :=
  match run.outputs.get? (toLex (edge.fromNode, edge.fromPort)) with
  | none => .error broken
  | some source => do
    let value ← NativePortValue.new digest edge.toPort source.valueType source.payload
    match run.artifacts.get? edge.fromNode with
    | none => .error broken
    | some artifact => pure (value, artifact.artifactDigest)

/-- The input that an external binding carries, and the hash of its payload. -/
def externalInput (digest : List UInt8 → ContentHash)
    (registry : SortedMap String ExecutionExternalInput) (binding : GraphExternalInputBinding) :
    Except RuntimeError (NativePortValue digest × ContentHash) :=
  match registry.get? binding.inputId with
  | none => .error broken
  | some external => do
    let value ← NativePortValue.new digest binding.toPort external.valueType external.payload
    pure (value, external.contentHash)

/-- The outputs of a node, each under its port. -/
def storeOutputs (run : GraphRun digest) (nodeId : Ulid) (outputs : List (NativePortValue digest)) :
    SortedMap (Ulid ×ₗ String) (NativePortValue digest) :=
  run.outputs.insertAll (outputs.map fun output => (toLex (nodeId, output.portName), output))

/-- One round of the loop. -/
def round (graph : ResearchGraph) (identity : ReproducibilityIdentity)
    (externals : SortedMap String ExecutionExternalInput)
    (registry : SortedMap Ulid (NativeNode digest)) (run : GraphRun digest) (nodeId : Ulid) :
    Except RuntimeError (GraphRun digest) :=
  match (researchNodes graph).get? nodeId with
  | none => .error broken
  | some node =>
    match registry.get? nodeId with
    | none => .error broken
    | some executor => do
      let fromEdges ← (graph.edges.filter fun edge => edge.toNode = nodeId).mapM run.edgeInput
      let fromExternals ← (graph.externalInputBindings.filter fun binding =>
        binding.toNode = nodeId).mapM (externalInput digest externals)
      let inputs := fromEdges ++ fromExternals
      let execution ← executeNativeNode node identity executor (inputs.map Prod.fst)
        (inputs.map Prod.snd)
      pure
        { outputs := run.storeOutputs nodeId execution.outputs
          artifacts := run.artifacts.insert nodeId execution.artifact
          calls := run.calls ++ [execution.call] }

/-- The artifacts in the order of the nodes, each removed from the map. -/
def takeArtifacts : SortedMap Ulid NativeNodeArtifact → List Ulid →
    Except RuntimeError (List NativeNodeArtifact)
  | _, [] => .ok []
  | artifacts, id :: order =>
    match artifacts.get? id with
    | none => .error broken
    | some artifact => do
      let rest ← takeArtifacts (artifacts.erase id) order
      pure (artifact :: rest)

end GraphRun

/-- `result_digest`. -/
def resultDigest (digest : List UInt8 → ContentHash) (identity : ContentHash)
    (artifacts : List NativeNodeArtifact) : ContentHash :=
  digest (utf8 "ficant/native-execution-result/v1" ++ identity.bytes ++
    artifacts.flatMap fun artifact => artifact.artifactDigest.bytes)

/-- The entry checks of a run and its loop. -/
def runNativeGraph (graph : ResearchGraph) (identity : ReproducibilityIdentity)
    (executors : List (NativeNode digest)) (externalInputs : List ExecutionExternalInput) :
    Except RuntimeError (GraphRun digest) :=
  if identity.graphDigest ≠ graph.digest ∨ executors.length ≠ graph.nodes.length then
    .error invalidValue
  else do
    let externals ← externalInputRegistry graph identity externalInputs
    let registry ← executorRegistry executors
    graph.topologicalOrder.foldlM (GraphRun.round graph identity externals registry) ⟨∅, ∅, []⟩

/-- `execute_native_graph_with_external_inputs`. -/
def executeNativeGraphWithExternalInputs (graph : ResearchGraph)
    (identity : ExecutionInstanceIdentity) (executors : List (NativeNode digest))
    (externalInputs : List ExecutionExternalInput) : Except RuntimeError NativeExecutionResult := do
  let run ← runNativeGraph graph identity.reproducibility executors externalInputs
  let artifacts ← GraphRun.takeArtifacts run.artifacts graph.topologicalOrder
  pure
    { identity, artifacts
      resultDigest := resultDigest digest identity.reproducibility.digest artifacts }

/-! ### Registries -/

/-- A registry holds just the elements of the list, when their keys differ. -/
theorem registryOf_eq {κ α : Type} [LinearOrder κ] (key : α → κ) (l : List α) :
    registryOf key l = if (l.map key).Nodup then .ok (SortedMap.ofList (l.map fun a => (key a, a)))
      else .error invalidValue := by
  induction l using List.reverseRecOn with
  | nil => rfl
  | append_singleton l a ih =>
    -- Registering one more value looks for its key first.
    have hsnoc : registryOf key (l ++ [a]) = registryOf key l >>= fun registry =>
        if (registry.get? (key a)).isSome then .error invalidValue
        else .ok (registry.insert (key a) a) := by
      rw [registryOf, List.foldlM_append]
      refine bind_congr fun registry => ?_
      simp only [List.foldlM_cons, List.foldlM_nil]
      split <;> rfl
    have hnodup : ((l ++ [a]).map key).Nodup ↔ (l.map key).Nodup ∧ key a ∉ l.map key := by
      rw [List.map_append, List.nodup_append]
      simp only [List.map_cons, List.map_nil, List.nodup_singleton, true_and, List.mem_singleton]
      exact and_congr_right fun _ => ⟨fun h hmem => h _ hmem _ rfl rfl,
        fun h x hx y hy hxy => h (hy ▸ hxy ▸ hx)⟩
    rw [hsnoc, ih]
    -- A registry that has failed stays failed.
    by_cases hl : (l.map key).Nodup
    · have hseen : ((SortedMap.ofList (l.map fun a => (key a, a))).get? (key a)).isSome ↔
          key a ∈ l.map key := by
        rw [SortedMap.ofList_get?_isSome]
        simp only [List.mem_map, Prod.mk.injEq]
        constructor
        · rintro ⟨b, c, hc, hkey, -⟩
          exact ⟨c, hc, hkey⟩
        · rintro ⟨c, hc, hkey⟩
          exact ⟨c, c, hc, hkey, rfl⟩
      rw [if_pos hl]
      show (if _ then _ else _) = _
      by_cases hmem : key a ∈ l.map key
      · rw [if_pos (hseen.mpr hmem), if_neg fun h => (hnodup.mp h).2 hmem]
      · rw [if_neg fun h => hmem (hseen.mp h), if_pos (hnodup.mpr ⟨hl, hmem⟩), List.map_append,
          SortedMap.ofList, SortedMap.ofList, SortedMap.insertAll_append]
        rfl
    · rw [if_neg hl, if_neg fun h => hl (hnodup.mp h).1]
      rfl

/-- The registry does not depend on the order in which the values are registered. -/
theorem registryOf_perm {κ α : Type} [LinearOrder κ] (key : α → κ) {l l' : List α}
    (h : l.Perm l') : registryOf key l = registryOf key l' := by
  rw [registryOf_eq, registryOf_eq]
  by_cases hl : (l.map key).Nodup
  · rw [if_pos hl, if_pos ((h.map key).nodup_iff.mp hl)]
    congr 1
    refine SortedMap.ofList_eq_of_perm (h.map _) ?_
    rw [List.map_map]
    exact hl
  · rw [if_neg hl, if_neg fun h' => hl ((h.map key).nodup_iff.mpr h')]

/-- A registry that is built finds exactly the values it was given. -/
theorem get?_of_registryOf {κ α : Type} [LinearOrder κ] {key : α → κ} {l : List α}
    {registry : SortedMap κ α} (h : registryOf key l = .ok registry) {k : κ} {a : α} :
    registry.get? k = some a ↔ a ∈ l ∧ key a = k := by
  rw [registryOf_eq] at h
  split at h
  swap
  · cases h
  rename_i hnodup
  obtain rfl := Except.ok.inj h
  rw [SortedMap.get?_ofList (by rw [List.map_map]; exact hnodup)]
  simp only [List.mem_map, Prod.mk.injEq]
  constructor
  · rintro ⟨b, hb, hkey, rfl⟩
    exact ⟨hb, hkey⟩
  · rintro ⟨ha, hkey⟩
    exact ⟨a, ha, hkey, rfl⟩

/-- The registry of external inputs finds exactly the inputs it was given. -/
theorem get?_of_externalRegistry {graph : ResearchGraph} {identity : ReproducibilityIdentity}
    {externalInputs : List ExecutionExternalInput}
    {externals : SortedMap String ExecutionExternalInput}
    (h : externalInputRegistry graph identity externalInputs = .ok externals) {id : String}
    {input : ExecutionExternalInput} :
    externals.get? id = some input ↔ input ∈ externalInputs ∧ input.inputId = id := by
  unfold externalInputRegistry at h
  split at h
  · cases h
  obtain ⟨registry, hregistry, h⟩ := bind_eq_ok.mp h
  obtain ⟨_, -, h⟩ := bind_eq_ok.mp h
  obtain rfl := Except.ok.inj h
  exact get?_of_registryOf hregistry

/-- A registry that passed its checks holds an input of the declared type for each declaration. -/
theorem declared_of_registry {graph : ResearchGraph} {identity : ReproducibilityIdentity}
    {externalInputs : List ExecutionExternalInput}
    {externals : SortedMap String ExecutionExternalInput}
    (h : externalInputRegistry graph identity externalInputs = .ok externals)
    {declaration : GraphExternalInput} (hmem : declaration ∈ graph.externalInputs) :
    ∃ actual, externals.get? declaration.inputId = some actual ∧
      actual.valueType = declaration.valueType := by
  unfold externalInputRegistry at h
  split at h
  · cases h
  obtain ⟨registry, hregistry, h⟩ := bind_eq_ok.mp h
  obtain ⟨_, hchecks, h⟩ := bind_eq_ok.mp h
  obtain rfl := Except.ok.inj h
  -- Every declaration is checked against the input that was registered.
  have hcheck := forM_eq_ok.mp hchecks declaration hmem
  unfold checkDeclaration at hcheck
  split at hcheck
  · cases hcheck
  rename_i actual hactual
  split at hcheck
  · cases hcheck
  split at hcheck
  · cases hcheck
  rename_i hsame
  push Not at hsame
  exact ⟨actual, hactual, hsame.1⟩

/-- The run does not see the order of the executors and of the external inputs. -/
theorem runNativeGraph_perm (graph : ResearchGraph) (identity : ReproducibilityIdentity)
    {executors executors' : List (NativeNode digest)}
    {externalInputs externalInputs' : List ExecutionExternalInput}
    (hexecutors : executors.Perm executors') (hinputs : externalInputs.Perm externalInputs') :
    runNativeGraph graph identity executors externalInputs =
      runNativeGraph graph identity executors' externalInputs' := by
  unfold runNativeGraph externalInputRegistry executorRegistry
  rw [hexecutors.length_eq, hinputs.length_eq, registryOf_perm _ hexecutors,
    registryOf_perm _ hinputs]

/-! ### Ports -/

/-- The ports that values stand on. -/
def portsOf (values : List (NativePortValue digest)) : List (String × TypedValue) :=
  values.map fun value => (value.portName, value.valueType)

/-- The ports of a contract. -/
def declaredPorts (ports : List PortType) : List (String × TypedValue) :=
  ports.map fun port => (port.portName, port.valueType)

/-- Values match the ports exactly when they have the declared names and types. -/
theorem matchesPorts_iff {values : List (NativePortValue digest)} {ports : List PortType} :
    matchesPorts values ports = true ↔ portsOf values = declaredPorts ports := by
  induction values generalizing ports with
  | nil => cases ports <;> simp [matchesPorts, portsOf, declaredPorts]
  | cons value values ih =>
    cases ports with
    | nil => simp [matchesPorts, portsOf, declaredPorts]
    | cons port ports =>
      have hrest := @ih ports
      simp only [matchesPorts, portsOf, declaredPorts, List.length_cons, List.zip_cons_cons,
        List.all_cons, List.map_cons, List.cons.injEq, Prod.mk.injEq, Bool.and_eq_true,
        decide_eq_true_eq, Nat.add_right_cancel_iff] at hrest ⊢
      rw [← hrest]
      tauto

/-- Ports in increasing order of name declare no name twice. -/
theorem declaredPorts_names {ports : List PortType}
    (hports : ports.Pairwise fun a b => a.portName < b.portName) :
    ((declaredPorts ports).map Prod.fst).Nodup := by
  rw [declaredPorts, List.map_map]
  exact (List.pairwise_map.mpr hports).imp fun hlt => ne_of_lt hlt

/-- Ports of a contract are told apart by their names. -/
theorem declaredPorts_inj {ports : List PortType}
    (hports : ports.Pairwise fun a b => a.portName < b.portName) {a b : String × TypedValue}
    (ha : a ∈ declaredPorts ports) (hb : b ∈ declaredPorts ports) (h : a.1 = b.1) : a = b := by
  exact List.inj_on_of_nodup_map (declaredPorts_names hports) ha hb h

/-- Sorting the values by port loses none and adds none. -/
theorem sortedByPort_perm (values : List (NativePortValue digest)) :
    (sortedByPort values).Perm values := List.perm_insertionSort _ values

/-- The sorted values stand in order of their port names. -/
theorem sortedByPort_sorted (values : List (NativePortValue digest)) :
    (sortedByPort values).Pairwise fun a b => a.portName ≤ b.portName := by
  have : Std.Total fun a b : NativePortValue digest => a.portName ≤ b.portName :=
    ⟨fun a b => le_total _ _⟩
  have : IsTrans (NativePortValue digest) fun a b => a.portName ≤ b.portName :=
    ⟨fun _ _ _ => le_trans⟩
  exact List.pairwise_insertionSort _ values

/-- Values on the declared ports, in any order, match them once sorted. -/
theorem matchesPorts_sortedByPort {values : List (NativePortValue digest)} {ports : List PortType}
    (hports : ports.Pairwise fun a b => a.portName < b.portName)
    (h : (portsOf values).Perm (declaredPorts ports)) :
    matchesPorts (sortedByPort values) ports = true := by
  rw [matchesPorts_iff]
  have hperm : (portsOf (sortedByPort values)).Perm (declaredPorts ports) :=
    ((sortedByPort_perm values).map _).trans h
  have hstrict : (declaredPorts ports).Pairwise fun a b => a.1 < b.1 := List.pairwise_map.mpr hports
  have hanti : ∀ a b : String × TypedValue, a ∈ portsOf (sortedByPort values) →
      b ∈ declaredPorts ports → a.1 ≤ b.1 → b.1 ≤ a.1 → a = b := fun a b ha hb hab hba =>
    declaredPorts_inj hports (hperm.mem_iff.mp ha) hb (le_antisymm hab hba)
  exact hperm.eq_of_pairwise hanti (List.pairwise_map.mpr (sortedByPort_sorted values))
    (hstrict.imp fun hlt => le_of_lt hlt)

/-- A port name is not padded with white space. -/
theorem proper_of_symbol {name : String} (h : ensureSymbol name = .ok ()) :
    name ≠ "" ∧ trim name = name := by
  simp only [ensureSymbol] at h
  split at h
  · cases h
  rename_i hcheck
  simp only [Bool.or_eq_true, not_or, Bool.not_eq_true', Bool.not_eq_false] at hcheck
  obtain ⟨⟨⟨⟨hempty, -⟩, -⟩, -⟩, hall⟩ := hcheck
  -- A symbol has no whitespace, so trimming changes nothing.
  have hwhite : ∀ c ∈ name.toList, isWhitespace c = false := by
    intro c hc
    have hchar := List.all_eq_true.mp hall c hc
    simp only [Bool.or_eq_true, decide_eq_true_eq, Char.le_def, UInt32.le_iff_toNat_le] at hchar
    have hcode : 45 ≤ c.toNat ∧ c.toNat ≤ 122 := by
      rcases hchar with (((⟨h₁, h₂⟩ | ⟨h₁, h₂⟩) | rfl) | rfl) | rfl
      · exact ⟨le_trans (by decide) h₁, le_trans h₂ (by decide)⟩
      · exact ⟨le_trans (by decide) h₁, le_trans h₂ (by decide)⟩
      all_goals decide
    simp only [isWhitespace, decide_eq_false_iff_not]
    omega
  have hfirst : name.toList.dropWhile isWhitespace = name.toList := by
    rw [List.dropWhile_eq_self_iff]
    intro hlen
    rw [hwhite _ (List.getElem_mem hlen)]
    exact Bool.false_ne_true
  have hlast : name.toList.rdropWhile isWhitespace = name.toList := by
    rw [List.rdropWhile_eq_self_iff]
    intro hne
    rw [hwhite _ (List.getLast_mem hne)]
    exact Bool.false_ne_true
  constructor
  · rintro rfl
    exact hempty rfl
  · rw [trim, hfirst, hlast, String.ofList_toList]

/-! ### What a run calls -/

/-- An executor returns outputs that fit its node's contract, on inputs that fit it. -/
def NativeNode.Honours (graph : ResearchGraph) (identity : ReproducibilityIdentity)
    (executor : NativeNode digest) : Prop :=
  ∀ node ∈ graph.nodes, node.nodeId = executor.nodeId →
    ∀ inputs, portsOf inputs = declaredPorts node.contract.inputTypes →
      ∃ outputs, executor.execute ⟨node, identity, inputs⟩ = .ok outputs ∧
        (portsOf outputs).Perm (declaredPorts node.contract.outputTypes)

/-- The identity binds the executor's implementation to its node. -/
def NativeNode.Bound (identity : ReproducibilityIdentity) (executor : NativeNode digest) : Prop :=
  identity.implementation executor.nodeId = some executor.implementationDigest

instance (identity : ReproducibilityIdentity) (executor : NativeNode digest) :
    Decidable (executor.Bound identity) :=
  inferInstanceAs (Decidable (_ = _))

/-- The payload that a feed carries: that of the output of an earlier call, or of an external
    input. -/
def Feed.Carries (earlier : List (NativeCall digest)) (externalInputs : List ExecutionExternalInput)
    (payload : List UInt8) : Feed → Prop
  | .edge e => ∃ call ∈ earlier, call.request.node.nodeId = e.fromNode ∧
      ∃ output ∈ call.outputs, output.portName = e.fromPort ∧ output.payload = payload
  | .external binding => ∃ input ∈ externalInputs,
      input.inputId = binding.inputId ∧ input.payload = payload

/-- A call as the graph prescribes it: of the executor of a node, with one value on each input port,
    whose payload is what the only feed of the port carries. -/
structure NativeCall.Prescribed (graph : ResearchGraph) (identity : ReproducibilityIdentity)
    (executors : List (NativeNode digest)) (externalInputs : List ExecutionExternalInput)
    (earlier : List (NativeCall digest)) (call : NativeCall digest) : Prop where
  node_mem : call.request.node ∈ graph.nodes
  identity_eq : call.request.identity = identity
  executed : ∃ executor ∈ executors, executor.nodeId = call.request.node.nodeId ∧
    executor.execute call.request = .ok call.outputs
  ports : portsOf call.request.inputs = declaredPorts call.request.node.contract.inputTypes
  fed : ∀ value ∈ call.request.inputs, ∃ feed ∈ graph.feeds,
    feed.target = (call.request.node.nodeId, value.portName) ∧
      (∀ other ∈ graph.feeds, other.target = feed.target → other = feed) ∧
      feed.Carries earlier externalInputs value.payload

/-- The state between two rounds: every node called so far was called as prescribed, its outputs and
    its artifact are stored. -/
structure GraphRun.Complete (graph : ResearchGraph) (identity : ReproducibilityIdentity)
    (executors : List (NativeNode digest)) (externalInputs : List ExecutionExternalInput)
    (done : List Ulid) (run : GraphRun digest) : Prop where
  called : run.calls.map (fun call => call.request.node.nodeId) = done
  prescribed : ∀ earlier call later, run.calls = earlier ++ call :: later →
    call.Prescribed graph identity executors externalInputs earlier
  fits : ∀ call ∈ run.calls,
    (portsOf call.outputs).Perm (declaredPorts call.request.node.contract.outputTypes)
  stored : ∀ call ∈ run.calls, ∀ output ∈ call.outputs,
    run.outputs.get? (toLex (call.request.node.nodeId, output.portName)) = some output
  artifacts : ∀ id ∈ done, ∃ artifact, run.artifacts.get? id = some artifact ∧ artifact.nodeId = id

section Rounds

variable {graph : ResearchGraph} {identity : ReproducibilityIdentity}
  {executors : List (NativeNode digest)} {externalInputs : List ExecutionExternalInput}
  {externals : SortedMap String ExecutionExternalInput}
  {registry : SortedMap Ulid (NativeNode digest)} {run : GraphRun digest} {done : List Ulid}

/-- Every call of a complete run is the one the graph prescribes after some of the nodes. -/
theorem GraphRun.Complete.prescribed_of_mem
    (h : run.Complete graph identity executors externalInputs done) {call : NativeCall digest}
    (hcall : call ∈ run.calls) :
    ∃ earlier, call.Prescribed graph identity executors externalInputs earlier := by
  obtain ⟨earlier, later, hsplit⟩ := List.append_of_mem hcall
  exact ⟨earlier, h.prescribed earlier call later hsplit⟩

/-- Nodes are told apart by their identifiers. -/
theorem ResearchGraph.Accepted.node_eq (hgraph : graph.Accepted) {node node' : ResearchNode}
    (h : node ∈ graph.nodes) (h' : node' ∈ graph.nodes) (hid : node.nodeId = node'.nodeId) :
    node = node' := List.inj_on_of_nodup_map hgraph.nodes_nodup h h' hid

/-- An accepted graph's node table finds exactly the nodes of the graph. -/
theorem get?_researchNodes (hgraph : graph.Accepted) {id : Ulid} {node : ResearchNode} :
    (researchNodes graph).get? id = some node ↔ node ∈ graph.nodes ∧ node.nodeId = id := by
  have hkeys : ((graph.nodes.map fun node => (node.nodeId, node)).map Prod.fst).Nodup := by
    rw [List.map_map]
    exact hgraph.nodes_nodup
  rw [researchNodes, SortedMap.get?_ofList hkeys]
  simp only [List.mem_map, Prod.mk.injEq]
  constructor
  · rintro ⟨n, hn, hid, rfl⟩
    exact ⟨hn, hid⟩
  · rintro ⟨hn, hid⟩
    exact ⟨node, hn, hid, rfl⟩

/-- What a feed of a node delivers in a round: a value on the port that is fed. -/
def Delivers (node : ResearchNode) (run : GraphRun digest)
    (externalInputs : List ExecutionExternalInput) (feed : Feed)
    (input : NativePortValue digest × ContentHash) : Prop :=
  feed.target = (node.nodeId, input.1.portName) ∧
    (input.1.portName, input.1.valueType) ∈ declaredPorts node.contract.inputTypes ∧
    feed.Carries run.calls externalInputs input.1.payload

/-- A payload that is not empty makes a port value. -/
theorem new_of_symbol (digest : List UInt8 → ContentHash) (port : PortType) (valueType : TypedValue)
    {payload : List UInt8} (hpayload : payload ≠ []) :
    ∃ value, NativePortValue.new digest port.portName valueType payload = .ok value := by
  obtain ⟨hne, htrim⟩ := proper_of_symbol port.portName_symbol
  rw [NativePortValue.new, dif_neg (by simp [hne, htrim, hpayload])]
  exact ⟨_, rfl⟩

/-- An edge into a node finds the output of its source. -/
theorem edgeInput_delivers (hgraph : graph.Accepted)
    (hrun : run.Complete graph identity executors externalInputs done) {node : ResearchNode}
    (hnode : node ∈ graph.nodes) {edge : ResearchEdge} (hedge : edge ∈ graph.edges)
    (hto : edge.toNode = node.nodeId) (hfrom : edge.fromNode ∈ done) :
    ∃ input, run.edgeInput edge = .ok input ∧ Delivers node run externalInputs (.edge edge) input := by
  obtain ⟨source, hsource, target, htarget, hsid, htid, output, houtput, port, hport, hoport, hiport,
    htype⟩ := hgraph.edges_fit edge hedge
  obtain rfl := hgraph.node_eq htarget hnode (htid.trans hto)
  -- the source was called, so its output on the edge's port is stored
  rw [← hrun.called] at hfrom
  obtain ⟨call, hcall, hcid⟩ := List.mem_map.mp hfrom
  obtain ⟨earlier, hprescribed⟩ := hrun.prescribed_of_mem hcall
  obtain rfl := hgraph.node_eq hprescribed.node_mem hsource (hcid.trans hsid.symm)
  have hdeclared : (output.portName, output.valueType) ∈ portsOf call.outputs :=
    (hrun.fits call hcall).mem_iff.mpr (List.mem_map.mpr ⟨output, houtput, rfl⟩)
  obtain ⟨value, hvalue, hpair⟩ := List.mem_map.mp hdeclared
  obtain ⟨hname, hvtype⟩ := Prod.mk.inj hpair
  have hstored := hrun.stored call hcall value hvalue
  rw [hcid, hname, hoport] at hstored
  obtain ⟨fed, hfed⟩ := new_of_symbol digest port value.valueType value.payload_ne_nil
  obtain ⟨hfport, hftype, hfpayload⟩ := NativePortValue.new_eq_ok hfed
  have hartifact := hrun.artifacts edge.fromNode
    (by rw [← hrun.called]; exact List.mem_map.mpr ⟨call, hcall, hcid⟩)
  obtain ⟨artifact, hartifact, -⟩ := hartifact
  rw [hiport] at hfed
  refine ⟨(fed, artifact.artifactDigest), ?_, ?_, ?_, ?_⟩
  · simp only [GraphRun.edgeInput, hstored, hfed, hartifact]
    rfl
  · show (edge.toNode, edge.toPort) = _
    rw [hto, hfport, hiport]
  · rw [hfport, hftype, hvtype, htype]
    exact List.mem_map.mpr ⟨port, hport, rfl⟩
  · exact ⟨call, hcall, hcid, value, hvalue, hname.trans hoport, hfpayload.symm⟩

/-- An external binding of a node finds its input. -/
theorem externalInput_delivers (hgraph : graph.Accepted) (run : GraphRun digest)
    (hpayloads : ∀ input ∈ externalInputs, input.payload ≠ [])
    (hexternals : externalInputRegistry graph identity externalInputs = .ok externals)
    {node : ResearchNode} (hnode : node ∈ graph.nodes) {binding : GraphExternalInputBinding}
    (hbinding : binding ∈ graph.externalInputBindings) (hto : binding.toNode = node.nodeId) :
    ∃ input, GraphRun.externalInput digest externals binding = .ok input ∧
      Delivers node run externalInputs (.external binding) input := by
  obtain ⟨declaration, hdeclaration, hid, target, htarget, htid, port, hport, hiport, htype⟩ :=
    hgraph.bindings_fit binding hbinding
  obtain rfl := hgraph.node_eq htarget hnode (htid.trans hto)
  -- the registry holds an input of the declared type for every declaration
  obtain ⟨actual, hactual, hatype⟩ := declared_of_registry hexternals hdeclaration
  rw [hid] at hactual
  obtain ⟨hmem, haid⟩ := (get?_of_externalRegistry hexternals).mp hactual
  obtain ⟨fed, hfed⟩ := new_of_symbol digest port actual.valueType (hpayloads actual hmem)
  obtain ⟨hfport, hftype, hfpayload⟩ := NativePortValue.new_eq_ok hfed
  rw [hiport] at hfed
  refine ⟨(fed, actual.contentHash), ?_, ?_, ?_, ?_⟩
  · simp only [GraphRun.externalInput, hactual, hfed]
    rfl
  · show (binding.toNode, binding.toPort) = _
    rw [hto, hfport, hiport]
  · rw [hfport, hftype, hatype, htype]
    exact List.mem_map.mpr ⟨port, hport, rfl⟩
  · exact ⟨actual, hmem, haid, hfpayload.symm⟩

/-- The feeds of a node, edges first. -/
theorem feeds_filter (graph : ResearchGraph) (id : Ulid) :
    graph.feeds.filter (fun feed => feed.target.1 = id) =
      (graph.edges.filter fun edge => edge.toNode = id).map .edge ++
        (graph.externalInputBindings.filter fun binding => binding.toNode = id).map .external := by
  rw [ResearchGraph.feeds, List.filter_append, List.filter_map, List.filter_map]
  rfl

/-- Values that the feeds of a node deliver stand on its input ports. -/
theorem ports_of_delivers (hgraph : graph.Accepted) {node : ResearchNode}
    (hnode : node ∈ graph.nodes) {inputs : List (NativePortValue digest × ContentHash)}
    (h : List.Forall₂ (Delivers node run externalInputs)
      (graph.feeds.filter fun feed => feed.target.1 = node.nodeId) inputs) :
    (portsOf (inputs.map Prod.fst)).Perm (declaredPorts node.contract.inputTypes) := by
  have htargets : (graph.feeds.filter fun feed => feed.target.1 = node.nodeId).map Feed.target =
      inputs.map fun input => (node.nodeId, input.1.portName) := by
    rw [← List.forall₂_eq_eq_eq, List.forall₂_map_left_iff, List.forall₂_map_right_iff]
    exact h.imp fun _ _ hd => hd.1
  have hnodup : (inputs.map fun input => (node.nodeId, input.1.portName)).Nodup := by
    rw [← htargets]
    exact hgraph.fed_once.sublist (List.filter_sublist.map _)
  have hnames : (portsOf (inputs.map Prod.fst)).Nodup := by
    apply List.Nodup.of_map fun p : String × TypedValue => (node.nodeId, p.1)
    simpa [portsOf, List.map_map, Function.comp_def] using hnodup
  have hdeclared := (declaredPorts_names node.contract.inputs_sorted).of_map
  refine (List.perm_ext_iff_of_nodup hnames hdeclared).mpr fun pair =>
    ⟨fun hpair => ?_, fun hpair => ?_⟩
  · rw [portsOf, List.map_map] at hpair
    obtain ⟨input, hinput, rfl⟩ := List.mem_map.mp hpair
    obtain ⟨feed, -, hdelivers⟩ := exists_left_of_forall₂ h hinput
    exact hdelivers.2.1
  · -- the port is fed, and what is delivered on it has its type
    obtain ⟨port, hport, rfl⟩ := List.mem_map.mp hpair
    obtain ⟨feed, hfeed, htarget⟩ := List.mem_map.mp (hgraph.all_fed node hnode port hport)
    have hinto : feed ∈ graph.feeds.filter fun feed => feed.target.1 = node.nodeId :=
      List.mem_filter.mpr ⟨hfeed, by simp [htarget]⟩
    obtain ⟨input, hinput, hdelivers⟩ := exists_right_of_forall₂ h hinto
    have hname := (Prod.mk.inj (hdelivers.1.symm.trans htarget)).2
    have heq := declaredPorts_inj node.contract.inputs_sorted hdelivers.2.1 hpair hname
    rw [← heq, portsOf, List.map_map]
    exact List.mem_map.mpr ⟨input, hinput, rfl⟩

/-- The inputs of a node are collected once its upstream nodes are done. -/
theorem inputs_delivered (hgraph : graph.Accepted)
    (hpayloads : ∀ input ∈ externalInputs, input.payload ≠ [])
    (hexternals : externalInputRegistry graph identity externalInputs = .ok externals)
    (hrun : run.Complete graph identity executors externalInputs done) {node : ResearchNode}
    (hnode : node ∈ graph.nodes)
    (hsources : ∀ edge ∈ graph.edges, edge.toNode = node.nodeId → edge.fromNode ∈ done) :
    ∃ fromEdges fromExternals,
      (graph.edges.filter fun edge => edge.toNode = node.nodeId).mapM run.edgeInput =
        .ok fromEdges ∧
      (graph.externalInputBindings.filter fun binding => binding.toNode = node.nodeId).mapM
        (GraphRun.externalInput digest externals) = .ok fromExternals ∧
      List.Forall₂ (Delivers node run externalInputs)
        (graph.feeds.filter fun feed => feed.target.1 = node.nodeId)
        (fromEdges ++ fromExternals) := by
  obtain ⟨fromEdges, hedges, hall⟩ := exists_mapM_ok
    (l := graph.edges.filter fun edge => edge.toNode = node.nodeId) (f := run.edgeInput)
    fun edge hedge => by
      obtain ⟨hmem, hto⟩ := List.mem_filter.mp hedge
      have hto := of_decide_eq_true hto
      exact edgeInput_delivers hgraph hrun hnode hmem hto (hsources edge hmem hto)
  obtain ⟨fromExternals, hbindings, hall'⟩ := exists_mapM_ok
    (l := graph.externalInputBindings.filter fun binding => binding.toNode = node.nodeId)
    (f := GraphRun.externalInput digest externals) fun binding hbinding => by
      obtain ⟨hmem, hto⟩ := List.mem_filter.mp hbinding
      exact externalInput_delivers hgraph run hpayloads hexternals hnode hmem (of_decide_eq_true hto)
  refine ⟨fromEdges, fromExternals, hedges, hbindings, ?_⟩
  rw [feeds_filter]
  exact List.rel_append (List.forall₂_map_left_iff.mpr hall) (List.forall₂_map_left_iff.mpr hall')

/-- A bound executor on proper inputs runs to an execution of its node. -/
theorem executeNativeNode_ok {node : ResearchNode} {executor : NativeNode digest}
    {inputs outputs : List (NativePortValue digest)} (hid : executor.nodeId = node.nodeId)
    (hbound : identity.implementation node.nodeId = some executor.implementationDigest)
    (hinputs : (portsOf inputs).Perm (declaredPorts node.contract.inputTypes))
    (hexecute : executor.execute ⟨node, identity, sortedByPort inputs⟩ = .ok outputs)
    (houtputs : (portsOf outputs).Perm (declaredPorts node.contract.outputTypes))
    (inputArtifacts : List ContentHash) :
    ∃ execution, executeNativeNode node identity executor inputs inputArtifacts = .ok execution ∧
      execution.outputs = sortedByPort outputs ∧ execution.artifact.nodeId = node.nodeId ∧
      execution.call = ⟨⟨node, identity, sortedByPort inputs⟩, outputs⟩ := by
  have hin := matchesPorts_sortedByPort node.contract.inputs_sorted hinputs
  have hout := matchesPorts_sortedByPort node.contract.outputs_sorted houtputs
  rw [executeNativeNode, if_neg (by simp [hid, hbound]), if_neg (by simp [hin])]
  simp only [hexecute]
  change ∃ execution, (if (!matchesPorts (sortedByPort outputs) node.contract.outputTypes) = true
    then .error invalidValue else .ok _) = Except.ok execution ∧ _
  rw [if_neg (by simp [hout])]
  exact ⟨_, rfl, rfl, rfl, rfl⟩

/-- An executor that the identity does not bind is refused before it is called. -/
theorem executeNativeNode_unbound {node : ResearchNode} {executor : NativeNode digest}
    (hbound : identity.implementation node.nodeId ≠ some executor.implementationDigest)
    (inputs : List (NativePortValue digest)) (inputArtifacts : List ContentHash) :
    executeNativeNode node identity executor inputs inputArtifacts = .error invalidValue := by
  rw [executeNativeNode, if_pos (.inr hbound)]

/-- The outputs of a node are found under its ports, and those of other nodes stay. -/
theorem get?_storeOutputs (run : GraphRun digest) (id : Ulid)
    {outputs : List (NativePortValue digest)}
    (hnames : (outputs.map NativePortValue.portName).Nodup) :
    (∀ output ∈ outputs,
      (run.storeOutputs id outputs).get? (toLex (id, output.portName)) = some output) ∧
    ∀ other port, other ≠ id →
      (run.storeOutputs id outputs).get? (toLex (other, port)) =
        run.outputs.get? (toLex (other, port)) := by
  -- The ports of one node differ, so no output hides another.
  have hkeys : ((outputs.map fun output => (toLex (id, output.portName), output)).map
      Prod.fst).Nodup := by
    rw [List.map_map]
    refine List.Nodup.of_map (fun k : Ulid ×ₗ String => (ofLex k).2) ?_
    rw [List.map_map]
    exact hnames
  constructor
  · intro output houtput
    have hfound := (SortedMap.get?_ofList hkeys).mpr (List.mem_map_of_mem houtput)
    rw [GraphRun.storeOutputs, SortedMap.get?_insertAll, hfound, Option.some_or]
  · intro other port hother
    have hnone : (SortedMap.ofList (outputs.map fun output =>
        (toLex (id, output.portName), output))).get? (toLex (other, port)) = none := by
      rw [Option.eq_none_iff_forall_ne_some]
      intro output houtput
      rw [SortedMap.get?_ofList hkeys] at houtput
      obtain ⟨o, -, hpair⟩ := List.mem_map.mp houtput
      have hkey := toLex_inj.mp (Prod.mk.inj hpair).1
      exact hother (Prod.mk.inj hkey).1.symm
    rw [GraphRun.storeOutputs, SortedMap.get?_insertAll, hnone, Option.none_or]

/-- **One round.**  A node whose upstream nodes are done is called as prescribed. -/
theorem round_complete (hgraph : graph.Accepted)
    (hpayloads : ∀ input ∈ externalInputs, input.payload ≠ [])
    (hexternals : externalInputRegistry graph identity externalInputs = .ok externals)
    (hregistry : executorRegistry executors = .ok registry)
    (hrun : run.Complete graph identity executors externalInputs done) {node : ResearchNode}
    (hnode : node ∈ graph.nodes) (hnew : node.nodeId ∉ done)
    (hsources : ∀ edge ∈ graph.edges, edge.toNode = node.nodeId → edge.fromNode ∈ done)
    {executor : NativeNode digest} (hmem : executor ∈ executors)
    (hid : executor.nodeId = node.nodeId) (hhonours : executor.Honours graph identity)
    (hbound : identity.implementation node.nodeId = some executor.implementationDigest) :
    ∃ run', run.round graph identity externals registry node.nodeId = .ok run' ∧
      run'.Complete graph identity executors externalInputs (done ++ [node.nodeId]) := by
  obtain ⟨fromEdges, fromExternals, hedges, hbindings, hdelivers⟩ :=
    inputs_delivered hgraph hpayloads hexternals hrun hnode hsources
  have hports := ports_of_delivers hgraph hnode hdelivers
  have hmatch := matchesPorts_iff.mp
    (matchesPorts_sortedByPort node.contract.inputs_sorted hports)
  obtain ⟨outputs, hexecute, houtputs⟩ := hhonours node hnode hid.symm _ hmatch
  obtain ⟨execution, hexecution, hstored, hartifact, hcall⟩ := executeNativeNode_ok hid hbound hports
    hexecute houtputs ((fromEdges ++ fromExternals).map Prod.snd)
  refine ⟨⟨run.storeOutputs node.nodeId execution.outputs,
    run.artifacts.insert node.nodeId execution.artifact, run.calls ++ [execution.call]⟩, ?_, ?_⟩
  · simp only [GraphRun.round, (get?_researchNodes hgraph).mpr ⟨hnode, rfl⟩,
      (get?_of_registryOf hregistry).mpr ⟨hmem, hid⟩]
    refine bind_eq_ok.mpr ⟨_, hedges, bind_eq_ok.mpr ⟨_, hbindings, ?_⟩⟩
    exact bind_eq_ok.mpr ⟨_, hexecution, rfl⟩
  have hnames : (execution.outputs.map NativePortValue.portName).Nodup := by
    have hdeclared := declaredPorts_names node.contract.outputs_sorted
    rw [← (houtputs.map Prod.fst).nodup_iff, portsOf, List.map_map] at hdeclared
    rw [hstored]
    exact ((sortedByPort_perm outputs).map _).nodup_iff.mpr hdeclared
  obtain ⟨hself, hothers⟩ := get?_storeOutputs run node.nodeId hnames
  rw [hcall]
  refine ⟨?_, ?_, ?_, ?_, ?_⟩
  · rw [List.map_append, hrun.called]
    rfl
  · intro earlier call later hsplit
    rcases List.eq_nil_or_concat later with rfl | ⟨front, last, rfl⟩
    · -- the call of this round
      obtain ⟨rfl, hlast⟩ := List.append_inj' hsplit rfl
      obtain rfl := List.singleton_inj.mp hlast
      refine ⟨hnode, rfl, ⟨executor, hmem, hid, hexecute⟩, hmatch, fun value hvalue => ?_⟩
      obtain ⟨input, hinput, rfl⟩ := List.mem_map.mp ((sortedByPort_perm _).mem_iff.mp hvalue)
      obtain ⟨feed, hfeed, htarget, -, hcarries⟩ := exists_left_of_forall₂ hdelivers hinput
      have hfeed := List.mem_of_mem_filter hfeed
      exact ⟨feed, hfeed, htarget, fun other hother heq =>
        List.inj_on_of_nodup_map hgraph.fed_once hother hfeed heq, hcarries⟩
    · rw [List.concat_eq_append, ← List.cons_append, ← List.append_assoc] at hsplit
      obtain ⟨hsplit, -⟩ := List.append_inj' hsplit rfl
      exact hrun.prescribed earlier call front hsplit
  · intro call hcall
    rcases List.mem_append.mp hcall with hcall | hcall
    · exact hrun.fits call hcall
    · obtain rfl := List.mem_singleton.mp hcall
      exact houtputs
  · intro call hcall output houtput
    rcases List.mem_append.mp hcall with hcall | hcall
    · have hother : call.request.node.nodeId ≠ node.nodeId := by
        intro heq
        rw [← hrun.called] at hnew
        exact hnew (List.mem_map.mpr ⟨call, hcall, heq⟩)
      rw [hothers _ _ hother]
      exact hrun.stored call hcall output houtput
    · obtain rfl := List.mem_singleton.mp hcall
      refine hself output ?_
      rw [hstored]
      exact (sortedByPort_perm outputs).mem_iff.mpr houtput
  · intro id hdone
    show ∃ artifact, (run.artifacts.insert node.nodeId execution.artifact).get? id = some artifact ∧ _
    rw [SortedMap.get?_insert]
    by_cases heq : id = node.nodeId
    · rw [if_pos heq]
      exact ⟨_, rfl, heq ▸ hartifact⟩
    · rw [if_neg heq]
      refine hrun.artifacts id ?_
      rcases List.mem_append.mp hdone with hdone | hdone
      · exact hdone
      · exact absurd (List.mem_singleton.mp hdone) heq

/-- A round with an executor that the identity does not bind fails on it. -/
theorem round_unbound (hgraph : graph.Accepted)
    (hpayloads : ∀ input ∈ externalInputs, input.payload ≠ [])
    (hexternals : externalInputRegistry graph identity externalInputs = .ok externals)
    (hregistry : executorRegistry executors = .ok registry)
    (hrun : run.Complete graph identity executors externalInputs done) {node : ResearchNode}
    (hnode : node ∈ graph.nodes)
    (hsources : ∀ edge ∈ graph.edges, edge.toNode = node.nodeId → edge.fromNode ∈ done)
    {executor : NativeNode digest} (hmem : executor ∈ executors)
    (hid : executor.nodeId = node.nodeId)
    (hbound : identity.implementation node.nodeId ≠ some executor.implementationDigest) :
    run.round graph identity externals registry node.nodeId = .error invalidValue := by
  obtain ⟨fromEdges, fromExternals, hedges, hbindings, -⟩ :=
    inputs_delivered hgraph hpayloads hexternals hrun hnode hsources
  simp only [GraphRun.round, (get?_researchNodes hgraph).mpr ⟨hnode, rfl⟩,
    (get?_of_registryOf hregistry).mpr ⟨hmem, hid⟩, hedges, hbindings]
  show (executeNativeNode node identity executor _ _ >>= _) = _
  rw [executeNativeNode_unbound hbound]
  rfl

/-- **The loop.**  From a state where a part of the order is done, the rest runs to the end when the
    identity binds the executors of the rest, and fails on an executor that it does not bind. -/
theorem rounds_complete (hgraph : graph.Accepted)
    (hpayloads : ∀ input ∈ externalInputs, input.payload ≠ [])
    (hexternals : externalInputRegistry graph identity externalInputs = .ok externals)
    (hregistry : executorRegistry executors = .ok registry)
    (hcover : ∀ id ∈ graph.topologicalOrder, ∃ executor ∈ executors, executor.nodeId = id)
    (hhonours : ∀ executor ∈ executors, executor.Honours graph identity) {rest : List Ulid}
    (horder : graph.topologicalOrder = done ++ rest)
    (hrun : run.Complete graph identity executors externalInputs done) :
    ((∀ executor ∈ executors, executor.nodeId ∈ rest → executor.Bound identity) →
      ∃ run', rest.foldlM (GraphRun.round graph identity externals registry) run = .ok run' ∧
        run'.Complete graph identity executors externalInputs graph.topologicalOrder) ∧
    ((∃ executor ∈ executors, executor.nodeId ∈ rest ∧ ¬executor.Bound identity) →
      rest.foldlM (GraphRun.round graph identity externals registry) run =
        .error invalidValue) := by
  induction rest generalizing done run with
  | nil =>
    rw [List.append_nil] at horder
    refine ⟨fun _ => ⟨run, rfl, horder ▸ hrun⟩, ?_⟩
    rintro ⟨_, _, hmem, _⟩
    cases hmem
  | cons id rest ih =>
    -- the head of the rest is a node whose sources are done
    have hid : id ∈ graph.topologicalOrder := by simp [horder]
    obtain ⟨node, hnode, rfl⟩ := List.mem_map.mp (hgraph.order_perm.mem_iff.mp hid)
    obtain ⟨executor, hexecutor, heid⟩ := hcover _ hid
    have hsources : ∀ edge ∈ graph.edges, edge.toNode = node.nodeId → edge.fromNode ∈ done :=
      hgraph.forward done node.nodeId rest horder
    have hnodup := graph.order_nodup
    rw [horder, List.nodup_append] at hnodup
    have hnew : node.nodeId ∉ done := fun hdone =>
      hnodup.2.2 _ hdone _ List.mem_cons_self rfl
    rw [List.foldlM_cons]
    by_cases hbound : executor.Bound identity
    · obtain ⟨next, hnext, hcomplete⟩ := round_complete hgraph hpayloads hexternals hregistry hrun
        hnode hnew hsources hexecutor heid (hhonours executor hexecutor) (heid ▸ hbound)
      obtain ⟨hall, hsome⟩ := ih (by simp [horder]) hcomplete
      rw [hnext]
      refine ⟨fun hb => hall fun e he hmem => hb e he (List.mem_cons_of_mem _ hmem), ?_⟩
      rintro ⟨other, hother, hmem, hunbound⟩
      refine hsome ⟨other, hother, ?_, hunbound⟩
      rcases List.mem_cons.mp hmem with heq | hmem
      · -- the registry holds one executor of a node
        have hsame := (get?_of_registryOf hregistry).mpr ⟨hother, heq⟩
        rw [(get?_of_registryOf hregistry).mpr ⟨hexecutor, heid⟩] at hsame
        exact absurd (Option.some.inj hsame ▸ hbound) hunbound
      · exact hmem
    · have hround := round_unbound hgraph hpayloads hexternals hregistry hrun hnode hsources
        hexecutor heid (heid ▸ hbound)
      rw [hround]
      exact ⟨fun hb => absurd (hb executor hexecutor (heid ▸ List.mem_cons_self)) hbound,
        fun _ => rfl⟩

end Rounds

/-- The artifacts are all taken, each once. -/
theorem takeArtifacts_ok {artifacts : SortedMap Ulid NativeNodeArtifact} {order : List Ulid}
    (hnodup : order.Nodup)
    (h : ∀ id ∈ order, ∃ artifact, artifacts.get? id = some artifact ∧ artifact.nodeId = id) :
    ∃ taken, GraphRun.takeArtifacts artifacts order = .ok taken ∧
      taken.map NativeNodeArtifact.nodeId = order := by
  induction order generalizing artifacts with
  | nil => exact ⟨[], rfl, rfl⟩
  | cons id order ih =>
    obtain ⟨hid, hnodup⟩ := List.nodup_cons.mp hnodup
    obtain ⟨artifact, hartifact, hnode⟩ := h id List.mem_cons_self
    have hrest : ∀ other ∈ order, ∃ artifact, (artifacts.erase id).get? other = some artifact ∧
        artifact.nodeId = other := by
      intro other hother
      have hne : other ≠ id := by
        rintro rfl
        exact hid hother
      rw [SortedMap.get?_erase, if_neg hne]
      exact h other (List.mem_cons_of_mem _ hother)
    obtain ⟨taken, htaken, hnodes⟩ := ih hnodup hrest
    refine ⟨artifact :: taken, ?_, by simp [hnode, hnodes]⟩
    simp only [GraphRun.takeArtifacts, hartifact, htaken]
    rfl

/-- **Native graph execution is complete and independent of the order of its inputs.**  For a graph
    that its constructor accepted, with executors for exactly its nodes that honour their contracts,
    and external inputs that pass the registry's checks, the run

    * never fails with a broken lineage, and fails only when the identity does not bind an executor;
    * otherwise calls the executors of the nodes in topological order, each node once and after its
      upstream nodes, and hands every input port the payload that the port's only edge or external
      binding carries;
    * and returns one result for every order of the executors and of the external inputs. -/
theorem nativeGraph_complete (digest : List UInt8 → ContentHash) (graph : ResearchGraph)
    (identity : ExecutionInstanceIdentity) (executors : List (NativeNode digest))
    (externalInputs : List ExecutionExternalInput)
    (hgraph : ∃ graphId version owner nodes edges inputs bindings,
      ResearchGraph.new digest graphId version owner nodes edges inputs bindings = .ok graph)
    (hdigest : identity.reproducibility.graphDigest = graph.digest)
    (hexecutors : (executors.map NativeNode.nodeId).Perm (graph.nodes.map ResearchNode.nodeId))
    (hinputs : ∀ input ∈ externalInputs, ∃ inputId valueType payload,
      ExecutionExternalInput.new digest inputId valueType payload = .ok input)
    (hexternals : ∃ registry,
      externalInputRegistry graph identity.reproducibility externalInputs = .ok registry)
    (hhonours : ∀ executor ∈ executors, executor.Honours graph identity.reproducibility) :
    executeNativeGraphWithExternalInputs graph identity executors externalInputs ≠ .error broken ∧
    ((∃ executor ∈ executors, ¬executor.Bound identity.reproducibility) →
      executeNativeGraphWithExternalInputs graph identity executors externalInputs =
        .error invalidValue) ∧
    ((∀ executor ∈ executors, executor.Bound identity.reproducibility) →
      ∃ run result,
        runNativeGraph graph identity.reproducibility executors externalInputs = .ok run ∧
        executeNativeGraphWithExternalInputs graph identity executors externalInputs = .ok result ∧
        result.artifacts.map NativeNodeArtifact.nodeId = graph.topologicalOrder ∧
        run.calls.map (fun call => call.request.node.nodeId) = graph.topologicalOrder ∧
        graph.topologicalOrder.Perm (graph.nodes.map ResearchNode.nodeId) ∧
        graph.topologicalOrder.Nodup ∧ Forward graph.edges graph.topologicalOrder ∧
        ∀ earlier call later, run.calls = earlier ++ call :: later →
          call.Prescribed graph identity.reproducibility executors externalInputs earlier) ∧
    ∀ executors' externalInputs', executors.Perm executors' → externalInputs.Perm externalInputs' →
      executeNativeGraphWithExternalInputs graph identity executors' externalInputs' =
        executeNativeGraphWithExternalInputs graph identity executors externalInputs := by
  obtain ⟨_, _, _, _, _, _, _, hnew⟩ := hgraph
  have hgraph := ResearchGraph.accepted_of_new hnew
  obtain ⟨externals, hexternals⟩ := hexternals
  have hpayloads : ∀ input ∈ externalInputs, input.payload ≠ [] := by
    intro input hinput
    obtain ⟨inputId, valueType, payload, hmade⟩ := hinputs input hinput
    rw [ExecutionExternalInput.new] at hmade
    split at hmade
    · cases hmade
    rename_i hproper
    obtain rfl := Except.ok.inj hmade
    push Not at hproper
    exact hproper.2.2
  have hregistry : executorRegistry executors =
      .ok (SortedMap.ofList (executors.map fun executor => (executor.nodeId, executor))) := by
    rw [executorRegistry, registryOf_eq, if_pos (hexecutors.nodup_iff.mpr hgraph.nodes_nodup)]
  have hcover : ∀ id ∈ graph.topologicalOrder, ∃ executor ∈ executors, executor.nodeId = id := by
    intro id hid
    exact List.mem_map.mp (hexecutors.mem_iff.mpr (hgraph.order_perm.mem_iff.mp hid))
  -- The entry checks pass and leave the fold over the topological order.
  have hentry : runNativeGraph graph identity.reproducibility executors externalInputs =
      graph.topologicalOrder.foldlM (GraphRun.round graph identity.reproducibility externals
        (SortedMap.ofList (executors.map fun executor => (executor.nodeId, executor))))
        ⟨∅, ∅, []⟩ := by
    have hlength : executors.length = graph.nodes.length := by simpa using hexecutors.length_eq
    rw [runNativeGraph, if_neg (by simp [hdigest, hlength]), hexternals, hregistry]
    rfl
  -- The invariant holds of the empty run and is kept by every round.
  have hstart : (⟨∅, ∅, []⟩ : GraphRun digest).Complete graph identity.reproducibility executors
      externalInputs [] :=
    ⟨rfl, by simp, by simp, by simp, by simp⟩
  obtain ⟨hall, hsome⟩ := rounds_complete hgraph hpayloads hexternals hregistry hcover hhonours
    (List.nil_append _).symm hstart
  rw [← hentry] at hsome
  have hunbound : (∃ executor ∈ executors, ¬executor.Bound identity.reproducibility) →
      executeNativeGraphWithExternalInputs graph identity executors externalInputs =
        .error invalidValue := by
    rintro ⟨executor, hexecutor, hunbound⟩
    have hid : executor.nodeId ∈ graph.topologicalOrder :=
      hgraph.order_perm.mem_iff.mpr (hexecutors.mem_iff.mp (List.mem_map_of_mem hexecutor))
    rw [executeNativeGraphWithExternalInputs, hsome ⟨executor, hexecutor, hid, hunbound⟩]
    rfl
  have hbound : (∀ executor ∈ executors, executor.Bound identity.reproducibility) →
      ∃ run result,
        runNativeGraph graph identity.reproducibility executors externalInputs = .ok run ∧
        executeNativeGraphWithExternalInputs graph identity executors externalInputs = .ok result ∧
        result.artifacts.map NativeNodeArtifact.nodeId = graph.topologicalOrder ∧
        run.Complete graph identity.reproducibility executors externalInputs
          graph.topologicalOrder := by
    intro hbound
    obtain ⟨run, hrun, hcomplete⟩ := hall fun executor hexecutor _ => hbound executor hexecutor
    obtain ⟨taken, htaken, hnodes⟩ := takeArtifacts_ok graph.order_nodup hcomplete.artifacts
    rw [← hentry] at hrun
    refine ⟨run, ⟨identity, taken, resultDigest digest identity.reproducibility.digest taken⟩, hrun,
      ?_, hnodes, hcomplete⟩
    exact bind_eq_ok.mpr ⟨run, hrun, bind_eq_ok.mpr ⟨taken, htaken, rfl⟩⟩
  refine ⟨?_, hunbound, fun h => ?_, ?_⟩
  · by_cases h : ∃ executor ∈ executors, ¬executor.Bound identity.reproducibility
    · rw [hunbound h]
      decide
    · push Not at h
      obtain ⟨run, result, -, hresult, -⟩ := hbound h
      rw [hresult]
      simp
  · obtain ⟨run, result, hrun, hresult, hartifacts, hcomplete⟩ := hbound h
    exact ⟨run, result, hrun, hresult, hartifacts, hcomplete.called, hgraph.order_perm,
      graph.order_nodup, hgraph.forward, hcomplete.prescribed⟩
  -- Both registries are keyed, so the order of registration is lost.
  · intro executors' externalInputs' hperm hperm'
    unfold executeNativeGraphWithExternalInputs
    rw [runNativeGraph_perm graph identity.reproducibility hperm hperm']

namespace TwoNodes

/-- The type of every value here. -/
def series : TypedValue := ⟨"curve", .first, SmallRun.digest [1], by decide +kernel⟩

/-- A node with an input port and an output port. -/
def node (id : Ulid) : ResearchNode :=
  ⟨id, ⟨[⟨"in", series, by decide +kernel⟩], [⟨"out", series, by decide +kernel⟩], SmallRun.digest [2],
    by decide +kernel, by decide +kernel⟩, SmallRun.digest []⟩

/-- The first node reads the external input, the second one the first. -/
def graph : ResearchGraph :=
  (ResearchGraph.new SmallRun.digest ⟨1⟩ .first ⟨⟨2⟩, ⟨3⟩⟩ [node ⟨8⟩, node ⟨7⟩]
    [⟨⟨8⟩, "out", ⟨7⟩, "in"⟩] [⟨"rates", series⟩] [⟨"rates", ⟨8⟩, "in"⟩]).toOption.get
    (by decide +kernel)

def rates : ExecutionExternalInput :=
  (ExecutionExternalInput.new SmallRun.digest "rates" series [5]).toOption.get (by decide +kernel)

/-- An executor that returns one value. -/
def executor (id : Ulid) : NativeNode SmallRun.digest :=
  ⟨id, SmallRun.digest [3], fun _ => (NativePortValue.new SmallRun.digest "out" series [6]).map ([·])⟩

def identity : ExecutionInstanceIdentity :=
  .fromReproducibility SmallRun.digest ⟨9⟩ ((ReproducibilityIdentity.new SmallRun.digest graph
    { externalInputs := [rates]
      dataSnapshotHash := SmallRun.digest [10]
      universeSnapshotHash := SmallRun.digest [11]
      parametersHash := SmallRun.digest [12]
      runtimeImageDigest := SmallRun.digest [13]
      environmentDigest := SmallRun.digest [14]
      seed := 0
      rulePackBindings := []
      nodeImplementations := [⟨⟨7⟩, SmallRun.digest [3]⟩, ⟨⟨8⟩, SmallRun.digest [3]⟩] }).toOption.get
    (by decide +kernel))

/-- The sample's executors answer each request with the declared ports. -/
theorem honours (id : Ulid) : (executor id).Honours graph identity.reproducibility := by
  intro node hnode _ inputs _
  have hports : ∀ node ∈ graph.nodes, declaredPorts node.contract.outputTypes = [("out", series)] := by
    decide +kernel
  obtain ⟨value, hvalue⟩ : ∃ value, NativePortValue.new SmallRun.digest "out" series [6] = .ok value :=
    ⟨_, by rw [NativePortValue.new, dif_neg (by decide +kernel)]⟩
  obtain ⟨hport, htype, -⟩ := NativePortValue.new_eq_ok hvalue
  refine ⟨[value], ?_, ?_⟩
  · simp only [executor, hvalue]
    rfl
  · rw [hports node hnode]
    simp [portsOf, hport, htype]

end TwoNodes

theorem nativeGraph_complete_two_nodes :
    ∃ run result,
      runNativeGraph TwoNodes.graph TwoNodes.identity.reproducibility
        [TwoNodes.executor ⟨7⟩, TwoNodes.executor ⟨8⟩] [TwoNodes.rates] = .ok run ∧
      executeNativeGraphWithExternalInputs TwoNodes.graph TwoNodes.identity
        [TwoNodes.executor ⟨8⟩, TwoNodes.executor ⟨7⟩] [TwoNodes.rates] = .ok result ∧
      run.calls.map (fun call => call.request.node.nodeId) = [⟨8⟩, ⟨7⟩] := by
  have h := nativeGraph_complete SmallRun.digest TwoNodes.graph TwoNodes.identity
    [TwoNodes.executor ⟨7⟩, TwoNodes.executor ⟨8⟩] [TwoNodes.rates]
    ⟨_, _, _, _, _, _, _, eq_ok_get _⟩
    (by decide +kernel) (by decide +kernel)
    (by
      intro input hinput
      obtain rfl := List.mem_singleton.mp hinput
      exact ⟨_, _, _, eq_ok_get _⟩)
    (by
      obtain ⟨registry, h, -⟩ := exists_ok_of_any (x := externalInputRegistry TwoNodes.graph
        TwoNodes.identity.reproducibility [TwoNodes.rates]) (p := fun _ => true) (by decide +kernel)
      exact ⟨registry, h⟩)
    (by
      intro executor hexecutor
      fin_cases hexecutor <;> exact TwoNodes.honours _)
  obtain ⟨run, result, hrun, hresult, -, hcalls, -⟩ := h.2.2.1 (by decide +kernel)
  refine ⟨run, result, hrun, ?_, ?_⟩
  -- The executors in the other order.
  · rw [h.2.2.2 _ _ (List.Perm.swap _ _ []) (List.Perm.refl _)]
    exact hresult
  · rw [hcalls]
    decide +kernel

end Ficant
