import Ficant.Lib.Bytes
import Ficant.Lib.Except
import Ficant.Lib.StableSort
import Ficant.Primitives

namespace Ficant

open Lib

/-!
# Research graphs

The frozen definition of a computation (`ficant-domain/src/research/research_graph.rs`): nodes with
typed ports, edges and external inputs that bind every input port, and a topological order of the
nodes.

* `topologicalOrder` — Kahn's algorithm, always taking the smallest ready node.
* `ResearchGraph.new` — the constructor, which sorts its lists, checks the bindings and orders the
  nodes.
* `ResearchGraph` — an accepted graph: its order names no node twice and is not empty.

A node's contract enters through its ports and its digest; the fields that only feed that digest
are left out.
-/

/-- `ensure_symbol`: 1 to 128 bytes of lower-case letters, digits and inner `.`, `_` and `-`. -/
def ensureSymbol (value : String) : Except DomainErrorCode Unit :=
  let isAlphanumeric : Char → Bool := fun c => ('a' ≤ c ∧ c ≤ 'z') ∨ ('0' ≤ c ∧ c ≤ '9')
  let chars := value.toList
  if chars.isEmpty || 128 < (utf8 value).length || !chars.head?.any isAlphanumeric ||
      !chars.getLast?.any isAlphanumeric ||
      !chars.all (fun c => isAlphanumeric c || c = '.' || c = '_' || c = '-') then
    .error .invalidValue
  else .ok ()

/-- `TypedValue`. -/
structure TypedValue where
  typeId : String
  typeVersion : Version
  schemaHash : ContentHash
  typeId_symbol : ensureSymbol typeId = .ok ()
  deriving DecidableEq

/-- `TypedValue::new`. -/
def TypedValue.new (typeId : String) (typeVersion : Version) (schemaHash : ContentHash) :
    Except DomainErrorCode TypedValue :=
  match h : ensureSymbol typeId with
  | .error code => .error code
  | .ok () => .ok ⟨typeId, typeVersion, schemaHash, h⟩

/-- A typed value that is built holds what it was built from. -/
theorem TypedValue.new_eq_ok {typeId : String} {typeVersion : Version} {schemaHash : ContentHash}
    {value : TypedValue} (h : TypedValue.new typeId typeVersion schemaHash = .ok value) :
    value.typeId = typeId ∧ value.typeVersion = typeVersion ∧ value.schemaHash = schemaHash := by
  unfold TypedValue.new at h
  split at h
  · cases h
  · obtain rfl := Except.ok.inj h
    exact ⟨rfl, rfl, rfl⟩

/-- A typed value is built again from its own fields. -/
theorem TypedValue.new_self (value : TypedValue) :
    TypedValue.new value.typeId value.typeVersion value.schemaHash = .ok value := by
  unfold TypedValue.new
  split
  · rename_i code hcode
    rw [value.typeId_symbol] at hcode
    cases hcode
  · rfl

/-- `PortType`. -/
structure PortType where
  portName : String
  valueType : TypedValue
  portName_symbol : ensureSymbol portName = .ok ()
  deriving DecidableEq

/-- `ResearchNodeContract`: its ports, strictly sorted by name (`canonical_ports`), and its
    digest. -/
structure ResearchNodeContract where
  inputTypes : List PortType
  outputTypes : List PortType
  digest : ContentHash
  inputs_sorted : inputTypes.Pairwise fun a b => a.portName < b.portName
  outputs_sorted : outputTypes.Pairwise fun a b => a.portName < b.portName
  deriving DecidableEq

/-- `ResearchNode`. -/
structure ResearchNode where
  nodeId : Ulid
  contract : ResearchNodeContract
  parametersHash : ContentHash
  deriving DecidableEq

/-- `ResearchEdge`. -/
structure ResearchEdge where
  fromNode : Ulid
  fromPort : String
  toNode : Ulid
  toPort : String
  deriving DecidableEq

/-- `GraphExternalInput`. -/
structure GraphExternalInput where
  inputId : String
  valueType : TypedValue
  deriving DecidableEq

/-- `GraphExternalInputBinding`. -/
structure GraphExternalInputBinding where
  inputId : String
  toNode : Ulid
  toPort : String
  deriving DecidableEq

/-! ### The topological order -/

/-- The loop state of `topological_order`. -/
structure OrderState where
  indegree : SortedMap Ulid ℕ
  ready : SortedMap Ulid Unit
  order : List Ulid

namespace OrderState

/-- One target of the node just taken: its indegree drops, and at zero it is ready. -/
def release (state : OrderState) (target : Ulid) : Except DomainErrorCode OrderState :=
  match state.indegree.get? target with
  | none => .error .brokenLineage
  | some 0 => .error .invalidValue
  | some (degree + 1) => .ok
    { state with
      indegree := state.indegree.insert target degree
      ready := if degree = 0 then state.ready.insert target () else state.ready }

/-- `ready.pop_first`: the smallest ready node moves to the order. -/
def take (state : OrderState) (node : Ulid) : OrderState :=
  { state with ready := state.ready.erase node, order := state.order ++ [node] }

/-- The `while` loop. Every round adds a node to the order, so the number of nodes bounds it. -/
def loop (outgoing : SortedMap Ulid (List Ulid)) : ℕ → OrderState → Except DomainErrorCode OrderState
  | 0, state => .ok state
  | rounds + 1, state =>
    match state.ready.keys with
    | [] => .ok state
    | node :: _ => do
      let state ← ((outgoing.get? node).getD []).foldlM release (state.take node)
      loop outgoing rounds state

end OrderState

/-- How many edges lead into each node. -/
def countIndegree (nodes : List Ulid) (edges : List ResearchEdge) :
    Except DomainErrorCode (SortedMap Ulid ℕ) :=
  edges.foldlM
    (fun indegree edge =>
      match indegree.get? edge.toNode with
      | none => .error .brokenLineage
      | some value => .ok (indegree.insert edge.toNode (value + 1)))
    (SortedMap.ofList (nodes.map fun node => (node, 0)))

/-- `topological_order`. -/
def topologicalOrder (nodes : List Ulid) (edges : List ResearchEdge) :
    Except DomainErrorCode (List Ulid) := do
  let indegree ← countIndegree nodes edges
  let outgoing := SortedMap.groupBy ResearchEdge.fromNode edges
  let targets : SortedMap Ulid (List Ulid) :=
    SortedMap.ofList (outgoing.entries.map fun e => (e.1, e.2.map ResearchEdge.toNode))
  let ready := SortedMap.ofList
    ((indegree.entries.filter fun e => e.2 = 0).map fun e => (e.1, ()))
  let final ← OrderState.loop targets nodes.length ⟨indegree, ready, []⟩
  if final.order.length ≠ nodes.length then .error .invalidValue else pure final.order

/-- The nodes that are ready at the start are those without incoming edges. -/
theorem initialReady_isSome_iff {indegree : SortedMap Ulid ℕ} {n : Ulid} :
    ((SortedMap.ofList ((indegree.entries.filter fun e => e.2 = 0).map fun e =>
      (e.1, ()))).get? n).isSome ↔ indegree.get? n = some 0 := by
  rw [SortedMap.ofList_get?_isSome, ← SortedMap.mem_entries_iff]
  simp only [List.mem_map, List.mem_filter, decide_eq_true_eq]
  constructor
  · rintro ⟨_, ⟨m, degree⟩, ⟨hmem, hzero⟩, hkey⟩
    obtain ⟨rfl, -⟩ := Prod.mk.inj hkey
    obtain rfl : degree = 0 := hzero
    exact hmem
  · exact fun hmem => ⟨(), (n, 0), ⟨hmem, rfl⟩, rfl⟩

namespace OrderState

/-- The nodes taken or ready have indegree zero, no node is both, and none is taken twice. -/
structure Valid (state : OrderState) : Prop where
  nodup : state.order.Nodup
  taken : ∀ n ∈ state.order, state.indegree.get? n = some 0
  ready : ∀ n, (state.ready.get? n).isSome → state.indegree.get? n = some 0
  apart : ∀ n ∈ state.order, state.ready.get? n = none

/-- The ordering starts in a valid state. -/
theorem valid_start (indegree : SortedMap Ulid ℕ) : Valid ⟨indegree, SortedMap.ofList
    ((indegree.entries.filter fun e => e.2 = 0).map fun e => (e.1, ())), []⟩ :=
  ⟨List.nodup_nil, by simp, fun _ hn => initialReady_isSome_iff.mp hn, by simp⟩

/-- **Inversion.** A node that is released had an edge to wait for; at zero it is ready. -/
theorem release_eq_ok {state state' : OrderState} {target : Ulid}
    (h : state.release target = .ok state') :
    ∃ degree, state.indegree.get? target = some (degree + 1) ∧
      state' = { state with
        indegree := state.indegree.insert target degree
        ready := if degree = 0 then state.ready.insert target () else state.ready } := by
  unfold release at h
  split at h
  · cases h
  · cases h
  · rename_i degree hdegree
    exact ⟨degree, hdegree, (Except.ok.inj h).symm⟩

/-- Releasing a node keeps the state valid. -/
theorem Valid.release {state state' : OrderState} (hv : state.Valid) {target : Ulid}
    (h : state.release target = .ok state') : state'.Valid := by
  obtain ⟨degree, hdegree, rfl⟩ := release_eq_ok h
  -- the target still had an incoming edge, so it was neither taken nor ready
  have hne : ∀ n, state.indegree.get? n = some 0 → n ≠ target := by
    rintro n hn rfl
    rw [hn] at hdegree
    cases hdegree
  refine ⟨hv.nodup, fun n hn => ?_, fun n hn => ?_, fun n hn => ?_⟩
  · show (state.indegree.insert target degree).get? n = some 0
    rw [SortedMap.get?_insert, if_neg (hne n (hv.taken n hn))]
    exact hv.taken n hn
  · show (state.indegree.insert target degree).get? n = some 0
    by_cases hd : degree = 0
    · simp only [hd, if_true, SortedMap.get?_insert] at hn ⊢
      by_cases hnt : n = target
      · rw [if_pos hnt]
      · rw [if_neg hnt] at hn ⊢
        exact hv.ready n hn
    · simp only [hd, if_false] at hn
      rw [SortedMap.get?_insert, if_neg (hne n (hv.ready n hn))]
      exact hv.ready n hn
  · show (if degree = 0 then state.ready.insert target () else state.ready).get? n = none
    split
    · rw [SortedMap.get?_insert, if_neg (hne n (hv.taken n hn))]
      exact hv.apart n hn
    · exact hv.apart n hn

/-- Taking a ready node keeps the state valid. -/
theorem Valid.take {state : OrderState} (hv : state.Valid) {node : Ulid}
    (hnode : (state.ready.get? node).isSome) : (state.take node).Valid := by
  -- The node moves from the ready ones to the order; all others stay where they were.
  refine ⟨?_, fun n hn => ?_, fun n hn => ?_, fun n hn => ?_⟩
  · refine List.nodup_append.mpr ⟨hv.nodup, List.nodup_singleton node, ?_⟩
    rintro n hn m hm rfl
    obtain rfl := List.mem_singleton.mp hm
    rw [hv.apart n hn] at hnode
    cases hnode
  · rcases List.mem_append.mp hn with hn | hn
    · exact hv.taken n hn
    · obtain rfl := List.mem_singleton.mp hn
      exact hv.ready n hnode
  · simp only [OrderState.take, SortedMap.get?_erase] at hn
    split at hn
    · cases hn
    · exact hv.ready n hn
  · simp only [OrderState.take, SortedMap.get?_erase]
    split
    · rfl
    · rename_i hne
      rcases List.mem_append.mp hn with hn | hn
      · exact hv.apart n hn
      · exact absurd (List.mem_singleton.mp hn) hne

/-- Releasing nodes one after the other keeps the state valid. -/
theorem Valid.foldlM {targets : List Ulid} {state state' : OrderState} (hv : state.Valid)
    (h : targets.foldlM OrderState.release state = .ok state') : state'.Valid := by
  induction targets generalizing state with
  | nil => exact Except.ok.inj h ▸ hv
  | cons target targets ih =>
    obtain ⟨next, hnext, h⟩ := bind_eq_ok.mp h
    exact ih (hv.release hnext) h

/-- **The ordering loop keeps the state valid.** -/
theorem Valid.loop {outgoing : SortedMap Ulid (List Ulid)} {rounds : ℕ} {state state' : OrderState}
    (hv : state.Valid) (h : OrderState.loop outgoing rounds state = .ok state') : state'.Valid := by
  induction rounds generalizing state with
  | zero => exact Except.ok.inj h ▸ hv
  | succ rounds ih =>
    simp only [OrderState.loop] at h
    split at h
    · exact Except.ok.inj h ▸ hv
    · rename_i node _ hkeys
      obtain ⟨next, hnext, h⟩ := bind_eq_ok.mp h
      have hnode : (state.ready.get? node).isSome :=
        SortedMap.mem_keys_iff.mp (hkeys ▸ List.mem_cons_self)
      exact ih ((hv.take hnode).foldlM hnext) h

end OrderState

/-- The topological order names no node twice and has as many entries as there are nodes. -/
theorem topologicalOrder_nodup {nodes : List Ulid} {edges : List ResearchEdge} {order : List Ulid}
    (h : topologicalOrder nodes edges = .ok order) :
    order.Nodup ∧ order.length = nodes.length := by
  obtain ⟨indegree, hindegree, h⟩ := bind_eq_ok.mp h
  obtain ⟨final, hfinal, h⟩ := bind_eq_ok.mp h
  split at h
  · cases h
  rename_i hlength
  obtain rfl := Except.ok.inj h
  exact ⟨((OrderState.valid_start indegree).loop hfinal).nodup, not_not.mp hlength⟩

/-! ### Bindings -/

/-- `port`: the port of that name; the ports are sorted, so the binary search finds it. -/
def port (ports : List PortType) (name : String) : Except DomainErrorCode PortType :=
  match ports.find? fun candidate => candidate.portName = name with
  | none => .error .brokenLineage
  | some found => .ok found

/-- The node with that identifier. -/
def lookupNode (nodes : List ResearchNode) (id : Ulid) : Except DomainErrorCode ResearchNode :=
  match nodes.find? fun node => node.nodeId = id with
  | none => .error .brokenLineage
  | some node => .ok node

/-- One input port of a node, by the node's identifier and the port's name. -/
abbrev InputPort := Ulid × String

/-- One edge of `validate_bindings`: its ends exist, their types agree, and its target port is
    bound for the first time. -/
def bindEdge (nodes : List ResearchNode) (bound : List InputPort) (edge : ResearchEdge) :
    Except DomainErrorCode (List InputPort) := do
  let source ← lookupNode nodes edge.fromNode
  let target ← lookupNode nodes edge.toNode
  let output ← port source.contract.outputTypes edge.fromPort
  let input ← port target.contract.inputTypes edge.toPort
  if output.valueType ≠ input.valueType then .error .invalidValue
  else if (edge.toNode, edge.toPort) ∈ bound then .error .invalidValue
  else pure ((edge.toNode, edge.toPort) :: bound)

/-- One external binding of `validate_bindings`. -/
def bindExternal (nodes : List ResearchNode) (externalInputs : List GraphExternalInput)
    (bound : List InputPort) (binding : GraphExternalInputBinding) :
    Except DomainErrorCode (List InputPort) := do
  match externalInputs.find? fun input => input.inputId = binding.inputId with
  | none => .error .brokenLineage
  | some declaration =>
    let target ← lookupNode nodes binding.toNode
    let input ← port target.contract.inputTypes binding.toPort
    if declaration.valueType ≠ input.valueType then .error .invalidValue
    else if (binding.toNode, binding.toPort) ∈ bound then .error .invalidValue
    else pure ((binding.toNode, binding.toPort) :: bound)

/-- `validate_bindings`: every edge and binding fits, every external input is used and every input
    port is bound. -/
def validateBindings (nodes : List ResearchNode) (edges : List ResearchEdge)
    (externalInputs : List GraphExternalInput) (bindings : List GraphExternalInputBinding) :
    Except DomainErrorCode Unit := do
  let bound ← edges.foldlM (bindEdge nodes) []
  let bound ← bindings.foldlM (bindExternal nodes externalInputs) bound
  if (SortedMap.sortedSet (bindings.map GraphExternalInputBinding.inputId)).length ≠
    externalInputs.length then
    .error .brokenLineage
  else if nodes.all fun node => node.contract.inputTypes.all fun input =>
      (node.nodeId, input.portName) ∈ bound then pure ()
  else .error .brokenLineage

/-! ### Accepted graphs -/

/-- `ResearchGraph`: an accepted graph. -/
structure ResearchGraph where
  graphId : Ulid
  version : Version
  owner : OwnerRef
  nodes : List ResearchNode
  edges : List ResearchEdge
  externalInputs : List GraphExternalInput
  externalInputBindings : List GraphExternalInputBinding
  topologicalOrder : List Ulid
  digest : ContentHash
  order_nodup : topologicalOrder.Nodup
  order_ne_nil : topologicalOrder ≠ []
  deriving DecidableEq

namespace ResearchGraph

/-- Whether two neighbours in a list share a key. -/
def adjacentEqual {α κ : Type} [DecidableEq κ] (key : α → κ) (l : List α) : Bool :=
  (l.zip l.tail).any fun pair => key pair.1 = key pair.2

/-- The order of edges: by source, source port, target and target port. -/
def edgeKey (edge : ResearchEdge) : Ulid ×ₗ String ×ₗ Ulid ×ₗ String :=
  toLex (edge.fromNode, toLex (edge.fromPort, toLex (edge.toNode, edge.toPort)))

/-- The order of external bindings: by input, target and target port. -/
def bindingKey (binding : GraphExternalInputBinding) : String ×ₗ Ulid ×ₗ String :=
  toLex (binding.inputId, toLex (binding.toNode, binding.toPort))

/-- `push_typed_value`. -/
def typedValueBytes (value : TypedValue) : List UInt8 :=
  prefixedText value.typeId ++ bigEndian 8 value.typeVersion.value ++ value.schemaHash.bytes

/-- `ResearchGraph::canonical_bytes`. -/
def canonicalBytes (graphId : Ulid) (version : Version) (owner : OwnerRef)
    (nodes : List ResearchNode) (edges : List ResearchEdge)
    (externalInputs : List GraphExternalInput) (bindings : List GraphExternalInputBinding) :
    List UInt8 :=
  utf8 "ficant/research-graph/v1" ++ prefixedText graphId.text ++ bigEndian 8 version.value ++
    prefixedText owner.tenantId.text ++ prefixedText owner.ownerId.text ++
    writeList (fun node =>
      prefixedText node.nodeId.text ++ node.contract.digest.bytes ++ node.parametersHash.bytes)
      nodes ++
    writeList (fun edge =>
      prefixedText edge.fromNode.text ++ prefixedText edge.fromPort ++
        prefixedText edge.toNode.text ++ prefixedText edge.toPort) edges ++
    writeList (fun input => prefixedText input.inputId ++ typedValueBytes input.valueType)
      externalInputs ++
    writeList (fun binding =>
      prefixedText binding.inputId ++ prefixedText binding.toNode.text ++
        prefixedText binding.toPort) bindings

/-- `ResearchGraph::new_with_external_inputs`. -/
def new (digest : List UInt8 → ContentHash) (graphId : Ulid) (version : Version) (owner : OwnerRef)
    (nodes : List ResearchNode) (edges : List ResearchEdge)
    (externalInputs : List GraphExternalInput) (bindings : List GraphExternalInputBinding) :
    Except DomainErrorCode ResearchGraph :=
  let sortedNodes := nodes.insertionSort fun a b => a.nodeId ≤ b.nodeId
  let sortedEdges := edges.insertionSort fun a b => edgeKey a ≤ edgeKey b
  let sortedInputs := externalInputs.insertionSort fun a b => a.inputId ≤ b.inputId
  let sortedBindings := bindings.insertionSort fun a b => bindingKey a ≤ bindingKey b
  if hne : sortedNodes = [] then .error .invalidValue
  else if adjacentEqual ResearchNode.nodeId sortedNodes then .error .invalidValue
  else if adjacentEqual edgeKey sortedEdges then .error .invalidValue
  else if adjacentEqual GraphExternalInput.inputId sortedInputs then .error .invalidValue
  else if adjacentEqual bindingKey sortedBindings then .error .invalidValue
  else
    match validateBindings sortedNodes sortedEdges sortedInputs sortedBindings with
    | .error e => .error e
    | .ok () =>
      match horder : Ficant.topologicalOrder (sortedNodes.map ResearchNode.nodeId) sortedEdges with
      | .error e => .error e
      | .ok order => .ok
        { graphId, version, owner
          nodes := sortedNodes
          edges := sortedEdges
          externalInputs := sortedInputs
          externalInputBindings := sortedBindings
          topologicalOrder := order
          digest := digest
            (canonicalBytes graphId version owner sortedNodes sortedEdges sortedInputs sortedBindings)
          order_nodup := (topologicalOrder_nodup horder).1
          order_ne_nil := by
            rintro rfl
            have hlength := (topologicalOrder_nodup horder).2
            rw [List.length_map] at hlength
            exact hne (List.eq_nil_of_length_eq_zero hlength.symm) }

end ResearchGraph

end Ficant
