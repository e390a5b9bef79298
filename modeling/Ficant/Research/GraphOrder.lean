import Ficant.Research.ResearchGraph

namespace Ficant

open Lib

/-!
# What an accepted graph guarantees

The constructor of a research graph checks its bindings and orders its nodes
(`ficant-domain/src/research/research_graph.rs`); later stages rely on what these checks establish.

* `OrderState.Tracks` — the loop invariant of Kahn's algorithm: the indegree of a node counts its
  edges from nodes that are not yet in the order;
* `Forward` — an order in which every edge leads forward;
* `ResearchGraph.Accepted` — the facts about an accepted graph, from `ResearchGraph.accepted_of_new`:
  the order is a forward order of the nodes, every edge and external binding connects existing ports
  of one type, and every input port is fed exactly once.
-/

/-! ### The topological order -/

/-- Every edge into a node comes from a node earlier in the order. -/
def Forward (edges : List ResearchEdge) (order : List Ulid) : Prop :=
  ∀ before node after, order = before ++ node :: after →
    ∀ edge ∈ edges, edge.toNode = node → edge.fromNode ∈ before

/-- A node whose predecessors are all in the order may be appended to it. -/
theorem Forward.snoc {edges : List ResearchEdge} {order : List Ulid} {node : Ulid}
    (h : Forward edges order) (hnode : ∀ edge ∈ edges, edge.toNode = node → edge.fromNode ∈ order) :
    Forward edges (order ++ [node]) := by
  intro before n after heq
  rcases List.eq_nil_or_concat after with rfl | ⟨front, last, rfl⟩
  · obtain ⟨rfl, hn⟩ := List.append_inj' heq rfl
    obtain rfl := List.singleton_inj.mp hn
    exact hnode
  · rw [List.concat_eq_append, ← List.cons_append, ← List.append_assoc] at heq
    obtain ⟨rfl, -⟩ := List.append_inj' heq rfl
    exact h before n front rfl

/-- The edges into a node from outside the order. -/
def pendingEdges (edges : List ResearchEdge) (order : List Ulid) (node : Ulid) : ℕ :=
  edges.countP fun edge => edge.toNode = node ∧ edge.fromNode ∉ order

/-- One more edge is one more to wait for exactly when it enters the node from outside the order. -/
theorem pendingEdges_cons (edge : ResearchEdge) (edges : List ResearchEdge) (order : List Ulid)
    (node : Ulid) : pendingEdges (edge :: edges) order node = pendingEdges edges order node +
      if edge.toNode = node ∧ edge.fromNode ∉ order then 1 else 0 := by
  simp [pendingEdges, List.countP_cons]

/-- Taking a node settles the edges that leave it. -/
theorem pendingEdges_snoc (edges : List ResearchEdge) {order : List Ulid} {taken : Ulid}
    (htaken : taken ∉ order) (node : Ulid) :
    pendingEdges edges order node = pendingEdges edges (order ++ [taken]) node +
      ((edges.filter fun edge => edge.fromNode = taken).map ResearchEdge.toNode).count node := by
  induction edges with
  | nil => rfl
  | cons edge edges ih =>
    rw [pendingEdges_cons, pendingEdges_cons, ih]
    by_cases hfrom : edge.fromNode = taken
    · -- an edge out of the node that is taken moves from the first count to the second
      have hfilter : (edge :: edges).filter (fun edge => edge.fromNode = taken) =
          edge :: edges.filter fun edge => edge.fromNode = taken := by simp [hfrom]
      rw [hfilter, List.map_cons, List.count_cons]
      by_cases hto : edge.toNode = node
      · simp [hto, hfrom, htaken]
        omega
      · simp [hto]
    · have hfilter : (edge :: edges).filter (fun edge => edge.fromNode = taken) =
          edges.filter fun edge => edge.fromNode = taken := by simp [hfrom]
      have hiff : edge.fromNode ∉ order ++ [taken] ↔ edge.fromNode ∉ order := by simp [hfrom]
      rw [hfilter]
      simp only [hiff]
      omega

namespace OrderState

/-- The indegrees count the pending edges of each node. -/
def Tracks (nodes : List Ulid) (edges : List ResearchEdge) (order : List Ulid)
    (indegree : SortedMap Ulid ℕ) : Prop :=
  ∀ node, indegree.get? node = if node ∈ nodes then some (pendingEdges edges order node) else none

/-- Releasing targets takes their number of occurrences off each indegree. -/
theorem foldlM_release {targets : List Ulid} {state state' : OrderState}
    (h : targets.foldlM OrderState.release state = .ok state') :
    state'.order = state.order ∧ ∀ node degree, state.indegree.get? node = some degree →
      targets.count node ≤ degree ∧
        state'.indegree.get? node = some (degree - targets.count node) := by
  induction targets generalizing state with
  | nil =>
    obtain rfl := Except.ok.inj h
    simp
  | cons target targets ih =>
    obtain ⟨next, hnext, h⟩ := bind_eq_ok.mp h
    obtain ⟨degree, htarget, rfl⟩ := OrderState.release_eq_ok hnext
    obtain ⟨horder, hdegrees⟩ := ih h
    refine ⟨horder, fun node d hd => ?_⟩
    -- The degree of the target falls by one for each time it is released.
    by_cases hnode : node = target
    · subst hnode
      obtain rfl := Option.some.inj (htarget.symm.trans hd)
      obtain ⟨hle, hget⟩ := hdegrees node degree (by simp)
      rw [List.count_cons_self]
      refine ⟨by omega, ?_⟩
      rw [hget]
      congr 1
      omega
    · obtain ⟨hle, hget⟩ := hdegrees node d (by simpa [SortedMap.get?_insert, hnode] using hd)
      rw [List.count_cons_of_ne (Ne.symm hnode)]
      exact ⟨hle, hget⟩

/-- Releasing targets does not add keys to the indegrees. -/
theorem foldlM_release_none {targets : List Ulid} {state state' : OrderState}
    (h : targets.foldlM OrderState.release state = .ok state') {node : Ulid}
    (hnode : state.indegree.get? node = none) : state'.indegree.get? node = none := by
  induction targets generalizing state with
  | nil => exact Except.ok.inj h ▸ hnode
  | cons target targets ih =>
    obtain ⟨next, hnext, h⟩ := bind_eq_ok.mp h
    obtain ⟨degree, htarget, rfl⟩ := OrderState.release_eq_ok hnext
    refine ih h ?_
    have hne : node ≠ target := by
      rintro rfl
      rw [hnode] at htarget
      cases htarget
    simpa [SortedMap.get?_insert, hne] using hnode

/-- The state of the loop between two rounds. -/
structure Sorted (nodes : List Ulid) (edges : List ResearchEdge) (state : OrderState) : Prop where
  valid : state.Valid
  tracks : Tracks nodes edges state.order state.indegree
  forward : Forward edges state.order
  subset : ∀ node ∈ state.order, node ∈ nodes

/-- One round of the loop takes a node whose sources are all in the order. -/
theorem Sorted.round {nodes : List Ulid} {edges : List ResearchEdge} {state state' : OrderState}
    (hs : state.Sorted nodes edges) {node : Ulid} (hready : (state.ready.get? node).isSome)
    (h : ((edges.filter fun edge => edge.fromNode = node).map ResearchEdge.toNode).foldlM
      OrderState.release (state.take node) = .ok state') : state'.Sorted nodes edges := by
  have hzero := hs.valid.ready node hready
  -- A ready node has not been taken before.
  have hnew : node ∉ state.order := by
    intro hmem
    rw [hs.valid.apart node hmem] at hready
    cases hready
  obtain ⟨horder, hdegrees⟩ := foldlM_release h
  have htracks := hs.tracks node
  rw [hzero] at htracks
  have hmem : node ∈ nodes := by
    by_contra hnot
    rw [if_neg hnot] at htracks
    cases htracks
  rw [if_pos hmem, Option.some.injEq, eq_comm, pendingEdges, List.countP_eq_zero] at htracks
  refine ⟨(hs.valid.take hready).foldlM h, fun n => ?_, ?_, ?_⟩
  · rw [horder]
    show state'.indegree.get? n = if n ∈ nodes then some (pendingEdges edges (state.order ++ [node]) n)
      else none
    have hn := hs.tracks n
    by_cases hin : n ∈ nodes
    · rw [if_pos hin] at hn ⊢
      have hsplit := pendingEdges_snoc edges hnew n
      rw [(hdegrees n _ hn).2]
      congr 1
      omega
    · rw [if_neg hin] at hn ⊢
      exact foldlM_release_none h hn
  · rw [horder]
    refine hs.forward.snoc fun edge hedge hto => ?_
    -- A node is ready only when no edge into it is pending.
    by_contra hfrom
    exact htracks edge hedge (by simp [hto, hfrom])
  · rw [horder]
    intro n hn
    rcases List.mem_append.mp hn with hn | hn
    · exact hs.subset n hn
    · rwa [List.mem_singleton.mp hn]

/-- The loop keeps the order forward, by induction on its rounds. -/
theorem Sorted.loop {nodes : List Ulid} {edges : List ResearchEdge}
    {outgoing : SortedMap Ulid (List Ulid)}
    (houtgoing : ∀ node, (outgoing.get? node).getD [] =
      (edges.filter fun edge => edge.fromNode = node).map ResearchEdge.toNode)
    {rounds : ℕ} {state state' : OrderState} (hs : state.Sorted nodes edges)
    (h : OrderState.loop outgoing rounds state = .ok state') : state'.Sorted nodes edges := by
  induction rounds generalizing state with
  | zero => exact Except.ok.inj h ▸ hs
  | succ rounds ih =>
    simp only [OrderState.loop] at h
    split at h
    · exact Except.ok.inj h ▸ hs
    · rename_i node _ hkeys
      obtain ⟨next, hnext, h⟩ := bind_eq_ok.mp h
      have hready : (state.ready.get? node).isSome :=
        SortedMap.mem_keys_iff.mp (hkeys ▸ List.mem_cons_self)
      rw [houtgoing] at hnext
      exact ih (hs.round hready hnext) h

end OrderState

/-! ### The order as a whole -/

/-- Counting the edges fails at an edge into no node, and counts the pending edges otherwise. -/
theorem countIndegree_tracks {nodes : List Ulid} {edges : List ResearchEdge}
    {indegree : SortedMap Ulid ℕ} (hnodes : nodes.Nodup)
    (h : countIndegree nodes edges = .ok indegree) : OrderState.Tracks nodes edges [] indegree := by
  induction edges using List.reverseRecOn generalizing indegree with
  | nil =>
    obtain rfl := Except.ok.inj h
    intro node
    have hkeys : ((nodes.map fun node => (node, 0)).map Prod.fst).Nodup := by
      simpa [List.map_map, Function.comp_def] using hnodes
    by_cases hmem : node ∈ nodes
    · rw [if_pos hmem, SortedMap.get?_ofList hkeys]
      exact List.mem_map.mpr ⟨node, hmem, rfl⟩
    · rw [if_neg hmem, Option.eq_none_iff_forall_ne_some]
      intro degree hdegree
      rw [SortedMap.get?_ofList hkeys] at hdegree
      obtain ⟨n, hn, hpair⟩ := List.mem_map.mp hdegree
      obtain ⟨rfl, -⟩ := Prod.mk.inj hpair
      exact hmem hn
  | append_singleton edges edge ih =>
    rw [countIndegree, List.foldlM_append] at h
    obtain ⟨counted, hcounted, h⟩ := bind_eq_ok.mp h
    have htracks := ih hcounted
    obtain ⟨last, hlast, h⟩ := bind_eq_ok.mp h
    obtain rfl := Except.ok.inj h
    simp only at hlast
    split at hlast
    · cases hlast
    rename_i degree hdegree
    obtain rfl := Except.ok.inj hlast
    intro node
    -- One more edge is one more to wait for at its target.
    have hpending : pendingEdges (edges ++ [edge]) [] node =
        pendingEdges edges [] node + if edge.toNode = node then 1 else 0 := by
      simp [pendingEdges, List.countP_append, List.countP_cons]
    rw [SortedMap.get?_insert, hpending]
    have hnode := htracks node
    by_cases hto : node = edge.toNode
    · subst hto
      rw [hdegree] at hnode
      by_cases hmem : edge.toNode ∈ nodes
      · rw [if_pos hmem] at hnode ⊢
        rw [if_pos rfl, if_pos rfl, Option.some.inj hnode]
      · rw [if_neg hmem] at hnode
        cases hnode
    · rw [if_neg hto, if_neg (Ne.symm hto), Nat.add_zero]
      exact hnode

/-- The targets of each node, as the loop looks them up. -/
theorem getD_targets (edges : List ResearchEdge) (node : Ulid) :
    ((SortedMap.ofList ((SortedMap.groupBy ResearchEdge.fromNode edges).entries.map fun e =>
      (e.1, e.2.map ResearchEdge.toNode))).get? node).getD [] =
      (edges.filter fun edge => edge.fromNode = node).map ResearchEdge.toNode := by
  have hkeys : (((SortedMap.groupBy ResearchEdge.fromNode edges).entries.map fun e =>
      (e.1, e.2.map ResearchEdge.toNode)).map Prod.fst).Nodup := by
    rw [List.map_map]
    exact (SortedMap.keys_sorted _).imp fun hlt => ne_of_lt hlt
  by_cases hnone : edges.filter (fun edge => edge.fromNode = node) = []
  · rw [hnone, List.map_nil]
    -- no group carries the node's key
    have hget : (SortedMap.ofList ((SortedMap.groupBy ResearchEdge.fromNode edges).entries.map
        fun e => (e.1, e.2.map ResearchEdge.toNode))).get? node = none := by
      rw [Option.eq_none_iff_forall_ne_some]
      intro targets htargets
      rw [SortedMap.get?_ofList hkeys] at htargets
      obtain ⟨⟨n, group⟩, hgroup, hpair⟩ := List.mem_map.mp htargets
      obtain ⟨rfl, -⟩ := Prod.mk.inj hpair
      obtain ⟨heq, hne⟩ := SortedMap.mem_entries_groupBy.mp hgroup
      exact hne (heq.trans hnone)
    rw [hget]
    rfl
  · have hget := (SortedMap.get?_ofList hkeys).mpr
      (List.mem_map_of_mem (f := fun e : Ulid × List ResearchEdge =>
        (e.1, e.2.map ResearchEdge.toNode)) (SortedMap.mem_entries_groupBy.mpr ⟨rfl, hnone⟩))
    simp only at hget
    rw [hget]
    rfl

/-- **The topological order is a forward order of the nodes.** -/
theorem topologicalOrder_forward {nodes : List Ulid} {edges : List ResearchEdge} {order : List Ulid}
    (hnodes : nodes.Nodup) (h : topologicalOrder nodes edges = .ok order) :
    order.Perm nodes ∧ Forward edges order := by
  have hnodup := topologicalOrder_nodup h
  obtain ⟨indegree, hindegree, h⟩ := bind_eq_ok.mp h
  obtain ⟨final, hfinal, h⟩ := bind_eq_ok.mp h
  split at h
  · cases h
  obtain rfl := Except.ok.inj h
  have hsorted := OrderState.Sorted.loop (getD_targets edges)
    ⟨OrderState.valid_start indegree, countIndegree_tracks hnodes hindegree, by simp [Forward],
      by simp⟩ hfinal
  refine ⟨?_, hsorted.forward⟩
  exact (List.subperm_of_subset hnodup.1 hsorted.subset).perm_of_length_le (le_of_eq hnodup.2.symm)

/-! ### The bindings -/

/-- The input port an edge feeds. -/
def ResearchEdge.target (edge : ResearchEdge) : InputPort := (edge.toNode, edge.toPort)

/-- The input port an external binding feeds. -/
def GraphExternalInputBinding.target (binding : GraphExternalInputBinding) : InputPort :=
  (binding.toNode, binding.toPort)

/-- What feeds an input port: an edge or an external binding. -/
inductive Feed
  | edge (edge : ResearchEdge)
  | external (binding : GraphExternalInputBinding)
  deriving DecidableEq

/-- The input port that is fed. -/
def Feed.target : Feed → InputPort
  | .edge e => e.target
  | .external binding => binding.target

/-- An edge connects ports of one type on two nodes of the graph. -/
def ResearchEdge.Fits (nodes : List ResearchNode) (edge : ResearchEdge) : Prop :=
  ∃ source ∈ nodes, ∃ target ∈ nodes, source.nodeId = edge.fromNode ∧ target.nodeId = edge.toNode ∧
    ∃ output ∈ source.contract.outputTypes, ∃ input ∈ target.contract.inputTypes,
      output.portName = edge.fromPort ∧ input.portName = edge.toPort ∧
        output.valueType = input.valueType

/-- An external binding connects a declared input with a port of its type. -/
def GraphExternalInputBinding.Fits (nodes : List ResearchNode) (inputs : List GraphExternalInput)
    (binding : GraphExternalInputBinding) : Prop :=
  ∃ declaration ∈ inputs, declaration.inputId = binding.inputId ∧
    ∃ target ∈ nodes, target.nodeId = binding.toNode ∧
      ∃ input ∈ target.contract.inputTypes,
        input.portName = binding.toPort ∧ declaration.valueType = input.valueType

/-- The port found is one of the ports and has the name asked for. -/
theorem port_eq_ok {ports : List PortType} {name : String} {found : PortType}
    (h : port ports name = .ok found) : found ∈ ports ∧ found.portName = name := by
  unfold port at h
  split at h
  · cases h
  rename_i candidate hfind
  obtain rfl := Except.ok.inj h
  exact ⟨List.mem_of_find?_eq_some hfind, by simpa using List.find?_some hfind⟩

/-- The node found is one of the nodes and has the identity asked for. -/
theorem lookupNode_eq_ok {nodes : List ResearchNode} {id : Ulid} {node : ResearchNode}
    (h : lookupNode nodes id = .ok node) : node ∈ nodes ∧ node.nodeId = id := by
  unfold lookupNode at h
  split at h
  · cases h
  rename_i candidate hfind
  obtain rfl := Except.ok.inj h
  exact ⟨List.mem_of_find?_eq_some hfind, by simpa using List.find?_some hfind⟩

/-- An edge that is bound fits the nodes, and its target was free. -/
theorem bindEdge_eq_ok {nodes : List ResearchNode} {bound bound' : List InputPort}
    {edge : ResearchEdge} (h : bindEdge nodes bound edge = .ok bound') :
    bound' = edge.target :: bound ∧ edge.target ∉ bound ∧ edge.Fits nodes := by
  obtain ⟨source, hsource, h⟩ := bind_eq_ok.mp h
  obtain ⟨target, htarget, h⟩ := bind_eq_ok.mp h
  obtain ⟨output, houtput, h⟩ := bind_eq_ok.mp h
  obtain ⟨input, hinput, h⟩ := bind_eq_ok.mp h
  split at h
  · cases h
  rename_i htype
  split at h
  · cases h
  rename_i hnew
  obtain ⟨hs, hsid⟩ := lookupNode_eq_ok hsource
  obtain ⟨ht, htid⟩ := lookupNode_eq_ok htarget
  obtain ⟨ho, hoport⟩ := port_eq_ok houtput
  obtain ⟨hi, hiport⟩ := port_eq_ok hinput
  exact ⟨(Except.ok.inj h).symm, hnew, source, hs, target, ht, hsid, htid, output, ho, input, hi,
    hoport, hiport, not_not.mp htype⟩

/-- An external binding that is bound fits the nodes and inputs, and its target was free. -/
theorem bindExternal_eq_ok {nodes : List ResearchNode} {inputs : List GraphExternalInput}
    {bound bound' : List InputPort} {binding : GraphExternalInputBinding}
    (h : bindExternal nodes inputs bound binding = .ok bound') :
    bound' = binding.target :: bound ∧ binding.target ∉ bound ∧ binding.Fits nodes inputs := by
  unfold bindExternal at h
  split at h
  · cases h
  rename_i declaration hfind
  obtain ⟨target, htarget, h⟩ := bind_eq_ok.mp h
  obtain ⟨input, hinput, h⟩ := bind_eq_ok.mp h
  split at h
  · cases h
  rename_i htype
  split at h
  · cases h
  rename_i hnew
  obtain ⟨ht, htid⟩ := lookupNode_eq_ok htarget
  obtain ⟨hi, hiport⟩ := port_eq_ok hinput
  exact ⟨(Except.ok.inj h).symm, hnew, declaration, List.mem_of_find?_eq_some hfind,
    by simpa using List.find?_some hfind, target, ht, htid, input, hi, hiport, not_not.mp htype⟩

/-! ### Accepted graphs -/

namespace ResearchGraph

/-- The edges and the external bindings of a graph. -/
def feeds (graph : ResearchGraph) : List Feed :=
  graph.edges.map .edge ++ graph.externalInputBindings.map .external

/-- The feeds enter the targets of the edges and of the external bindings. -/
theorem map_target_feeds (graph : ResearchGraph) : graph.feeds.map Feed.target =
    graph.edges.map ResearchEdge.target ++
      graph.externalInputBindings.map GraphExternalInputBinding.target := by
  simp [feeds, List.map_map, Function.comp_def, Feed.target]

/-- What the constructor of a graph establishes. -/
structure Accepted (graph : ResearchGraph) : Prop where
  nodes_nodup : (graph.nodes.map ResearchNode.nodeId).Nodup
  order_perm : graph.topologicalOrder.Perm (graph.nodes.map ResearchNode.nodeId)
  forward : Forward graph.edges graph.topologicalOrder
  edges_fit : ∀ edge ∈ graph.edges, edge.Fits graph.nodes
  bindings_fit : ∀ binding ∈ graph.externalInputBindings,
    binding.Fits graph.nodes graph.externalInputs
  fed_once : (graph.feeds.map Feed.target).Nodup
  all_fed : ∀ node ∈ graph.nodes, ∀ input ∈ node.contract.inputTypes,
    (node.nodeId, input.portName) ∈ graph.feeds.map Feed.target

/-- **Every graph that is built is accepted.** -/
theorem accepted_of_new {digest : List UInt8 → ContentHash} {graphId : Ulid} {version : Version}
    {owner : OwnerRef} {nodes : List ResearchNode} {edges : List ResearchEdge}
    {externalInputs : List GraphExternalInput} {bindings : List GraphExternalInputBinding}
    {graph : ResearchGraph}
    (h : new digest graphId version owner nodes edges externalInputs bindings = .ok graph) :
    graph.Accepted := by
  simp only [new] at h
  split at h
  · cases h
  split at h
  · cases h
  rename_i hnodes
  split at h
  · cases h
  split at h
  · cases h
  split at h
  · cases h
  split at h
  · cases h
  rename_i hbindings
  split at h
  · cases h
  rename_i order horder
  obtain rfl := Except.ok.inj h
  have hsorted : (nodes.insertionSort fun a b => a.nodeId ≤ b.nodeId).Pairwise
      fun a b => a.nodeId ≤ b.nodeId := by
    have : Std.Total fun a b : ResearchNode => a.nodeId ≤ b.nodeId := ⟨fun a b => le_total _ _⟩
    have : IsTrans ResearchNode fun a b => a.nodeId ≤ b.nodeId := ⟨fun _ _ _ => le_trans⟩
    exact List.pairwise_insertionSort _ nodes
  -- Sorted neighbours that differ are all different.
  have hnodup := not_not.mp (mt (any_zip_tail_iff hsorted).mpr hnodes)
  obtain ⟨hperm, hforward⟩ := topologicalOrder_forward hnodup horder
  obtain ⟨boundEdges, hedges, hbindings⟩ := bind_eq_ok.mp hbindings
  obtain ⟨bound, hexternal, hbindings⟩ := bind_eq_ok.mp hbindings
  split at hbindings
  · cases hbindings
  split at hbindings
  swap
  · cases hbindings
  rename_i hall
  -- Every edge and every binding that was collected fits and enters a new port.
  obtain ⟨rfl, hfresh, hfit⟩ := foldlM_collect (f := bindEdge _) (fun _ _ _ => bindEdge_eq_ok) hedges
  obtain ⟨rfl, hfresh', hfit'⟩ := foldlM_collect (f := bindExternal _ _)
    (fun _ _ _ => bindExternal_eq_ok) hexternal
  refine ⟨hnodup, hperm, hforward, hfit, hfit', ?_, ?_⟩
  · have hbound := hfresh' (hfresh List.nodup_nil)
    rw [List.append_nil, ← List.reverse_append, List.nodup_reverse] at hbound
    rw [map_target_feeds]
    exact hbound
  · intro node hnode input hinput
    have hport := List.all_eq_true.mp (List.all_eq_true.mp hall node hnode) input hinput
    rw [map_target_feeds]
    simpa [or_comm] using hport

end ResearchGraph

end Ficant
