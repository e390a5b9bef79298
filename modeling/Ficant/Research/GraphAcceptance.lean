import Ficant.Lib.LinearExtension
import Ficant.Research.GraphOrder

namespace Ficant

open Lib

/-!
# Which graphs are accepted, and in which order

The constructor of a research graph (`ficant-domain/src/research/research_graph.rs`) as a decision:
it takes exactly the well-bound acyclic graphs, and the order it gives them is the
lexicographically least one in which every edge leads forward.

* `OrderState.Scheduled` — the loop invariant behind both: every node whose edges are all done is
  ready or taken, and each node taken was the smallest that could be;
* `topologicalOrder_isOk_iff` — the order exists if and only if the edges have no cycle;
* `validateBindings_eq_ok_iff` — the checks on the bindings, as a condition on the lists;
* `ResearchGraph.WellBound` — the condition on the four lists as they are given, and
  `ResearchGraph.new_isOk_iff`, `ResearchGraph.new_eq_of_perm`.
-/

/-! ### The loop that orders the nodes -/

/-- One node leads to another by an edge. -/
def Leads (edges : List ResearchEdge) (a b : Ulid) : Prop :=
  ∃ edge ∈ edges, edge.fromNode = a ∧ edge.toNode = b

/-- An order of the nodes is forward when it extends the relation of the edges. -/
theorem forward_iff_extends {edges : List ResearchEdge} {order : List Ulid} :
    Forward edges order ↔ Extends (Leads edges) order := by
  constructor
  · rintro h before a after horder b ⟨edge, hedge, rfl, hto⟩
    exact h before a after horder edge hedge hto
  · intro h before a after horder edge hedge hto
    exact h before a after horder edge.fromNode ⟨edge, hedge, rfl, hto⟩

/-- A node waits for nothing exactly when all that lead to it are taken. -/
theorem pendingEdges_eq_zero {edges : List ResearchEdge} {order : List Ulid} {node : Ulid} :
    pendingEdges edges order node = 0 ↔ ∀ a, Leads edges a node → a ∈ order := by
  rw [pendingEdges, List.countP_eq_zero]
  constructor
  · rintro h a ⟨edge, hedge, rfl, hto⟩
    by_contra hnot
    exact h edge hedge (by simp [hto, hnot])
  · intro h edge hedge hpending
    simp only [decide_eq_true_eq] at hpending
    exact hpending.2 (h edge.fromNode ⟨edge, hedge, rfl, hpending.1⟩)

namespace OrderState

/-- Releasing targets succeeds while each has an incoming edge left for every occurrence. -/
theorem foldlM_release_ok {targets : List Ulid} {state : OrderState}
    (h : ∀ n ∈ targets, ∃ degree, state.indegree.get? n = some degree ∧ targets.count n ≤ degree) :
    ∃ state', targets.foldlM OrderState.release state = .ok state' := by
  induction targets generalizing state with
  | nil => exact ⟨state, rfl⟩
  | cons target targets ih =>
    obtain ⟨degree, hdegree, hle⟩ := h target List.mem_cons_self
    rw [List.count_cons_self] at hle
    obtain ⟨left, rfl⟩ : ∃ left, degree = left + 1 := ⟨degree - 1, by omega⟩
    -- The target still waits for somebody, so it can be released once.
    have hrelease : ∃ next, state.release target = .ok next ∧
        next.indegree = state.indegree.insert target left := by
      unfold OrderState.release
      rw [hdegree]
      exact ⟨_, rfl, rfl⟩
    obtain ⟨next, hnext, hindegree⟩ := hrelease
    rw [List.foldlM_cons, hnext]
    refine ih fun n hn => ?_
    rw [hindegree, SortedMap.get?_insert]
    by_cases hnode : n = target
    · subst hnode
      exact ⟨left, if_pos rfl, by omega⟩
    · obtain ⟨d, hd, hcount⟩ := h n (List.mem_cons_of_mem _ hn)
      rw [List.count_cons_of_ne (Ne.symm hnode)] at hcount
      exact ⟨d, by rw [if_neg hnode]; exact hd, hcount⟩

/-- Every node without an edge left to wait for is taken or ready. -/
def Complete (state : OrderState) : Prop :=
  ∀ n, state.indegree.get? n = some 0 → n ∈ state.order ∨ (state.ready.get? n).isSome

/-- **One step.** A node that is released waits for nothing, and only such nodes are. -/
theorem Complete.release {state state' : OrderState} (hc : state.Complete) {target : Ulid}
    (h : state.release target = .ok state') : state'.Complete := by
  obtain ⟨degree, hdegree, rfl⟩ := release_eq_ok h
  intro n hn
  simp only [SortedMap.get?_insert] at hn ⊢
  by_cases hnode : n = target
  · -- the target's last edge is gone exactly when it becomes ready
    rw [if_pos hnode, Option.some.injEq] at hn
    refine .inr ?_
    rw [if_pos hn, hnode, SortedMap.get?_insert_self]
    rfl
  · rw [if_neg hnode] at hn
    refine (hc n hn).imp_right fun hready => ?_
    split
    · rwa [SortedMap.get?_insert, if_neg hnode]
    · exact hready

/-- All targets of a node, one after the other. -/
theorem Complete.foldlM {targets : List Ulid} {state state' : OrderState} (hc : state.Complete)
    (h : targets.foldlM OrderState.release state = .ok state') : state'.Complete :=
  foldlM_induction (motive := fun _ s => s.Complete) hc (fun _ _ _ _ hs hstep => hs.release hstep) h

/-- The node that is taken leaves the ready ones. -/
theorem Complete.take {state : OrderState} (hc : state.Complete) (node : Ulid) :
    (state.take node).Complete := by
  intro n hn
  show n ∈ state.order ++ [node] ∨ ((state.ready.erase node).get? n).isSome
  rw [SortedMap.get?_erase]
  by_cases hnode : n = node
  · exact .inl (hnode ▸ List.mem_append_right _ (List.mem_singleton_self n))
  · rw [if_neg hnode]
    exact (hc n hn).imp_left (List.mem_append_left _)

/-- The state of the loop between two rounds, with what makes its choices the least ones. -/
structure Scheduled (nodes : List Ulid) (edges : List ResearchEdge) (state : OrderState) : Prop
    extends Sorted nodes edges state where
  complete : state.Complete
  greedy : Greedy (Leads edges) nodes state.order

variable {nodes : List Ulid} {edges : List ResearchEdge}

/-- One round takes the smallest node whose turn has come, and does not fail. -/
theorem Scheduled.round (hedges : ∀ edge ∈ edges, edge.toNode ∈ nodes) {state : OrderState}
    (hs : state.Scheduled nodes edges) {node : Ulid} {rest : List Ulid}
    (hkeys : state.ready.keys = node :: rest) :
    ∃ state', ((edges.filter fun edge => edge.fromNode = node).map ResearchEdge.toNode).foldlM
      OrderState.release (state.take node) = .ok state' ∧ state'.Scheduled nodes edges ∧
        state'.order = state.order ++ [node] := by
  have hready : (state.ready.get? node).isSome :=
    SortedMap.mem_keys_iff.mp (hkeys ▸ List.mem_cons_self)
  have hnew : node ∉ state.order := by
    intro hmem
    rw [hs.valid.apart node hmem] at hready
    cases hready
  obtain ⟨state', hstate'⟩ : ∃ state',
      ((edges.filter fun edge => edge.fromNode = node).map ResearchEdge.toNode).foldlM
        OrderState.release (state.take node) = .ok state' := by
    refine foldlM_release_ok fun n hn => ?_
    obtain ⟨edge, hedge, rfl⟩ := List.mem_map.mp hn
    have htracks := hs.tracks edge.toNode
    rw [if_pos (hedges edge (List.mem_of_mem_filter hedge))] at htracks
    exact ⟨_, htracks, by rw [pendingEdges_snoc edges hnew]; exact Nat.le_add_left _ _⟩
  have horder : state'.order = state.order ++ [node] := (foldlM_release hstate').1
  refine ⟨state', hstate', ⟨hs.toSorted.round hready hstate', (hs.complete.take node).foldlM hstate',
    ?_⟩, horder⟩
  rw [horder]
  refine hs.greedy.snoc fun b hb hfresh hsources => ?_
  -- a node whose turn has come is ready, and the first key is the smallest
  have hdegree := hs.tracks b
  rw [if_pos hb, pendingEdges_eq_zero.mpr hsources] at hdegree
  have hmem := SortedMap.mem_keys_iff.mpr ((hs.complete b hdegree).resolve_left hfresh)
  have hsorted := state.ready.keys_sorted
  rw [hkeys] at hmem hsorted
  rcases List.mem_cons.mp hmem with rfl | hmem
  · exact le_refl b
  · exact le_of_lt ((List.pairwise_cons.mp hsorted).1 b hmem)

/-- The loop does not fail, and stops early only when no node is ready. -/
theorem Scheduled.loop (rounds : ℕ) (hedges : ∀ edge ∈ edges, edge.toNode ∈ nodes)
    {outgoing : SortedMap Ulid (List Ulid)}
    (houtgoing : ∀ node, (outgoing.get? node).getD [] =
      (edges.filter fun edge => edge.fromNode = node).map ResearchEdge.toNode)
    {state : OrderState} (hs : state.Scheduled nodes edges) :
    ∃ state', OrderState.loop outgoing rounds state = .ok state' ∧ state'.Scheduled nodes edges ∧
      (state'.order.length = state.order.length + rounds ∨ state'.ready.keys = []) := by
  induction rounds generalizing state with
  | zero => exact ⟨state, rfl, hs, .inl rfl⟩
  | succ rounds ih =>
    simp only [OrderState.loop]
    split
    · rename_i hkeys
      exact ⟨state, rfl, hs, .inr hkeys⟩
    · rename_i node rest hkeys
      obtain ⟨next, hnext, hscheduled, horder⟩ := hs.round hedges hkeys
      obtain ⟨state', hstate', hs', hend⟩ := ih hscheduled
      rw [houtgoing, hnext]
      refine ⟨state', hstate', hs', hend.imp_left fun hlength => ?_⟩
      rw [hlength, horder, List.length_append, List.length_singleton]
      omega

/-- When no node is ready and the edges have no cycle, every node is taken. -/
theorem Scheduled.all_taken (hends : ∀ edge ∈ edges, edge.fromNode ∈ nodes)
    (hacyclic : Acyclic (Leads edges)) {state : OrderState} (hs : state.Scheduled nodes edges)
    (hkeys : state.ready.keys = []) : ∀ n ∈ nodes, n ∈ state.order := by
  by_contra hleft
  push Not at hleft
  obtain ⟨n, hn, hnot⟩ := hleft
  have hne : nodes.filter (fun n => n ∉ state.order) ≠ [] :=
    List.ne_nil_of_mem (List.mem_filter.mpr ⟨hn, by simpa using hnot⟩)
  -- a node left over that no other leads to would be ready
  obtain ⟨a, ha, hsource⟩ := exists_source hacyclic hne
  obtain ⟨hmem, hfresh⟩ := List.mem_filter.mp ha
  simp only [decide_eq_true_eq] at hfresh
  have hpending : pendingEdges edges state.order a = 0 := by
    refine pendingEdges_eq_zero.mpr fun b hba => ?_
    by_contra hb
    obtain ⟨edge, hedge, rfl, -⟩ := id hba
    exact hsource edge.fromNode
      (List.mem_filter.mpr ⟨hends edge hedge, by simpa using hb⟩) hba
  have hdegree := hs.tracks a
  rw [if_pos hmem, hpending] at hdegree
  have hready := SortedMap.mem_keys_iff.mpr ((hs.complete a hdegree).resolve_left hfresh)
  rw [hkeys] at hready
  cases hready

end OrderState

/-- Counting the edges succeeds when each leads into a node. -/
theorem countIndegree_ok {nodes : List Ulid} {edges : List ResearchEdge} (hnodes : nodes.Nodup)
    (hedges : ∀ edge ∈ edges, edge.toNode ∈ nodes) :
    ∃ indegree, countIndegree nodes edges = .ok indegree := by
  induction edges using List.reverseRecOn with
  | nil => exact ⟨_, rfl⟩
  | append_singleton edges edge ih =>
    obtain ⟨counted, hcounted⟩ := ih fun e he => hedges e (List.mem_append_left _ he)
    have htracks := countIndegree_tracks hnodes hcounted edge.toNode
    rw [if_pos (hedges edge (List.mem_append_right _ (List.mem_singleton_self edge)))] at htracks
    rw [countIndegree, List.foldlM_append]
    refine ⟨counted.insert edge.toNode (pendingEdges edges [] edge.toNode + 1),
      bind_eq_ok.mpr ⟨counted, hcounted, ?_⟩⟩
    rw [List.foldlM_cons, htracks]
    rfl

/-- The state in which the loop ends, as one statement about the whole order. -/
theorem exists_final_state {nodes : List Ulid} {edges : List ResearchEdge} (hnodes : nodes.Nodup)
    (hto : ∀ edge ∈ edges, edge.toNode ∈ nodes) :
    ∃ final : OrderState, final.Scheduled nodes edges ∧
      (final.order.length = nodes.length ∨ final.ready.keys = []) ∧
      topologicalOrder nodes edges =
        if final.order.length ≠ nodes.length then .error .invalidValue else .ok final.order := by
  obtain ⟨indegree, hindegree⟩ := countIndegree_ok hnodes hto
  have htracks := countIndegree_tracks hnodes hindegree
  have hstart : OrderState.Scheduled nodes edges ⟨indegree, SortedMap.ofList
      ((indegree.entries.filter fun e => e.2 = 0).map fun e => (e.1, ())), []⟩ :=
    { valid := OrderState.valid_start indegree
      tracks := htracks
      forward := by simp [Forward]
      subset := by simp
      complete := fun n hn => .inr (initialReady_isSome_iff.mpr hn)
      greedy := by simp [Greedy] }
  obtain ⟨final, hfinal, hscheduled, hend⟩ :=
    OrderState.Scheduled.loop nodes.length hto (getD_targets edges) hstart
  refine ⟨final, hscheduled, hend.imp_left fun h => by simpa using h, ?_⟩
  rw [topologicalOrder, hindegree]
  simp only [ok_bind]
  rw [hfinal]
  rfl

/-- **The order exists if and only if the edges have no cycle.** -/
theorem topologicalOrder_isOk_iff {nodes : List Ulid} {edges : List ResearchEdge}
    (hnodes : nodes.Nodup) (hfrom : ∀ edge ∈ edges, edge.fromNode ∈ nodes)
    (hto : ∀ edge ∈ edges, edge.toNode ∈ nodes) :
    (∃ order, topologicalOrder nodes edges = .ok order) ↔ Acyclic (Leads edges) := by
  constructor
  · rintro ⟨order, horder⟩
    obtain ⟨hperm, hforward⟩ := topologicalOrder_forward hnodes horder
    refine (forward_iff_extends.mp hforward).acyclic ?_
    rintro a b ⟨edge, hedge, -, rfl⟩
    exact hperm.mem_iff.mpr (hto edge hedge)
  · intro hacyclic
    obtain ⟨final, hs, hend, horder⟩ := exists_final_state hnodes hto
    refine ⟨final.order, ?_⟩
    have hlength : final.order.length = nodes.length := by
      refine hend.elim id fun hkeys => ?_
      have hperm := (List.perm_ext_iff_of_nodup hs.valid.nodup hnodes).mpr fun n =>
        ⟨hs.subset n, hs.all_taken hfrom hacyclic hkeys n⟩
      exact hperm.length_eq
    rw [horder, if_neg (not_not.mpr hlength)]

/-- **The order is the least.** No order in which every edge leads forward comes before it. -/
theorem topologicalOrder_least {nodes : List Ulid} {edges : List ResearchEdge} {order : List Ulid}
    (hnodes : nodes.Nodup) (hto : ∀ edge ∈ edges, edge.toNode ∈ nodes)
    (h : topologicalOrder nodes edges = .ok order) {other : List Ulid} (hperm : other.Perm nodes)
    (hforward : Forward edges other) : order = other ∨ List.Lex (· < ·) order other := by
  obtain ⟨final, hs, -, horder⟩ := exists_final_state hnodes hto
  rw [horder] at h
  split at h
  · cases h
  rename_i hlength
  obtain rfl := Except.ok.inj h
  exact hs.greedy.le hperm hnodes (not_not.mp hlength) (forward_iff_extends.mp hforward)

/-! ### The bindings -/

/-- A node is found by its identifier, since no other has it. -/
theorem lookupNode_of_mem {nodes : List ResearchNode} (hnodes : (nodes.map ResearchNode.nodeId).Nodup)
    {node : ResearchNode} (hnode : node ∈ nodes) : lookupNode nodes node.nodeId = .ok node := by
  unfold lookupNode
  rw [find?_key_of_mem hnodes hnode]

/-- A port is found by its name in the sorted list. -/
theorem port_of_mem {ports : List PortType}
    (hports : ports.Pairwise fun a b => a.portName < b.portName)
    {found : PortType} (hfound : found ∈ ports) : port ports found.portName = .ok found := by
  have hnames : (ports.map PortType.portName).Nodup :=
    List.pairwise_map.mpr (hports.imp fun hlt => ne_of_lt hlt)
  unfold port
  rw [find?_key_of_mem hnames hfound]

/-- An edge that fits binds its input, if nothing else does. -/
theorem bindEdge_ok {nodes : List ResearchNode} (hnodes : (nodes.map ResearchNode.nodeId).Nodup)
    {bound : List InputPort} {edge : ResearchEdge} (hnew : edge.target ∉ bound)
    (hfits : edge.Fits nodes) : bindEdge nodes bound edge = .ok (edge.target :: bound) := by
  obtain ⟨source, hs, target, ht, hsource, htarget, output, ho, input, hi, houtput, hinput, htype⟩ :=
    hfits
  unfold bindEdge
  rw [← hsource, ← htarget, ← houtput, ← hinput, lookupNode_of_mem hnodes hs,
    lookupNode_of_mem hnodes ht]
  simp only [ok_bind]
  rw [port_of_mem source.contract.outputs_sorted ho, port_of_mem target.contract.inputs_sorted hi]
  simp only [ok_bind]
  rw [if_neg (not_not.mpr htype), htarget, hinput]
  exact if_neg hnew

/-- So does an external input. -/
theorem bindExternal_ok {nodes : List ResearchNode} {inputs : List GraphExternalInput}
    (hnodes : (nodes.map ResearchNode.nodeId).Nodup)
    (hinputs : (inputs.map GraphExternalInput.inputId).Nodup) {bound : List InputPort}
    {binding : GraphExternalInputBinding} (hnew : binding.target ∉ bound)
    (hfits : binding.Fits nodes inputs) :
    bindExternal nodes inputs bound binding = .ok (binding.target :: bound) := by
  obtain ⟨declaration, hd, hdeclaration, target, ht, htarget, input, hi, hinput, htype⟩ := hfits
  unfold bindExternal
  rw [← hdeclaration, ← htarget, ← hinput, find?_key_of_mem hinputs hd]
  simp only
  rw [lookupNode_of_mem hnodes ht]
  simp only [ok_bind]
  rw [port_of_mem target.contract.inputs_sorted hi]
  simp only [ok_bind]
  rw [if_neg (not_not.mpr htype), htarget, hinput]
  exact if_neg hnew

/-- Every declared input is used if and only if as many inputs are used as are declared. -/
theorem length_used_iff {inputs : List GraphExternalInput} {bindings : List GraphExternalInputBinding}
    (hinputs : (inputs.map GraphExternalInput.inputId).Nodup)
    (hdeclared : ∀ binding ∈ bindings, ∃ input ∈ inputs, input.inputId = binding.inputId) :
    (SortedMap.sortedSet (bindings.map GraphExternalInputBinding.inputId)).length = inputs.length ↔
      ∀ input ∈ inputs, ∃ binding ∈ bindings, binding.inputId = input.inputId := by
  set used := SortedMap.sortedSet (bindings.map GraphExternalInputBinding.inputId) with hused
  have hnodup : used.Nodup := (SortedMap.sortedSet_sorted _).imp fun hlt => ne_of_lt hlt
  have hmem : ∀ id, id ∈ used ↔ ∃ binding ∈ bindings, binding.inputId = id := by
    intro id
    rw [hused, SortedMap.mem_sortedSet, List.mem_map]
  -- Every binding uses a declared input.
  have hsubset : used ⊆ inputs.map GraphExternalInput.inputId := by
    intro id hid
    obtain ⟨binding, hbinding, rfl⟩ := (hmem id).mp hid
    obtain ⟨input, hinput, heq⟩ := hdeclared binding hbinding
    exact List.mem_map.mpr ⟨input, hinput, heq⟩
  have hlength : (inputs.map GraphExternalInput.inputId).length = inputs.length := List.length_map _
  constructor
  · intro h input hinput
    have hperm := (List.subperm_of_subset hnodup hsubset).perm_of_length_le (by rw [hlength, h])
    exact (hmem _).mp (hperm.mem_iff.mpr (List.mem_map_of_mem hinput))
  · intro h
    have hperm := (List.perm_ext_iff_of_nodup hnodup hinputs).mpr fun id => by
      refine ⟨fun hid => hsubset hid, fun hid => ?_⟩
      obtain ⟨input, hinput, rfl⟩ := List.mem_map.mp hid
      exact (hmem _).mpr (h input hinput)
    rw [hperm.length_eq, hlength]

/-- The input ports that the edges and the external bindings feed. -/
def fedPorts (edges : List ResearchEdge) (bindings : List GraphExternalInputBinding) :
    List InputPort :=
  edges.map ResearchEdge.target ++ bindings.map GraphExternalInputBinding.target

/-- **What the checks on the bindings require.** -/
theorem validateBindings_eq_ok_iff {nodes : List ResearchNode} {edges : List ResearchEdge}
    {inputs : List GraphExternalInput} {bindings : List GraphExternalInputBinding}
    (hnodes : (nodes.map ResearchNode.nodeId).Nodup)
    (hinputs : (inputs.map GraphExternalInput.inputId).Nodup) :
    validateBindings nodes edges inputs bindings = .ok () ↔
      (∀ edge ∈ edges, edge.Fits nodes) ∧ (∀ binding ∈ bindings, binding.Fits nodes inputs) ∧
        (fedPorts edges bindings).Nodup ∧
        (∀ input ∈ inputs, ∃ binding ∈ bindings, binding.inputId = input.inputId) ∧
        ∀ node ∈ nodes, ∀ input ∈ node.contract.inputTypes,
          (node.nodeId, input.portName) ∈ fedPorts edges bindings := by
  have hdeclared : (∀ binding ∈ bindings, binding.Fits nodes inputs) →
      ∀ binding ∈ bindings, ∃ input ∈ inputs, input.inputId = binding.inputId := by
    intro hfit binding hbinding
    obtain ⟨declaration, hd, heq, -⟩ := hfit binding hbinding
    exact ⟨declaration, hd, heq⟩
  -- The ports are collected in reverse, external ones last.
  have hbound : (bindings.map GraphExternalInputBinding.target).reverse ++
      ((edges.map ResearchEdge.target).reverse ++ []) = (fedPorts edges bindings).reverse := by
    rw [List.append_nil, fedPorts, List.reverse_append]
  constructor
  · intro h
    obtain ⟨boundEdges, hedges, h⟩ := bind_eq_ok.mp h
    obtain ⟨bound, hexternal, h⟩ := bind_eq_ok.mp h
    split at h
    · cases h
    rename_i hused
    split at h
    swap
    · cases h
    rename_i hall
    obtain ⟨rfl, hfresh, hfit⟩ :=
      foldlM_collect (f := bindEdge _) (fun _ _ _ => bindEdge_eq_ok) hedges
    obtain ⟨rfl, hfresh', hfit'⟩ := foldlM_collect (f := bindExternal _ _)
      (fun _ _ _ => bindExternal_eq_ok) hexternal
    have hnodup := hfresh' (hfresh List.nodup_nil)
    rw [hbound] at hnodup hall
    refine ⟨hfit, hfit', List.nodup_reverse.mp hnodup,
      (length_used_iff hinputs (hdeclared hfit')).mp (not_not.mp hused), ?_⟩
    intro node hnode input hinput
    have hport := List.all_eq_true.mp (List.all_eq_true.mp hall node hnode) input hinput
    simpa using hport
  -- Conversely, ports that fit and differ are all collected.
  · rintro ⟨hfit, hfit', hnodup, hused, hall⟩
    have hnodup' := List.nodup_reverse.mpr hnodup
    rw [← hbound] at hnodup'
    have hedges := foldlM_collect_ok [] (f := bindEdge nodes) (l := edges)
      (fun bound edge hnew hP => bindEdge_ok hnodes hnew hP) hfit (List.nodup_append.mp hnodup').2.1
    have hexternal := foldlM_collect_ok _ (f := bindExternal nodes inputs) (l := bindings)
      (fun bound binding hnew hP => bindExternal_ok hnodes hinputs hnew hP) hfit' hnodup'
    rw [hbound] at hexternal
    rw [validateBindings, hedges]
    simp only [ok_bind]
    rw [hexternal]
    simp only [ok_bind]
    rw [if_neg (not_not.mpr ((length_used_iff hinputs (hdeclared hfit')).mpr hused)), if_pos]
    · rfl
    · simpa [List.all_eq_true] using hall

/-! ### The constructor -/

namespace ResearchGraph

/-- Sorting by a key puts two elements with one key next to each other. -/
theorem adjacentEqual_insertionSort {α κ : Type} [LinearOrder κ] (key : α → κ) (l : List α) :
    adjacentEqual key (l.insertionSort fun a b => key a ≤ key b) = true ↔ ¬(l.map key).Nodup := by
  have : Std.Total fun a b : α => key a ≤ key b := ⟨fun a b => le_total _ _⟩
  have : IsTrans α fun a b => key a ≤ key b := ⟨fun _ _ _ => le_trans⟩
  have hperm := (List.perm_insertionSort (fun a b => key a ≤ key b) l).map key
  rw [← hperm.nodup_iff]
  exact any_zip_tail_iff (List.pairwise_insertionSort _ l)

/-- Lists that differ in their order only are sorted to one list, when no two keys agree. -/
theorem sort_eq_of_perm {α κ : Type} [LinearOrder κ] (key : α → κ) {l l' : List α} (h : l.Perm l')
    (hkeys : (l.map key).Nodup) :
    (l.insertionSort fun a b => key a ≤ key b) = l'.insertionSort fun a b => key a ≤ key b := by
  have : Std.Total fun a b : α => key a ≤ key b := ⟨fun a b => le_total _ _⟩
  have : IsTrans α fun a b => key a ≤ key b := ⟨fun _ _ _ => le_trans⟩
  exact insertionSort_eq_of_perm _ h hkeys fun a b => le_antisymm

/-- The key that edges are sorted by tells them apart. -/
theorem edgeKey_injective : Function.Injective edgeKey := by
  rintro ⟨a, b, c, d⟩ ⟨a', b', c', d'⟩ h
  simpa [edgeKey] using h

/-- So does the key of the bindings. -/
theorem bindingKey_injective : Function.Injective bindingKey := by
  rintro ⟨a, b, c⟩ ⟨a', b', c'⟩ h
  simpa [bindingKey] using h

section

variable {nodes nodes' : List ResearchNode} {edges edges' : List ResearchEdge}
  {inputs inputs' : List GraphExternalInput} {bindings bindings' : List GraphExternalInputBinding}

/-- There are nodes, and no element of the four lists is given twice. -/
structure Distinct (nodes : List ResearchNode) (edges : List ResearchEdge)
    (inputs : List GraphExternalInput) (bindings : List GraphExternalInputBinding) : Prop where
  nodes_ne_nil : nodes ≠ []
  nodes_distinct : (nodes.map ResearchNode.nodeId).Nodup
  edges_distinct : edges.Nodup
  inputs_distinct : (inputs.map GraphExternalInput.inputId).Nodup
  bindings_distinct : bindings.Nodup

/-- A well-bound acyclic graph: there are nodes with distinct identifiers, the edges and the
    bindings are distinct and connect existing ports of one type, every input port is bound exactly
    once, every external input is used, and no edges lead back to where they started. -/
structure WellBound (nodes : List ResearchNode) (edges : List ResearchEdge)
    (inputs : List GraphExternalInput) (bindings : List GraphExternalInputBinding) : Prop where
  nodes_ne_nil : nodes ≠ []
  nodes_distinct : (nodes.map ResearchNode.nodeId).Nodup
  edges_distinct : edges.Nodup
  bindings_distinct : bindings.Nodup
  edges_fit : ∀ edge ∈ edges, edge.Fits nodes
  bindings_fit : ∀ binding ∈ bindings, binding.Fits nodes inputs
  bound_once : ∀ node ∈ nodes, ∀ input ∈ node.contract.inputTypes,
    (fedPorts edges bindings).count (node.nodeId, input.portName) = 1
  inputs_used : ∀ input ∈ inputs, ∃ binding ∈ bindings, binding.inputId = input.inputId
  acyclic : Acyclic (Leads edges)

/-- A port that is fed is an input port of a node. -/
theorem exists_port_of_fed (hedges : ∀ edge ∈ edges, edge.Fits nodes)
    (hbindings : ∀ binding ∈ bindings, binding.Fits nodes inputs) {fed : InputPort}
    (hfed : fed ∈ fedPorts edges bindings) :
    ∃ node ∈ nodes, ∃ input ∈ node.contract.inputTypes, (node.nodeId, input.portName) = fed := by
  rcases List.mem_append.mp hfed with hfed | hfed
  · obtain ⟨edge, hedge, rfl⟩ := List.mem_map.mp hfed
    obtain ⟨_, _, target, ht, -, htarget, _, _, input, hi, -, hinput, -⟩ := hedges edge hedge
    exact ⟨target, ht, input, hi, by rw [htarget, hinput]; rfl⟩
  · obtain ⟨binding, hbinding, rfl⟩ := List.mem_map.mp hfed
    obtain ⟨_, _, -, target, ht, htarget, input, hi, hinput, -⟩ := hbindings binding hbinding
    exact ⟨target, ht, input, hi, by rw [htarget, hinput]; rfl⟩

/-- Every input port is bound exactly once if and only if it is bound and no port is bound twice. -/
theorem bound_once_iff (hedges : ∀ edge ∈ edges, edge.Fits nodes)
    (hbindings : ∀ binding ∈ bindings, binding.Fits nodes inputs) :
    (∀ node ∈ nodes, ∀ input ∈ node.contract.inputTypes,
      (fedPorts edges bindings).count (node.nodeId, input.portName) = 1) ↔
    (fedPorts edges bindings).Nodup ∧ ∀ node ∈ nodes, ∀ input ∈ node.contract.inputTypes,
      (node.nodeId, input.portName) ∈ fedPorts edges bindings := by
  constructor
  · intro h
    refine ⟨List.nodup_iff_count_le_one.mpr fun fed => ?_, fun node hnode input hinput => ?_⟩
    · by_cases hfed : fed ∈ fedPorts edges bindings
      · obtain ⟨node, hnode, input, hinput, rfl⟩ := exists_port_of_fed hedges hbindings hfed
        exact le_of_eq (h node hnode input hinput)
      · rw [List.count_eq_zero.mpr hfed]
        exact Nat.zero_le 1
    · refine List.count_pos_iff.mp ?_
      rw [h node hnode input hinput]
      exact Nat.one_pos
  · rintro ⟨hnodup, hall⟩ node hnode input hinput
    exact List.count_eq_one_of_mem hnodup (hall node hnode input hinput)

/-- The condition does not depend on the order of the lists. -/
theorem WellBound.of_perm (h : WellBound nodes edges inputs bindings) (hnodes : nodes.Perm nodes')
    (hedges : edges.Perm edges') (hinputs : inputs.Perm inputs')
    (hbindings : bindings.Perm bindings') :
    WellBound nodes' edges' inputs' bindings' where
  nodes_ne_nil := fun hnil => h.nodes_ne_nil (hnil ▸ hnodes).eq_nil
  nodes_distinct := (hnodes.map _).nodup_iff.mp h.nodes_distinct
  edges_distinct := hedges.nodup_iff.mp h.edges_distinct
  bindings_distinct := hbindings.nodup_iff.mp h.bindings_distinct
  edges_fit := by
    intro edge hedge
    have hfit := h.edges_fit edge (hedges.mem_iff.mpr hedge)
    simpa only [ResearchEdge.Fits, hnodes.mem_iff] using hfit
  bindings_fit := by
    intro binding hbinding
    have hfit := h.bindings_fit binding (hbindings.mem_iff.mpr hbinding)
    simpa only [GraphExternalInputBinding.Fits, hnodes.mem_iff, hinputs.mem_iff] using hfit
  bound_once := by
    intro node hnode input hinput
    have hports : (fedPorts edges bindings).Perm (fedPorts edges' bindings') :=
      (hedges.map _).append (hbindings.map _)
    rw [← hports.count_eq]
    exact h.bound_once node (hnodes.mem_iff.mpr hnode) input hinput
  inputs_used := by
    intro input hinput
    obtain ⟨binding, hbinding, heq⟩ := h.inputs_used input (hinputs.mem_iff.mpr hinput)
    exact ⟨binding, hbindings.mem_iff.mp hbinding, heq⟩
  acyclic := by
    have hleads : Leads edges' = Leads edges := by
      funext a b
      simp only [Leads, hedges.mem_iff]
    rw [hleads]
    exact h.acyclic

/-- Nor does it matter for what is distinct. -/
theorem Distinct.of_perm (h : Distinct nodes edges inputs bindings) (hnodes : nodes.Perm nodes')
    (hedges : edges.Perm edges') (hinputs : inputs.Perm inputs')
    (hbindings : bindings.Perm bindings') :
    Distinct nodes' edges' inputs' bindings' where
  nodes_ne_nil := fun hnil => h.nodes_ne_nil (hnil ▸ hnodes).eq_nil
  nodes_distinct := (hnodes.map _).nodup_iff.mp h.nodes_distinct
  edges_distinct := hedges.nodup_iff.mp h.edges_distinct
  inputs_distinct := (hinputs.map _).nodup_iff.mp h.inputs_distinct
  bindings_distinct := hbindings.nodup_iff.mp h.bindings_distinct

/-- The nodes of a graph in the order the constructor keeps them. -/
def sortNodes (nodes : List ResearchNode) : List ResearchNode :=
  nodes.insertionSort fun a b => a.nodeId ≤ b.nodeId

/-- The edges of a graph in the order the constructor keeps them. -/
def sortEdges (edges : List ResearchEdge) : List ResearchEdge :=
  edges.insertionSort fun a b => edgeKey a ≤ edgeKey b

/-- The external inputs of a graph in the order the constructor keeps them. -/
def sortInputs (inputs : List GraphExternalInput) : List GraphExternalInput :=
  inputs.insertionSort fun a b => a.inputId ≤ b.inputId

/-- The external bindings of a graph in the order the constructor keeps them. -/
def sortBindings (bindings : List GraphExternalInputBinding) : List GraphExternalInputBinding :=
  bindings.insertionSort fun a b => bindingKey a ≤ bindingKey b

variable (digest : List UInt8 → ContentHash) (graphId : Ulid) (version : Version) (owner : OwnerRef)

/-- An element given twice is refused, like a graph without nodes. -/
theorem new_eq_error (h : ¬Distinct nodes edges inputs bindings) :
    new digest graphId version owner nodes edges inputs bindings = .error .invalidValue := by
  simp only [new]
  split
  · rfl
  rename_i hnil
  split
  · rfl
  rename_i hnodes
  split
  · rfl
  rename_i hedges
  split
  · rfl
  rename_i hinputs
  split
  · rfl
  rename_i hbindings
  -- past the five checks nothing is given twice
  rw [adjacentEqual_insertionSort, not_not] at hnodes hedges hinputs hbindings
  refine absurd ⟨?_, hnodes, .of_map _ hedges, hinputs, .of_map _ hbindings⟩ h
  rintro rfl
  exact hnil rfl

/-- The data of a graph, without the proofs it carries. -/
def data (graph : ResearchGraph) : Ulid × Version × OwnerRef × List ResearchNode ×
    List ResearchEdge × List GraphExternalInput × List GraphExternalInputBinding × List Ulid ×
    ContentHash :=
  (graph.graphId, graph.version, graph.owner, graph.nodes, graph.edges, graph.externalInputs,
    graph.externalInputBindings, graph.topologicalOrder, graph.digest)

/-- A graph is determined by the data it was made of. -/
theorem data_injective : Function.Injective data := by
  rintro ⟨⟩ ⟨⟩ h
  simpa [data] using h

/-- Without elements given twice, what remains are the bindings and the order. -/
theorem map_data_new (h : Distinct nodes edges inputs bindings) :
    (new digest graphId version owner nodes edges inputs bindings).map data = (do
      validateBindings (sortNodes nodes) (sortEdges edges) (sortInputs inputs) (sortBindings bindings)
      let order ← Ficant.topologicalOrder ((sortNodes nodes).map ResearchNode.nodeId) (sortEdges edges)
      pure (graphId, version, owner, sortNodes nodes, sortEdges edges, sortInputs inputs,
        sortBindings bindings, order, digest (canonicalBytes graphId version owner (sortNodes nodes)
          (sortEdges edges) (sortInputs inputs) (sortBindings bindings)))) := by
  have hnil : (nodes.insertionSort fun a b => a.nodeId ≤ b.nodeId) ≠ [] := by
    intro hnil
    have hperm := List.perm_insertionSort (fun a b : ResearchNode => a.nodeId ≤ b.nodeId) nodes
    exact h.nodes_ne_nil (hnil ▸ hperm).nil_eq.symm
  have hedges : (edges.map edgeKey).Nodup := h.edges_distinct.map edgeKey_injective
  have hbindings : (bindings.map bindingKey).Nodup := h.bindings_distinct.map bindingKey_injective
  unfold new
  simp only [sortNodes, sortEdges, sortInputs, sortBindings]
  rw [dif_neg hnil, if_neg (mt (adjacentEqual_insertionSort _ _).mp (not_not.mpr h.nodes_distinct)),
    if_neg (mt (adjacentEqual_insertionSort _ _).mp (not_not.mpr hedges)),
    if_neg (mt (adjacentEqual_insertionSort _ _).mp (not_not.mpr h.inputs_distinct)),
    if_neg (mt (adjacentEqual_insertionSort _ _).mp (not_not.mpr hbindings))]
  -- each of the two remaining steps fails or succeeds on both sides alike
  split
  · rename_i code hcode
    rw [hcode]
    rfl
  rename_i hvalid
  rw [hvalid]
  split
  · rename_i code hcode
    rw [ok_bind, hcode]
    rfl
  · rename_i order horder
    rw [ok_bind]
    refine Eq.trans ?_ (bind_of_eq_ok horder _).symm
    rfl

/-- **What is left to check** once the lists are distinct: the bindings, and that there is an
    order. -/
theorem new_isOk_of_distinct (h : Distinct nodes edges inputs bindings) :
    (∃ graph, new digest graphId version owner nodes edges inputs bindings = .ok graph) ↔
      validateBindings (sortNodes nodes) (sortEdges edges) (sortInputs inputs)
        (sortBindings bindings) = .ok () ∧
      ∃ order, Ficant.topologicalOrder ((sortNodes nodes).map ResearchNode.nodeId)
        (sortEdges edges) = .ok order := by
  have hdata := map_data_new digest graphId version owner h
  constructor
  · rintro ⟨graph, hgraph⟩
    rw [hgraph] at hdata
    obtain ⟨⟨⟩, hvalid, hdata⟩ := bind_eq_ok.mp hdata.symm
    obtain ⟨order, horder, -⟩ := bind_eq_ok.mp hdata
    exact ⟨hvalid, order, horder⟩
  · rintro ⟨hvalid, order, horder⟩
    rw [hvalid, ok_bind, horder, ok_bind] at hdata
    obtain ⟨graph, hgraph, -⟩ := map_eq_ok.mp hdata
    exact ⟨graph, hgraph⟩

/-- The order of an accepted graph is the topological order of its sorted lists. -/
theorem new_order {graph : ResearchGraph} (hdistinct : Distinct nodes edges inputs bindings)
    (h : new digest graphId version owner nodes edges inputs bindings = .ok graph) :
    Ficant.topologicalOrder ((sortNodes nodes).map ResearchNode.nodeId) (sortEdges edges) =
      .ok graph.topologicalOrder := by
  have hdata := map_data_new digest graphId version owner hdistinct
  rw [h] at hdata
  obtain ⟨⟨⟩, -, hdata⟩ := bind_eq_ok.mp hdata.symm
  obtain ⟨order, horder, hdata⟩ := bind_eq_ok.mp hdata
  have hfields := Except.ok.inj hdata
  simp only [data, Prod.mk.injEq] at hfields
  rw [horder, hfields.2.2.2.2.2.2.2.1]

/-- **The graphs that are accepted.** -/
theorem new_isOk_iff :
    (∃ graph, new digest graphId version owner nodes edges inputs bindings = .ok graph) ↔
      WellBound nodes edges inputs bindings ∧ (inputs.map GraphExternalInput.inputId).Nodup := by
  have hnodesPerm : (sortNodes nodes).Perm nodes := List.perm_insertionSort _ nodes
  have hedgesPerm : (sortEdges edges).Perm edges := List.perm_insertionSort _ edges
  have hinputsPerm : (sortInputs inputs).Perm inputs := List.perm_insertionSort _ inputs
  have hbindingsPerm : (sortBindings bindings).Perm bindings := List.perm_insertionSort _ bindings
  by_cases hdistinct : Distinct nodes edges inputs bindings
  swap
  · constructor
    · rintro ⟨graph, hgraph⟩
      rw [new_eq_error digest graphId version owner hdistinct] at hgraph
      cases hgraph
    · rintro ⟨h, hinputs⟩
      exact absurd ⟨h.nodes_ne_nil, h.nodes_distinct, h.edges_distinct, hinputs,
        h.bindings_distinct⟩ hdistinct
  -- the condition is about membership, so it can be checked on the sorted lists
  have hsorted := hdistinct.of_perm hnodesPerm.symm hedgesPerm.symm hinputsPerm.symm
    hbindingsPerm.symm
  have hends : (∀ edge ∈ sortEdges edges, edge.Fits (sortNodes nodes)) →
      ((∃ order, Ficant.topologicalOrder ((sortNodes nodes).map ResearchNode.nodeId)
        (sortEdges edges) = .ok order) ↔ Acyclic (Leads (sortEdges edges))) := by
    intro hfit
    refine topologicalOrder_isOk_iff hsorted.nodes_distinct (fun edge hedge => ?_) fun edge hedge => ?_
    · obtain ⟨source, hs, _, _, hsource, -⟩ := hfit edge hedge
      exact List.mem_map.mpr ⟨source, hs, hsource⟩
    · obtain ⟨_, _, target, ht, -, htarget, -⟩ := hfit edge hedge
      exact List.mem_map.mpr ⟨target, ht, htarget⟩
  rw [new_isOk_of_distinct digest graphId version owner hdistinct,
    validateBindings_eq_ok_iff hsorted.nodes_distinct hsorted.inputs_distinct]
  constructor
  · rintro ⟨⟨hedges, hbindings, hnodup, hused, hall⟩, horder⟩
    have hbound : WellBound (sortNodes nodes) (sortEdges edges) (sortInputs inputs)
        (sortBindings bindings) :=
      { nodes_ne_nil := hsorted.nodes_ne_nil
        nodes_distinct := hsorted.nodes_distinct
        edges_distinct := hsorted.edges_distinct
        bindings_distinct := hsorted.bindings_distinct
        edges_fit := hedges
        bindings_fit := hbindings
        bound_once := (bound_once_iff hedges hbindings).mpr ⟨hnodup, hall⟩
        inputs_used := hused
        acyclic := (hends hedges).mp horder }
    exact ⟨hbound.of_perm hnodesPerm hedgesPerm hinputsPerm hbindingsPerm, hdistinct.inputs_distinct⟩
  · rintro ⟨h, -⟩
    have hbound := h.of_perm hnodesPerm.symm hedgesPerm.symm hinputsPerm.symm hbindingsPerm.symm
    obtain ⟨hnodup, hall⟩ :=
      (bound_once_iff hbound.edges_fit hbound.bindings_fit).mp hbound.bound_once
    exact ⟨⟨hbound.edges_fit, hbound.bindings_fit, hnodup, hbound.inputs_used, hall⟩,
      (hends hbound.edges_fit).mpr hbound.acyclic⟩

/-- **The constructor does not see the order of its lists.** -/
theorem new_eq_of_perm (hnodes : nodes.Perm nodes') (hedges : edges.Perm edges')
    (hinputs : inputs.Perm inputs') (hbindings : bindings.Perm bindings') :
    new digest graphId version owner nodes edges inputs bindings =
      new digest graphId version owner nodes' edges' inputs' bindings' := by
  -- Distinct parts are sorted to the same lists; any others are refused in both orders.
  by_cases hdistinct : Distinct nodes edges inputs bindings
  · have hdistinct' := hdistinct.of_perm hnodes hedges hinputs hbindings
    have hsortNodes : sortNodes nodes = sortNodes nodes' :=
      sort_eq_of_perm ResearchNode.nodeId hnodes hdistinct.nodes_distinct
    have hsortEdges : sortEdges edges = sortEdges edges' :=
      sort_eq_of_perm edgeKey hedges (hdistinct.edges_distinct.map edgeKey_injective)
    have hsortInputs : sortInputs inputs = sortInputs inputs' :=
      sort_eq_of_perm GraphExternalInput.inputId hinputs hdistinct.inputs_distinct
    have hsortBindings : sortBindings bindings = sortBindings bindings' :=
      sort_eq_of_perm bindingKey hbindings (hdistinct.bindings_distinct.map bindingKey_injective)
    refine map_injective data_injective ?_
    rw [map_data_new digest graphId version owner hdistinct,
      map_data_new digest graphId version owner hdistinct', hsortNodes, hsortEdges, hsortInputs,
      hsortBindings]
  · have hdistinct' : ¬Distinct nodes' edges' inputs' bindings' := fun h =>
      hdistinct (h.of_perm hnodes.symm hedges.symm hinputs.symm hbindings.symm)
    rw [new_eq_error digest graphId version owner hdistinct,
      new_eq_error digest graphId version owner hdistinct']

/-- The order of an accepted graph, against the lists as they were given. -/
theorem new_order_least {graph : ResearchGraph}
    (h : new digest graphId version owner nodes edges inputs bindings = .ok graph) :
    graph.topologicalOrder.Perm (nodes.map ResearchNode.nodeId) ∧
      Forward edges graph.topologicalOrder ∧
      ∀ other : List Ulid, other.Perm (nodes.map ResearchNode.nodeId) → Forward edges other →
        graph.topologicalOrder = other ∨ List.Lex (· < ·) graph.topologicalOrder other := by
  have hnodesPerm : ((sortNodes nodes).map ResearchNode.nodeId).Perm (nodes.map ResearchNode.nodeId) :=
    (List.perm_insertionSort _ nodes).map _
  have hforward : ∀ order, Forward (sortEdges edges) order ↔ Forward edges order := by
    intro order
    simp only [Forward, sortEdges, List.mem_insertionSort]
  obtain ⟨hbound, hinputs⟩ := (new_isOk_iff digest graphId version owner).mp ⟨graph, h⟩
  have horder := new_order digest graphId version owner ⟨hbound.nodes_ne_nil, hbound.nodes_distinct,
    hbound.edges_distinct, hinputs, hbound.bindings_distinct⟩ h
  have hnodup := hnodesPerm.nodup_iff.mpr hbound.nodes_distinct
  -- Every edge leads to a node of the graph.
  have hto : ∀ edge ∈ sortEdges edges, edge.toNode ∈ (sortNodes nodes).map ResearchNode.nodeId := by
    intro edge hedge
    rw [sortEdges, List.mem_insertionSort] at hedge
    obtain ⟨_, _, target, ht, -, htarget, -⟩ := hbound.edges_fit edge hedge
    exact hnodesPerm.mem_iff.mpr (List.mem_map.mpr ⟨target, ht, htarget⟩)
  obtain ⟨hperm, hfwd⟩ := topologicalOrder_forward hnodup horder
  refine ⟨hperm.trans hnodesPerm, (hforward _).mp hfwd, fun other hother hfwd' => ?_⟩
  exact topologicalOrder_least hnodup hto horder (hother.trans hnodesPerm.symm)
    ((hforward other).mpr hfwd')

end

end ResearchGraph

/-- **Graph construction is a decision with a canonical result.** It succeeds exactly for well-bound
    acyclic graphs whose external inputs are declared once; the order it gives is the
    lexicographically least forward order of the nodes; and neither depends on the order of the
    lists. -/
theorem researchGraph_acceptance (digest : List UInt8 → ContentHash) (graphId : Ulid)
    (version : Version) (owner : OwnerRef) (nodes : List ResearchNode) (edges : List ResearchEdge)
    (inputs : List GraphExternalInput) (bindings : List GraphExternalInputBinding) :
    ((∃ graph, ResearchGraph.new digest graphId version owner nodes edges inputs bindings =
      .ok graph) ↔ ResearchGraph.WellBound nodes edges inputs bindings ∧
        (inputs.map GraphExternalInput.inputId).Nodup) ∧
    (∀ graph, ResearchGraph.new digest graphId version owner nodes edges inputs bindings = .ok graph →
      graph.topologicalOrder.Perm (nodes.map ResearchNode.nodeId) ∧
        Forward edges graph.topologicalOrder ∧
        ∀ other : List Ulid, other.Perm (nodes.map ResearchNode.nodeId) → Forward edges other →
          graph.topologicalOrder = other ∨ List.Lex (· < ·) graph.topologicalOrder other) ∧
    ∀ nodes' edges' inputs' bindings', nodes.Perm nodes' → edges.Perm edges' → inputs.Perm inputs' →
      bindings.Perm bindings' →
      ResearchGraph.new digest graphId version owner nodes edges inputs bindings =
        ResearchGraph.new digest graphId version owner nodes' edges' inputs' bindings' := by
  refine ⟨ResearchGraph.new_isOk_iff digest graphId version owner, fun graph h => ?_, ?_⟩
  · exact ResearchGraph.new_order_least digest graphId version owner h
  · intro nodes' edges' inputs' bindings' hnodes hedges hinputs hbindings
    exact ResearchGraph.new_eq_of_perm digest graphId version owner hnodes hedges hinputs hbindings

namespace SmallGraph

/-- A stand-in for SHA-256, which the checks do not look at. -/
def digest (_ : List UInt8) : ContentHash := .filled 0

/-- The type of every value here. -/
def series : TypedValue := ⟨"series", .first, digest [], by decide +kernel⟩

/-- A node with an input port `x` and an output port `y`. -/
def node (id : Ulid) : ResearchNode :=
  ⟨id, ⟨[⟨"x", series, by decide +kernel⟩], [⟨"y", series, by decide +kernel⟩], digest [],
    by decide +kernel, by decide +kernel⟩, digest []⟩

def owner : OwnerRef := ⟨⟨2⟩, ⟨3⟩⟩

/-- One input bound to one node. -/
def binding : GraphExternalInputBinding := ⟨"rates", ⟨8⟩, "x"⟩

/-- The second node reads the first. -/
def edge : ResearchEdge := ⟨⟨8⟩, "y", ⟨7⟩, "x"⟩

end SmallGraph

/-- The first node in the order is the one with the larger identifier, since the other one reads
    it. -/
theorem researchGraph_acceptance_small :
    ∃ graph, ResearchGraph.new SmallGraph.digest ⟨1⟩ .first SmallGraph.owner
        [SmallGraph.node ⟨7⟩, SmallGraph.node ⟨8⟩] [SmallGraph.edge] [⟨"rates", SmallGraph.series⟩]
        [SmallGraph.binding] = .ok graph ∧
      ResearchGraph.new SmallGraph.digest ⟨1⟩ .first SmallGraph.owner
        [SmallGraph.node ⟨8⟩, SmallGraph.node ⟨7⟩] [SmallGraph.edge] [⟨"rates", SmallGraph.series⟩]
        [SmallGraph.binding] = .ok graph ∧
      graph.topologicalOrder = [⟨8⟩, ⟨7⟩] ∧
      graph.topologicalOrder.Perm [⟨7⟩, ⟨8⟩] ∧ Forward [SmallGraph.edge] graph.topologicalOrder := by
  obtain ⟨graph, h, horder⟩ := exists_ok_of_any
    (x := ResearchGraph.new SmallGraph.digest ⟨1⟩ .first SmallGraph.owner
      [SmallGraph.node ⟨7⟩, SmallGraph.node ⟨8⟩] [SmallGraph.edge] [⟨"rates", SmallGraph.series⟩]
      [SmallGraph.binding])
    (p := fun graph => graph.topologicalOrder = [⟨8⟩, ⟨7⟩]) (by decide +kernel)
  obtain ⟨-, hleast, hperm⟩ := researchGraph_acceptance SmallGraph.digest ⟨1⟩
    .first SmallGraph.owner [SmallGraph.node ⟨7⟩, SmallGraph.node ⟨8⟩]
    [SmallGraph.edge] [⟨"rates", SmallGraph.series⟩] [SmallGraph.binding]
  have hswap := hperm [SmallGraph.node ⟨8⟩, SmallGraph.node ⟨7⟩] _ _ _ (List.Perm.swap _ _ [])
    (List.Perm.refl _) (List.Perm.refl _) (List.Perm.refl _)
  obtain ⟨horderPerm, hforward, -⟩ := hleast graph h
  exact ⟨graph, h, hswap ▸ h, by simpa using horder, horderPerm, hforward⟩

/-- An external input that is declared twice is refused, although the graph is well bound. -/
theorem input_declared_twice_refused :
    ResearchGraph.WellBound [SmallGraph.node ⟨8⟩] []
        [⟨"rates", SmallGraph.series⟩, ⟨"rates", SmallGraph.series⟩] [SmallGraph.binding] ∧
      ¬∃ graph, ResearchGraph.new SmallGraph.digest ⟨1⟩ .first SmallGraph.owner
        [SmallGraph.node ⟨8⟩] [] [⟨"rates", SmallGraph.series⟩, ⟨"rates", SmallGraph.series⟩]
        [SmallGraph.binding] = .ok graph := by
  constructor
  · refine ⟨by simp, by decide, List.nodup_nil, by decide, by simp, ?_, ?_, ?_, ?_⟩
    · intro binding hbinding
      obtain rfl := List.mem_singleton.mp hbinding
      exact ⟨⟨"rates", SmallGraph.series⟩, by simp, rfl, SmallGraph.node ⟨8⟩, by simp, rfl,
        ⟨"x", SmallGraph.series, by decide +kernel⟩, List.mem_singleton.mpr rfl, rfl, rfl⟩
    · intro node hnode input hinput
      obtain rfl := List.mem_singleton.mp hnode
      obtain rfl := List.mem_singleton.mp hinput
      decide +kernel
    · intro input hinput
      have hrates : input = ⟨"rates", SmallGraph.series⟩ := by simpa using hinput
      exact ⟨SmallGraph.binding, List.mem_singleton.mpr rfl, hrates ▸ rfl⟩
    · -- there are no edges at all
      intro a hcycle
      obtain ⟨b, -, edge, hedge, -⟩ := Relation.TransGen.tail'_iff.mp hcycle
      cases hedge
  · rintro ⟨graph, h⟩
    rw [ResearchGraph.new_eq_error] at h
    · cases h
    · intro hdistinct
      exact absurd hdistinct.inputs_distinct (by simp)

end Ficant
