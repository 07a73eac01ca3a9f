import Mathlib.Tactic
import N8n.RunPartialWorkflow
import N8n.Proofs.DirectedGraph
import N8n.Proofs.ExecutionHistory
import N8n.Proofs.FilteredGraph
import N8n.Proofs.RebuiltEntries

/-!
# What a partial execution changes

A partial execution keeps the runs of the nodes that are not stale and adds runs after them. Where
the destination has no parents nothing is kept, so that the execution index may start anew there.
-/

namespace N8n

open Fallible

/-! ## Run data that are kept -/

/-- Each key has the value it had, or none. -/
def KeepsOrDrops {α : Type} (d d' : Dict String α) : Prop :=
  ∀ key, d'.get? key = none ∨ d'.get? key = d.get? key

namespace KeepsOrDrops

variable {α : Type} {d d' d'' : Dict String α}

theorem refl (d : Dict String α) : KeepsOrDrops d d := fun _ => .inr rfl

theorem trans (h : KeepsOrDrops d d') (h' : KeepsOrDrops d' d'') : KeepsOrDrops d d'' :=
  fun key => by
    rcases h' key with hnone | heq
    · exact .inl hnone
    · rw [heq]
      exact h key

theorem erase (d : Dict String α) (key : String) : KeepsOrDrops d (d.erase key) := fun key' => by
  by_cases hkey : key' = key
  · rw [hkey, Dict.get?_erase_self]
    exact .inl rfl
  · exact .inr (Dict.get?_erase_of_ne d hkey)

theorem foldlM {β : Type} {f : Dict String α → β → Except String (Dict String α)} {xs : List β}
    (hf : ∀ d x d', f d x = .ok d' → KeepsOrDrops d d') (h : xs.foldlM f d = .ok d') :
    KeepsOrDrops d d' :=
  foldlM_invariant (I := KeepsOrDrops d) (fun x _ s s' hs hs' => hs.trans (hf s x s' hs'))
    (refl d) h

end KeepsOrDrops

section Clean

variable {graph : DirectedGraph} {runData newRunData : Dict String (List TaskData)}

theorem cleanNode_keepsOrDrops {node : Node} (h : cleanNode graph runData node = .ok newRunData) :
    KeepsOrDrops runData newRunData := by
  unfold cleanNode at h
  obtain ⟨subNodeConnections, -, h⟩ := bind_eq_ok.1 h
  obtain rfl := Except.ok.inj h
  generalize subNodeConnections.filter _ = connections
  refine (KeepsOrDrops.erase runData node.name).trans ?_
  generalize runData.erase node.name = d
  induction connections generalizing d with
  | nil => exact .refl d
  | cons connection connections ih =>
    exact (KeepsOrDrops.erase d connection.fromNode.name).trans (ih _)

theorem cleanNodes_keepsOrDrops {node : Node} (h : cleanNodes graph runData node = .ok newRunData) :
    KeepsOrDrops runData newRunData := by
  unfold cleanNodes at h
  obtain ⟨children, -, h⟩ := bind_eq_ok.1 h
  exact (KeepsOrDrops.erase runData node.name).trans
    (KeepsOrDrops.foldlM (fun _ _ _ => cleanNode_keepsOrDrops) h)

theorem cleanRunData_keepsOrDrops {nodesToClean : List Node}
    (h : cleanRunData runData graph nodesToClean = .ok newRunData) :
    KeepsOrDrops runData newRunData := by
  unfold cleanRunData at h
  obtain ⟨cleaned, hcleaned, h⟩ := bind_eq_ok.1 h
  obtain rfl := Except.ok.inj h
  refine (KeepsOrDrops.foldlM (fun _ _ _ => cleanNodes_keepsOrDrops) hcleaned).trans fun key => ?_
  rw [Dict.get?_filterKeys]
  split_ifs
  · exact .inr rfl
  · exact .inl rfl

/-- The runs of the only node that is cleaned are gone. -/
theorem cleanRunData_cleans {node : Node} (h : cleanRunData runData graph [node] = .ok newRunData) :
    newRunData.get? node.name = none := by
  unfold cleanRunData at h
  rw [List.foldlM_cons] at h
  obtain ⟨cleaned, hcleaned, h⟩ := bind_eq_ok.1 h
  obtain ⟨cleaned', hcleaned', hnil⟩ := bind_eq_ok.1 hcleaned
  obtain rfl := Except.ok.inj hnil
  obtain rfl := Except.ok.inj h
  unfold cleanNodes at hcleaned'
  obtain ⟨children, -, hchildren⟩ := bind_eq_ok.1 hcleaned'
  have hkeeps := KeepsOrDrops.foldlM (fun _ _ _ => cleanNode_keepsOrDrops) hchildren node.name
  rw [Dict.get?_erase_self, or_self] at hkeeps
  rw [Dict.get?_filterKeys, hkeeps, ite_self]

/-- Run data of nodes that are not in the graph are gone. -/
theorem cleanRunData_of_not_hasNode {nodesToClean : List Node} {nodeName : String}
    (hnode : graph.hasNode nodeName = false)
    (h : cleanRunData runData graph nodesToClean = .ok newRunData) :
    newRunData.get? nodeName = none := by
  unfold cleanRunData at h
  obtain ⟨cleaned, -, h⟩ := bind_eq_ok.1 h
  obtain rfl := Except.ok.inj h
  rw [Dict.get?_filterKeys, hnode]
  rfl

end Clean

/-! ## A destination without parents -/

namespace DirectedGraph

variable {g g' : DirectedGraph} {node : Node}

/-- No connection leads to the node. -/
def Unreached (g : DirectedGraph) (node : Node) : Prop := ∀ c ∈ g.values, c.toNode ≠ node

theorem Unreached.setConnection (h : g.Unreached node) {c : GraphConnection}
    (hc : c.toNode ≠ node) : (g.setConnection c).Unreached node := fun c' hc' => by
  rcases mem_of_mem_setConnection hc' with rfl | hmem
  · exact hc
  · exact h c' hmem

theorem Unreached.addConnection (h : g.Unreached node) {c : GraphConnection} (hc : c.toNode ≠ node)
    (hadd : g.addConnection c = .ok g') : g'.Unreached node := by
  unfold DirectedGraph.addConnection at hadd
  split_ifs at hadd
  obtain rfl := Except.ok.inj hadd
  exact h.setConnection hc

theorem Unreached.foldl_setConnection {cs : List GraphConnection} (hcs : ∀ c ∈ cs, c.toNode ≠ node)
    (h : g.Unreached node) : (cs.foldl DirectedGraph.setConnection g).Unreached node := by
  induction cs generalizing g with
  | nil => exact h
  | cons c cs ih =>
    exact ih (fun c hc => hcs c (List.mem_cons_of_mem _ hc))
      (h.setConnection (hcs c List.mem_cons_self))

theorem unreached_of_getDirectParentConnections (h : g.getDirectParentConnections node = .ok []) :
    g.Unreached node := fun c hc htarget => by
  unfold getDirectParentConnections at h
  split_ifs at h
  have hmem : c ∈ g.values.filter (·.toNode = node) :=
    List.mem_filter.2 ⟨hc, by simpa using htarget⟩
  rw [Except.ok.inj h] at hmem
  cases hmem

theorem Unreached.getDirectParentConnections (h : g.Unreached node)
    {connections : List GraphConnection}
    (hconnections : g.getDirectParentConnections node = .ok connections) : connections = [] := by
  refine List.eq_nil_iff_forall_not_mem.2 fun c hc => ?_
  obtain ⟨hmem, htarget⟩ := mem_getDirectParentConnections hconnections hc
  exact h c hmem htarget

theorem Unreached.clone (h : g.Unreached node) (hclone : g.clone = .ok g') : g'.Unreached node := by
  unfold DirectedGraph.clone addConnections at hclone
  refine foldlM_invariant (I := fun g => g.Unreached node) (fun c hc s s' hs hs' =>
    hs.addConnection (h c hc) hs') (fun c hc => ?_) hclone
  rw [values, addNodes_connections] at hc
  cases hc

/-- Connections that are joined lead to where one of them has led. -/
theorem Unreached.filterNode (h : g.Unreached node) {removed : Node}
    (hfilter : filterNode g removed = .ok g') : g'.Unreached node := by
  unfold DirectedGraph.filterNode at hfilter
  split_ifs at hfilter
  · unfold removeNode at hfilter
    obtain ⟨incoming, hincoming, hfilter⟩ := bind_eq_ok.1 hfilter
    obtain ⟨outgoing, houtgoing, hfilter⟩ := bind_eq_ok.1 hfilter
    obtain rfl := Except.ok.inj hfilter
    have hdropped : (g.dropConnections removed).Unreached node := fun c hc =>
      h c (mem_values_dropConnections.1 hc).1
    refine hdropped.foldl_setConnection fun c hc => ?_
    obtain ⟨a, -, -, b, hb, -, rfl⟩ := mem_newConnections.1 hc
    unfold getDirectChildConnections at houtgoing
    split_ifs at houtgoing
    rw [← Except.ok.inj houtgoing] at hb
    exact h b (List.mem_of_mem_filter hb)
  · obtain rfl := Except.ok.inj hfilter
    exact h

theorem Unreached.filterDisabledNodes (h : g.Unreached node)
    (hfilter : g.filterDisabledNodes = .ok g') : g'.Unreached node := by
  unfold DirectedGraph.filterDisabledNodes at hfilter
  obtain ⟨copy, hcopy, hfilter⟩ := bind_eq_ok.1 hfilter
  exact foldlM_invariant (I := fun g => g.Unreached node) (fun _ _ _ _ hs => hs.filterNode)
    (h.clone hcopy) hfilter

/-- What is searched from a destination that no connection leads to is the destination. -/
theorem Unreached.findSubgraph (h : g.Unreached node) (hfind : g.findSubgraph node node = .ok g') :
    g'.nodes = Dict.empty.set node.name node := by
  unfold DirectedGraph.findSubgraph at hfind
  obtain ⟨subgraph, hsubgraph, hfind⟩ := bind_eq_ok.1 hfind
  rw [findSubgraphRecursive, if_pos rfl] at hsubgraph
  obtain rfl := Except.ok.inj hsubgraph
  have hlist : (empty.addNode node).nodeList = [node] := by
    simp [nodeList, addNode, empty, Dict.set, Dict.empty, Dict.setEntry]
  rw [hlist, List.foldlM_cons] at hfind
  obtain ⟨kept, hkept, hnil⟩ := bind_eq_ok.1 hfind
  obtain rfl := Except.ok.inj hnil
  unfold keepSubNodes getParentConnections getParentConnectionsRecursive at hkept
  obtain ⟨parentConnections, hparents, hkept⟩ := bind_eq_ok.1 hkept
  rw [DepthFirst.visit] at hparents
  obtain ⟨direct, hdirect, hvisited⟩ := bind_eq_ok.1 hparents
  rw [h.getDirectParentConnections hdirect] at hvisited
  obtain rfl := Except.ok.inj hvisited
  obtain rfl := Except.ok.inj hkept
  rfl

end DirectedGraph

/-! ## Where it starts -/

/-- The entries of a recreated stack are for the next run of their nodes. -/
theorem recreate_runIndex {localeCompare : String → String → ℤ} {graph : DirectedGraph}
    {startNodes : List Node} {runData : Dict String (List TaskData)}
    {pinData : Dict String (List Item)} {r : RecreatedStack}
    (h : recreateNodeExecutionStack runData pinData localeCompare graph startNodes = .ok r) :
    ∀ e ∈ r.nodeExecutionStack, e.runIndex = none := by
  intro e he
  obtain ⟨node, -, hentry⟩ := (mem_stack_iff h).1 he
  unfold EntryOfNode at hentry
  split_ifs at hentry
  · rw [hentry]
  · obtain ⟨group, -, -, hentry⟩ := hentry
    obtain ⟨incoming, -, hentry⟩ := bind_eq_ok.1 hentry
    rw [← Except.ok.inj hentry]

/-- A graph that a stack is recreated for has no disabled nodes. -/
theorem recreate_enabled {localeCompare : String → String → ℤ} {graph : DirectedGraph}
    {startNodes : List Node} {runData : Dict String (List TaskData)}
    {pinData : Dict String (List Item)} {r : RecreatedStack}
    (h : recreateNodeExecutionStack runData pinData localeCompare graph startNodes = .ok r) :
    ∀ node ∈ graph.nodeList, node.disabled ≠ some true := by
  intro node hnode hdisabled
  unfold recreateNodeExecutionStack at h
  split at h
  · cases h
  · rename_i hfind
    have := List.find?_eq_none.1 hfind node hnode
    simp [hdisabled] at this

theorem lt_getNextExecutionIndex {runData : Dict String (List TaskData)} {nodeName : String}
    {record : TaskData} (h : record ∈ (runData.get? nodeName).getD []) :
    record.executionIndex < getNextExecutionIndex runData := by
  cases hrecords : runData.get? nodeName with
  | none => simp [hrecords] at h
  | some records =>
    rw [hrecords, Option.getD_some] at h
    have hmem : record.executionIndex ∈
        (runData.entries.flatMap (·.2)).map (·.executionIndex) :=
      List.mem_map_of_mem (List.mem_flatMap.2 ⟨(nodeName, records), Dict.mem_entries.2 hrecords, h⟩)
    unfold getNextExecutionIndex
    cases hmax : ((runData.entries.flatMap (·.2)).map (·.executionIndex)).max? with
    | none =>
      rw [List.max?_eq_none_iff.1 hmax] at hmem
      cases hmem
    | some previousIndex =>
      exact Nat.lt_succ_of_le ((List.max?_eq_some_iff.1 hmax).2 _ hmem)

namespace PartialExecution

variable {p : PartialExecution}

/-- Where a partial execution starts: all that the engine may add comes after what is kept. -/
structure Starts (p : PartialExecution) : Prop where
  plain : p.state.Plain
  below : ∀ nodeName, ∀ record ∈ p.state.taskData nodeName,
    record.executionIndex < p.state.currentNodeExecutionIndex
  filter : p.state.runNodeFilter = some (p.graph.nodeList.map (·.name))
  enabled : ∀ node ∈ p.graph.nodeList, node.disabled ≠ some true

section Start

variable {localeCompare : String → String → ℤ} {isTool isTriggerNode : Node → Bool}
  {pinData workflowPinData : Dict String (List Item)} {w : Workflow} {graph : DirectedGraph}
  {runData : Dict String (List TaskData)} {dirtyNodeNames : List String} {destination : Node}
  {destinationNode : String}

theorem runDestination_starts (hparents : graph.getDirectParentConnections destination = .ok [])
    (h : runDestination localeCompare pinData w graph runData destination destinationNode = .ok p) :
    p.Starts ∧ p.KeepsWhole runData := by
  unfold runDestination at h
  obtain ⟨filtered, hfiltered, h⟩ := bind_eq_ok.1 h
  obtain ⟨subgraph, hsubgraph, h⟩ := bind_eq_ok.1 h
  obtain ⟨cleaned, hcleaned, h⟩ := bind_eq_ok.1 h
  obtain ⟨r, hr, h⟩ := bind_eq_ok.1 h
  obtain ⟨workflow, -, h⟩ := bind_eq_ok.1 h
  obtain rfl := Except.ok.inj h
  have hnodes := ((DirectedGraph.unreached_of_getDirectParentConnections
    hparents).filterDisabledNodes hfiltered).findSubgraph hsubgraph
  have hnone : ∀ nodeName, cleaned.get? nodeName = none := fun nodeName => by
    by_cases hname : nodeName = destination.name
    · rw [hname]
      exact cleanRunData_cleans hcleaned
    · refine cleanRunData_of_not_hasNode ?_ hcleaned
      rw [DirectedGraph.hasNode, hnodes, Dict.get?_set_of_ne _ hname]
      rfl
  refine ⟨⟨recreate_runIndex hr, fun nodeName record hrecord => ?_, rfl, recreate_enabled hr⟩,
    fun nodeName => .inl (hnone nodeName)⟩
  have hruns : record ∈ (cleaned.get? nodeName).getD [] := hrecord
  rw [hnone] at hruns
  cases hruns

theorem runFromTrigger_starts {rewireOutputLogTo : Dict String NodeConnectionType}
    (h : runFromTrigger localeCompare isTriggerNode pinData workflowPinData w graph runData
      dirtyNodeNames destination destinationNode rewireOutputLogTo = .ok p) :
    p.Starts ∧ p.KeepsWhole runData := by
  unfold runFromTrigger at h
  obtain ⟨trigger, -, h⟩ := bind_eq_ok.1 h
  obtain ⟨filtered, -, h⟩ := bind_eq_ok.1 h
  obtain ⟨subgraph, -, h⟩ := bind_eq_ok.1 h
  obtain ⟨cleaned, hcleaned, h⟩ := bind_eq_ok.1 h
  obtain ⟨found, -, h⟩ := bind_eq_ok.1 h
  obtain ⟨startNodes, -, h⟩ := bind_eq_ok.1 h
  obtain ⟨cleaned', hcleaned', h⟩ := bind_eq_ok.1 h
  obtain ⟨r, hr, h⟩ := bind_eq_ok.1 h
  obtain rfl := Except.ok.inj h
  exact ⟨⟨recreate_runIndex hr, fun nodeName record hrecord => lt_getNextExecutionIndex hrecord,
    rfl, recreate_enabled hr⟩,
    (cleanRunData_keepsOrDrops hcleaned).trans (cleanRunData_keepsOrDrops hcleaned')⟩

theorem runPartialWorkflow2_starts {d : WorkflowExecute.DestinationNode}
    (h : runPartialWorkflow2 localeCompare isTool isTriggerNode pinData workflowPinData w runData
      dirtyNodeNames d = .ok p) : p.Starts ∧ p.KeepsWhole runData := by
  unfold runPartialWorkflow2 at h
  split at h
  · cases h
  · obtain ⟨graph, -, h⟩ := bind_eq_ok.1 h
    split_ifs at h
    · obtain ⟨⟨rewiredGraph, rewired⟩, -, h⟩ := bind_eq_ok.1 h
      obtain ⟨workflow, -, h⟩ := bind_eq_ok.1 h
      cases hnode : workflow.nodes.get? toolExecutorNodeName with
      | none => simp [hnode] at h
      | some toolExecutorNode =>
        rw [hnode] at h
        exact runFromTrigger_starts h
    · obtain ⟨parents, hparents, h⟩ := bind_eq_ok.1 h
      split_ifs at h with hnone
      · exact runDestination_starts (hnone ▸ hparents) h
      · exact runFromTrigger_starts h

end Start

/-! ## What is added -/

open WorkflowExecute

variable {w : Workflow} {s s' : WorkflowExecute}

theorem mem_of_mem_added {nodeName : String} {record : TaskData} (h : record ∈ p.added s nodeName) :
    record ∈ s.taskData nodeName := List.mem_of_mem_drop h

theorem added_start (nodeName : String) : p.added p.state nodeName = [] := List.drop_length

theorem added_push {nodeName : String} (h : p.state.taskData nodeName <+: s.taskData nodeName)
    (record : TaskData) (nodeName' : String) :
    p.added (s.pushTaskData nodeName record) nodeName' =
      if nodeName' = nodeName then p.added s nodeName ++ [record] else p.added s nodeName' := by
  unfold added
  split_ifs with hname
  · rw [hname, pushTaskData, taskData_set, List.drop_append_of_le_length h.length_le]
  · rw [taskData_pushTaskData_of_ne s hname]

theorem extends_start : p.Extends p.state where
  kept _ := List.prefix_rfl
  allowed nodeName h := absurd (added_start nodeName) h
  later nodeName record h := by
    rw [added_start] at h
    cases h
  increasing nodeName := by
    rw [added_start]
    exact .nil
  distinct nodeName _ a h := by
    rw [added_start] at h
    cases h

theorem Extends.same (h : p.Extends s)
    (hruns : ∀ nodeName, s'.taskData nodeName = s.taskData nodeName) : p.Extends s' := by
  have hadded : ∀ nodeName, p.added s' nodeName = p.added s nodeName := fun nodeName => by
    rw [added, added, hruns]
  constructor
  · simpa only [hruns] using h.kept
  · simpa only [hadded] using h.allowed
  · simpa only [hadded] using h.later
  · simpa only [hadded] using h.increasing
  · simpa only [hadded] using h.distinct

/-- The run of an allowed node is added, after all that are there. -/
theorem Extends.push (h : p.Extends s) {nodeName : String} {record : TaskData}
    (hallowed : ∃ node ∈ p.graph.nodeList, node.name = nodeName ∧ node.disabled ≠ some true)
    (hafter : ∀ nodeName, ∀ old ∈ s.taskData nodeName,
      old.executionIndex < record.executionIndex) :
    p.Extends (s.pushTaskData nodeName record) := by
  have hadded := added_push (h.kept nodeName) record
  have hmem : ∀ {nodeName' record'}, record' ∈ p.added (s.pushTaskData nodeName record) nodeName' →
      record' ∈ p.added s nodeName' ∨ nodeName' = nodeName ∧ record' = record := by
    intro nodeName' record' hrecord'
    rw [hadded] at hrecord'
    split_ifs at hrecord' with hname
    · rw [List.mem_append, List.mem_singleton] at hrecord'
      exact hrecord'.imp (hname ▸ ·) (⟨hname, ·⟩)
    · exact .inl hrecord'
  constructor
  · exact fun nodeName' => (h.kept nodeName').trans (s.grows_pushTaskData nodeName record nodeName')
  · intro nodeName' hne
    rw [hadded] at hne
    split_ifs at hne with hname
    · exact hname ▸ hallowed
    · exact h.allowed nodeName' hne
  · intro nodeName' record' hrecord' nodeName'' old hold
    rcases hmem hrecord' with hold' | ⟨-, rfl⟩
    · exact h.later nodeName' record' hold' nodeName'' old hold
    · exact hafter nodeName'' old ((h.kept nodeName'').subset hold)
  · intro nodeName'
    rw [hadded]
    split_ifs
    · rw [List.pairwise_append]
      refine ⟨h.increasing nodeName, List.pairwise_singleton _ _, fun a ha b hb => ?_⟩
      rw [List.mem_singleton.1 hb]
      exact hafter nodeName a (mem_of_mem_added ha)
    · exact h.increasing nodeName'
  · intro nodeName₁ nodeName₂ a ha b hb heq
    rcases hmem ha with hold | ⟨rfl, rfl⟩ <;> rcases hmem hb with hold' | ⟨rfl, rfl⟩
    · exact h.distinct nodeName₁ nodeName₂ a hold b hold' heq
    · exact absurd heq (hafter nodeName₁ a (mem_of_mem_added hold)).ne
    · exact absurd heq.symm (hafter nodeName₂ b (mem_of_mem_added hold')).ne
    · rfl

/-- The invariant of the loop. -/
structure Goes (p : PartialExecution) (s : WorkflowExecute) : Prop where
  extends_ : p.Extends s
  plain : s.Plain
  below : ∀ nodeName, ∀ record ∈ s.taskData nodeName,
    record.executionIndex < s.currentNodeExecutionIndex
  filter : s.runNodeFilter = some (p.graph.nodeList.map (·.name))

theorem Starts.goes (h : p.Starts) : p.Goes p.state :=
  ⟨extends_start, h.plain, h.below, h.filter⟩

theorem Starts.allowed (h : p.Starts) {nodeName : String}
    (hfilter : s.runNodeFilter = some (p.graph.nodeList.map (·.name)))
    (hallowed : s.isFilteredOut nodeName = false) :
    ∃ node ∈ p.graph.nodeList, node.name = nodeName ∧ node.disabled ≠ some true := by
  have hmem : nodeName ∈ p.graph.nodeList.map (·.name) := by
    simpa [isFilteredOut, hfilter] using hallowed
  obtain ⟨node, hnode, hname⟩ := List.mem_map.1 hmem
  exact ⟨node, hnode, hname, h.enabled node hnode⟩

/-- One turn keeps the invariant. -/
theorem Goes.turn (hp : p.Starts) (h : p.Goes s) {t : Turn} (ht : t.NoRequests)
    {executionData : ExecuteData} {nodeExecutionStack : List ExecuteData}
    (hstack : s.nodeExecutionStack = executionData :: nodeExecutionStack) :
    p.Goes (s.turn w t executionData nodeExecutionStack).state := by
  have hmem : executionData ∈ s.nodeExecutionStack := hstack ▸ List.mem_cons_self
  rcases turn_turned (w := w) h.plain ht hstack with heq | hturned
  · rw [heq]
    exact h
  · have hplain := (h.plain.taken hstack).turned (h.plain _ hmem) hturned
    obtain ⟨hindex, hfilter, hruns⟩ := hturned.addsRun
    refine ⟨?_, hplain, ?_, hfilter.trans h.filter⟩
    · rcases hruns with hsame | ⟨hallowed, record, recordOf, hpush⟩
      · exact h.extends_.same hsame
      · exact (h.extends_.push (hp.allowed (s := s.taken nodeExecutionStack) h.filter hallowed)
          (recordOf.index ▸ h.below)).same hpush
    · intro nodeName record hrecord
      rw [hindex]
      refine Nat.lt_succ_of_le ?_
      rcases hruns with hsame | ⟨-, record', recordOf, hpush⟩
      · rw [hsame] at hrecord
        exact (h.below nodeName record hrecord).le
      · rw [hpush] at hrecord
        rcases mem_taskData_pushTaskData hrecord with hold | ⟨-, rfl⟩
        · exact (h.below nodeName record hold).le
        · exact recordOf.index.le

theorem Goes.step (hp : p.Starts) {x : Execution} (h : p.Goes x.state) {t : Turn}
    (ht : t.NoRequests) : p.Goes (x.step w t).state := by
  unfold Execution.step
  split_ifs
  · exact h
  · cases hstack : x.state.nodeExecutionStack with
    | nil => exact h
    | cons executionData nodeExecutionStack => exact h.turn hp ht hstack

/-- A partial execution starts from the runs it has been given, but for those of stale nodes, and
whatever its nodes do short of requests: the runs that were kept stay as they are, only enabled
nodes of its graph get new ones, and the execution indexes of these are new and in order. -/
theorem partial_extends {localeCompare : String → String → ℤ} {isTool isTriggerNode : Node → Bool}
    {pinData workflowPinData : Dict String (List Item)} {runData : Dict String (List TaskData)}
    {dirtyNodeNames : List String} {destinationNode : DestinationNode}
    (h : runPartialWorkflow2 localeCompare isTool isTriggerNode pinData workflowPinData w runData
      dirtyNodeNames destinationNode = .ok p) {ts : List Turn} (hts : ∀ t ∈ ts, t.NoRequests) :
    p.KeepsWhole runData ∧
      Runs.Along (Execution.step p.workflow) (fun x => p.Extends x.state) ⟨p.state, false⟩ ts := by
  obtain ⟨hp, hkeeps⟩ := runPartialWorkflow2_starts h
  refine ⟨hkeeps, (Runs.meets_along (I := fun x : Execution => p.Goes x.state) (fun x t hx ht =>
    hx.step hp ht) hp.goes (Runs.meets_of_forall (C := Turn.NoRequests) hts)).mono fun x hx => ?_⟩
  exact hx.extends_

/-! ### A node that has been edited -/

def inLine : Workflow where
  nodes := ((Dict.empty.set "Trigger" { name := "Trigger", type := "trigger" }).set "Edit"
    { name := "Edit", type := "edit" }).set "Set" { name := "Set", type := "set" }
  connectionsBySourceNode := (Dict.empty.set "Trigger" (Dict.empty.set .main
    [some [{ node := "Edit", type := .main, index := 0 }]])).set "Edit" (Dict.empty.set .main
    [some [{ node := "Set", type := .main, index := 0 }]])

def ranBefore : Dict String (List TaskData) :=
  let run (executionIndex : ℕ) : TaskData :=
    { executionIndex, data := some (Dict.empty.set .main [.items [{ json := .empty }]]) }
  ((Dict.empty.set "Trigger" [run 0]).set "Edit" [run 1]).set "Set" [run 2]

/-- It runs again, from the run of the trigger on. -/
def editAgain : Except String PartialExecution :=
  runPartialWorkflow2 (fun _ _ => 0) (fun _ => false) (·.type = "trigger") .empty .empty inLine
    ranBefore ["Edit"] { nodeName := "Set" }

theorem editAgain_extends : ∃ p, editAgain = .ok p ∧ p.KeepsWhole ranBefore ∧
    Runs.Along (Execution.step p.workflow) (fun x => p.Extends x.state) ⟨p.state, false⟩
      [ResumableExecution.oneItem false, ResumableExecution.oneItem false] := by
  have hok : editAgain.toOption.isSome = true := by decide +kernel
  cases h : editAgain with
  | error message =>
    rw [h] at hok
    cases hok
  | ok p =>
    refine ⟨p, rfl, partial_extends h fun t ht => ?_⟩
    obtain rfl : t = ResumableExecution.oneItem false := by simpa using ht
    simp [Turn.NoRequests, ResumableExecution.oneItem]

end PartialExecution

end N8n
