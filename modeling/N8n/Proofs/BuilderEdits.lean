import N8n.Proofs.BuilderHeap

/-!
# Edits and dangling connections

A connection names the nodes it joins, and `removeNode` looks for their ids.
-/

namespace N8n

namespace OperationsProcessor

/-! ## What connections mention -/

/-- A connection with the output that it is from. -/
structure Link where
  source : String
  type : String
  output : ℕ
  connection : IConnection
  deriving DecidableEq, Repr

def outputLinks (source type : String) (outputs : NodeInputConnections) : List Link :=
  outputs.zipIdx.flatMap fun output =>
    (output.1.getD []).map fun connection => ⟨source, type, output.2, connection⟩

def nodeLinks (source : String) (nodeConnections : INodeConnections) : List Link :=
  nodeConnections.entries.flatMap fun entry => outputLinks source entry.1 entry.2

def links (connections : Dict String INodeConnections) : List Link :=
  connections.entries.flatMap fun entry => nodeLinks entry.1 entry.2

/-- The sources and targets. -/
def mentioned (connections : Dict String INodeConnections) : List String :=
  connections.keys ++ (links connections).map (·.connection.node)

namespace SimpleWorkflow

variable (w : SimpleWorkflow INode INodeConnections)

def names : List String := w.nodes.map (·.name)

/-- Connections mention names of nodes only. -/
def NoDangling : Prop := ∀ name ∈ mentioned w.connections, name ∈ w.names

instance : Decidable w.NoDangling :=
  inferInstanceAs (Decidable (∀ name ∈ mentioned w.connections, name ∈ w.names))

/-- The names of the nodes with these ids. -/
def namesOf (nodeIds : List String) : List String :=
  (w.nodes.filter (·.id ∈ nodeIds)).map (·.name)

end SimpleWorkflow

namespace State

variable (s : State)

/-- The workflow, at every depth. -/
def workflow : SimpleWorkflow INode INodeConnections := s.heap.readWorkflow s.result

/-- What the tools of the builder return: nodes that are new, connections between nodes that are
there, and removals. -/
def Admissible : WorkflowOperation Ref Ref → Prop
  | .addNodes nodes => ∀ r ∈ nodes,
      (s.heap.nodes.read r).id ∉ s.workflow.nodes.map (·.id) ∧
        (s.heap.nodes.read r).name ∉ s.workflow.names
  | .mergeConnections connections =>
    ∀ name ∈ mentioned (connections.mapValues s.heap.readObject), name ∈ s.workflow.names
  | .removeNode _ | .removeConnection .. => True
  | _ => False

/-- A removal of nodes removes exactly the connections from and to them. -/
def RemovesExactly : WorkflowOperation Ref Ref → Prop
  | .removeNode nodeIds =>
    links (s.step (.removeNode nodeIds)).workflow.connections =
      (links s.workflow.connections).filter fun link =>
        link.source ∉ s.workflow.namesOf nodeIds ∧
          link.connection.node ∉ s.workflow.namesOf nodeIds
  | _ => True

/-- The ids to remove do as the names of the nodes: a connection has one of them at an end exactly
when it has the name of a removed node there, and the other sources are names of nodes that stay.
When nodes are added, each mentioned name is that of a node with no later one of its id. -/
def IdsAsNames : WorkflowOperation Ref Ref → Prop
  | .removeNode nodeIds =>
    (∀ link ∈ links s.workflow.connections,
      (link.source ∈ nodeIds ∨ link.connection.node ∈ nodeIds ↔
        link.source ∈ s.workflow.namesOf nodeIds ∨
          link.connection.node ∈ s.workflow.namesOf nodeIds)) ∧
    ∀ source ∈ s.workflow.connections.keys, source ∉ nodeIds →
      ∃ node ∈ s.workflow.nodes, node.name = source ∧ node.id ∉ nodeIds
  | .addNodes _ => ∀ name ∈ mentioned s.workflow.connections,
      ∃ node ∈ s.workflow.nodes, node.name = name ∧
        (s.workflow.nodes.filter (·.id = node.id)).getLast? = some node
  | _ => True

instance (op : WorkflowOperation Ref Ref) : Decidable (s.Admissible op) := by
  unfold Admissible
  cases op <;> infer_instance

instance (op : WorkflowOperation Ref Ref) : Decidable (s.IdsAsNames op) := by
  unfold IdsAsNames
  cases op <;> infer_instance

end State

/-! ## Names in the heap -/

section Names

variable (N : String → Prop) {h h' h'' : Heap}

def ListOk (h : Heap) (r : Ref) : Prop := ∀ connection ∈ h.lists.read r, N connection.node

def OutputsOk (h : Heap) (r : Ref) : Prop := ∀ a, some a ∈ h.outputs.read r → ListOk N h a

/-- The connections of an object are to names in `N`. -/
def ObjectOk (h : Heap) (r : Ref) : Prop := ∀ e ∈ (h.objects.read r).entries, OutputsOk N h e.2

/-- What is to names in `N` stays so. -/
structure Keeps (h h' : Heap) : Prop where
  lists : ∀ r, ListOk N h r → ListOk N h' r
  outputs : ∀ r, OutputsOk N h r → OutputsOk N h' r
  objects : ∀ r, ObjectOk N h r → ObjectOk N h' r

variable {N}

theorem Keeps.refl (h : Heap) : Keeps N h h := ⟨fun _ => id, fun _ => id, fun _ => id⟩

theorem Keeps.trans (hk : Keeps N h h') (hk' : Keeps N h' h'') : Keeps N h h'' :=
  ⟨fun r hr => hk'.lists r (hk.lists r hr), fun r hr => hk'.outputs r (hk.outputs r hr),
    fun r hr => hk'.objects r (hk.objects r hr)⟩

theorem keeps_writeList (r : Ref) {list : List IConnection}
    (hlist : ∀ connection ∈ list, N connection.node) :
    Keeps N h { h with lists := h.lists.write r list } := by
  have hlists : ∀ a, ListOk N h a → ListOk N { h with lists := h.lists.write r list } a := by
    intro a ha connection hc
    dsimp only at hc
    rw [Cells.read_write] at hc
    split_ifs at hc with heq
    · exact hlist connection hc
    · exact ha connection hc
  exact ⟨hlists, fun r hr a ha => hlists a (hr a ha),
    fun r hr e he a ha => hlists a (hr e he a ha)⟩

/-- A new array is a write to a cell that is not there yet. -/
theorem keeps_newList {list : List IConnection} (hlist : ∀ connection ∈ list, N connection.node) :
    Keeps N h (h.newList list).2 :=
  have hk := keeps_writeList (h := h) h.lists.next hlist
  ⟨hk.lists, hk.outputs, hk.objects⟩

theorem keeps_writeOutputs (r : Ref) {outputs : List (Option Ref)}
    (houtputs : ∀ a, some a ∈ outputs → ListOk N h a) :
    Keeps N h { h with outputs := h.outputs.write r outputs } := by
  have hkeep : ∀ a, OutputsOk N h a →
      OutputsOk N { h with outputs := h.outputs.write r outputs } a := by
    intro a ha b hb
    dsimp only at hb
    rw [Cells.read_write] at hb
    split_ifs at hb with heq
    · exact houtputs b hb
    · exact ha b hb
  exact ⟨fun _ => id, hkeep, fun r hr e he => hkeep e.2 (hr e he)⟩

theorem keeps_writeObject (r : Ref) {object : Dict String Ref}
    (hobject : ∀ e ∈ object.entries, OutputsOk N h e.2) :
    Keeps N h { h with objects := h.objects.write r object } := by
  refine ⟨fun _ => id, fun _ => id, fun a ha e he => ?_⟩
  dsimp only at he
  rw [Cells.read_write] at he
  split_ifs at he with heq
  · exact hobject e he
  · exact ha e he

/-! ## Merging -/

theorem mergeOutput_keeps {newOutputs existingOutputs : Ref} (hnew : OutputsOk N h newOutputs)
    (hexisting : OutputsOk N h existingOutputs) (i : ℕ) :
    Keeps N h (mergeOutput newOutputs existingOutputs h i) := by
  unfold mergeOutput
  split
  · exact .refl h
  rename_i new hoption
  have hnewList := hnew new (Heap.mem_of_output hoption)
  split
  · refine keeps_writeOutputs _ fun a ha => ?_
    rcases mem_setAt ha with ha | ha | ha
    · exact hexisting a ha
    · cases ha
    · exact Option.some.inj ha ▸ hnewList
  · rename_i existing hoption'
    refine keeps_writeList _ fun connection hc => ?_
    rcases List.mem_append.1 hc with hc | hc
    · exact hexisting existing (Heap.mem_of_output hoption') connection hc
    · exact hnewList connection (List.mem_filter.1 hc).1

theorem mergeType_keeps {object : Ref} (hobject : ObjectOk N h object) {entry : String × Ref}
    (hentry : OutputsOk N h entry.2) : Keeps N h (mergeType object h entry) := by
  unfold mergeType
  split
  · refine keeps_writeObject _ fun e he => ?_
    rcases Dict.mem_entries_set he with rfl | he
    · exact hentry
    · exact hobject e he
  · rename_i existingOutputs hget
    have hexisting := hobject _ (Dict.mem_entries.2 hget)
    refine List.foldlRecOn _ _ (Keeps.refl h) fun h' hk i _ => hk.trans ?_
    exact mergeOutput_keeps (hk.outputs _ hentry) (hk.outputs _ hexisting) i

/-- The sources and targets of connections are in `N`. -/
def ConnectionsOk (N : String → Prop) (h : Heap) (connections : Dict String Ref) : Prop :=
  ∀ e ∈ connections.entries, N e.1 ∧ ObjectOk N h e.2

theorem Keeps.connections (hk : Keeps N h h') {connections : Dict String Ref}
    (hc : ConnectionsOk N h connections) : ConnectionsOk N h' connections :=
  fun e he => ⟨(hc e he).1, hk.objects _ (hc e he).2⟩

theorem mergeSource_keeps {s : Merged} (hs : ConnectionsOk N s.heap s.connections)
    {entry : String × Ref} (hname : N entry.1) (hentry : ObjectOk N s.heap entry.2) :
    Keeps N s.heap (mergeSource s entry).heap ∧
      ConnectionsOk N (mergeSource s entry).heap (mergeSource s entry).connections := by
  unfold mergeSource
  split
  · refine ⟨.refl _, fun e he => ?_⟩
    rcases Dict.mem_entries_set he with rfl | he
    · exact ⟨hname, hentry⟩
    · exact hs e he
  · rename_i object hget
    have hobject := (hs _ (Dict.mem_entries.2 hget)).2
    have hk : Keeps N s.heap (Runs.run (mergeType object) s.heap
        (objectEntries (s.heap.objects.read entry.2))) := by
      refine List.foldlRecOn _ _ (Keeps.refl _) fun h' hk e he => hk.trans ?_
      exact mergeType_keeps (hk.objects _ hobject)
        (hk.outputs _ (hentry e (mem_objectEntries.1 he)))
    exact ⟨hk, hk.connections hs⟩

theorem merge_keeps {s : Merged} (hs : ConnectionsOk N s.heap s.connections) :
    ∀ {entries : List (String × Ref)}, (∀ e ∈ entries, N e.1 ∧ ObjectOk N s.heap e.2) →
      ConnectionsOk N (Runs.run mergeSource s entries).heap
        (Runs.run mergeSource s entries).connections
  | [], _ => hs
  | entry :: entries, hentries => by
    obtain ⟨hname, hentry⟩ := hentries entry List.mem_cons_self
    obtain ⟨hk, hs'⟩ := mergeSource_keeps hs hname hentry
    rw [Runs.run_cons]
    refine merge_keeps hs' fun e he => ?_
    obtain ⟨hname, hentry⟩ := hentries e (List.mem_cons_of_mem _ he)
    exact ⟨hname, hk.objects _ hentry⟩

end Names

/-! ## Mentioned names -/

theorem forall_outputLinks {source type : String} {outputs : NodeInputConnections}
    {N : String → Prop} : (∀ link ∈ outputLinks source type outputs, N link.connection.node) ↔
      ∀ list, some list ∈ outputs → ∀ connection ∈ list, N connection.node := by
  unfold outputLinks
  constructor
  · intro hall list hlist connection hc
    obtain ⟨i, hi⟩ := List.mem_iff_getElem?.1 hlist
    exact hall _ (List.mem_flatMap.2 ⟨(some list, i), List.mk_mem_zipIdx_iff_getElem?.2 hi,
      List.mem_map.2 ⟨connection, hc, rfl⟩⟩)
  · intro hall link hlink
    obtain ⟨output, houtput, hlink⟩ := List.mem_flatMap.1 hlink
    obtain ⟨connection, hc, rfl⟩ := List.mem_map.1 hlink
    rcases output with ⟨_ | list, i⟩
    · cases hc
    · exact hall list (List.mem_of_getElem? (List.mk_mem_zipIdx_iff_getElem?.1 houtput))
        connection hc

theorem forall_nodeLinks {source : String} {N : String → Prop} {h : Heap} {r : Ref} :
    (∀ link ∈ nodeLinks source (h.readObject r), N link.connection.node) ↔ ObjectOk N h r := by
  simp only [nodeLinks, Heap.readObject, Dict.mapValues, List.forall_mem_flatMap,
    List.forall_mem_map, forall_outputLinks, ObjectOk, OutputsOk, ListOk]
  refine forall₂_congr fun e he => ⟨fun hall a ha => ?_, fun hall list hlist => ?_⟩
  · exact hall _ (List.mem_map.2 ⟨some a, ha, rfl⟩)
  · obtain ⟨x, hx, hlist⟩ := List.mem_map.1 hlist
    obtain ⟨a, rfl, rfl⟩ := Option.map_eq_some_iff.1 hlist
    exact hall a hx

theorem forall_mentioned {N : String → Prop} {h : Heap} {connections : Dict String Ref} :
    (∀ name ∈ mentioned (connections.mapValues h.readObject), N name) ↔
      ConnectionsOk N h connections := by
  simp only [mentioned, links, Dict.keys, Dict.mapValues, List.forall_mem_append,
    List.forall_mem_map, List.forall_mem_flatMap, forall_nodeLinks, ConnectionsOk]
  exact forall₂_and.symm

/-! ## Removed nodes -/

theorem outputLinks_filter (source type : String) (outputs : NodeInputConnections)
    (p : IConnection → Bool) :
    outputLinks source type (outputs.map (Option.map (List.filter p))) =
      (outputLinks source type outputs).filter fun link => p link.connection := by
  unfold outputLinks
  rw [List.zipIdx_map, List.flatMap_map, List.filter_flatMap]
  refine List.flatMap_congr fun output _ => ?_
  rcases output with ⟨_ | list, i⟩
  · rfl
  · simp only [Prod.map, Option.map_some, Option.getD_some, id, List.filter_map]
    rfl

theorem flatMap_filter {α β : Type} (p : α → Bool) (f : α → List β) : ∀ as : List α,
    (as.filter p).flatMap f = as.flatMap fun a => if p a then f a else []
  | [] => rfl
  | a :: as => by
    by_cases ha : p a <;> simp [ha, flatMap_filter p f as]

theorem links_cleaned (nodeIds : List String) (connections : Dict String INodeConnections) :
    links (cleanedConnections nodeIds connections) = (links connections).filter fun link =>
      link.source ∉ nodeIds ∧ link.connection.node ∉ nodeIds := by
  have hnode : ∀ (source : String) (nodeConnections : INodeConnections),
      nodeLinks source (nodeConnections.mapValues fun outputs =>
        outputs.map (Option.map (List.filter (·.node ∉ nodeIds)))) =
      (nodeLinks source nodeConnections).filter (·.connection.node ∉ nodeIds) := by
    intro source nodeConnections
    simp only [nodeLinks, Dict.mapValues, List.flatMap_map, List.filter_flatMap, outputLinks_filter]
  have hsource : ∀ (source : String) (nodeConnections : INodeConnections),
      ∀ link ∈ nodeLinks source nodeConnections, link.source = source := by
    intro source nodeConnections link hlink
    obtain ⟨entry, -, hlink⟩ := List.mem_flatMap.1 hlink
    obtain ⟨output, -, hlink⟩ := List.mem_flatMap.1 hlink
    obtain ⟨connection, -, rfl⟩ := List.mem_map.1 hlink
    rfl
  have hentries : (cleanedConnections nodeIds connections).entries =
      (connections.entries.filter fun e => e.1 ∉ nodeIds).map fun e =>
        (e.1, e.2.mapValues fun outputs =>
          outputs.map (Option.map (List.filter (·.node ∉ nodeIds)))) := rfl
  unfold links
  rw [hentries, List.flatMap_map, flatMap_filter, List.filter_flatMap]
  refine List.flatMap_congr fun entry _ => ?_
  split_ifs with hkey
  · rw [hnode]
    refine List.filter_congr fun link hlink => ?_
    have hkey' : entry.1 ∉ nodeIds := of_decide_eq_true hkey
    simp [hsource _ _ link hlink, hkey']
  · refine (List.filter_eq_nil_iff.2 fun link hlink => ?_).symm
    have hkey' : entry.1 ∈ nodeIds := by simpa using hkey
    simp [hsource _ _ link hlink, hkey']

namespace State

variable {g : Given} {s : State}

theorem workflow_removeNode (hs : s.Sound g) (nodeIds : List String) :
    (s.step (.removeNode nodeIds)).workflow = { s.workflow with
      nodes := s.workflow.nodes.filter (·.id ∉ nodeIds)
      connections := cleanedConnections nodeIds s.workflow.connections } := by
  obtain ⟨hext, -, -, hvalue⟩ := Heap.newConnections_spec hs.valid
    (cleanedConnections nodeIds s.workflow.connections)
  unfold workflow Heap.readWorkflow
  refine SimpleWorkflow.mk.injEq .. ▸ ⟨?_, hvalue, rfl⟩
  rw [List.filter_map]
  exact congrArg (fun nodes => List.map nodes.read _) hext.nodes

theorem mem_namesOf {w : SimpleWorkflow INode INodeConnections} {nodeIds : List String}
    {name : String} :
    name ∈ w.namesOf nodeIds ↔ ∃ node ∈ w.nodes, node.id ∈ nodeIds ∧ node.name = name := by
  simp [SimpleWorkflow.namesOf, and_assoc]

/-- Exactly the connections of the removed nodes are removed where the ids do as names. -/
theorem removesExactly_iff (hs : s.Sound g) (nodeIds : List String) :
    s.RemovesExactly (.removeNode nodeIds) ↔
      ∀ link ∈ links s.workflow.connections,
        (link.source ∈ nodeIds ∨ link.connection.node ∈ nodeIds ↔
          link.source ∈ s.workflow.namesOf nodeIds ∨
            link.connection.node ∈ s.workflow.namesOf nodeIds) := by
  unfold RemovesExactly
  dsimp only
  rw [workflow_removeNode hs, links_cleaned]
  constructor
  · intro heq link hlink
    have hmem : ∀ p : Link → Bool, link ∈ (links s.workflow.connections).filter p ↔ p link := by
      simp [hlink]
    have hiff := (hmem _).symm.trans (heq ▸ hmem _)
    simp only [decide_eq_true_eq, ← not_or] at hiff
    exact (not_iff_not.1 hiff).symm
  · intro hall
    refine List.filter_congr fun link hlink => ?_
    simp only [← not_or, hall link hlink]

theorem noDangling_removeNode (hs : s.Sound g) (hp : s.workflow.NoDangling) {nodeIds : List String}
    (hids : ∀ link ∈ links s.workflow.connections,
      (link.source ∈ nodeIds ∨ link.connection.node ∈ nodeIds ↔
        link.source ∈ s.workflow.namesOf nodeIds ∨
          link.connection.node ∈ s.workflow.namesOf nodeIds)) :
    (s.step (.removeNode nodeIds)).workflow.NoDangling ↔
      ∀ source ∈ s.workflow.connections.keys, source ∉ nodeIds →
        ∃ node ∈ s.workflow.nodes, node.name = source ∧ node.id ∉ nodeIds := by
  have hnames : ∀ name, name ∈ (s.step (.removeNode nodeIds)).workflow.names ↔
      ∃ node ∈ s.workflow.nodes, node.name = name ∧ node.id ∉ nodeIds := by
    intro name
    rw [workflow_removeNode hs]
    simp [SimpleWorkflow.names, and_assoc, and_comm]
  have hkeys : ∀ source, source ∈ (cleanedConnections nodeIds s.workflow.connections).keys ↔
      source ∈ s.workflow.connections.keys ∧ source ∉ nodeIds := by
    intro source
    rw [Dict.mem_keys, Dict.mem_keys, cleanedConnections, Dict.get?_mapValues,
      Dict.get?_filterKeys]
    by_cases hsource : source ∈ nodeIds <;> simp [hsource]
  have hconnections : (s.step (.removeNode nodeIds)).workflow.connections =
      cleanedConnections nodeIds s.workflow.connections := by rw [workflow_removeNode hs]
  unfold SimpleWorkflow.NoDangling mentioned
  rw [hconnections]
  simp only [hnames, List.forall_mem_append, hkeys, and_imp]
  refine and_iff_left fun name hname => ?_
  -- a target that is left is not the name of a removed node
  obtain ⟨link, hlink, rfl⟩ := List.mem_map.1 hname
  rw [links_cleaned, List.mem_filter, decide_eq_true_eq, ← not_or] at hlink
  obtain ⟨hlink, hnot⟩ := hlink
  obtain ⟨node, hnode, hname⟩ := List.mem_map.1 (hp link.connection.node
    (List.mem_append_right _ (List.mem_map.2 ⟨link, hlink, rfl⟩)))
  refine ⟨node, hnode, hname, fun hid => hnot ((hids link hlink).2 (.inr ?_))⟩
  exact mem_namesOf.2 ⟨node, hnode, hid, hname⟩

/-! ## Added nodes -/

theorem get?_nodeMap (h : Heap) (nodes : List Ref) (id : String) :
    (nodeMap h nodes).get? id =
      (nodes.filter fun node => (h.nodes.read node).id = id).getLast? := by
  unfold nodeMap
  rw [Dict.get?_foldl_set (fun node => (h.nodes.read node).id) (fun node => node), Option.map_id',
    Dict.get?_empty, Option.or_none]

/-- A node of the map has its id in no later node. -/
theorem mem_names_addNodes {nodes : List Ref} {name : String} :
    name ∈ (s.step (.addNodes nodes)).workflow.names ↔ ∃ node : INode, node.name = name ∧
      ((s.workflow.nodes ++ nodes.map s.heap.nodes.read).filter (·.id = node.id)).getLast? =
        some node := by
  have hlast : ∀ id, ((s.workflow.nodes ++ nodes.map s.heap.nodes.read).filter
      (·.id = id)).getLast? =
        ((nodeMap s.heap (s.result.nodes ++ nodes)).get? id).map s.heap.nodes.read := by
    intro id
    rw [get?_nodeMap, ← List.getLast?_map]
    unfold workflow Heap.readWorkflow
    rw [← List.map_append, List.filter_map]
    rfl
  have hnames : name ∈ (s.step (.addNodes nodes)).workflow.names ↔
      ∃ e ∈ (nodeMap s.heap (s.result.nodes ++ nodes)).entries,
        (s.heap.nodes.read e.2).name = name := by
    simp [SimpleWorkflow.names, workflow, Heap.readWorkflow, step, applyAddNodesOperation]
  rw [hnames]
  constructor
  · rintro ⟨e, he, hname⟩
    have hget := Dict.mem_entries.1 he
    have hid := hlast e.1
    rw [hget, Option.map_some] at hid
    have hmem := (List.mem_filter.1 (List.mem_of_getLast? hid)).2
    rw [decide_eq_true_eq] at hmem
    exact ⟨s.heap.nodes.read e.2, hname, hmem ▸ hid⟩
  · rintro ⟨node, hname, hid⟩
    rw [hlast] at hid
    obtain ⟨r, hr, rfl⟩ := Option.map_eq_some_iff.1 hid
    exact ⟨_, Dict.mem_entries.2 hr, hname⟩

theorem noDangling_addNodes (hp : s.workflow.NoDangling) {nodes : List Ref}
    (hnew : s.Admissible (.addNodes nodes)) :
    (s.step (.addNodes nodes)).workflow.NoDangling ↔ s.IdsAsNames (.addNodes nodes) := by
  have hlast : ∀ node ∈ s.workflow.nodes,
      (s.workflow.nodes ++ nodes.map s.heap.nodes.read).filter (·.id = node.id) =
        s.workflow.nodes.filter (·.id = node.id) := by
    intro node hnode
    rw [List.filter_append, List.append_right_eq_self, List.filter_eq_nil_iff]
    intro new hmem
    obtain ⟨r, hr, rfl⟩ := List.mem_map.1 hmem
    rw [decide_eq_true_eq]
    intro heq
    exact (hnew r hr).1 (heq ▸ List.mem_map_of_mem hnode)
  unfold SimpleWorkflow.NoDangling IdsAsNames
  refine forall₂_congr fun name hname => ?_
  rw [mem_names_addNodes]
  constructor
  · rintro ⟨node, rfl, hid⟩
    have hmem : node ∈ s.workflow.nodes := by
      refine (List.mem_append.1 (List.mem_filter.1 (List.mem_of_getLast? hid)).1).resolve_right ?_
      intro hmem
      obtain ⟨r, hr, rfl⟩ := List.mem_map.1 hmem
      exact (hnew r hr).2 (hp _ hname)
    exact ⟨node, hmem, rfl, hlast node hmem ▸ hid⟩
  · rintro ⟨node, hmem, hname, hid⟩
    exact ⟨node, hname, (hlast node hmem).symm ▸ hid⟩

/-! ## Connections -/

theorem noDangling_iff : s.workflow.NoDangling ↔
    ConnectionsOk (· ∈ s.workflow.names) s.heap s.result.connections :=
  forall_mentioned

theorem noDangling_merge (hs : s.Sound g) (hp : s.workflow.NoDangling)
    {connections : Dict String Ref}
    (hop : ∀ r ∈ connections.entries.map Prod.snd, r < g.heap.objects.next)
    (hnames : s.Admissible (.mergeConnections connections)) :
    (s.step (.mergeConnections connections)).workflow.NoDangling := by
  have hsame : (s.step (.mergeConnections connections)).workflow.names = s.workflow.names :=
    congrArg (fun nodes : Cells INode => (s.result.nodes.map nodes.read).map INode.name)
      (hs.merge hop).heap.nodes
  rw [noDangling_iff, hsame]
  have hok := forall_mentioned.1 hnames
  exact merge_keeps (noDangling_iff.1 hp) fun e he => hok e (mem_objectEntries.1 he)

theorem noDangling_removeConnection (hp : s.workflow.NoDangling)
    (sourceNode targetNode connectionType : String) (sourceOutputIndex targetInputIndex : ℕ) :
    (s.applyRemoveConnectionOperation sourceNode targetNode connectionType sourceOutputIndex
      targetInputIndex).workflow.NoDangling := by
  generalize hs' : s.applyRemoveConnectionOperation sourceNode targetNode connectionType
    sourceOutputIndex targetInputIndex = s'
  obtain ⟨rfl, -⟩ |
      ⟨object, outputs, list, connections, h, hobject, houtputs, hlist, rfl, rfl, hcases⟩ :=
    removeConnection_cases s sourceNode targetNode connectionType sourceOutputIndex
      targetInputIndex hs'.symm
  · exact hp
  have hok := noDangling_iff.1 hp
  have hobject' := (hok _ (Dict.mem_entries.2 hobject)).2
  have houtputs' := hobject' _ (Dict.mem_entries.2 houtputs)
  have hlist' := houtputs' list (Heap.mem_of_output hlist)
  have hnew : Keeps (· ∈ s.workflow.names) s.heap (s.heap.newList ((s.heap.lists.read list).filter
      (· ≠ ⟨targetNode, connectionType, targetInputIndex⟩))).2 :=
    keeps_newList fun connection hc => hlist' connection (List.mem_filter.1 hc).1
  have hset : Keeps (· ∈ s.workflow.names) s.heap (s.heap.setOutput outputs sourceOutputIndex
      ((s.heap.lists.read list).filter (· ≠ ⟨targetNode, connectionType, targetInputIndex⟩))) := by
    refine hnew.trans (keeps_writeOutputs outputs fun a ha => ?_)
    rcases List.mem_or_eq_of_mem_set ha with ha | ha
    · exact hnew.lists a (houtputs' a ha)
    · intro connection hc
      rw [Option.some.inj ha, Heap.newList, Cells.read_alloc_next] at hc
      exact hlist' connection (List.mem_filter.1 hc).1
  rcases hcases with ⟨-, rfl⟩ | ⟨-, hheap, hresult⟩
  · exact noDangling_iff.2 (hset.connections hok)
  · have hsame : s'.workflow.names = s.workflow.names := by
      unfold workflow
      rw [hheap]
      rcases hresult with hresult | hresult <;> rw [hresult] <;> rfl
    rw [noDangling_iff, hsame, hheap]
    have hkeep := hset.trans (keeps_writeObject object fun e he =>
      (hset.objects object hobject') e (Dict.mem_entries_erase (k := connectionType) he))
    rcases hresult with hresult | hresult <;> rw [hresult]
    · exact hkeep.connections hok
    · exact fun e he => hkeep.connections hok e (Dict.mem_entries_erase he)

/-- One operation. -/
theorem step_iff (hs : s.Sound g) (hp : s.workflow.NoDangling) {op : WorkflowOperation Ref Ref}
    (hop : ∀ r ∈ op.objects, r < g.heap.objects.next) (hadm : s.Admissible op) :
    ((s.step op).workflow.NoDangling ∧ s.RemovesExactly op) ↔ s.IdsAsNames op := by
  cases op with
  | clear | updateNode | setConnections | setName => exact hadm.elim
  | removeNode nodeIds =>
    rw [removesExactly_iff hs, and_comm]
    exact and_congr_right fun hids => noDangling_removeNode hs hp hids
  | addNodes nodes => exact (and_iff_left trivial).trans (noDangling_addNodes hp hadm)
  | mergeConnections connections =>
    exact ⟨fun _ => trivial, fun _ => ⟨noDangling_merge hs hp hop hadm, trivial⟩⟩
  | removeConnection sourceNode targetNode connectionType sourceOutputIndex targetInputIndex =>
    exact ⟨fun _ => trivial, fun _ => ⟨noDangling_removeConnection hp _ _ _ _ _, trivial⟩⟩

end State

/-- Along the edits of a workflow without dangling connections none is left dangling, and nodes are
removed with exactly their connections, when and only when the ids do as names. -/
theorem edits_iff (g : Given) (hstart : g.start.workflow.NoDangling)
    (hadm : Runs.Meets State.step State.Admissible g.start g.operations) :
    (Runs.Along State.step (fun s => s.workflow.NoDangling) g.start g.operations ∧
        Runs.Meets State.step State.RemovesExactly g.start g.operations) ↔
      Runs.Meets State.step State.IdsAsNames g.start g.operations := by
  have hops : Runs.Meets State.step (fun _ op => ∀ r ∈ op.objects, r < g.heap.objects.next)
      g.start g.operations :=
    Runs.meets_of_forall fun op hop r hr =>
      g.objects r (List.mem_append_right _ (List.mem_flatMap.2 ⟨op, hop, hr⟩))
  exact Runs.along_meets_iff (I := fun s => s.Sound g) (P := fun s => s.workflow.NoDangling)
    (fun s op hs hg => hs.step hg.2) (fun s op hs hp hg => State.step_iff hs hp hg.2 hg.1)
    g.sound hstart (hadm.and hops)

/-- Nodes whose ids are their names: one is added, connected, and the first removed. -/
def namedEdits : Given where
  heap := joinedHeap fun r => ["A", "B", "C"].getD r ""
  workflow := joined
  operations := [.addNodes [2], .mergeConnections ⟨[("B", 1)], List.nodup_singleton _⟩,
    .removeNode ["A"], .removeConnection "B" "C" "main" 0 0]
  valid := joinedHeap_valid _
  nodes := by decide
  objects := by decide

theorem edits_named :
    Runs.Along State.step (fun s => s.workflow.NoDangling) namedEdits.start namedEdits.operations ∧
      Runs.Meets State.step State.RemovesExactly namedEdits.start namedEdits.operations :=
  (edits_iff namedEdits (by decide) (by decide)).2 (by decide)

/-- The second node is removed by its id, and the first stays connected to it. -/
def removedById : Given where
  heap := joinedHeap fun r => ["1", "2", "3"].getD r ""
  workflow := joined
  operations := [.removeNode ["2"]]
  valid := joinedHeap_valid_numbers
  nodes := by decide
  objects := by decide

theorem removed_left_dangling :
    removedById.start.workflow.NoDangling ∧
      Runs.Meets State.step State.Admissible removedById.start removedById.operations ∧
      ¬ (applyOperations removedById.heap removedById.workflow
        removedById.operations).workflow.NoDangling ∧
      ¬ Runs.Meets State.step State.RemovesExactly removedById.start removedById.operations := by
  refine ⟨by decide, by decide, by decide, fun h => absurd h.1 ?_⟩
  unfold State.RemovesExactly
  decide

end OperationsProcessor

end N8n
