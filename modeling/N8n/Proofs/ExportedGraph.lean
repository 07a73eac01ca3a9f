import Mathlib
import N8n.ExportedGraph
import N8n.DisabledNodes
import N8n.Proofs.FilteredGraph

/-!
# Graphs that come back from a workflow

What `toIConnections` has grouped is read by `fromWorkflow` connection by connection. A connection
is lost where its group has no place, and none is kept where the types of a node differ.
-/

namespace N8n

open Fallible

/-- The connection is in the group of an output. -/
def Connections.Has (connections : Connections) (source : String) (type : NodeConnectionType)
    (outputIndex : ℕ) (connection : Connection) : Prop :=
  connection ∈ (((connections.ofType source type).getD []).getD outputIndex none).getD []

theorem Connections.has_iff {connections : Connections} {source : String}
    {type : NodeConnectionType} {outputIndex : ℕ} {connection : Connection} :
    connections.Has source type outputIndex connection ↔ ∃ outputs group,
      connections.ofType source type = some outputs ∧ outputs[outputIndex]? = some (some group) ∧
        connection ∈ group := by
  unfold Has
  rw [List.getD_eq_getElem?_getD]
  constructor
  · intro h
    cases houtputs : connections.ofType source type with
    | none => simp [houtputs] at h
    | some outputs =>
      rw [houtputs, Option.getD_some] at h
      cases hat : outputs[outputIndex]? with
      | none => simp [hat] at h
      | some group =>
        cases group with
        | none => simp [hat] at h
        | some group => exact ⟨outputs, group, rfl, hat, by simpa [hat] using h⟩
  · rintro ⟨outputs, group, houtputs, hat, hmem⟩
    simpa [houtputs, hat] using hmem

namespace DirectedGraph

variable {g : DirectedGraph}

/-! ## Into a workflow -/

/-- What is written of a connection. -/
def written (c : GraphConnection) : Connection where
  node := c.toNode.name
  type := c.type
  index := c.inputIndex

/-- What the loop has made of the connections so far. -/
structure Exported (done : List GraphConnection) (result : Connections) : Prop where
  sources : ∀ source, (result.get? source).isSome ↔ ∃ c ∈ done, c.fromNode.name = source
  types : ∀ source type, (result.ofType source type).isSome ↔
    ∃ c ∈ done, c.fromNode.name = source ∧ c.type = type
  has : ∀ source type outputIndex connection, result.Has source type outputIndex connection ↔
    ∃ c ∈ done, c.fromNode.name = source ∧ c.type = type ∧ c.outputIndex = outputIndex ∧
      written c = connection ∧ outputIndex < arrayLimit

/-- There is room for these connections: a node has those of one type only, and its name is not that
of an inherited property. -/
structure Roomy (cs : List GraphConnection) : Prop where
  types : ∀ c ∈ cs, ∀ c' ∈ cs, c.fromNode.name = c'.fromNode.name → c.type = c'.type
  sources : ∀ c ∈ cs, c.fromNode.name ∉ inheritedKeys

theorem mem_pushToGroup {outputs : List (Option (List Connection))} {i j : ℕ}
    {connection x : Connection} : x ∈ ((pushToGroup outputs i connection).getD j none).getD [] ↔
      x ∈ (outputs.getD j none).getD [] ∨ x = connection ∧ j = i ∧ i < arrayLimit := by
  unfold pushToGroup
  split_ifs with hlt
  · rw [getD_setAt]
    by_cases hj : j = i
    · subst hj
      simp [hlt]
    · simp [hj]
  · simp [hlt]

theorem ofType_set (result : Connections) (source source' : String) (ofNode : NodeConnections)
    (type : NodeConnectionType) : Connections.ofType (result.set source ofNode) source' type =
      if source' = source then ofNode.get? type else result.ofType source' type := by
  unfold Connections.ofType
  rw [Dict.get?_set]
  split_ifs
  · rfl
  · rfl

/-- The groups that a connection is written among. -/
theorem addIConnection_exported_of {done : List GraphConnection} {result : Connections}
    (h : Exported done result) {c : GraphConnection} {ofNode : NodeConnections}
    {outputs : List (Option (List Connection))}
    (hofType : outputs = (result.ofType c.fromNode.name c.type).getD [])
    (hother : ∀ type, type ≠ c.type → ofNode.get? type = result.ofType c.fromNode.name type) :
    Exported (done ++ [c]) (result.set c.fromNode.name
      (ofNode.set c.type (pushToGroup outputs c.outputIndex (written c)))) := by
  have hget : ∀ source type, Connections.ofType (result.set c.fromNode.name
      (ofNode.set c.type (pushToGroup outputs c.outputIndex (written c)))) source type =
        if source = c.fromNode.name ∧ type = c.type then
          some (pushToGroup ((result.ofType c.fromNode.name c.type).getD []) c.outputIndex
            (written c))
        else result.ofType source type := by
    intro source type
    rw [ofType_set, Dict.get?_set]
    by_cases hsource : source = c.fromNode.name
    · subst hsource
      by_cases htype : type = c.type
      · simp [htype, hofType]
      · simp [htype, hother type htype]
    · simp [hsource]
  refine ⟨fun source => ?_, fun source type => ?_, fun source type outputIndex connection => ?_⟩
  · rw [Dict.get?_set]
    by_cases hsource : source = c.fromNode.name
    · simp [hsource]
    · simp [hsource, h.sources source, Ne.symm hsource]
  · rw [hget]
    by_cases hsame : source = c.fromNode.name ∧ type = c.type
    · obtain ⟨rfl, rfl⟩ := hsame
      simp
    · rw [if_neg hsame, h.types]
      simp only [List.mem_append, List.mem_singleton, or_and_right, exists_or, exists_eq_left]
      refine (or_iff_left fun h => hsame ⟨h.1.symm, h.2.symm⟩).symm
  · have hhas := h.has source type outputIndex connection
    unfold Connections.Has at hhas ⊢
    rw [hget]
    simp only [List.mem_append, List.mem_singleton, or_and_right, exists_or, exists_eq_left,
      ← hhas]
    by_cases hsame : source = c.fromNode.name ∧ type = c.type
    · obtain ⟨rfl, rfl⟩ := hsame
      rw [if_pos ⟨rfl, rfl⟩, Option.getD_some, mem_pushToGroup]
      refine or_congr_right ⟨?_, ?_⟩
      · rintro ⟨rfl, rfl, hlt⟩
        exact ⟨rfl, rfl, rfl, rfl, hlt⟩
      · rintro ⟨-, -, rfl, rfl, hlt⟩
        exact ⟨rfl, rfl, hlt⟩
    · rw [if_neg hsame]
      exact (or_iff_left fun h => hsame ⟨h.1.symm, h.2.1.symm⟩).symm

theorem ofType_of_get? {result : Connections} {source : String} {ofNode : NodeConnections}
    (h : result.get? source = some ofNode) (type : NodeConnectionType) :
    result.ofType source type = ofNode.get? type := by
  rw [Connections.ofType, h, Option.bind_some]

/-- One more connection, for which there is room. -/
theorem addIConnection_exported {done : List GraphConnection} {result : Connections}
    (h : Exported done result) {c : GraphConnection} (hroom : Roomy (done ++ [c])) :
    ∃ result', addIConnection result c = .ok result' ∧ Exported (done ++ [c]) result' := by
  have hc : c ∈ done ++ [c] := by simp
  have hplain := hroom.sources c hc
  unfold addIConnection
  cases hnode : result.get? c.fromNode.name with
  | none =>
    have hnone : ∀ type, result.ofType c.fromNode.name type = none := fun type => by
      rw [Connections.ofType, hnode, Option.bind_none]
    have hnew : resultConnection result c = Dict.empty.set c.type [] := by
      simp only [resultConnection, hnode, if_neg hplain]
    rw [hnew, Dict.get?_set_self]
    refine ⟨_, rfl, addIConnection_exported_of h (by rw [hnone]; rfl) fun type htype => ?_⟩
    rw [Dict.get?_set_of_ne _ htype, hnone, Dict.get?_empty]
  | some ofNode =>
    -- a connection of the node that is written already has the same type
    obtain ⟨c', hc', hname⟩ := (h.sources c.fromNode.name).1 (by simp [hnode])
    have htype := hroom.types c' (List.mem_append_left _ hc') c hc hname
    obtain ⟨outputs, houtputs⟩ := Option.isSome_iff_exists.1
      ((h.types c.fromNode.name c.type).2 ⟨c', hc', hname, htype⟩)
    have hgroups := houtputs
    rw [ofType_of_get? hnode] at hgroups
    have hold : resultConnection result c = ofNode := by simp only [resultConnection, hnode]
    rw [hold, hgroups]
    exact ⟨_, rfl, addIConnection_exported_of h (by rw [houtputs]; rfl)
      fun type _ => (ofType_of_get? hnode type).symm⟩

theorem roomy_of_addIConnection {done : List GraphConnection} {result result' : Connections}
    (h : Exported done result) (hdone : Roomy done) {c : GraphConnection}
    (hok : addIConnection result c = .ok result') : Roomy (done ++ [c]) := by
  obtain ⟨outputs, houtputs⟩ : ∃ outputs,
      (resultConnection result c).get? c.type = some outputs := by
    unfold addIConnection at hok
    split at hok
    · cases hok
    · exact ⟨_, ‹_›⟩
  have hroom : c.fromNode.name ∉ inheritedKeys ∧
      ∀ c' ∈ done, c'.fromNode.name = c.fromNode.name → c'.type = c.type := by
    cases hnode : result.get? c.fromNode.name with
    | none =>
      refine ⟨fun hinherited => ?_, fun c' hc' hname => ?_⟩
      · simp [resultConnection, hnode, hinherited] at houtputs
      · have hsome := (h.sources c.fromNode.name).2 ⟨c', hc', hname⟩
        rw [hnode] at hsome
        cases hsome
    | some ofNode =>
      have hold : resultConnection result c = ofNode := by simp only [resultConnection, hnode]
      rw [hold, ← ofType_of_get? hnode] at houtputs
      obtain ⟨c₁, hc₁, hname₁, htype₁⟩ := (h.types c.fromNode.name c.type).1 (by simp [houtputs])
      exact ⟨hname₁ ▸ hdone.sources c₁ hc₁, fun c' hc' hname =>
        (hdone.types c' hc' c₁ hc₁ (hname.trans hname₁.symm)).trans htype₁⟩
  refine ⟨fun c₁ hc₁ c₂ hc₂ hname => ?_, fun c' hc' => ?_⟩
  · rcases List.mem_append.1 hc₁ with h₁ | h₁ <;> rcases List.mem_append.1 hc₂ with h₂ | h₂
    · exact hdone.types c₁ h₁ c₂ h₂ hname
    · obtain rfl := List.mem_singleton.1 h₂
      exact hroom.2 c₁ h₁ hname
    · obtain rfl := List.mem_singleton.1 h₁
      exact (hroom.2 c₂ h₂ hname.symm).symm
    · rw [List.mem_singleton.1 h₁, List.mem_singleton.1 h₂]
  · rcases List.mem_append.1 hc' with hc' | hc'
    · exact hdone.sources c' hc'
    · rw [List.mem_singleton.1 hc']
      exact hroom.1

theorem Roomy.of_subset {cs cs' : List GraphConnection} (h : Roomy cs') (hsubset : cs ⊆ cs') :
    Roomy cs :=
  ⟨fun c hc c' hc' => h.types c (hsubset hc) c' (hsubset hc'), fun c hc => h.sources c (hsubset hc)⟩

/-- The loop goes through while there is room. -/
theorem foldlM_addIConnection : ∀ (cs : List GraphConnection) {done : List GraphConnection}
    {result : Connections}, Exported done result → Roomy done →
    (Roomy (done ++ cs) → ∃ result', cs.foldlM addIConnection result = .ok result' ∧
      Exported (done ++ cs) result') ∧
    ∀ result', cs.foldlM addIConnection result = .ok result' → Roomy (done ++ cs)
  | [], done, result, h, hdone => by
    rw [List.append_nil]
    exact ⟨fun _ => ⟨result, rfl, h⟩, fun _ _ => hdone⟩
  | c :: cs, done, result, h, hdone => by
    rw [List.foldlM_cons, List.append_cons]
    refine ⟨fun hroom => ?_, fun result' hok => ?_⟩
    · have hroom' : Roomy (done ++ [c]) := hroom.of_subset (List.subset_append_left _ _)
      obtain ⟨result', hok, h'⟩ := addIConnection_exported h hroom'
      rw [hok]
      exact (foldlM_addIConnection cs h' hroom').1 hroom
    · obtain ⟨result₁, hok₁, hok⟩ := bind_eq_ok.1 hok
      have hroom' := roomy_of_addIConnection h hdone hok₁
      obtain ⟨result₂, hok₂, h'⟩ := addIConnection_exported h hroom'
      obtain rfl := Except.ok.inj (hok₁.symm.trans hok₂)
      exact (foldlM_addIConnection cs h' hroom').2 result' hok

theorem exported_empty : Exported [] .empty :=
  ⟨by simp, by simp [Connections.ofType], by simp [Connections.Has, Connections.ofType]⟩

/-- The connections are written if there is room for them. -/
theorem toIConnections_exported (h : Roomy g.values) :
    ∃ connections, g.toIConnections = .ok connections ∧ Exported g.values connections :=
  (foldlM_addIConnection g.values exported_empty ⟨by simp, by simp⟩).1 h

theorem roomy_of_toIConnections {connections : Connections}
    (h : g.toIConnections = .ok connections) : Roomy g.values :=
  (foldlM_addIConnection g.values exported_empty ⟨by simp, by simp⟩).2 connections h

end DirectedGraph

namespace Workflow

variable {w : Workflow}

/-! ## Nodes -/

theorem get?_setNode (nodes : Dict String Node) (node : Node) (n : String) :
    (setNode nodes node).get? n =
      if n = node.name ∧ n ≠ protoKey then some node else nodes.get? n := by
  unfold setNode
  by_cases hproto : node.name = protoKey
  · rw [if_pos hproto, if_neg fun h => h.2 (h.1.trans hproto)]
  · rw [if_neg hproto, Dict.get?_set]
    by_cases hn : n = node.name
    · rw [if_pos hn, if_pos ⟨hn, hn ▸ hproto⟩]
    · rw [if_neg hn, if_neg fun h => hn h.1]

/-- The nodes of the workflow, each under its name, but for one that is called like the
prototype. -/
theorem get?_foldl_setNode {N : String → Option Node} {n : String} : ∀ (nodes : List Node)
    (d : Dict String Node), (∀ node ∈ nodes, N node.name = some node) →
    (nodes.foldl setNode d).get? n =
      if n ∈ nodes.map (·.name) ∧ n ≠ protoKey then N n else d.get? n
  | [], d, _ => by simp
  | node :: nodes, d, hN => by
    have ih := get?_foldl_setNode (n := n) nodes (setNode d node)
      fun node' hnode' => hN node' (List.mem_cons_of_mem node hnode')
    rw [List.foldl_cons, ih, get?_setNode]
    simp only [List.map_cons, List.mem_cons]
    by_cases hn : n = node.name
    · subst hn
      by_cases hproto : node.name = protoKey
      · simp [hproto]
      · simp [hproto, hN node List.mem_cons_self]
    · simp [hn]

theorem isSome_foldl_setNode {n : String} : ∀ (nodes : List Node) (d : Dict String Node),
    ((nodes.foldl setNode d).get? n).isSome ↔
      n ∈ nodes.map (·.name) ∧ n ≠ protoKey ∨ (d.get? n).isSome
  | [], d => by simp
  | node :: nodes, d => by
    rw [List.foldl_cons, isSome_foldl_setNode nodes, get?_setNode]
    simp only [List.map_cons, List.mem_cons]
    by_cases hn : n = node.name
    · by_cases hproto : n = protoKey
      · simp [hproto]
      · simp [hn, hn ▸ hproto]
    · simp [hn]

theorem isSome_setNodes {nodes : List Node} {n : String} :
    ((setNodes nodes).get? n).isSome ↔ n ∈ nodes.map (·.name) ∧ n ≠ protoKey := by
  unfold setNodes
  rw [isSome_foldl_setNode, Dict.get?_empty]
  simp

theorem named_foldl_setNode : ∀ (nodes : List Node) (d : Dict String Node),
    (∀ n node, d.get? n = some node → node.name = n) →
    ∀ n node, (nodes.foldl setNode d).get? n = some node → node.name = n
  | [], _, hd => hd
  | node :: nodes, d, hd => by
    refine named_foldl_setNode nodes (setNode d node) fun n node' h => ?_
    rw [get?_setNode] at h
    split_ifs at h with hn
    · rw [← Option.some.inj h, hn.1]
    · exact hd n node' h

theorem named_of_setNodes {nodes : List Node} (h : w.nodes = setNodes nodes) : w.Named := by
  unfold Named
  rw [h]
  exact named_foldl_setNode nodes .empty (by simp)

end Workflow

namespace DirectedGraph

variable {w : Workflow} {g : DirectedGraph}

/-! ## Out of a workflow -/

theorem mem_connectionsFrom {fromNode : Node} {type : NodeConnectionType} {outputIndex : ℕ}
    {connections : List Connection} {cs : List GraphConnection}
    (h : connectionsFrom w fromNode type outputIndex connections = .ok cs) {c : GraphConnection} :
    c ∈ cs ↔ c.fromNode = fromNode ∧ c.type = type ∧ c.outputIndex = outputIndex ∧
      ∃ connection ∈ connections, w.nodes.get? connection.node = some c.toNode ∧
        connection.index = c.inputIndex := by
  rw [mem_of_mapM_eq_ok h]
  constructor
  · rintro ⟨connection, hconnection, hc⟩
    split at hc
    · cases hc
    · rename_i toNode htoNode
      obtain rfl := Except.ok.inj hc
      exact ⟨rfl, rfl, rfl, connection, hconnection, htoNode, rfl⟩
  · rintro ⟨rfl, rfl, rfl, connection, hconnection, htoNode, hindex⟩
    refine ⟨connection, hconnection, ?_⟩
    rw [htoNode, hindex]

theorem mem_nodeConnections (hw : w.Named) {fromNodeName : String} {cs : List GraphConnection}
    (h : nodeConnections w fromNodeName = .ok cs) {c : GraphConnection} :
    c ∈ cs ↔ c.fromNode.name = fromNodeName ∧ HasConnection w c := by
  unfold nodeConnections at h
  split at h
  · cases h
  · rename_i fromNode hfromNode
    simp only [] at h
    obtain ⟨css, hcss, h⟩ := bind_eq_ok.1 h
    obtain rfl : css.flatten.flatten = cs := Except.ok.inj h
    have hname := hw _ _ hfromNode
    simp only [List.mem_flatten]
    constructor
    · rintro ⟨cs, ⟨css', hcss', hcs⟩, hc⟩
      obtain ⟨⟨type, outputs⟩, htype, houtputs⟩ := (mem_of_mapM_eq_ok hcss).1 hcss'
      obtain ⟨⟨connections, outputIndex⟩, houtput, hfrom⟩ := (mem_of_mapM_eq_ok houtputs).1 hcs
      obtain ⟨rfl, rfl, rfl, connection, hconnection, htoNode, hindex⟩ :=
        (mem_connectionsFrom hfrom).1 hc
      cases connections with
      | none => simp at hconnection
      | some connections =>
        have htoName := hw _ _ htoNode
        subst hname
        refine ⟨rfl, hfromNode, htoName ▸ htoNode, outputs, connections, ?_,
          List.mem_zipIdx_iff_getElem?.1 houtput, connection, hconnection, htoName.symm, hindex⟩
        cases hofNode : w.connectionsBySourceNode.get? c.fromNode.name with
        | none => simp [hofNode, Dict.empty] at htype
        | some ofNode =>
          rw [hofNode] at htype
          exact Option.bind_eq_some_iff.2 ⟨ofNode, hofNode, Dict.mem_entries.1 htype⟩
    · rintro ⟨rfl, hc⟩
      obtain ⟨outputs, connections, hofType, houtput, connection, hconnection, htoName, hindex⟩ :=
        hc.connected
      obtain ⟨ofNode, hofNode, htype⟩ := Option.bind_eq_some_iff.1 hofType
      rw [hofNode] at hcss
      obtain ⟨css', hcss', houtputs⟩ := exists_of_mapM_eq_ok hcss (Dict.mem_entries.2 htype)
      obtain ⟨cs, hcs, hfrom⟩ := exists_of_mapM_eq_ok houtputs
        (x := (some connections, c.outputIndex)) (List.mem_zipIdx_iff_getElem?.2 houtput)
      refine ⟨cs, ⟨css', hcss', hcs⟩, (mem_connectionsFrom hfrom).2 ⟨?_, rfl, rfl, connection,
        hconnection, htoName ▸ hc.toNode, hindex⟩⟩
      exact Option.some.inj (hc.fromNode.symm.trans hfromNode)

theorem mem_objectKeys_keys {α : Type} {d : Dict String α} {key : String} :
    key ∈ objectKeys d.keys ↔ (d.get? key).isSome := by
  rw [mem_objectKeys, Dict.mem_keys]

theorem mem_flatten_nodeConnections (hw : w.Named) {css : List (List GraphConnection)}
    (h : (objectKeys w.connectionsBySourceNode.keys).mapM (nodeConnections w) = .ok css)
    (c : GraphConnection) : c ∈ css.flatten ↔ HasConnection w c := by
  rw [List.mem_flatten]
  constructor
  · rintro ⟨cs, hcs, hc⟩
    obtain ⟨fromNodeName, -, hfrom⟩ := (mem_of_mapM_eq_ok h).1 hcs
    exact ((mem_nodeConnections hw hfrom).1 hc).2
  · intro hc
    obtain ⟨outputs, -, hofType, -⟩ := hc.connected
    obtain ⟨ofNode, hofNode, -⟩ := Option.bind_eq_some_iff.1 hofType
    obtain ⟨cs, hcs, hfrom⟩ := exists_of_mapM_eq_ok h
      (mem_objectKeys_keys.2 (Option.isSome_iff_exists.2 ⟨ofNode, hofNode⟩))
    exact ⟨cs, hcs, (mem_nodeConnections hw hfrom).2 ⟨rfl, hc⟩⟩

/-- The nodes of the graph are added first. -/
theorem addNodes_node_hasNodes (hw : w.Named) :
    HasNodes w.nodes.get? (addNodes {} ((objectKeys w.nodes.keys).map w.node)) := by
  refine addNodes_hasNodes (fun node hnode => ?_) fun n hn => ?_
  · obtain ⟨n, hn, rfl⟩ := List.mem_map.1 hnode
    obtain ⟨node, hnode⟩ := Option.isSome_iff_exists.1 (mem_objectKeys_keys.1 hn)
    have heq : w.node n = node := by simp [Workflow.node, hnode]
    rw [heq, hw n node hnode, hnode]
  · obtain ⟨node, hnode⟩ := Option.isSome_iff_exists.1 hn
    have heq : w.node n = node := by simp [Workflow.node, hnode]
    have hmem : node ∈ (objectKeys w.nodes.keys).map w.node :=
      List.mem_map.2 ⟨n, mem_objectKeys_keys.2 hn, heq⟩
    exact List.mem_map.2 ⟨node, hmem, hw n node hnode⟩

/-- Where its connections have keys of their own, the graph of a workflow has its nodes and its
connections. -/
theorem fromWorkflow_of_mapM (hw : w.Named) (hkeys : DistinctKeys (HasConnection w))
    {css : List (List GraphConnection)}
    (hcss : (objectKeys w.connectionsBySourceNode.keys).mapM (nodeConnections w) = .ok css) :
    ∃ g, fromWorkflow w = .ok g ∧ HasNodes w.nodes.get? g ∧
      ∀ c, c ∈ g.values ↔ HasConnection w c := by
  have hmem := mem_flatten_nodeConnections hw hcss
  have hdistinct : DistinctKeys (· ∈ css.flatten) := fun c c' hc hc' =>
    hkeys c c' ((hmem c).1 hc) ((hmem c').1 hc')
  obtain ⟨g, hg, hnodes, hvalues⟩ := addConnections_spec hdistinct (addNodes_node_hasNodes hw)
    fun c hc => ⟨((hmem c).1 hc).fromNode, ((hmem c).1 hc).toNode⟩
  exact ⟨g, bind_eq_ok.2 ⟨css, hcss, hg⟩, hnodes, fun c => (hvalues c).trans (hmem c)⟩

theorem fromWorkflow_spec (hw : w.Named) (hkeys : DistinctKeys (HasConnection w))
    (hg : fromWorkflow w = .ok g) :
    HasNodes w.nodes.get? g ∧ ∀ c, c ∈ g.values ↔ HasConnection w c := by
  obtain ⟨css, hcss, -⟩ := bind_eq_ok.1 hg
  obtain ⟨g', hg', hspec⟩ := fromWorkflow_of_mapM hw hkeys hcss
  obtain rfl := Except.ok.inj (hg.symm.trans hg')
  exact hspec

/-- The nodes at the ends of a connection have been found when the graph was made. -/
theorem hasConnection_of_has (hw : w.Named) {css : List (List GraphConnection)}
    (h : (objectKeys w.connectionsBySourceNode.keys).mapM (nodeConnections w) = .ok css)
    {source : String} {type : NodeConnectionType} {outputIndex : ℕ} {connection : Connection}
    (hhas : w.connectionsBySourceNode.Has source type outputIndex connection) :
    ∃ c, HasConnection w c ∧ c.type = type ∧ c.fromNode.name = source ∧
      c.outputIndex = outputIndex ∧ c.inputIndex = connection.index ∧
      c.toNode.name = connection.node := by
  obtain ⟨outputs, connections, hofType, hat, hmem⟩ := Connections.has_iff.1 hhas
  obtain ⟨ofNode, hofNode, htype⟩ := Option.bind_eq_some_iff.1 hofType
  obtain ⟨cs, -, hcs⟩ := exists_of_mapM_eq_ok h
    (mem_objectKeys_keys.2 (Option.isSome_iff_exists.2 ⟨ofNode, hofNode⟩))
  unfold nodeConnections at hcs
  split at hcs
  · cases hcs
  · rename_i fromNode hfromNode
    simp only [hofNode] at hcs
    obtain ⟨css, hcss, -⟩ := bind_eq_ok.1 hcs
    obtain ⟨css', -, houtputs⟩ := exists_of_mapM_eq_ok hcss (Dict.mem_entries.2 htype)
    obtain ⟨cs', -, hfrom⟩ := exists_of_mapM_eq_ok houtputs
      (x := (some connections, outputIndex)) (List.mem_zipIdx_iff_getElem?.2 hat)
    obtain ⟨c, hc, hto⟩ := exists_of_mapM_eq_ok hfrom hmem
    split at hto
    · cases hto
    · rename_i toNode htoNode
      have hfromName := hw _ _ hfromNode
      have htoName := hw _ _ htoNode
      refine ⟨{ fromNode, toNode, type, outputIndex, inputIndex := connection.index },
        ⟨?_, ?_, outputs, connections, ?_, hat, connection, hmem, htoName.symm, rfl⟩, rfl,
        hfromName, rfl, rfl, htoName⟩
      · exact hfromName.symm ▸ hfromNode
      · exact htoName.symm ▸ htoNode
      · exact hfromName.symm ▸ hofType

/-- The sources and the targets of all connections are nodes of the workflow. -/
structure Resolves (w : Workflow) : Prop where
  sources : ∀ source, (w.connectionsBySourceNode.get? source).isSome → (w.nodes.get? source).isSome
  targets : ∀ source type outputIndex connection,
    w.connectionsBySourceNode.Has source type outputIndex connection →
      (w.nodes.get? connection.node).isSome

theorem resolves_of_mapM (hw : w.Named) {css : List (List GraphConnection)}
    (h : (objectKeys w.connectionsBySourceNode.keys).mapM (nodeConnections w) = .ok css) :
    Resolves w := by
  refine ⟨fun source hsource => ?_, fun source type outputIndex connection hhas => ?_⟩
  · obtain ⟨cs, -, hcs⟩ := exists_of_mapM_eq_ok h (mem_objectKeys_keys.2 hsource)
    unfold nodeConnections at hcs
    split at hcs
    · cases hcs
    · rename_i fromNode hfromNode
      simp [hfromNode]
  · obtain ⟨c, hc, -, -, -, -, hto⟩ := hasConnection_of_has hw h hhas
    rw [← hto, hc.toNode]
    rfl

theorem mapM_of_resolves (h : Resolves w) :
    ∃ css, (objectKeys w.connectionsBySourceNode.keys).mapM (nodeConnections w) = .ok css := by
  refine exists_mapM_eq_ok fun source hsource => ?_
  rw [mem_objectKeys_keys] at hsource
  obtain ⟨fromNode, hfromNode⟩ := Option.isSome_iff_exists.1 (h.sources source hsource)
  obtain ⟨ofNode, hofNode⟩ := Option.isSome_iff_exists.1 hsource
  unfold nodeConnections
  rw [hfromNode, hofNode]
  refine exists_bind_eq_ok (exists_mapM_eq_ok fun ⟨type, outputs⟩ htype => ?_) fun css => ⟨_, rfl⟩
  refine exists_mapM_eq_ok fun ⟨connections, outputIndex⟩ houtput => ?_
  refine exists_mapM_eq_ok fun connection hconnection => ?_
  cases connections with
  | none => simp at hconnection
  | some connections =>
    have hhas : w.connectionsBySourceNode.Has source type outputIndex connection :=
      Connections.has_iff.2 ⟨outputs, connections,
        Option.bind_eq_some_iff.2 ⟨ofNode, hofNode, Dict.mem_entries.1 htype⟩,
        List.mem_zipIdx_iff_getElem?.1 houtput, hconnection⟩
    obtain ⟨toNode, htoNode⟩ := Option.isSome_iff_exists.1 (h.targets _ _ _ _ hhas)
    exact ⟨_, by rw [htoNode]⟩

theorem mem_of_mem_addConnections : ∀ (cs : List GraphConnection) {g g' : DirectedGraph},
    g.addConnections cs = .ok g' → ∀ c ∈ g'.values, c ∈ g.values ∨ c ∈ cs
  | [], _, _, h, _, hc => .inl (Except.ok.inj h ▸ hc)
  | c :: cs, g, g', h, c', hc' => by
    rw [addConnections, List.foldlM_cons] at h
    obtain ⟨g₁, hadd, h⟩ := bind_eq_ok.1 h
    unfold addConnection at hadd
    split_ifs at hadd
    obtain rfl := Except.ok.inj hadd
    rcases mem_of_mem_addConnections cs h c' hc' with hc' | hc'
    · rcases mem_of_mem_setConnection hc' with rfl | hc'
      · exact .inr List.mem_cons_self
      · exact .inl hc'
    · exact .inr (List.mem_cons_of_mem c hc')

theorem hasConnection_of_fromWorkflow (hw : w.Named) (hg : fromWorkflow w = .ok g)
    {c : GraphConnection} (hc : c ∈ g.values) : HasConnection w c := by
  obtain ⟨css, hcss, hadd⟩ := bind_eq_ok.1 hg
  rcases mem_of_mem_addConnections css.flatten hadd c hc with hc | hc
  · have hempty : ∀ ns, (addNodes {} ns).values = [] := fun ns => by
      rw [values, addNodes_connections]
      rfl
    rw [hempty] at hc
    cases hc
  · exact (mem_flatten_nodeConnections hw hcss c).1 hc

/-- The graph of the workflow has all its connections. -/
def KeepsConnections (w : Workflow) : Prop :=
  ∃ g, fromWorkflow w = .ok g ∧ ∀ c, HasConnection w c → c ∈ g.values

theorem keepsConnections_iff (hw : w.Named) :
    KeepsConnections w ↔ Resolves w ∧ DistinctKeys (HasConnection w) := by
  constructor
  · rintro ⟨g, hg, hkeeps⟩
    obtain ⟨css, hcss, -⟩ := bind_eq_ok.1 hg
    exact ⟨resolves_of_mapM hw hcss, fun c c' hc hc' =>
      distinctKeys_values g c c' (hkeeps c hc) (hkeeps c' hc')⟩
  · rintro ⟨hresolves, hkeys⟩
    obtain ⟨css, hcss⟩ := mapM_of_resolves hresolves
    obtain ⟨g, hg, -, hvalues⟩ := fromWorkflow_of_mapM hw hkeys hcss
    exact ⟨g, hg, fun c hc => (hvalues c).2 hc⟩

/-! ## There and back -/

/-- The graph has the connections that it had before it was written as a workflow. -/
def RoundTrips (g : DirectedGraph) (parameters : Workflow) : Prop :=
  ∃ w g', g.toWorkflow parameters = .ok w ∧ fromWorkflow w = .ok g' ∧
    ∀ c, c ∈ g'.values ↔ c ∈ g.values

/-- All connections of the graph can be written, and are found again. -/
structure Exportable (g : DirectedGraph) : Prop where
  ends : g.EndsPresent
  room : Roomy g.values
  targets : ∀ c ∈ g.values, c.toNode.name ≠ protoKey
  outputs : ∀ c ∈ g.values, c.outputIndex < arrayLimit

theorem mem_targets {connections : Connections} {target : String}
    (h : target ∈ Workflow.targets connections) : ∃ source type outputIndex connection,
      connections.Has source type outputIndex connection ∧ connection.node = target := by
  simp only [Workflow.targets, flatConnections, List.mem_flatMap, List.mem_map] at h
  obtain ⟨source, -, ⟨type, outputs⟩, htype, connection, ⟨group, hgroup, hconnection⟩, rfl⟩ := h
  obtain ⟨outputIndex, hat⟩ := List.mem_iff_getElem?.1 hgroup
  cases group with
  | none => simp at hconnection
  | some group =>
    refine ⟨source, type, outputIndex, connection,
      Connections.has_iff.2 ⟨outputs, group, ?_, hat, hconnection⟩, rfl⟩
    cases hofNode : connections.get? source with
    | none => simp [hofNode, Dict.empty] at htype
    | some ofNode =>
      rw [hofNode] at htype
      exact Option.bind_eq_some_iff.2 ⟨ofNode, hofNode, Dict.mem_entries.1 htype⟩

theorem get?_setNodes_nodeList (hnamed : ∀ n node, g.nodes.get? n = some node → node.name = n)
    (n : String) : (Workflow.setNodes g.nodeList).get? n =
      if n = protoKey then none else g.nodes.get? n := by
  have hnodes : HasNodes g.nodes.get? g := fun _ => rfl
  have hmem : n ∈ g.nodeList.map (·.name) ↔ (g.nodes.get? n).isSome := by
    rw [names_eq_keys hnamed hnodes, Dict.mem_keys]
  unfold Workflow.setNodes
  rw [Workflow.get?_foldl_setNode g.nodeList .empty
    fun node hnode => (mem_nodes hnamed hnodes).1 hnode]
  simp only [hmem]
  by_cases hproto : n = protoKey
  · simp [hproto]
  · cases hget : g.nodes.get? n with
    | none => simp
    | some node => simp [hproto]

/-- The connections of the workflow are those of the graph. -/
theorem hasConnection_of_exported (hbuilt : Built g) {w : Workflow}
    (hnodes : w.nodes = Workflow.setNodes g.nodeList)
    (hexported : Exported g.values w.connectionsBySourceNode) {c : GraphConnection} :
    HasConnection w c ↔ g.nodes.get? c.fromNode.name = some c.fromNode ∧
      g.nodes.get? c.toNode.name = some c.toNode ∧ c.fromNode.name ≠ protoKey ∧
      c.toNode.name ≠ protoKey ∧ c.outputIndex < arrayLimit ∧ ∃ c' ∈ g.values,
        c'.fromNode.name = c.fromNode.name ∧ c'.type = c.type ∧ c'.outputIndex = c.outputIndex ∧
          c'.inputIndex = c.inputIndex ∧ c'.toNode.name = c.toNode.name := by
  have hget : ∀ node : Node, w.nodes.get? node.name = some node ↔
      g.nodes.get? node.name = some node ∧ node.name ≠ protoKey := by
    intro node
    rw [hnodes, get?_setNodes_nodeList hbuilt.named]
    split_ifs with hproto
    · simp [hproto]
    · simp [hproto]
  constructor
  · rintro ⟨hfrom, hto, outputs, group, hofType, hat, connection, hmem, hnode, hindex⟩
    obtain ⟨c', hc', hname, htype, houtput, rfl, hlt⟩ := (hexported.has _ _ _ _).1
      (Connections.has_iff.2 ⟨outputs, group, hofType, hat, hmem⟩)
    exact ⟨((hget _).1 hfrom).1, ((hget _).1 hto).1, ((hget _).1 hfrom).2, ((hget _).1 hto).2, hlt,
      c', hc', hname, htype, houtput, hindex, hnode⟩
  · rintro ⟨hfrom, hto, hfromProto, htoProto, hlt, c', hc', hname, htype, houtput, hinput, htoName⟩
    obtain ⟨outputs, group, hofType, hat, hmem⟩ := Connections.has_iff.1
      ((hexported.has _ _ _ _).2 ⟨c', hc', hname, htype, houtput, rfl, hlt⟩)
    exact ⟨(hget _).2 ⟨hfrom, hfromProto⟩, (hget _).2 ⟨hto, htoProto⟩, outputs, group, hofType, hat,
      written c', hmem, htoName, hinput⟩

/-- What `toWorkflow` returns. -/
theorem toWorkflow_spec {parameters w : Workflow} (h : g.toWorkflow parameters = .ok w) :
    Roomy g.values ∧ w.nodes = Workflow.setNodes g.nodeList ∧
      Exported g.values w.connectionsBySourceNode := by
  obtain ⟨connections, hconnections, h⟩ := bind_eq_ok.1 h
  have hroom := roomy_of_toIConnections hconnections
  obtain ⟨connections', hconnections', hexported⟩ := toIConnections_exported hroom
  obtain rfl := Except.ok.inj (hconnections.symm.trans hconnections')
  obtain ⟨bySource, hset, h⟩ := bind_eq_ok.1 h
  obtain rfl := Except.ok.inj h
  unfold Workflow.setConnections at hset
  split_ifs at hset
  obtain rfl := Except.ok.inj hset
  exact ⟨hroom, rfl, hexported⟩

theorem exportable_of_roundTrips (hbuilt : Built g) {parameters : Workflow}
    (h : RoundTrips g parameters) : Exportable g := by
  obtain ⟨w, g', hw, hg', hvalues⟩ := h
  obtain ⟨hroom, hnodes, hexported⟩ := toWorkflow_spec hw
  have hhas := fun c hc => (hasConnection_of_exported hbuilt hnodes hexported).1
    (hasConnection_of_fromWorkflow (Workflow.named_of_setNodes hnodes) hg'
      ((hvalues c).2 hc))
  refine ⟨fun c hc => ?_, hroom, fun c hc => ?_, fun c hc => ?_⟩
  · obtain ⟨hfrom, hto, -⟩ := hhas c hc
    exact ⟨contains_iff.2 hfrom, contains_iff.2 hto⟩
  · obtain ⟨-, -, -, hproto, -⟩ := hhas c hc
    exact hproto
  · obtain ⟨-, -, -, -, hlt, -⟩ := hhas c hc
    exact hlt

theorem roundTrips_of_exportable (hbuilt : Built g) (parameters : Workflow)
    (hown : ∀ c ∈ g.values, c.toNode.name ≠ "hasOwnProperty") (h : Exportable g) :
    RoundTrips g parameters := by
  obtain ⟨connections, hconnections, hexported⟩ := toIConnections_exported h.room
  have hset : Workflow.setConnections connections = .ok connections := by
    refine if_neg fun hmem => ?_
    obtain ⟨source, type, outputIndex, connection, hhas, hname⟩ :=
      mem_targets (List.mem_of_mem_dropLast hmem)
    obtain ⟨c, hc, -, -, -, rfl, -⟩ := (hexported.has _ _ _ _).1 hhas
    exact hown c hc hname
  set w : Workflow := { parameters with
    nodes := Workflow.setNodes g.nodeList
    connectionsBySourceNode := connections } with hwdef
  have hw : g.toWorkflow parameters = .ok w :=
    bind_eq_ok.2 ⟨connections, hconnections, bind_eq_ok.2 ⟨connections, hset, rfl⟩⟩
  have hnamed : w.Named := Workflow.named_of_setNodes rfl
  have hfromProto : ∀ c ∈ g.values, c.fromNode.name ≠ protoKey := fun c hc hproto =>
    h.room.sources c hc (hproto ▸ by decide)
  have hmem : ∀ c, HasConnection w c ↔ c ∈ g.values := by
    intro c
    rw [hasConnection_of_exported hbuilt rfl hexported]
    constructor
    · rintro ⟨hfrom, hto, -, -, -, c', hc', hname, htype, houtput, hinput, htoName⟩
      have hends := h.ends c' hc'
      have hfromNode := eq_of_contains hends.1 (contains_iff.2 hfrom) hname
      have htoNode := eq_of_contains hends.2 (contains_iff.2 hto) htoName
      have heq : c' = c := by
        cases c
        cases c'
        simp_all
      exact heq ▸ hc'
    · intro hc
      exact ⟨contains_iff.1 (h.ends c hc).1, contains_iff.1 (h.ends c hc).2, hfromProto c hc,
        h.targets c hc, h.outputs c hc, c, hc, rfl, rfl, rfl, rfl, rfl⟩
  have hkeys : DistinctKeys (HasConnection w) := fun c c' hc hc' =>
    distinctKeys_values g c c' ((hmem c).1 hc) ((hmem c').1 hc')
  have hresolves : Resolves w := by
    refine ⟨fun source hsource => ?_, fun source type outputIndex connection hhas => ?_⟩
    · obtain ⟨c, hc, rfl⟩ := (hexported.sources source).1 hsource
      rw [((hmem c).2 hc).fromNode]
      rfl
    · obtain ⟨c, hc, -, -, -, rfl, -⟩ := (hexported.has _ _ _ _).1 hhas
      rw [show (written c).node = c.toNode.name from rfl, ((hmem c).2 hc).toNode]
      rfl
  obtain ⟨css, hcss⟩ := mapM_of_resolves hresolves
  obtain ⟨g', hg', -, hvalues⟩ := fromWorkflow_of_mapM hnamed hkeys hcss
  exact ⟨w, g', hw, hg', fun c => (hvalues c).trans (hmem c)⟩

/-! ## Workflows -/

/-- The connections mention nodes of the list only. -/
structure MentionsExisting (nodes : List Node) (connections : Connections) : Prop where
  sources : ∀ source, (connections.get? source).isSome → source ∈ nodes.map (·.name)
  targets : ∀ source type outputIndex connection,
    connections.Has source type outputIndex connection → connection.node ∈ nodes.map (·.name)

/-- No connection mentions a node that is called like the prototype. -/
structure WithoutProto (connections : Connections) : Prop where
  sources : connections.get? protoKey = none
  targets : ∀ source type outputIndex connection,
    connections.Has source type outputIndex connection → connection.node ≠ protoKey

theorem resolves_iff_withoutProto {nodes : List Node} (hnodes : w.nodes = Workflow.setNodes nodes)
    (hmentions : MentionsExisting nodes w.connectionsBySourceNode) :
    Resolves w ↔ WithoutProto w.connectionsBySourceNode := by
  have hsome : ∀ n, (w.nodes.get? n).isSome ↔ n ∈ nodes.map (·.name) ∧ n ≠ protoKey := fun n => by
    rw [hnodes, Workflow.isSome_setNodes]
  constructor
  · refine fun h => ⟨?_, fun source type outputIndex connection hhas => ?_⟩
    · refine Option.not_isSome_iff_eq_none.1 fun hsource => ?_
      exact ((hsome _).1 (h.sources _ hsource)).2 rfl
    · exact ((hsome _).1 (h.targets _ _ _ _ hhas)).2
  · refine fun h => ⟨fun source hsource => ?_, fun source type outputIndex connection hhas => ?_⟩
    · refine (hsome _).2 ⟨hmentions.sources source hsource, fun hproto => ?_⟩
      rw [hproto, h.sources] at hsource
      cases hsource
    · exact (hsome _).2 ⟨hmentions.targets _ _ _ _ hhas, h.targets _ _ _ _ hhas⟩

/-- A vector store gives documents to one node and is a tool of another. -/
def twoTypes : DirectedGraph :=
  ((addNodes .empty [{ name := "Store", type := "store" }, { name := "Set", type := "set" },
    { name := "Agent", type := "agent" }]).setConnection
      { fromNode := { name := "Store", type := "store" }, toNode := { name := "Set", type := "set" },
        type := .main, outputIndex := 0, inputIndex := 0 }).setConnection
      { fromNode := { name := "Store", type := "store" },
        toNode := { name := "Agent", type := "agent" }, type := .aiTool, outputIndex := 0,
        inputIndex := 0 }

def loopNode : Node := { name := "Trigger", type := "trigger" }

/-- A workflow of one node, which is connected to itself. -/
def loopWorkflow : Workflow where
  nodes := Workflow.setNodes [loopNode]
  connectionsBySourceNode := Dict.empty.set "Trigger"
    (Dict.empty.set .main [some [{ node := "Trigger", type := .main, index := 0 }]])

theorem loopWorkflow_has {source : String} {type : NodeConnectionType} {outputIndex : ℕ}
    {connection : Connection}
    (h : loopWorkflow.connectionsBySourceNode.Has source type outputIndex connection) :
    connection.node = "Trigger" := by
  obtain ⟨outputs, group, hofType, hat, hmem⟩ := Connections.has_iff.1 h
  simp only [loopWorkflow, Connections.ofType, Dict.get?_set, Dict.get?_empty] at hofType
  split_ifs at hofType
  · rw [Option.bind_some, Dict.get?_set, Dict.get?_empty] at hofType
    split_ifs at hofType
    obtain rfl := Option.some.inj hofType
    cases outputIndex with
    | zero =>
      obtain rfl := Option.some.inj (Option.some.inj hat)
      rw [List.mem_singleton.1 hmem]
    | succ outputIndex => cases hat
  · cases hofType

theorem mentionsExisting_loopWorkflow :
    MentionsExisting [loopNode] loopWorkflow.connectionsBySourceNode := by
  refine ⟨fun source hsource => ?_, fun source type outputIndex connection h => ?_⟩
  · rw [loopWorkflow, Dict.get?_set, Dict.get?_empty] at hsource
    split_ifs at hsource with hname
    · rw [hname]
      decide
    · cases hsource
  · rw [loopWorkflow_has h]
    decide

end DirectedGraph

end N8n
