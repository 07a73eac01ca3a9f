import Mathlib.Logic.Relation
import Mathlib.Tactic
import N8n.PartialExecution

/-!
# Graphs

A graph that is built of nodes and connections between them has each node under its name, and no
connection to another. In it, the children of a node are the nodes it leads to, and its parent
connections are those whose targets lead to it.
-/

namespace N8n

open Relation

namespace DirectedGraph

variable {g : DirectedGraph}

/-! ## Connections -/

theorem mem_values {c : GraphConnection} :
    c ∈ g.values ↔ ∃ key, g.connections.get? key = some c := by
  simp only [values, List.mem_map, Prod.exists, exists_eq_right, Dict.mem_entries]

theorem mem_values_setConnection {c : GraphConnection}
    (hc : ∀ c' ∈ g.values, makeKey c' = makeKey c → c' = c) {x : GraphConnection} :
    x ∈ (g.setConnection c).values ↔ x = c ∨ x ∈ g.values := by
  simp only [mem_values, setConnection, Dict.get?_set]
  constructor
  · rintro ⟨key, h⟩
    split_ifs at h with hkey
    · exact .inl (Option.some.inj h).symm
    · exact .inr ⟨key, h⟩
  · rintro (rfl | ⟨key, h⟩)
    · exact ⟨makeKey x, if_pos rfl⟩
    · by_cases hkey : key = makeKey c
      · obtain rfl := hc x (mem_values.2 ⟨key, h⟩) ((g.keyed key x h).symm.trans hkey)
        exact ⟨key, if_pos hkey⟩
      · exact ⟨key, by rw [if_neg hkey, h]⟩

theorem mem_of_mem_setConnection {c x : GraphConnection} (h : x ∈ (g.setConnection c).values) :
    x = c ∨ x ∈ g.values := by
  obtain ⟨key, hkey⟩ := mem_values.1 h
  have hentry := Dict.mem_entries_set (Dict.mem_entries.2 hkey)
  exact hentry.imp (fun h => (Prod.mk.inj h).2) fun h => mem_values.2 ⟨key, Dict.mem_entries.1 h⟩

/-- No two of these connections have the same key. -/
def DistinctKeys (J : GraphConnection → Prop) : Prop :=
  ∀ c c', J c → J c' → makeKey c = makeKey c' → c = c'

/-- The connections of a graph have keys of their own. -/
theorem distinctKeys_values (g : DirectedGraph) : DistinctKeys (· ∈ g.values) := by
  intro c c' hc hc' hkey
  obtain ⟨key, h⟩ := mem_values.1 hc
  obtain ⟨key', h'⟩ := mem_values.1 hc'
  rw [g.keyed _ _ h, hkey, ← g.keyed _ _ h', h'] at h
  exact (Option.some.inj h).symm

section Distinct

variable {P : GraphConnection → Prop}

/-- Connections with keys of their own are added one by one. -/
theorem foldl_setConnection (hP : DistinctKeys P) :
    ∀ (cs : List GraphConnection) {g : DirectedGraph}, (∀ c ∈ g.values, P c) →
    (∀ c ∈ cs, P c) → ∀ x, x ∈ (cs.foldl setConnection g).values ↔ x ∈ cs ∨ x ∈ g.values
  | [], g, _, _, x => by simp
  | c :: cs, g, hgP, hcs, x => by
    have hc := hcs c List.mem_cons_self
    have hmem : ∀ x, x ∈ (g.setConnection c).values ↔ x = c ∨ x ∈ g.values := fun x =>
      mem_values_setConnection fun c' hc' hkey => hP c' c (hgP c' hc') hc hkey
    have hvalues := foldl_setConnection hP cs
      (fun x hx => ((hmem x).1 hx).elim (fun h => h ▸ hc) (hgP x))
      fun x hx => hcs x (List.mem_cons_of_mem c hx)
    rw [List.foldl_cons, hvalues, hmem, List.mem_cons]
    tauto

end Distinct

theorem foldl_setConnection_nodes : ∀ (cs : List GraphConnection) (g : DirectedGraph),
    (cs.foldl setConnection g).nodes = g.nodes
  | [], _ => rfl
  | c :: cs, g => foldl_setConnection_nodes cs (g.setConnection c)

theorem addConnections_eq : ∀ (cs : List GraphConnection) {g : DirectedGraph},
    (∀ c ∈ cs, g.contains c.fromNode ∧ g.contains c.toNode) →
    g.addConnections cs = .ok (cs.foldl setConnection g)
  | [], _, _ => rfl
  | c :: cs, g, h => by
    have hc := h c List.mem_cons_self
    have ih := addConnections_eq cs (g := g.setConnection c)
      fun c' hc' => h c' (List.mem_cons_of_mem c hc')
    rw [addConnections, List.foldlM_cons, addConnection, if_pos hc]
    exact ih

/-! ## Well-formed graphs -/

/-- Each node is under its name, and the connections are between nodes of the graph. -/
structure WellFormed (g : DirectedGraph) : Prop where
  named : ∀ nodeName node, g.nodes.get? nodeName = some node → node.name = nodeName
  fromNode : ∀ c ∈ g.values, g.contains c.fromNode
  toNode : ∀ c ∈ g.values, g.contains c.toNode

/-- A connection goes from one node to the other. -/
def Connects (g : DirectedGraph) (a b : Node) : Prop :=
  ∃ c ∈ g.values, c.fromNode = a ∧ c.toNode = b

theorem contains_iff {node : Node} : g.contains node ↔ g.nodes.get? node.name = some node := by
  unfold contains
  exact decide_eq_true_iff

theorem mem_nodeList_of_contains {node : Node} (h : g.contains node) : node ∈ g.nodeList :=
  List.mem_map.2 ⟨(node.name, node), Dict.mem_entries.2 (contains_iff.1 h), rfl⟩

theorem contains_of_named
    (hnamed : ∀ nodeName node, g.nodes.get? nodeName = some node → node.name = nodeName) {node : Node}
    (h : node ∈ g.nodeList) : g.contains node := by
  obtain ⟨⟨nodeName, node⟩, hmem, rfl⟩ := List.mem_map.1 h
  have hget := Dict.mem_entries.1 hmem
  rw [contains_iff, hnamed _ _ hget]
  exact hget

theorem WellFormed.contains_of_mem (hg : g.WellFormed) {node : Node} (h : node ∈ g.nodeList) :
    g.contains node := contains_of_named hg.named h

/-- Nodes of one name are one. -/
theorem eq_of_contains {a b : Node} (ha : g.contains a) (hb : g.contains b) (h : a.name = b.name) :
    a = b := by
  rw [contains_iff] at ha hb
  rw [h, hb] at ha
  exact (Option.some.inj ha).symm

theorem wellFormed_empty : empty.WellFormed := ⟨by simp [empty], by simp [empty, values, Dict.empty],
  by simp [empty, values, Dict.empty]⟩

/-- Nodes come before connections. -/
theorem WellFormed.addNode (hg : g.WellFormed) (hnone : g.values = []) (node : Node) :
    (g.addNode node).WellFormed where
  named nodeName node' h := by
    unfold DirectedGraph.addNode at h
    rw [Dict.get?_set] at h
    split_ifs at h with hname
    · rw [← Option.some.inj h, hname]
    · exact hg.named nodeName node' h
  fromNode c hc := absurd hc (by rw [show (g.addNode node).values = g.values from rfl, hnone]; simp)
  toNode c hc := absurd hc (by rw [show (g.addNode node).values = g.values from rfl, hnone]; simp)

theorem WellFormed.addNodes : ∀ (nodes : List Node) {g : DirectedGraph}, g.WellFormed →
    g.values = [] → (g.addNodes nodes).WellFormed
  | [], _, hg, _ => hg
  | node :: nodes, g, hg, hnone =>
    WellFormed.addNodes nodes (g := g.addNode node) (hg.addNode hnone node) hnone

theorem WellFormed.setConnection (hg : g.WellFormed) {c : GraphConnection}
    (hfrom : g.contains c.fromNode) (hto : g.contains c.toNode) : (g.setConnection c).WellFormed := by
  refine ⟨hg.named, fun x hx => ?_, fun x hx => ?_⟩
  · rcases mem_of_mem_setConnection hx with rfl | hx
    · exact hfrom
    · exact hg.fromNode x hx
  · rcases mem_of_mem_setConnection hx with rfl | hx
    · exact hto
    · exact hg.toNode x hx

theorem getDirectChildConnections_eq {node : Node} (h : g.contains node) :
    g.getDirectChildConnections node = .ok (g.values.filter (·.fromNode = node)) := if_pos h

theorem getDirectParentConnections_eq {node : Node} (h : g.contains node) :
    g.getDirectParentConnections node = .ok (g.values.filter (·.toNode = node)) := if_pos h

theorem directChildren_eq {node : Node} (h : g.contains node) :
    g.directChildren node = .ok ((g.values.filter (·.fromNode = node)).map (·.toNode)) := by
  unfold directChildren
  rw [getDirectChildConnections_eq h]
  rfl

theorem mem_directChildren {a b : Node} :
    b ∈ (g.values.filter (·.fromNode = a)).map (·.toNode) ↔ g.Connects a b := by
  simp [Connects, and_assoc]

theorem WellFormed.contains_of_connects (hg : g.WellFormed) {a b : Node} (h : g.Connects a b) :
    g.contains a ∧ g.contains b := by
  obtain ⟨c, hc, rfl, rfl⟩ := h
  exact ⟨hg.fromNode c hc, hg.toNode c hc⟩

/-! ## Children -/

theorem contains_of_directChildren {a : Node} {children : List Node}
    (h : g.directChildren a = .ok children) : g.contains a := by
  by_contra ha
  unfold directChildren getDirectChildConnections at h
  rw [if_neg ha] at h
  cases h

theorem connects_of_directChildren {a b : Node} {children : List Node}
    (h : g.directChildren a = .ok children) (hb : b ∈ children) : g.Connects a b := by
  rw [directChildren_eq (contains_of_directChildren h)] at h
  rw [← Except.ok.inj h] at hb
  exact mem_directChildren.1 hb

theorem WellFormed.expands_directChildren (hg : g.WellFormed) {node : Node}
    (h : g.contains node) : DepthFirst.Expands g.directChildren g.nodeList node := by
  refine ⟨_, directChildren_eq h, fun child hchild => ?_⟩
  exact mem_nodeList_of_contains (hg.contains_of_connects (mem_directChildren.1 hchild)).2

theorem WellFormed.leads_directChildren_iff (hg : g.WellFormed) {a b : Node} :
    DepthFirst.Leads g.directChildren id a b ↔ TransGen g.Connects a b := by
  constructor
  · intro h
    induction h with
    | once hbs hb => exact .single (connects_of_directChildren hbs hb)
    | further hbs hc _ ih => exact .head (connects_of_directChildren hbs hc) ih
  · intro h
    induction h using TransGen.head_induction_on with
    | single h =>
      exact .once (directChildren_eq (hg.contains_of_connects h).1) (mem_directChildren.2 h)
    | head h _ ih =>
      exact .further (directChildren_eq (hg.contains_of_connects h).1) (mem_directChildren.2 h) ih

/-- The children are the nodes that are reached over connections. -/
theorem WellFormed.getChildren_eq (hg : g.WellFormed) {node : Node} (h : g.contains node) :
    ∃ children, g.getChildren node = .ok children ∧
      ∀ child, child ∈ children ↔ TransGen g.Connects node child := by
  obtain ⟨children, hok, hmem⟩ := DepthFirst.visit_nil
    (fun child hchild => hg.expands_directChildren (hg.contains_of_mem hchild))
    (hg.expands_directChildren h) (Nat.lt_succ_self g.nodeList.length)
  exact ⟨children, hok, fun child => (hmem child).trans hg.leads_directChildren_iff⟩

/-! ## Parent connections -/

theorem mem_getDirectParentConnections {a : Node} {c : GraphConnection}
    {connections : List GraphConnection} (h : g.getDirectParentConnections a = .ok connections)
    (hc : c ∈ connections) : c ∈ g.values ∧ c.toNode = a := by
  by_cases ha : g.contains a
  · rw [getDirectParentConnections_eq ha] at h
    rw [← Except.ok.inj h] at hc
    simpa using hc
  · unfold getDirectParentConnections at h
    rw [if_neg ha] at h
    cases h

theorem expands_getDirectParentConnections {node : Node} (h : g.contains node) :
    DepthFirst.Expands g.getDirectParentConnections g.values node :=
  ⟨_, getDirectParentConnections_eq h, List.filter_subset_self _⟩

theorem WellFormed.leads_getDirectParentConnections_iff (hg : g.WellFormed) {a : Node}
    (ha : g.contains a) {c : GraphConnection} :
    DepthFirst.Leads g.getDirectParentConnections (·.fromNode) a c ↔
      c ∈ g.values ∧ ReflTransGen g.Connects c.toNode a := by
  constructor
  · intro h
    clear ha
    induction h with
    | once hcs hc =>
      obtain ⟨hmem, rfl⟩ := mem_getDirectParentConnections hcs hc
      exact ⟨hmem, .refl⟩
    | further hds hd _ ih =>
      obtain ⟨hmem, rfl⟩ := mem_getDirectParentConnections hds hd
      exact ⟨ih.1, ih.2.tail ⟨_, hmem, rfl, rfl⟩⟩
  · rintro ⟨hc, hreaches⟩
    induction hreaches with
    | refl =>
      exact .once (getDirectParentConnections_eq ha) (List.mem_filter.2 ⟨hc, by simp⟩)
    | tail _ hconnects ih =>
      have hcontains := (hg.contains_of_connects hconnects).1
      obtain ⟨d, hd, rfl, rfl⟩ := hconnects
      exact .further (getDirectParentConnections_eq ha) (List.mem_filter.2 ⟨hd, by simp⟩)
        (ih hcontains)

/-- The parent connections are those whose target leads to the node. -/
theorem WellFormed.getParentConnections_eq (hg : g.WellFormed) {node : Node}
    (h : g.contains node) :
    ∃ connections, g.getParentConnections node = .ok connections ∧
      ∀ c, c ∈ connections ↔ c ∈ g.values ∧ ReflTransGen g.Connects c.toNode node := by
  obtain ⟨connections, hok, hmem⟩ := DepthFirst.visit_nil
    (fun c hc => expands_getDirectParentConnections (hg.fromNode c hc))
    (expands_getDirectParentConnections h) (Nat.lt_succ_self g.values.length)
  exact ⟨connections, hok, fun c => (hmem c).trans (hg.leads_getDirectParentConnections_iff h)⟩

end DirectedGraph

end N8n
