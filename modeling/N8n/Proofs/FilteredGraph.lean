import Mathlib
import N8n.Library.Elimination
import N8n.Library.Fallible
import N8n.Proofs.DirectedGraph

/-!
# Graphs without their disabled nodes

To remove a disabled node is to eliminate it from the main connections. A connection of the node to
itself is joined with itself, and stays without a node.
-/

namespace N8n

open Elimination Fallible

theorem NodeConnectionType.text_inj {t t' : NodeConnectionType} (h : t.text = t'.text) : t = t' := by
  cases t <;> cases t' <;> first | rfl | exact absurd h (by decide)

theorem NodeConnectionType.text_no_hyphen (t : NodeConnectionType) : '-' ∉ t.text.toList := by
  cases t <;> decide

namespace DirectedGraph

variable {g : DirectedGraph} {N : String → Option Node} {J : GraphConnection → Prop}

/-! ## The nodes of a graph -/

theorem get?_addNodes {n : String} : ∀ (ns : List Node) {g : DirectedGraph},
    (∀ node ∈ ns, N node.name = some node) →
    (g.addNodes ns).nodes.get? n = if n ∈ ns.map (·.name) then N n else g.nodes.get? n
  | [], _, _ => by simp [addNodes]
  | node :: ns, g, h => by
    have ih := get?_addNodes (n := n) ns (g := g.addNode node)
      fun node' hnode' => h node' (List.mem_cons_of_mem node hnode')
    rw [addNodes, List.foldl_cons]
    refine ih.trans ?_
    simp only [List.map_cons, List.mem_cons, addNode, Dict.get?_set]
    by_cases hn : n = node.name
    · subst hn
      simp [h node List.mem_cons_self]
    · simp [hn]

/-- The graph has these nodes. -/
def HasNodes (N : String → Option Node) (g : DirectedGraph) : Prop := ∀ n, g.nodes.get? n = N n

theorem addNodes_hasNodes {ns : List Node} (h : ∀ node ∈ ns, N node.name = some node)
    (hall : ∀ n, (N n).isSome → n ∈ ns.map (·.name)) : HasNodes N (addNodes {} ns) := by
  intro n
  rw [get?_addNodes ns h]
  split_ifs with hn
  · rfl
  · rw [Option.not_isSome_iff_eq_none.1 fun hsome => hn (hall n hsome)]
    rfl

theorem HasNodes.contains (h : HasNodes N g) {node : Node} (hnode : N node.name = some node) :
    g.contains node := by
  simp [DirectedGraph.contains, h node.name, hnode]

theorem addNodes_connections : ∀ (ns : List Node) (g : DirectedGraph),
    (g.addNodes ns).connections = g.connections
  | [], _ => rfl
  | node :: ns, g => addNodes_connections ns (g.addNode node)

/-! ## Keys -/

/-- Two lists are parted alike at the first place of an element. -/
theorem split_at_first {α : Type} {a : α} : ∀ {x x' z z' : List α}, a ∉ x → a ∉ x' →
    x ++ a :: z = x' ++ a :: z' → x = x' ∧ z = z'
  | [], [], _, _, _, _, h => ⟨rfl, (List.cons.inj h).2⟩
  | [], b :: x', _, _, _, hx', h => absurd ((List.cons.inj h).1 ▸ List.mem_cons_self) hx'
  | b :: x, [], _, _, hx, _, h => absurd ((List.cons.inj h).1 ▸ List.mem_cons_self) hx
  | b :: x, b' :: x', _, _, hx, hx', h => by
    obtain ⟨hb, htail⟩ := List.cons.inj h
    obtain ⟨hx, hz⟩ := split_at_first (fun hm => hx (List.mem_cons_of_mem b hm))
      (fun hm => hx' (List.mem_cons_of_mem b' hm)) htail
    exact ⟨by rw [hb, hx], hz⟩

theorem repr_no_hyphen (n : ℕ) : '-' ∉ (toString n).toList := by
  intro h
  have hdigit := Nat.isDigit_of_mem_toDigits (b := 10) (by omega) (by omega)
    (show '-' ∈ Nat.toDigits 10 n by simpa using h)
  exact absurd hdigit (by decide)

/-- Names without hyphens leave the parts of a key apart. -/
theorem distinctKeys_of_no_hyphen
    (hends : ∀ c, J c → N c.fromNode.name = some c.fromNode ∧ N c.toNode.name = some c.toNode)
    (hnames : ∀ nodeName, (N nodeName).isSome → '-' ∉ nodeName.toList) : DistinctKeys J := by
  intro c c' hc hc' hkey
  obtain ⟨hfrom, hto⟩ := hends c hc
  obtain ⟨hfrom', hto'⟩ := hends c' hc'
  have hlist := congrArg String.toList hkey
  simp only [makeKey, String.toList_append, List.append_assoc, show "-".toList = ['-'] from rfl,
    List.singleton_append] at hlist
  obtain ⟨hfromName, hlist⟩ := split_at_first (hnames c.fromNode.name (by simp [hfrom]))
    (hnames c'.fromNode.name (by simp [hfrom'])) hlist
  obtain ⟨htype, hlist⟩ := split_at_first c.type.text_no_hyphen c'.type.text_no_hyphen hlist
  obtain ⟨houtput, hlist⟩ :=
    split_at_first (repr_no_hyphen c.outputIndex) (repr_no_hyphen c'.outputIndex) hlist
  obtain ⟨hinput, htoName⟩ :=
    split_at_first (repr_no_hyphen c.inputIndex) (repr_no_hyphen c'.inputIndex) hlist
  rw [String.toList_inj] at hfromName htype houtput hinput htoName
  rw [hfromName, hfrom'] at hfrom
  rw [htoName, hto'] at hto
  cases c
  cases c'
  simp only [GraphConnection.mk.injEq]
  exact ⟨(Option.some.inj hfrom).symm, (Option.some.inj hto).symm,
    NodeConnectionType.text_inj htype, Nat.repr_injective houtput, Nat.repr_injective hinput⟩

/-! ## Building a graph -/

/-- A graph that is built of nodes and of connections between them. -/
theorem addConnections_spec {ns : List Node} {cs : List GraphConnection}
    (hkeys : DistinctKeys (· ∈ cs)) (hnodes : HasNodes N (addNodes {} ns))
    (hends : ∀ c ∈ cs, N c.fromNode.name = some c.fromNode ∧ N c.toNode.name = some c.toNode) :
    ∃ g, (addNodes {} ns).addConnections cs = .ok g ∧ HasNodes N g ∧
      ∀ c, c ∈ g.values ↔ c ∈ cs := by
  have hempty : (addNodes {} ns).connections = .empty := addNodes_connections ns {}
  have hnone : ∀ c, c ∉ (addNodes {} ns).values := by
    unfold values
    rw [hempty]
    exact fun c => List.not_mem_nil
  have hvalues := foldl_setConnection hkeys cs (fun c hc => absurd hc (hnone c)) fun _ h => h
  refine ⟨_, addConnections_eq cs fun c hc => ⟨hnodes.contains (hends c hc).1,
    hnodes.contains (hends c hc).2⟩, fun n => ?_, fun c => ?_⟩
  · rw [foldl_setConnection_nodes, hnodes]
  · rw [hvalues]
    exact or_iff_left (hnone c)

/-! ## Taking a node out -/

/-- A main connection of the graph. -/
def Edge (g : DirectedGraph) (u : String) (o i : ℕ) (v : String) : Prop :=
  ∃ c ∈ g.values, c.type = .main ∧ c.fromNode.name = u ∧ c.outputIndex = o ∧ c.inputIndex = i ∧
    c.toNode.name = v

/-- The nodes there are, and the connections there may be when disabled nodes go. -/
structure Joinable (N : String → Option Node) (J : GraphConnection → Prop) : Prop where
  named : ∀ n node, N n = some node → node.name = n
  ends : ∀ c, J c → N c.fromNode.name = some c.fromNode ∧ N c.toNode.name = some c.toNode
  join : ∀ c c', J c → J c' → c.type = .main → c'.type = .main → c.toNode = c'.fromNode →
    c.toNode.disabled = some true → J { c with toNode := c'.toNode, inputIndex := c'.inputIndex }
  keys : DistinctKeys J

/-- A graph from which some disabled nodes have gone. -/
def Reduced (J : GraphConnection → Prop) (g : DirectedGraph) : Prop := ∀ c ∈ g.values, J c

theorem eq_iff_name_eq {node x : Node} (hnode : N node.name = some node)
    (hx : N x.name = some x) : x = node ↔ x.name = node.name := by
  refine ⟨fun h => h ▸ rfl, fun h => ?_⟩
  rw [h, hnode] at hx
  exact (Option.some.inj hx).symm

theorem mem_values_dropConnections {node : Node} {c : GraphConnection} :
    c ∈ (g.dropConnections node).values ↔
      c ∈ g.values ∧ c.toNode ≠ node ∧ c.fromNode ≠ node := by
  simp only [values, dropConnections, Dict.filter, List.mem_map, List.mem_filter, decide_eq_true_eq]
  constructor
  · rintro ⟨entry, ⟨hentry, hends⟩, rfl⟩
    exact ⟨⟨entry, hentry, rfl⟩, hends⟩
  · rintro ⟨⟨entry, hentry, rfl⟩, hends⟩
    exact ⟨entry, ⟨hentry, hends⟩, rfl⟩

theorem mem_newConnections {skipConnection : GraphConnection → Bool}
    {incoming outgoing : List GraphConnection} {c : GraphConnection} :
    c ∈ newConnections skipConnection incoming outgoing ↔
      ∃ a ∈ incoming, skipConnection a = false ∧ ∃ b ∈ outgoing, skipConnection b = false ∧
        c = { a with toNode := b.toNode, inputIndex := b.inputIndex } := by
  simp only [newConnections, List.mem_flatMap, List.mem_map, List.mem_filter, Bool.not_eq_true',
    and_assoc]
  refine exists_congr fun a => and_congr_right fun _ => and_congr_right fun _ =>
    exists_congr fun b => and_congr_right fun _ => and_congr_right fun _ => ?_
  exact eq_comm

/-- The connection joins a main connection into the node with one out of it. -/
def IsJoined (g : DirectedGraph) (node : Node) (c : GraphConnection) : Prop :=
  ∃ a ∈ g.values, a.toNode = node ∧ a.type = .main ∧
    ∃ b ∈ g.values, b.fromNode = node ∧ b.type = .main ∧
      c = { a with toNode := b.toNode, inputIndex := b.inputIndex }

theorem removeNode_values (hJ : Joinable N J) (hg : Reduced J g) {node : Node}
    (hdisabled : node.disabled = some true) (hcontains : g.contains node) :
    ∃ g', g.removeNode node (·.type ≠ .main) = .ok g' ∧ Reduced J g' ∧
      g'.nodes = g.nodes.erase node.name ∧
      ∀ c, c ∈ g'.values ↔
        g.IsJoined node c ∨ c ∈ g.values ∧ c.toNode ≠ node ∧ c.fromNode ≠ node := by
  set joined := newConnections (·.type ≠ .main) (g.values.filter (·.toNode = node))
    (g.values.filter (·.fromNode = node)) with hjoined
  have hmem : ∀ c, c ∈ joined ↔ g.IsJoined node c := by
    intro c
    simp [hjoined, mem_newConnections, IsJoined, and_assoc]
  have hjoinedP : ∀ c ∈ joined, J c := by
    intro c hc
    obtain ⟨a, ha, hto, hamain, b, hb, hfrom, hbmain, rfl⟩ := (hmem c).1 hc
    exact hJ.join a b (hg a ha) (hg b hb) hamain hbmain (hto.trans hfrom.symm) (hto ▸ hdisabled)
  have hvalues := foldl_setConnection hJ.keys joined (g := g.dropConnections node)
    (fun c hc => hg c (mem_values_dropConnections.1 hc).1) hjoinedP
  set joinedGraph := joined.foldl setConnection (g.dropConnections node) with hjoinedGraph
  refine ⟨{ joinedGraph with nodes := joinedGraph.nodes.erase node.name }, ?_,
    fun c hc => ?_, ?_, fun c => ?_⟩
  · unfold removeNode
    rw [getDirectParentConnections, getDirectChildConnections, if_pos hcontains, if_pos hcontains]
    rfl
  · rcases (hvalues c).1 hc with hc | hc
    · exact hjoinedP c hc
    · exact hg c (mem_values_dropConnections.1 hc).1
  · show joinedGraph.nodes.erase node.name = g.nodes.erase node.name
    rw [hjoinedGraph, foldl_setConnection_nodes]
    rfl
  · rw [← hmem, ← mem_values_dropConnections]
    exact hvalues c

/-- To remove a node is to eliminate it. -/
theorem edge_of_removeNode (hJ : Joinable N J) (hg : Reduced J g) {node : Node}
    (hnode : N node.name = some node) {g' : DirectedGraph}
    (hvalues : ∀ c, c ∈ g'.values ↔
      g.IsJoined node c ∨ c ∈ g.values ∧ c.toNode ≠ node ∧ c.fromNode ≠ node)
    (u : String) (o i : ℕ) (v : String) :
    g'.Edge u o i v ↔ eliminate g.Edge node.name u o i v := by
  constructor
  · rintro ⟨c, hc, hmain, rfl, rfl, rfl, rfl⟩
    rcases (hvalues c).1 hc with ⟨a, ha, hto, hamain, b, hb, hfrom, hbmain, rfl⟩ | ⟨hc, hto, hfrom⟩
    · exact .inr ⟨a.inputIndex, b.outputIndex, ⟨a, ha, hamain, rfl, rfl, rfl, by rw [hto]⟩,
        ⟨b, hb, hbmain, by rw [hfrom], rfl, rfl, rfl⟩⟩
    · have hends := hJ.ends c (hg c hc)
      exact .inl ⟨⟨c, hc, hmain, rfl, rfl, rfl, rfl⟩, fun h => hfrom ((eq_iff_name_eq hnode hends.1).2 h),
        fun h => hto ((eq_iff_name_eq hnode hends.2).2 h)⟩
  · rintro (⟨⟨c, hc, hmain, rfl, rfl, rfl, rfl⟩, hfrom, hto⟩ |
      ⟨k, o', ⟨a, ha, hamain, rfl, rfl, rfl, hto⟩, b, hb, hbmain, hfrom, rfl, rfl, rfl⟩)
    · refine ⟨c, (hvalues c).2 (.inr ⟨hc, ?_, ?_⟩), hmain, rfl, rfl, rfl, rfl⟩
      · exact fun h => hto (by rw [h])
      · exact fun h => hfrom (by rw [h])
    · have hato := (eq_iff_name_eq hnode (hJ.ends a (hg a ha)).2).2 hto
      have hbfrom := (eq_iff_name_eq hnode (hJ.ends b (hg b hb)).1).2 hfrom
      exact ⟨_, (hvalues _).2 (.inl ⟨a, ha, hato, hamain, b, hb, hbfrom, hbmain, rfl⟩), hamain, rfl,
        rfl, rfl, rfl⟩

/-- The disabled nodes of a list. -/
def DisabledIn (ns : List Node) (d : String) : Prop :=
  ∃ node ∈ ns, node.disabled = some true ∧ node.name = d

theorem disabledIn_cons_iff {node : Node} {ns : List Node} (hdisabled : node.disabled = some true)
    {d : String} : DisabledIn (node :: ns) d ↔ DisabledIn ns d ∨ d = node.name := by
  simp only [DisabledIn, List.exists_mem_cons_iff, hdisabled, true_and, eq_comm, or_comm]

theorem disabledIn_cons_of_not {node : Node} {ns : List Node} (h : node.disabled ≠ some true)
    {d : String} : DisabledIn (node :: ns) d ↔ DisabledIn ns d := by
  simp only [DisabledIn, List.exists_mem_cons_iff, h, false_and, false_or]

/-- Nodes that are in the graph, each once. -/
structure Present (N : String → Option Node) (g : DirectedGraph) (ns : List Node) : Prop where
  nodes : ∀ node ∈ ns, N node.name = some node ∧ g.nodes.get? node.name = some node
  nodup : (ns.map (·.name)).Nodup

theorem Present.not_disabledIn {node : Node} {ns : List Node} (h : Present N g (node :: ns)) :
    ¬ DisabledIn ns node.name := by
  rintro ⟨node', hnode', -, hname⟩
  exact (List.nodup_cons.1 h.nodup).1 (List.mem_map.2 ⟨node', hnode', hname⟩)

theorem Present.tail {node : Node} {ns : List Node} (h : Present N g (node :: ns)) :
    Present N g ns :=
  ⟨fun node' hnode' => h.nodes node' (List.mem_cons_of_mem node hnode'),
    (List.nodup_cons.1 h.nodup).2⟩

theorem Present.erase {node : Node} {ns : List Node} (h : Present N g (node :: ns))
    {g' : DirectedGraph} (hnodes : g'.nodes = g.nodes.erase node.name) : Present N g' ns := by
  refine ⟨fun node' hnode' => ?_, h.tail.nodup⟩
  have hne : node'.name ≠ node.name := fun heq =>
    (List.nodup_cons.1 h.nodup).1 (List.mem_map.2 ⟨node', hnode', heq⟩)
  rw [hnodes, Dict.get?_erase_of_ne _ hne]
  exact h.tail.nodes node' hnode'

/-- What the loop over nodes of the graph leaves. -/
structure Filtered (J : GraphConnection → Prop) (g : DirectedGraph) (ns : List Node)
    (g' : DirectedGraph) : Prop where
  reduced : Reduced J g'
  gone : ∀ n, DisabledIn ns n → g'.nodes.get? n = none
  left : ∀ n, ¬ DisabledIn ns n → g'.nodes.get? n = g.nodes.get? n
  edge : ∀ u o i v, ¬ DisabledIn ns u → ¬ DisabledIn ns v →
    (g'.Edge u o i v ↔ Through g.Edge (DisabledIn ns) (fun _ _ => True) u o i v)

/-- The loop eliminates the disabled nodes. -/
theorem foldlM_filterNode_filtered (hJ : Joinable N J) : ∀ (ns : List Node) {g : DirectedGraph},
    Reduced J g → Present N g ns → ∃ g', ns.foldlM filterNode g = .ok g' ∧ Filtered J g ns g'
  | [], g, hg, _ => by
    have hnot : ∀ d, ¬ DisabledIn [] d := fun d ⟨_, hnode, _⟩ => List.not_mem_nil hnode
    exact ⟨g, rfl, hg, fun n hn => absurd hn (hnot n), fun _ _ => rfl,
      fun u o i v _ _ => (through_iff_of_forall_not hnot).symm⟩
  | node :: ns, g, hg, hin => by
    obtain ⟨hnode, hget⟩ := hin.nodes node List.mem_cons_self
    rw [List.foldlM_cons, filterNode]
    split_ifs with hdisabled
    · obtain ⟨g₁, hg₁, hreduced, hnodes, hvalues⟩ :=
        removeNode_values hJ hg hdisabled (contains_iff.2 hget)
      obtain ⟨g', hg', hfiltered⟩ := foldlM_filterNode_filtered hJ ns hreduced (hin.erase hnodes)
      have hD : ∀ d, (DisabledIn ns d ∨ d = node.name) ↔ DisabledIn (node :: ns) d := fun d =>
        (disabledIn_cons_iff hdisabled).symm
      refine ⟨g', bind_eq_ok.2 ⟨g₁, hg₁, hg'⟩, hfiltered.reduced, fun n hn => ?_, fun n hn => ?_,
        fun u o i v hu hv => ?_⟩
      · by_cases hns : DisabledIn ns n
        · exact hfiltered.gone n hns
        · rw [hfiltered.left n hns, hnodes, ((hD n).2 hn).resolve_left hns, Dict.get?_erase_self]
      · rw [← hD, not_or] at hn
        rw [hfiltered.left n hn.1, hnodes, Dict.get?_erase_of_ne _ hn.2]
      · rw [← hD, not_or] at hu hv
        calc g'.Edge u o i v
          _ ↔ Through g₁.Edge (DisabledIn ns) (fun _ _ => True) u o i v :=
            hfiltered.edge u o i v hu.1 hv.1
          _ ↔ Through (eliminate g.Edge node.name) (DisabledIn ns) (fun _ _ => True) u o i v :=
            through_congr (edge_of_removeNode hJ hg hnode hvalues) fun _ => .rfl
          _ ↔ Through g.Edge (fun d => DisabledIn ns d ∨ d = node.name) (fun _ _ => True) u o i v :=
            through_eliminate_iff hu.2 hv.2
          _ ↔ Through g.Edge (DisabledIn (node :: ns)) (fun _ _ => True) u o i v :=
            through_congr (fun _ _ _ _ => .rfl) hD
    · obtain ⟨g', hg', hfiltered⟩ := foldlM_filterNode_filtered hJ ns hg hin.tail
      have hD : ∀ d, DisabledIn (node :: ns) d ↔ DisabledIn ns d := fun d =>
        disabledIn_cons_of_not hdisabled
      refine ⟨g', bind_eq_ok.2 ⟨g, rfl, hg'⟩, hfiltered.reduced, fun n hn => ?_, fun n hn => ?_,
        fun u o i v hu hv => ?_⟩
      · exact hfiltered.gone n ((hD n).1 hn)
      · exact hfiltered.left n fun h => hn ((hD n).2 h)
      · rw [hfiltered.edge u o i v (fun h => hu ((hD u).2 h)) fun h => hv ((hD v).2 h)]
        exact through_congr (fun _ _ _ _ => .rfl) fun d => (hD d).symm

/-! ## Connections without a node -/

/-- Both ends of each connection are nodes of the graph. -/
def EndsPresent (g : DirectedGraph) : Prop :=
  ∀ c ∈ g.values, g.contains c.fromNode ∧ g.contains c.toNode

theorem endsPresent_of_removeNode {node : Node} {g' : DirectedGraph} (hcontains : g.contains node)
    (hnodes : g'.nodes = g.nodes.erase node.name)
    (hvalues : ∀ c, c ∈ g'.values ↔
      g.IsJoined node c ∨ c ∈ g.values ∧ c.toNode ≠ node ∧ c.fromNode ≠ node)
    (hends : g.EndsPresent) (hno : ∀ o i, ¬ g.Edge node.name o i node.name) : g'.EndsPresent := by
  have hleft : ∀ {x : Node}, g.contains x → x ≠ node → g'.contains x := by
    intro x hx hne
    rw [contains_iff, hnodes, Dict.get?_erase_of_ne _ fun heq => hne (eq_of_contains hx hcontains heq)]
    exact contains_iff.1 hx
  intro c hc
  rcases (hvalues c).1 hc with ⟨a, ha, hto, hamain, b, hb, hfrom, hbmain, rfl⟩ | ⟨hc, hto, hfrom⟩
  · refine ⟨hleft (hends a ha).1 fun heq => ?_, hleft (hends b hb).2 fun heq => ?_⟩
    · exact hno _ _ ⟨a, ha, hamain, by rw [heq], rfl, rfl, by rw [hto]⟩
    · exact hno _ _ ⟨b, hb, hbmain, by rw [hfrom], rfl, rfl, by rw [heq]⟩
  · exact ⟨hleft (hends c hc).1 hfrom, hleft (hends c hc).2 hto⟩

/-- Without a cycle of disabled nodes each connection keeps its nodes. -/
theorem foldlM_filterNode_endsPresent (hJ : Joinable N J) : ∀ (ns : List Node)
    {g g' : DirectedGraph}, Reduced J g → Present N g ns → g.EndsPresent →
    ¬ Cyclic g.Edge (DisabledIn ns) → ns.foldlM filterNode g = .ok g' → g'.EndsPresent
  | [], g, g', _, _, hends, _, hg' => Except.ok.inj hg' ▸ hends
  | node :: ns, g, g', hg, hin, hends, hcycle, hg' => by
    obtain ⟨hnode, hget⟩ := hin.nodes node List.mem_cons_self
    rw [List.foldlM_cons] at hg'
    obtain ⟨g₂, hg₂, hg'⟩ := bind_eq_ok.1 hg'
    unfold filterNode at hg₂
    split_ifs at hg₂ with hdisabled
    · obtain ⟨g₁, hg₁, hreduced, hnodes, hvalues⟩ :=
        removeNode_values hJ hg hdisabled (contains_iff.2 hget)
      obtain rfl := Except.ok.inj (hg₁.symm.trans hg₂)
      have hedge := edge_of_removeNode hJ hg hnode hvalues
      have hno : ∀ o i, ¬ g.Edge node.name o i node.name := fun o i hloop =>
        hcycle ⟨node.name, (disabledIn_cons_iff hdisabled).2 (.inr rfl), o, i, .direct hloop⟩
      refine foldlM_filterNode_endsPresent hJ ns hreduced (hin.erase hnodes)
        (endsPresent_of_removeNode (contains_iff.2 hget) hnodes hvalues hends hno)
        (fun hcyclic => hcycle ?_) hg'
      refine (Cyclic.congr (fun _ _ _ _ => .rfl) fun d => (disabledIn_cons_iff hdisabled).symm).1 ?_
      exact Cyclic.of_eliminate ((Cyclic.congr hedge fun _ => .rfl).1 hcyclic)
    · obtain rfl := Except.ok.inj hg₂
      refine foldlM_filterNode_endsPresent hJ ns hg hin.tail hends (fun hcyclic => hcycle ?_) hg'
      exact (Cyclic.congr (fun _ _ _ _ => .rfl)
        fun d => (disabledIn_cons_of_not hdisabled).symm).1 hcyclic

/-- A cycle of disabled nodes leaves a connection of a node that is gone. -/
theorem exists_dangling (hJ : Joinable N J) : ∀ (ns : List Node) {g g' : DirectedGraph},
    Reduced J g → Present N g ns → Cyclic g.Edge (DisabledIn ns) →
    ns.foldlM filterNode g = .ok g' → ∃ c ∈ g'.values, DisabledIn ns c.fromNode.name
  | [], _, _, _, _, ⟨_, ⟨_, hnode, _⟩, _⟩, _ => absurd hnode List.not_mem_nil
  | node :: ns, g, g', hg, hin, hcycle, hg' => by
    obtain ⟨hnode, hget⟩ := hin.nodes node List.mem_cons_self
    rw [List.foldlM_cons] at hg'
    obtain ⟨g₂, hg₂, hg'⟩ := bind_eq_ok.1 hg'
    unfold filterNode at hg₂
    split_ifs at hg₂ with hdisabled
    · obtain ⟨g₁, hg₁, hreduced, hnodes, hvalues⟩ :=
        removeNode_values hJ hg hdisabled (contains_iff.2 hget)
      obtain rfl := Except.ok.inj (hg₁.symm.trans hg₂)
      have hedge := edge_of_removeNode hJ hg hnode hvalues
      by_cases hloop : ∃ o i, g.Edge node.name o i node.name
      · -- joined with itself the loop stays, whatever else is removed
        obtain ⟨o, i, hloop⟩ := hloop
        obtain ⟨g'', hg'', hfiltered⟩ := foldlM_filterNode_filtered hJ ns hreduced (hin.erase hnodes)
        obtain rfl := Except.ok.inj (hg'.symm.trans hg'')
        have hstays : g₁.Edge node.name o i node.name := (hedge _ _ _ _).2 (.inr ⟨i, o, hloop, hloop⟩)
        obtain ⟨c, hc, -, hfrom, -⟩ := (hfiltered.edge _ _ _ _ hin.not_disabledIn
          hin.not_disabledIn).2 (.direct hstays)
        exact ⟨c, hc, (disabledIn_cons_iff hdisabled).2 (.inr hfrom)⟩
      · have hcycle' : Cyclic g₁.Edge (DisabledIn ns) := by
          refine (Cyclic.congr hedge fun _ => .rfl).2 (Cyclic.eliminate hin.not_disabledIn ?_
            fun o i h => hloop ⟨o, i, h⟩)
          exact (Cyclic.congr (fun _ _ _ _ => .rfl) fun d => disabledIn_cons_iff hdisabled).1 hcycle
        obtain ⟨c, hc, hgone⟩ := exists_dangling hJ ns hreduced (hin.erase hnodes) hcycle' hg'
        exact ⟨c, hc, (disabledIn_cons_iff hdisabled).2 (.inl hgone)⟩
    · obtain rfl := Except.ok.inj hg₂
      have hcycle' := (Cyclic.congr (E := g.Edge) (fun _ _ _ _ => .rfl)
        fun d => disabledIn_cons_of_not hdisabled).1 hcycle
      obtain ⟨c, hc, hgone⟩ := exists_dangling hJ ns hg hin.tail hcycle' hg'
      exact ⟨c, hc, (disabledIn_cons_of_not hdisabled).2 hgone⟩

/-! ## Copies -/

/-- The nodes of a graph that has these. -/
theorem mem_nodes (hN : ∀ n node, N n = some node → node.name = n) (hg : HasNodes N g)
    {node : Node} : node ∈ g.nodeList ↔ N node.name = some node := by
  simp only [nodeList, List.mem_map, Prod.exists, exists_eq_right, Dict.mem_entries, hg _]
  refine ⟨fun ⟨n, hn⟩ => ?_, fun h => ⟨node.name, h⟩⟩
  rwa [hN n node hn]

theorem names_eq_keys (hN : ∀ n node, N n = some node → node.name = n) (hg : HasNodes N g) :
    g.nodeList.map (·.name) = g.nodes.keys := by
  rw [nodeList, List.map_map]
  refine List.map_congr_left fun ⟨n, node⟩ hmem => ?_
  have hn := Dict.mem_entries.1 hmem
  rw [hg n] at hn
  exact hN n node hn

/-- The nodes that are disabled. -/
def Disabled (N : String → Option Node) (nodeName : String) : Prop :=
  ∃ node, N nodeName = some node ∧ node.disabled = some true

theorem disabledIn_iff (hN : ∀ n node, N n = some node → node.name = n) (hg : HasNodes N g)
    (d : String) : DisabledIn g.nodeList d ↔ Disabled N d := by
  constructor
  · rintro ⟨node, hnode, hdisabled, rfl⟩
    exact ⟨node, (mem_nodes hN hg).1 hnode, hdisabled⟩
  · rintro ⟨node, hnode, hdisabled⟩
    have hname := hN d node hnode
    exact ⟨node, (mem_nodes hN hg).2 (hname ▸ hnode), hdisabled, hname⟩

theorem present_nodeList (hN : ∀ n node, N n = some node → node.name = n) (hg : HasNodes N g) :
    Present N g g.nodeList := by
  refine ⟨fun node hnode => ?_, ?_⟩
  · have hnode := (mem_nodes hN hg).1 hnode
    exact ⟨hnode, (hg _).trans hnode⟩
  · rw [names_eq_keys hN hg]
    exact g.nodes.nodup

/-- A copy has the same nodes and the same connections. -/
theorem clone_spec (hN : ∀ n node, N n = some node → node.name = n) (hnodes : HasNodes N g)
    (hends : ∀ c ∈ g.values,
      N c.fromNode.name = some c.fromNode ∧ N c.toNode.name = some c.toNode) :
    ∃ g', g.clone = .ok g' ∧ HasNodes N g' ∧ ∀ c, c ∈ g'.values ↔ c ∈ g.values := by
  refine addConnections_spec (distinctKeys_values g)
    (addNodes_hasNodes (fun node => (mem_nodes hN hnodes).1) fun n hn => ?_) hends
  rw [show (g.nodes.entries.map (·.2)).map (·.name) = g.nodes.keys from names_eq_keys hN hnodes,
    Dict.mem_keys, hnodes n]
  exact hn

/-- A filtered graph has what the loop leaves of a copy. -/
theorem filterDisabledNodes_filtered (hJ : Joinable N J) (hnodes : HasNodes N g)
    (hg : Reduced J g) :
    ∃ copy, HasNodes N copy ∧ (∀ c, c ∈ copy.values ↔ c ∈ g.values) ∧ ∃ g',
      g.filterDisabledNodes = .ok g' ∧ copy.nodeList.foldlM filterNode copy = .ok g' ∧
        Filtered J copy copy.nodeList g' := by
  obtain ⟨copy, hcopy, hnodes', hvalues⟩ :=
    clone_spec hJ.named hnodes fun c hc => hJ.ends c (hg c hc)
  obtain ⟨g', hg', hfiltered⟩ := foldlM_filterNode_filtered hJ copy.nodeList
    (fun c hc => hg c ((hvalues c).1 hc)) (present_nodeList hJ.named hnodes')
  exact ⟨copy, hnodes', hvalues, g', bind_eq_ok.2 ⟨copy, hcopy, hg'⟩, hg', hfiltered⟩

theorem mem_values_iff_edge (hJ : Joinable N J) (hg : Reduced J g) {u v : Node}
    (hu : N u.name = some u) (hv : N v.name = some v) {outputIndex inputIndex : ℕ} :
    { fromNode := u, toNode := v, type := .main, outputIndex, inputIndex } ∈ g.values ↔
      g.Edge u.name outputIndex inputIndex v.name := by
  refine ⟨fun h => ⟨_, h, rfl, rfl, rfl, rfl, rfl⟩, ?_⟩
  rintro ⟨c, hc, hmain, hfrom, rfl, rfl, hto⟩
  obtain ⟨hcfrom, hcto⟩ := hJ.ends c (hg c hc)
  rw [hfrom, hu] at hcfrom
  rw [hto, hv] at hcto
  rwa [Option.some.inj hcfrom, Option.some.inj hcto, ← hmain]

/-! ## Graphs without disabled nodes -/

/-- The connections of a graph, and those that are joined when its disabled nodes go. -/
inductive JoinedIn (g : DirectedGraph) : GraphConnection → Prop
  | connection {c} : c ∈ g.values → JoinedIn g c
  | join {c c'} : JoinedIn g c → JoinedIn g c' → c.type = .main → c'.type = .main →
      c.toNode = c'.fromNode → c.toNode.disabled = some true →
      JoinedIn g { c with toNode := c'.toNode, inputIndex := c'.inputIndex }

/-- The graph has a path of main connections from the output to the input, all inner nodes of which
are disabled. -/
def MainPath (g : DirectedGraph) (u : Node) (outputIndex inputIndex : ℕ) (v : Node) : Prop :=
  Through g.Edge (Disabled g.nodes.get?) (fun _ _ => True) u.name outputIndex inputIndex v.name

/-- A node of the graph that is not disabled. -/
def Enabled (g : DirectedGraph) (node : Node) : Prop :=
  g.contains node ∧ node.disabled ≠ some true

/-- No disabled node and no connection without a node is left, and enabled nodes are connected where
there was a path between them. -/
structure FiltersDisabled (g filteredGraph : DirectedGraph) : Prop where
  enabled : ∀ node ∈ filteredGraph.nodeList, node.disabled ≠ some true
  ends : filteredGraph.EndsPresent
  connections : ∀ u v, g.Enabled u → g.Enabled v → ∀ outputIndex inputIndex : ℕ,
    ({ fromNode := u, toNode := v, type := .main, outputIndex, inputIndex } ∈
      filteredGraph.values ↔ g.MainPath u outputIndex inputIndex v)

variable (hg : g.WellFormed)

include hg

theorem ends_of_joinedIn {c : GraphConnection} (h : JoinedIn g c) :
    g.nodes.get? c.fromNode.name = some c.fromNode ∧
      g.nodes.get? c.toNode.name = some c.toNode := by
  induction h with
  | connection hc => exact ⟨contains_iff.1 (hg.fromNode _ hc), contains_iff.1 (hg.toNode _ hc)⟩
  | join _ _ _ _ _ _ ih ih' => exact ⟨ih.1, ih'.2⟩

theorem joinable_joinedIn (hkeys : DistinctKeys (JoinedIn g)) :
    Joinable g.nodes.get? (JoinedIn g) :=
  ⟨hg.named, fun _ => ends_of_joinedIn hg, fun _ _ => .join, hkeys⟩

omit hg in
/-- Enabled nodes are none of those that go. -/
theorem Enabled.not_disabled {u : Node} (hu : g.Enabled u) : ¬ Disabled g.nodes.get? u.name := by
  rintro ⟨node, hnode, hdisabled⟩
  rw [contains_iff.1 hu.1] at hnode
  exact hu.2 (Option.some.inj hnode ▸ hdisabled)

/-- Where no two joined connections have the same key, the disabled nodes are filtered out exactly
if no path leads from one of them back to itself through disabled nodes. -/
theorem filtersDisabled_iff (hkeys : DistinctKeys (JoinedIn g)) :
    (∃ g', g.filterDisabledNodes = .ok g' ∧ FiltersDisabled g g') ↔
      ¬ Cyclic g.Edge (Disabled g.nodes.get?) := by
  have hJ := joinable_joinedIn hg hkeys
  obtain ⟨copy, hnodes, hvalues, g', hg', hloop, hfiltered⟩ :=
    filterDisabledNodes_filtered hJ (fun _ => rfl) fun c hc => .connection hc
  have hD := disabledIn_iff hg.named hnodes
  have hedge : ∀ u o i v, copy.Edge u o i v ↔ g.Edge u o i v := by
    intro u o i v
    simp only [DirectedGraph.Edge, hvalues]
  have hcyclic : Cyclic copy.Edge (DisabledIn copy.nodeList) ↔
      Cyclic g.Edge (Disabled g.nodes.get?) := Cyclic.congr hedge hD
  have hreduced : Reduced (JoinedIn g) copy := fun c hc => .connection ((hvalues c).1 hc)
  have hpresent := present_nodeList hg.named hnodes
  constructor
  · rintro ⟨g'', hg'', hfilters⟩ hcycle
    obtain rfl := Except.ok.inj (hg'.symm.trans hg'')
    obtain ⟨c, hc, hgone⟩ := exists_dangling hJ copy.nodeList hreduced hpresent
      (hcyclic.2 hcycle) hloop
    have hfrom := contains_iff.1 (hfilters.ends c hc).1
    rw [hfiltered.gone _ hgone] at hfrom
    cases hfrom
  · intro hcycle
    have hends : copy.EndsPresent := fun c hc => by
      have hc := (hvalues c).1 hc
      simp only [contains_iff, hnodes _]
      exact ⟨contains_iff.1 (hg.fromNode c hc), contains_iff.1 (hg.toNode c hc)⟩
    refine ⟨g', hg', fun node hnode hdisabled => ?_, ?_, fun u v hu hv outputIndex inputIndex => ?_⟩
    · obtain ⟨⟨n, node⟩, hentry, rfl⟩ := List.mem_map.1 hnode
      have hget := Dict.mem_entries.1 hentry
      by_cases hn : DisabledIn copy.nodeList n
      · rw [hfiltered.gone n hn] at hget
        cases hget
      · rw [hfiltered.left n hn, hnodes] at hget
        exact hn ((hD n).2 ⟨node, hget, hdisabled⟩)
    · exact foldlM_filterNode_endsPresent hJ copy.nodeList hreduced hpresent hends
        (fun h => hcycle (hcyclic.1 h)) hloop
    · rw [mem_values_iff_edge hJ hfiltered.reduced (contains_iff.1 hu.1) (contains_iff.1 hv.1),
        hfiltered.edge _ _ _ _ (fun h => hu.not_disabled ((hD _).1 h))
          fun h => hv.not_disabled ((hD _).1 h)]
      exact through_congr hedge hD

omit hg

/-- The connections that the filtered graph ought to have between enabled nodes. -/
def Routed (g : DirectedGraph) (c : GraphConnection) : Prop :=
  c.type = .main ∧ g.Enabled c.fromNode ∧ g.Enabled c.toNode ∧
    g.MainPath c.fromNode c.outputIndex c.inputIndex c.toNode

/-- All of them are kept only under keys of their own. -/
theorem FiltersDisabled.distinctKeys_routed {g' : DirectedGraph} (h : FiltersDisabled g g') :
    DistinctKeys (Routed g) := by
  have hmem : ∀ c, Routed g c → c ∈ g'.values := by
    rintro ⟨u, v, type, outputIndex, inputIndex⟩ ⟨rfl, hu, hv, hpath⟩
    exact (h.connections u v hu hv outputIndex inputIndex).2 hpath
  exact fun c c' hc hc' => distinctKeys_values g' c c' (hmem c hc) (hmem c' hc')

/-- A graph that is made of nodes and connections in any order. A node that takes the name of
another leaves the connections of that one as they are. -/
inductive Built : DirectedGraph → Prop
  | empty : Built .empty
  | addNodes {g : DirectedGraph} : Built g → ∀ nodes, Built (g.addNodes nodes)
  | addConnection {g g' : DirectedGraph} {c : GraphConnection} : Built g →
      g.addConnection c = .ok g' → Built g'

theorem Built.setConnection (hbuilt : Built g) {c : GraphConnection} (hfrom : g.contains c.fromNode)
    (hto : g.contains c.toNode) : Built (g.setConnection c) :=
  .addConnection hbuilt (if_pos ⟨hfrom, hto⟩)

theorem named_addNodes : ∀ (nodes : List Node) {g : DirectedGraph},
    (∀ n node, g.nodes.get? n = some node → node.name = n) →
    ∀ n node, (g.addNodes nodes).nodes.get? n = some node → node.name = n
  | [], _, h => h
  | node :: nodes, g, h => by
    refine named_addNodes nodes (g := g.addNode node) fun n node' hget => ?_
    unfold addNode at hget
    rw [Dict.get?_set] at hget
    split_ifs at hget with hname
    · rw [← Option.some.inj hget, hname]
    · exact h n node' hget

theorem Built.named (h : Built g) : ∀ n node, g.nodes.get? n = some node → node.name = n := by
  induction h with
  | empty => simp [DirectedGraph.empty]
  | addNodes _ nodes ih => exact named_addNodes nodes ih
  | addConnection _ hadd ih =>
    unfold DirectedGraph.addConnection at hadd
    split_ifs at hadd
    rw [← Except.ok.inj hadd]
    exact ih

/-- A copy is made only of connections between nodes of the graph. -/
theorem contains_of_addConnections : ∀ (cs : List GraphConnection) {g g' : DirectedGraph},
    g.addConnections cs = .ok g' → ∀ c ∈ cs, g.contains c.fromNode ∧ g.contains c.toNode
  | [], _, _, _, _, hc => absurd hc List.not_mem_nil
  | c :: cs, g, g', h, c', hc' => by
    rw [addConnections, List.foldlM_cons] at h
    obtain ⟨g₁, hadd, h⟩ := bind_eq_ok.1 h
    unfold addConnection at hadd
    split_ifs at hadd with hends
    obtain rfl := Except.ok.inj hadd
    rcases List.mem_cons.1 hc' with rfl | hc'
    · exact hends
    · exact contains_of_addConnections cs (g := g.setConnection c) h c' hc'

theorem endsPresent_of_filterDisabledNodes (hbuilt : Built g) {g' : DirectedGraph}
    (h : g.filterDisabledNodes = .ok g') : g.EndsPresent := by
  obtain ⟨copy, hcopy, -⟩ := bind_eq_ok.1 h
  have hnodes : HasNodes g.nodes.get? (addNodes {} (g.nodes.entries.map (·.2))) := by
    refine addNodes_hasNodes (fun node => (mem_nodes hbuilt.named fun _ => rfl).1) fun n hn => ?_
    rw [show (g.nodes.entries.map (·.2)).map (·.name) = g.nodes.keys from
      names_eq_keys hbuilt.named fun _ => rfl, Dict.mem_keys]
    exact hn
  intro c hc
  have hends := contains_of_addConnections g.values hcopy c hc
  simp only [contains_iff, hnodes _] at hends
  simpa only [contains_iff] using hends

def disabledNode : Node := { name := "D", type := "d", disabled := some true }

/-- A disabled node between two others. -/
def disabledBetween : DirectedGraph :=
  (((addNodes .empty [{ name := "A", type := "a" }, disabledNode,
    { name := "N", type := "n" }]).setConnection
      { fromNode := { name := "A", type := "a" }, toNode := disabledNode, type := .main,
        outputIndex := 0, inputIndex := 0 }).setConnection
      { fromNode := disabledNode, toNode := { name := "N", type := "n" }, type := .main,
        outputIndex := 0, inputIndex := 0 })

theorem built_disabledBetween : Built disabledBetween :=
  ((Built.addNodes .empty _).setConnection (by decide) (by decide)).setConnection (by decide)
    (by decide)

/-- The connection of the disabled node to itself. -/
def disabledLoop : GraphConnection where
  fromNode := disabledNode
  toNode := disabledNode
  type := .main
  outputIndex := 0
  inputIndex := 0

theorem disabledBetween_nodes {n : String} {node : Node}
    (h : disabledBetween.nodes.get? n = some node) :
    '-' ∉ n.toList ∧ (node.disabled = some true → n = "D") := by
  simp only [disabledBetween, setConnection, addNodes, List.foldl_cons, List.foldl_nil, addNode,
    Dict.get?_set, disabledNode] at h
  split_ifs at h with hn hd ha
  · rw [hn, ← Option.some.inj h]
    decide
  · rw [hd]
    exact ⟨by decide, fun _ => rfl⟩
  · rw [ha, ← Option.some.inj h]
    decide
  · cases h

end DirectedGraph

end N8n
