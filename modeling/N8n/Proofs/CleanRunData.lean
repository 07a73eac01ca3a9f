import N8n.Proofs.DirectedGraph
import N8n.Proofs.SourceDataGroups

/-!
# The run data that are removed

`cleanRunData` removes the data of the nodes to clean and of all they lead to, and then those of
every node that is connected, but not by a main connection, to anything that leads to one of these.
A sub node of a node upstream is among them, so it loses its data too.
-/

namespace N8n

open Relation

/-! ## Keys that are erased -/

/-- The keys that have `P` are gone, and the others are left. -/
structure Erased {α : Type} (P : String → Prop) (d d' : Dict String α) : Prop where
  gone : ∀ k, P k → d'.get? k = none
  kept : ∀ k, ¬ P k → d'.get? k = d.get? k

namespace Erased

variable {α : Type} {P Q : String → Prop} {d d' d'' : Dict String α}

theorem refl (d : Dict String α) : Erased (fun _ => False) d d := ⟨fun _ h => h.elim, fun _ _ => rfl⟩

theorem erase (d : Dict String α) (k : String) : Erased (· = k) d (d.erase k) where
  gone := by
    rintro _ rfl
    exact Dict.get?_erase_self d _
  kept _ h := Dict.get?_erase_of_ne d h

theorem trans (h : Erased P d d') (h' : Erased Q d' d'') : Erased (fun k => P k ∨ Q k) d d'' where
  gone k hk := by
    by_cases hQ : Q k
    · exact h'.gone k hQ
    · rw [h'.kept k hQ, h.gone k (hk.resolve_right hQ)]
  kept k hk := by
    rw [h'.kept k fun hQ => hk (.inr hQ), h.kept k fun hP => hk (.inl hP)]

theorem congr (h : Erased P d d') (hiff : ∀ k, P k ↔ Q k) : Erased Q d d' where
  gone k hk := h.gone k ((hiff k).2 hk)
  kept k hk := h.kept k (mt (hiff k).1 hk)

/-- A loop whose turns erase keys. -/
theorem foldlM {β : Type} {f : Dict String α → β → Except String (Dict String α)}
    {R : β → String → Prop} : ∀ {xs : List β},
    (∀ x ∈ xs, ∀ d, ∃ d', f d x = .ok d' ∧ Erased (R x) d d') → ∀ d, ∃ d',
      xs.foldlM f d = .ok d' ∧ Erased (fun k => ∃ x ∈ xs, R x k) d d'
  | [], _, d => ⟨d, rfl, (refl d).congr fun k => by simp⟩
  | x :: xs, h, d => by
    obtain ⟨d', hd', hx⟩ := h x List.mem_cons_self d
    obtain ⟨d'', hd'', hxs⟩ := foldlM (fun y hy => h y (List.mem_cons_of_mem _ hy)) d'
    refine ⟨d'', ?_, (hx.trans hxs).congr fun k => by simp⟩
    rw [List.foldlM_cons, hd']
    exact hd''

end Erased

/-! ## What is stale -/

section

variable (graph : DirectedGraph) (nodesToClean : List Node)

/-- A connection other than a main one goes from one node to the other. -/
def SubConnects (a b : Node) : Prop :=
  ∃ c ∈ graph.values, c.type ≠ .main ∧ c.fromNode = a ∧ c.toNode = b

/-- It is to be cleaned, or one that is leads to it. -/
def Stale (node : Node) : Prop :=
  ∃ nodeToClean ∈ nodesToClean, ReflTransGen graph.Connects nodeToClean node

/-- It is not stale, and no path without main connections goes from it to what is. -/
def Fresh (node : Node) : Prop :=
  ¬ Stale graph nodesToClean node ∧
    ¬ ∃ stale, Stale graph nodesToClean stale ∧ TransGen (SubConnects graph) node stale

/-- The name is that of a fresh node of the graph. -/
def FreshName (nodeName : String) : Prop :=
  ∃ node, graph.nodes.get? nodeName = some node ∧ Fresh graph nodesToClean node

/-- It is connected, but not by a main connection, to what leads to a stale node. -/
def UpstreamSub (node : Node) : Prop :=
  ∃ b, SubConnects graph node b ∧
    ∃ stale, Stale graph nodesToClean stale ∧ ReflTransGen graph.Connects b stale

/-- The data of fresh nodes are kept as they are, and no others. -/
structure CleansExactly (runData newRunData : Dict String (List TaskData)) : Prop where
  kept : ∀ nodeName, FreshName graph nodesToClean nodeName →
    newRunData.get? nodeName = runData.get? nodeName
  removed : ∀ nodeName, ¬ FreshName graph nodesToClean nodeName → newRunData.get? nodeName = none

end

variable {graph : DirectedGraph} {nodesToClean : List Node}

/-! ## What is removed -/

theorem cleanNode_erased (hg : graph.WellFormed) {node : Node} (h : graph.contains node)
    (d : Dict String (List TaskData)) : ∃ d', cleanNode graph d node = .ok d' ∧
      Erased (fun k => k = node.name ∨ ∃ c ∈ graph.values, c.type ≠ .main ∧ c.fromNode.name = k ∧
        ReflTransGen graph.Connects c.toNode node) d d' := by
  obtain ⟨connections, hok, hmem⟩ := hg.getParentConnections_eq h
  refine ⟨(connections.filter (·.type ≠ .main)).foldl (fun d c => d.erase c.fromNode.name)
    (d.erase node.name), ?_, (Erased.erase d node.name).trans ⟨fun k hk => ?_, fun k hk => ?_⟩⟩
  · unfold cleanNode
    rw [hok]
    rfl
  · obtain ⟨c, hc, htype, hname, hreaches⟩ := hk
    rw [Dict.get?_foldl_erase (fun c : GraphConnection => c.fromNode.name), if_pos]
    exact List.mem_map.2 ⟨c, List.mem_filter.2 ⟨(hmem c).2 ⟨hc, hreaches⟩, by simpa using htype⟩,
      hname⟩
  · rw [Dict.get?_foldl_erase (fun c : GraphConnection => c.fromNode.name), if_neg]
    intro hin
    obtain ⟨c, hc, hname⟩ := List.mem_map.1 hin
    obtain ⟨hparent, htype⟩ := List.mem_filter.1 hc
    exact hk ⟨c, ((hmem c).1 hparent).1, by simpa using htype, hname, ((hmem c).1 hparent).2⟩

/-- The name is that of a stale node, or of a sub node of what leads to one. -/
def RemovedFrom (graph : DirectedGraph) (nodeToClean : Node) (nodeName : String) : Prop :=
  ∃ node, ReflTransGen graph.Connects nodeToClean node ∧ (nodeName = node.name ∨
    ∃ c ∈ graph.values, c.type ≠ .main ∧ c.fromNode.name = nodeName ∧
      ReflTransGen graph.Connects c.toNode node)

theorem cleanNodes_erased (hg : graph.WellFormed) {nodeToClean : Node}
    (h : graph.contains nodeToClean) (d : Dict String (List TaskData)) :
    ∃ d', cleanNodes graph d nodeToClean = .ok d' ∧ Erased (RemovedFrom graph nodeToClean) d d' := by
  obtain ⟨children, hok, hmem⟩ := hg.getChildren_eq h
  have hreached : ∀ node, node ∈ nodeToClean :: children ↔
      ReflTransGen graph.Connects nodeToClean node := by
    intro node
    rw [List.mem_cons, hmem, reflTransGen_iff_eq_or_transGen]
  have hcontains : ∀ node ∈ nodeToClean :: children, graph.contains node := by
    intro node hnode
    rcases List.mem_cons.1 hnode with rfl | hchild
    · exact h
    · obtain ⟨_, -, hlast⟩ := TransGen.tail'_iff.1 ((hmem node).1 hchild)
      exact (hg.contains_of_connects hlast).2
  obtain ⟨d', hd', herased⟩ := Erased.foldlM
    (fun node hnode => cleanNode_erased hg (hcontains node hnode)) (d.erase nodeToClean.name)
  refine ⟨d', ?_, ((Erased.erase d nodeToClean.name).trans herased).congr fun k => ?_⟩
  · unfold cleanNodes
    rw [hok]
    exact hd'
  · simp only [hreached]
    exact ⟨fun hk => hk.elim (fun hname => ⟨nodeToClean, .refl, .inl hname⟩) id, .inr⟩

/-- A node of the graph loses its data if it is stale or a sub node of what leads to such a one. -/
theorem removedFrom_iff (hg : graph.WellFormed) (hC : ∀ node ∈ nodesToClean, graph.contains node)
    {node : Node} (h : graph.contains node) :
    (∃ nodeToClean ∈ nodesToClean, RemovedFrom graph nodeToClean node.name) ↔
      Stale graph nodesToClean node ∨ UpstreamSub graph nodesToClean node := by
  constructor
  · rintro ⟨nodeToClean, hclean, stale, hstale, hname | ⟨c, hc, htype, hname, hreaches⟩⟩
    · refine .inl ⟨nodeToClean, hclean, ?_⟩
      have hcontains : graph.contains stale := by
        rcases reflTransGen_iff_eq_or_transGen.1 hstale with rfl | htrans
        · exact hC _ hclean
        · obtain ⟨_, -, hlast⟩ := TransGen.tail'_iff.1 htrans
          exact (hg.contains_of_connects hlast).2
      rw [DirectedGraph.eq_of_contains h hcontains hname]
      exact hstale
    · refine .inr ⟨c.toNode, ⟨c, hc, htype, ?_, rfl⟩, stale, ⟨nodeToClean, hclean, hstale⟩, hreaches⟩
      exact DirectedGraph.eq_of_contains (hg.fromNode c hc) h hname
  · rintro (⟨nodeToClean, hclean, hstale⟩ | ⟨_, ⟨c, hc, htype, rfl, rfl⟩, stale,
      ⟨nodeToClean, hclean, hstale⟩, hreaches⟩)
    · exact ⟨nodeToClean, hclean, node, hstale, .inl rfl⟩
    · exact ⟨nodeToClean, hclean, stale, hstale, .inr ⟨c, hc, htype, rfl, hreaches⟩⟩

theorem connects_of_subConnects {a b : Node} (h : SubConnects graph a b) : graph.Connects a b := by
  obtain ⟨c, hc, -, ha, hb⟩ := h
  exact ⟨c, hc, ha, hb⟩

/-- A path without main connections starts at a sub node of what leads on. -/
theorem upstreamSub_of_transGen {node stale : Node} (hstale : Stale graph nodesToClean stale)
    (h : TransGen (SubConnects graph) node stale) : UpstreamSub graph nodesToClean node := by
  obtain ⟨b, hb, hrest⟩ := TransGen.head'_iff.1 h
  exact ⟨b, hb, stale, hstale, ReflTransGen.mono (fun _ _ => connects_of_subConnects) _ _ hrest⟩

theorem cleanRunData_spec (hg : graph.WellFormed)
    (hC : ∀ node ∈ nodesToClean, graph.contains node) (runData : Dict String (List TaskData)) :
    ∃ newRunData, cleanRunData runData graph nodesToClean = .ok newRunData ∧
      (∀ nodeName, graph.nodes.get? nodeName = none → newRunData.get? nodeName = none) ∧
      ∀ node, graph.contains node →
        (Stale graph nodesToClean node ∨ UpstreamSub graph nodesToClean node →
          newRunData.get? node.name = none) ∧
        (¬ (Stale graph nodesToClean node ∨ UpstreamSub graph nodesToClean node) →
          newRunData.get? node.name = runData.get? node.name) := by
  obtain ⟨cleaned, hok, herased⟩ := Erased.foldlM
    (fun node hnode => cleanNodes_erased hg (hC node hnode)) runData
  refine ⟨cleaned.filterKeys graph.hasNode, ?_, fun nodeName hnone => ?_, fun node h => ?_⟩
  · unfold cleanRunData
    rw [hok]
    rfl
  · rw [Dict.get?_filterKeys]
    refine if_neg ?_
    simp [DirectedGraph.hasNode, hnone]
  · have hhas : graph.hasNode node.name = true := by
      rw [DirectedGraph.hasNode, DirectedGraph.contains_iff.1 h]
      rfl
    rw [Dict.get?_filterKeys, if_pos hhas, ← removedFrom_iff hg hC h]
    exact ⟨herased.gone node.name, herased.kept node.name⟩

/-- Exactly what is stale is removed where each node with data that is a sub node of what leads to
a stale node has a path without main connections to one. -/
theorem cleans_exactly_iff (hg : graph.WellFormed)
    (hC : ∀ node ∈ nodesToClean, graph.contains node) (runData : Dict String (List TaskData)) :
    ∃ newRunData, cleanRunData runData graph nodesToClean = .ok newRunData ∧
      (CleansExactly graph nodesToClean runData newRunData ↔
        ∀ node, graph.contains node → (runData.get? node.name).isSome →
          ¬ Stale graph nodesToClean node → UpstreamSub graph nodesToClean node →
            ∃ stale, Stale graph nodesToClean stale ∧ TransGen (SubConnects graph) node stale) := by
  obtain ⟨newRunData, hok, hnone, hnode⟩ := cleanRunData_spec hg hC runData
  refine ⟨newRunData, hok, fun hexact node h hsome hfresh hsub => ?_, fun hpath => ⟨?_, ?_⟩⟩
  · by_contra hnot
    have hkept := hexact.kept node.name ⟨node, DirectedGraph.contains_iff.1 h, hfresh, hnot⟩
    rw [(hnode node h).1 (.inr hsub)] at hkept
    rw [← hkept] at hsome
    cases hsome
  · rintro nodeName ⟨node, hget, hfresh, hnot⟩
    obtain rfl := hg.named _ _ hget
    have h := DirectedGraph.contains_iff.2 hget
    by_cases hsub : UpstreamSub graph nodesToClean node
    · rw [(hnode node h).1 (.inr hsub)]
      by_contra hne
      exact hnot (hpath node h (Option.isSome_iff_ne_none.2 (Ne.symm hne)) hfresh hsub)
    · exact (hnode node h).2 (not_or.2 ⟨hfresh, hsub⟩)
  · intro nodeName hfresh
    cases hget : graph.nodes.get? nodeName with
    | none => exact hnone nodeName hget
    | some node =>
      obtain rfl := hg.named _ _ hget
      refine (hnode node (DirectedGraph.contains_iff.2 hget)).1 ?_
      by_contra hgone
      obtain ⟨hstale, hsub⟩ := not_or.1 hgone
      exact hfresh ⟨node, hget, hstale, fun ⟨_, hstale, hpath⟩ =>
        hsub (upstreamSub_of_transGen hstale hpath)⟩

/-! ### A node with a sub node -/

/-- The model of the agent before a node, or that of the node. -/
def agentGraph (modelOf : Node) : DirectedGraph :=
  ((DirectedGraph.empty.addNodes [nodeNamed "Model", nodeNamed "Agent", nodeNamed "N"]).setConnection
    ⟨nodeNamed "Agent", nodeNamed "N", .main, 0, 0⟩).setConnection
    ⟨nodeNamed "Model", modelOf, .aiLanguageModel, 0, 0⟩

theorem agentGraph_wellFormed {modelOf : Node}
    (h : modelOf = nodeNamed "Agent" ∨ modelOf = nodeNamed "N") :
    (agentGraph modelOf).WellFormed := by
  have hg := DirectedGraph.wellFormed_empty.addNodes
    [nodeNamed "Model", nodeNamed "Agent", nodeNamed "N"] rfl
  rcases h with rfl | rfl
  · exact (hg.setConnection (by decide) (by decide)).setConnection (by decide) (by decide)
  · exact (hg.setConnection (by decide) (by decide)).setConnection (by decide) (by decide)

/-- A record for each of the nodes. -/
def agentRunData : Dict String (List TaskData) :=
  ((Dict.empty.set "Model" [{ executionIndex := 0 }]).set "Agent" [{ executionIndex := 1 }]).set "N"
    [{ executionIndex := 2 }]

/-- The model of `N` loses its data with it. -/
theorem model_cleaned_with_node : ∃ newRunData,
    cleanRunData agentRunData (agentGraph (nodeNamed "N")) [nodeNamed "N"] = .ok newRunData ∧
      CleansExactly (agentGraph (nodeNamed "N")) [nodeNamed "N"] agentRunData newRunData := by
  have hclean : ∀ node ∈ [nodeNamed "N"], (agentGraph (nodeNamed "N")).contains node := by decide
  obtain ⟨newRunData, hok, hiff⟩ :=
    cleans_exactly_iff (agentGraph_wellFormed (.inr rfl)) hclean agentRunData
  refine ⟨newRunData, hok, hiff.2 ?_⟩
  rintro node - - - ⟨b, ⟨c, hc, htype, rfl, rfl⟩, -⟩
  have hsub : ∀ c ∈ (agentGraph (nodeNamed "N")).values, c.type ≠ .main →
    c.toNode = nodeNamed "N" := by decide
  exact ⟨c.toNode, ⟨_, List.mem_singleton_self _, by rw [hsub c hc htype]⟩,
    .single ⟨c, hc, htype, rfl, rfl⟩⟩

/-- The model of a node before `N` has lost its data, though nothing leads from `N` to either. -/
theorem model_cleaned_upstream :
    (agentGraph (nodeNamed "Agent")).WellFormed ∧
      (∀ node ∈ [nodeNamed "N"], (agentGraph (nodeNamed "Agent")).contains node) ∧
      ¬ ∃ newRunData, cleanRunData agentRunData (agentGraph (nodeNamed "Agent")) [nodeNamed "N"] =
          .ok newRunData ∧
        CleansExactly (agentGraph (nodeNamed "Agent")) [nodeNamed "N"] agentRunData newRunData := by
  refine ⟨agentGraph_wellFormed (.inl rfl), by decide, ?_⟩
  rintro ⟨newRunData, hok, hexact⟩
  have hgone : ∃ d, cleanRunData agentRunData (agentGraph (nodeNamed "Agent")) [nodeNamed "N"] =
      .ok d ∧ d.get? "Model" = none := ⟨_, rfl, by decide⟩
  obtain ⟨d, hd, hnone⟩ := hgone
  obtain rfl := Except.ok.inj (hok.symm.trans hd)
  -- nothing goes on from `N`, and over the model's connection only `Agent` is reached
  have hlast : ∀ c ∈ (agentGraph (nodeNamed "Agent")).values, c.fromNode ≠ nodeNamed "N" := by
    decide
  have hmodel : ∀ c ∈ (agentGraph (nodeNamed "Agent")).values, c.type ≠ .main →
      c.fromNode ≠ nodeNamed "Agent" ∧ c.toNode = nodeNamed "Agent" := by decide
  have hstale : ∀ node, Stale (agentGraph (nodeNamed "Agent")) [nodeNamed "N"] node →
      node = nodeNamed "N" := by
    rintro node ⟨_, hmem, hreaches⟩
    obtain rfl := List.mem_singleton.1 hmem
    induction hreaches with
    | refl => rfl
    | tail _ hconnects ih =>
      obtain ⟨c, hc, hfrom, -⟩ := hconnects
      exact absurd (hfrom.trans ih) (hlast c hc)
  have hkept := hexact.kept "Model" ⟨nodeNamed "Model", by decide,
    fun h => absurd (hstale _ h) (by decide), fun ⟨stale, hs, hpath⟩ => ?_⟩
  · rw [hnone] at hkept
    exact absurd hkept (by decide)
  · obtain ⟨_, -, c, hc, htype, -, hto⟩ := TransGen.tail'_iff.1 hpath
    rw [hstale stale hs, (hmodel c hc htype).2] at hto
    exact absurd hto (by decide)

end N8n
