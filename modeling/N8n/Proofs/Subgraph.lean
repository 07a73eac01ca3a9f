import Mathlib.Logic.Relation
import Mathlib.Tactic
import N8n.Library.Branches
import N8n.Library.Fallible
import N8n.Proofs.CleanRunData

/-!
# The part between trigger and destination

The search for the subgraph keeps each branch that comes to the trigger and each that closes a
cycle, whether or not the trigger leads to that cycle. Afterwards what is connected by other than
main connections is added for all that leads to a node of the subgraph, its parents' sub nodes too.
-/

namespace N8n

open Relation DepthFirst Branches Fallible

namespace DirectedGraph

variable {g : DirectedGraph}

/-! ## Graphs that grow -/

/-- All of the graph is part of the other. -/
structure PartOf (g subgraph : DirectedGraph) : Prop where
  nodes : ∀ n node, subgraph.nodes.get? n = some node → g.nodes.get? n = some node
  values : ∀ c ∈ subgraph.values, c ∈ g.values

/-- The graph has these nodes and these connections in addition, and stays part of the other. -/
structure Grows (g subgraph subgraph' : DirectedGraph) (P : Node → Prop)
    (Q : GraphConnection → Prop) : Prop where
  part : PartOf g subgraph'
  nodes : ∀ node, subgraph'.contains node ↔ subgraph.contains node ∨ P node
  values : ∀ c, c ∈ subgraph'.values ↔ c ∈ subgraph.values ∨ Q c

namespace Grows

variable {s s' s'' : DirectedGraph} {P P' : Node → Prop} {Q Q' : GraphConnection → Prop}

theorem refl (h : PartOf g s) : Grows g s s (fun _ => False) fun _ => False :=
  ⟨h, fun _ => by simp, fun _ => by simp⟩

theorem trans (h : Grows g s s' P Q) (h' : Grows g s' s'' P' Q') :
    Grows g s s'' (fun node => P node ∨ P' node) fun c => Q c ∨ Q' c :=
  ⟨h'.part, fun node => by rw [h'.nodes, h.nodes, or_assoc],
    fun c => by rw [h'.values, h.values, or_assoc]⟩

theorem congr (h : Grows g s s' P Q) (hP : ∀ node, P node ↔ P' node) (hQ : ∀ c, Q c ↔ Q' c) :
    Grows g s s' P' Q' :=
  ⟨h.part, fun node => by rw [h.nodes, hP], fun c => by rw [h.values, hQ]⟩

/-- A loop whose turns let the graph grow. -/
theorem foldlM {β : Type} {f : DirectedGraph → β → Except String DirectedGraph}
    {R : β → Node → Prop} {T : β → GraphConnection → Prop} : ∀ {xs : List β},
    (∀ x ∈ xs, ∀ s, PartOf g s → ∃ s', f s x = .ok s' ∧ Grows g s s' (R x) (T x)) →
    ∀ {s}, PartOf g s → ∃ s', xs.foldlM f s = .ok s' ∧
      Grows g s s' (fun node => ∃ x ∈ xs, R x node) fun c => ∃ x ∈ xs, T x c
  | [], _, s, hs => ⟨s, rfl, (refl hs).congr (fun _ => by simp) fun _ => by simp⟩
  | x :: xs, h, s, hs => by
    obtain ⟨s', hs', hx⟩ := h x List.mem_cons_self s hs
    obtain ⟨s'', hs'', hxs⟩ := foldlM (fun y hy => h y (List.mem_cons_of_mem _ hy)) hx.part
    refine ⟨s'', ?_, (hx.trans hxs).congr (fun node => by simp) fun c => by simp⟩
    rw [List.foldlM_cons, hs']
    exact hs''

end Grows

theorem PartOf.contains {s : DirectedGraph} (h : PartOf g s) {node : Node} (hs : s.contains node) :
    g.contains node := contains_iff.2 (h.nodes _ _ (contains_iff.1 hs))

theorem PartOf.mem_nodeList (hg : g.WellFormed) {s : DirectedGraph} (h : PartOf g s) {node : Node} :
    node ∈ s.nodeList ↔ s.contains node := by
  refine ⟨fun hnode => ?_, mem_nodeList_of_contains⟩
  obtain ⟨⟨n, node⟩, hentry, rfl⟩ := List.mem_map.1 hnode
  have hget := Dict.mem_entries.1 hentry
  rw [contains_iff, hg.named _ _ (h.nodes _ _ hget)]
  exact hget

theorem partOf_empty : PartOf g .empty :=
  ⟨fun _ _ h => (by cases h), fun _ h => absurd h List.not_mem_nil⟩

/-- A node of the graph is added. -/
theorem addNode_grows {s : DirectedGraph} (h : PartOf g s) {node : Node} (hnode : g.contains node) :
    Grows g s (s.addNode node) (· = node) fun _ => False := by
  have hget : ∀ n, (s.addNode node).nodes.get? n =
      if n = node.name then some node else s.nodes.get? n := fun n => Dict.get?_set _ _ _ _
  refine ⟨⟨fun n node' hn => ?_, h.values⟩, fun node' => ?_, fun c => (or_false _).symm.to_iff⟩
  · rw [hget] at hn
    split_ifs at hn with hname
    · rw [hname, ← Option.some.inj hn]
      exact contains_iff.1 hnode
    · exact h.nodes n node' hn
  · rw [contains_iff, hget]
    split_ifs with hname
    · constructor
      · exact fun heq => .inr (Option.some.inj heq).symm
      · rintro (hs | rfl)
        · rw [eq_of_contains (h.contains hs) hnode hname]
        · rfl
    · rw [← contains_iff]
      exact (or_iff_left fun heq => hname (congrArg _ heq)).symm

/-- A connection of the graph is added with its nodes. -/
theorem keepConnection_grows (hg : g.WellFormed) {s : DirectedGraph} (h : PartOf g s)
    {c : GraphConnection} (hc : c ∈ g.values) : ∃ s', keepConnection s c = .ok s' ∧
      Grows g s s' (fun node => node = c.fromNode ∨ node = c.toNode) (· = c) := by
  have hfrom := addNode_grows h (hg.fromNode c hc)
  have hends := hfrom.trans (addNode_grows hfrom.part (hg.toNode c hc))
  have hkeys : ∀ c' ∈ ((s.addNode c.fromNode).addNode c.toNode).values,
      makeKey c' = makeKey c → c' = c := fun c' hc' hkey =>
    distinctKeys_values g c' c (hends.part.values c' hc') hc hkey
  have hvalues := fun x => mem_values_setConnection hkeys (x := x)
  refine ⟨_, if_pos ⟨(hends.nodes _).2 (.inr (.inl rfl)), (hends.nodes _).2 (.inr (.inr rfl))⟩,
    ⟨hends.part.nodes, fun x hx => ?_⟩, hends.nodes, fun x => ?_⟩
  · rcases (hvalues x).1 hx with rfl | hx
    · exact hc
    · exact hends.part.values x hx
  · exact (hvalues x).trans or_comm

theorem keepBranch_grows (hg : g.WellFormed) {s : DirectedGraph} (h : PartOf g s)
    {cs : List GraphConnection} (hcs : cs ⊆ g.values) : ∃ s', cs.foldlM keepConnection s = .ok s' ∧
      Grows g s s' (fun node => ∃ c ∈ cs, node = c.fromNode ∨ node = c.toNode) (· ∈ cs) := by
  have hturn : ∀ c ∈ cs, ∀ s, PartOf g s → ∃ s', keepConnection s c = .ok s' ∧
      Grows g s s' (fun node => node = c.fromNode ∨ node = c.toNode) (· = c) := fun c hc s hs =>
    keepConnection_grows hg hs (hcs hc)
  obtain ⟨s', hs', hgrows⟩ := Grows.foldlM hturn h
  exact ⟨s', hs', hgrows.congr (fun _ => .rfl) fun c => by simp⟩

/-! ## The search -/

section Search

variable {destination trigger : Node}

variable (g) in
/-- A main connection of the graph. -/
def IsMain (c : GraphConnection) : Prop := c ∈ g.values ∧ c.type = .main

variable (g destination trigger) in
/-- The branches that the search keeps beyond a node. -/
abbrev KeepsBranch : Node → List GraphConnection → List GraphConnection → Prop :=
  Keeps (·.fromNode) (·.toNode) (IsMain g) destination trigger

variable (g destination trigger) in
/-- What the search adds beyond a node. -/
def Found (current : Node) (branch : List GraphConnection) (s s' : DirectedGraph) : Prop :=
  Grows g s s' (fun node => ∃ b, KeepsBranch g destination trigger current branch b ∧
      On (·.fromNode) (·.toNode) trigger b node)
    fun c => ∃ b, KeepsBranch g destination trigger current branch b ∧ c ∈ b

/-- Where the branch itself is kept, it is all that is found. -/
theorem found_of_forall_eq {current : Node} {branch : List GraphConnection} {s s' : DirectedGraph}
    (h : ∀ b, KeepsBranch g destination trigger current branch b ↔ b = branch)
    (hgrows : Grows g s s' (On (·.fromNode) (·.toNode) trigger branch) (· ∈ branch)) :
    Found g destination trigger current branch s s' := by
  refine hgrows.congr (fun node => ?_) fun c => ?_
  · simp only [h, exists_eq_left]
  · simp only [h, exists_eq_left]

theorem found_of_forall_not {current : Node} {branch : List GraphConnection} {s : DirectedGraph}
    (hs : PartOf g s) (h : ∀ b, ¬ KeepsBranch g destination trigger current branch b) :
    Found g destination trigger current branch s s := by
  refine (Grows.refl hs).congr (fun node => ?_) fun c => ?_
  · simp only [h, false_and, exists_false]
  · simp only [h, false_and, exists_false]

/-- Past a node that is new, the search goes over its main connections. -/
theorem keepsBranch_iff {current : Node} {branch b : List GraphConnection}
    (htrigger : current ≠ trigger) (hnew : current ∉ branch.map (·.toNode)) :
    KeepsBranch g destination trigger current branch b ↔
      ∃ c ∈ g.values.filter (·.toNode = current), c.type = .main ∧
        KeepsBranch g destination trigger c.fromNode (branch ++ [c]) b := by
  constructor
  · intro h
    cases h with
    | stopped => exact absurd rfl htrigger
    | closed _ _ hmem => exact absurd hmem hnew
    | further _ _ hc htgt hkeeps =>
      exact ⟨_, List.mem_filter.2 ⟨hc.1, by simpa using htgt⟩, hc.2, hkeeps⟩
  · rintro ⟨c, hc, hmain, hkeeps⟩
    obtain ⟨hc, htgt⟩ := List.mem_filter.1 hc
    exact .further htrigger hnew ⟨hc, hmain⟩ (by simpa using htgt) hkeeps

/-- The turns of the loop over the parents of a node that is new. -/
theorem foldlM_found {depth : ℕ} {current : Node} {branch : List GraphConnection}
    (htrigger : current ≠ trigger) (hnew : current ∉ branch.map (·.toNode))
    (hrec : ∀ c ∈ g.values.filter (·.toNode = current), c.type = .main → ∀ s, PartOf g s → ∃ s',
      findSubgraphRecursive g destination trigger depth c.fromNode s (branch ++ [c]) = .ok s' ∧
        Found g destination trigger c.fromNode (branch ++ [c]) s s')
    {s : DirectedGraph} (hs : PartOf g s) :
    ∃ s', (g.values.filter (·.toNode = current)).foldlM (fun s c =>
        if c.type ≠ .main then .ok s
        else findSubgraphRecursive g destination trigger depth c.fromNode s (branch ++ [c])) s =
          .ok s' ∧ Found g destination trigger current branch s s' := by
  have hturn : ∀ c ∈ g.values.filter (·.toNode = current), ∀ s, PartOf g s → ∃ s',
      (if c.type ≠ .main then .ok s
        else findSubgraphRecursive g destination trigger depth c.fromNode s (branch ++ [c])) =
          Except.ok s' ∧
        Grows g s s' (fun node => ∃ b, (c.type = .main ∧
            KeepsBranch g destination trigger c.fromNode (branch ++ [c]) b) ∧
            On (·.fromNode) (·.toNode) trigger b node)
          fun x => ∃ b, (c.type = .main ∧
            KeepsBranch g destination trigger c.fromNode (branch ++ [c]) b) ∧ x ∈ b := by
    intro c hc s hs
    by_cases hmain : c.type = .main
    · obtain ⟨s', hs', hfound⟩ := hrec c hc hmain s hs
      refine ⟨s', by rw [if_neg (not_not.2 hmain), hs'], ?_⟩
      unfold Found at hfound
      simpa only [hmain, true_and] using hfound
    · refine ⟨s, if_pos hmain, (Grows.refl hs).congr (fun node => ?_) fun x => ?_⟩
      · simp only [hmain, false_and, exists_false]
      · simp only [hmain, false_and, exists_false]
  obtain ⟨s', hs', hgrows⟩ := Grows.foldlM hturn hs
  have hcomm : ∀ {p : List GraphConnection → Prop},
      (∃ c ∈ g.values.filter (·.toNode = current), ∃ b, (c.type = .main ∧
        KeepsBranch g destination trigger c.fromNode (branch ++ [c]) b) ∧ p b) ↔
      ∃ b, KeepsBranch g destination trigger current branch b ∧ p b := by
    intro p
    simp only [keepsBranch_iff htrigger hnew]
    constructor
    · rintro ⟨c, hc, b, hkeeps, hp⟩
      exact ⟨b, ⟨c, hc, hkeeps⟩, hp⟩
    · rintro ⟨b, ⟨c, hc, hkeeps⟩, hp⟩
      exact ⟨c, hc, b, hkeeps, hp⟩
  exact ⟨s', hs', hgrows.congr (fun _ => hcomm) fun _ => hcomm⟩

theorem findSubgraphRecursive_spec (hg : g.WellFormed) (htrigger : g.contains trigger) :
    ∀ (depth : ℕ) (current : Node) (s : DirectedGraph) (branch : List GraphConnection),
    g.contains current → branch ⊆ g.values →
    (branch ≠ [] → ∃ c ∈ branch, c.fromNode = current) →
    remaining g.nodeList (branch.map (·.toNode)) < depth → PartOf g s →
    ∃ s', findSubgraphRecursive g destination trigger depth current s branch = .ok s' ∧
      Found g destination trigger current branch s s'
  | 0, _, _, _, _, _, _, hdepth, _ => absurd hdepth (Nat.not_lt_zero _)
  | depth + 1, current, s, branch, hcurrent, hbranch, hlast, hdepth, hs => by
    rw [findSubgraphRecursive]
    by_cases hstop : current = trigger
    · -- the branch is complete
      have hkeeps : ∀ b, KeepsBranch g destination trigger current branch b ↔ b = branch := by
        refine fun b => ⟨fun h => ?_, fun h => ?_⟩
        · cases h with
          | stopped => rfl
          | closed hne => exact absurd hstop hne
          | further hne => exact absurd hstop hne
        · rw [h, hstop]
          exact .stopped branch
      have hadd := addNode_grows hs htrigger
      obtain ⟨s', hs', hgrows⟩ := keepBranch_grows hg hadd.part hbranch
      refine ⟨s', (if_pos hstop).trans hs', found_of_forall_eq hkeeps
        ((hadd.trans hgrows).congr (fun node => ?_) fun c => by simp)⟩
      refine ⟨?_, ?_⟩
      · rintro (rfl | hends)
        · by_cases hb : branch = []
          · exact .inl ⟨hb, rfl⟩
          · obtain ⟨c, hc, hfrom⟩ := hlast hb
            exact .inr ⟨c, hc, .inl (hfrom.trans hstop).symm⟩
        · exact .inr hends
      · rintro (⟨-, rfl⟩ | hends)
        · exact .inl rfl
        · exact .inr hends
    rw [if_neg hstop, getDirectParentConnections_eq hcurrent]
    by_cases hnone : g.values.filter (·.toNode = current) = []
    · have hno : ∀ c ∈ g.values, c.toNode ≠ current := fun c hc hto => by
        have hmem : c ∈ g.values.filter (·.toNode = current) :=
          List.mem_filter.2 ⟨hc, decide_eq_true hto⟩
        rw [hnone] at hmem
        cases hmem
      refine ⟨s, if_pos hnone, found_of_forall_not hs fun b h => ?_⟩
      cases h with
      | stopped => exact hstop rfl
      | closed _ _ hmem =>
        obtain ⟨c, hc, hto⟩ := List.mem_map.1 hmem
        exact hno c (hbranch hc) hto
      | further _ _ hc hto => exact hno _ hc.1 hto
    by_cases hagain : current = destination ∧ destination ∈ branch.map (·.toNode)
    · refine ⟨s, (if_neg hnone).trans (if_pos hagain), found_of_forall_not hs fun b h => ?_⟩
      cases h with
      | stopped => exact hstop rfl
      | closed _ hne => exact hne hagain.1
      | further _ hnew => exact hnew (hagain.1 ▸ hagain.2)
    by_cases hclosed : current ∈ branch.map (·.toNode)
    · have hkeeps : ∀ b, KeepsBranch g destination trigger current branch b ↔ b = branch := by
        refine fun b => ⟨fun h => ?_, fun h => ?_⟩
        · cases h with
          | stopped => rfl
          | closed => rfl
          | further _ hnew => exact absurd hclosed hnew
        · rw [h]
          exact .closed hstop (fun heq => hagain ⟨heq, heq ▸ hclosed⟩) hclosed
      have hb : branch ≠ [] := fun hnil => by simp [hnil] at hclosed
      obtain ⟨s', hs', hgrows⟩ := keepBranch_grows hg hs hbranch
      refine ⟨s', (if_neg hnone).trans ((if_neg hagain).trans ((if_pos hclosed).trans hs')),
        found_of_forall_eq hkeeps (hgrows.congr (fun node => ?_) fun _ => .rfl)⟩
      exact (or_iff_right fun h => hb h.1).symm
    · have hdepth' := remaining_lt (mem_nodeList_of_contains hcurrent) hclosed
      obtain ⟨s', hs', hfound⟩ := foldlM_found hstop hclosed (fun c hc _ s hs =>
        findSubgraphRecursive_spec hg htrigger depth c.fromNode s (branch ++ [c])
          (hg.fromNode c (List.mem_of_mem_filter hc))
          (List.append_subset.2 ⟨hbranch, by simpa using (List.mem_filter.1 hc).1⟩)
          (fun _ => ⟨c, by simp, rfl⟩) (by
            have hto : c.toNode = current := by simpa using (List.mem_filter.1 hc).2
            rw [List.map_append, List.map_singleton, hto]
            omega) hs) hs
      exact ⟨s', (if_neg hnone).trans ((if_neg hagain).trans ((if_neg hclosed).trans hs')), hfound⟩

/-- A search that may go deeper than there are nodes left does not go deeper still. -/
theorem findSubgraphRecursive_succ (hg : g.WellFormed) : ∀ (depth : ℕ) (current : Node)
    (s : DirectedGraph) (branch : List GraphConnection), g.contains current →
    remaining g.nodeList (branch.map (·.toNode)) < depth →
    findSubgraphRecursive g destination trigger (depth + 1) current s branch =
      findSubgraphRecursive g destination trigger depth current s branch
  | 0, _, _, _, _, hdepth => absurd hdepth (Nat.not_lt_zero _)
  | depth + 1, current, s, branch, hcurrent, hdepth => by
    rw [findSubgraphRecursive, findSubgraphRecursive]
    by_cases hclosed : current ∈ branch.map (·.toNode)
    · simp only [hclosed, if_true]
    have hdepth' := remaining_lt (mem_nodeList_of_contains hcurrent) hclosed
    have hturn : ∀ s, ∀ c ∈ g.values.filter (·.toNode = current),
        (if c.type ≠ .main then Except.ok s
          else findSubgraphRecursive g destination trigger (depth + 1) c.fromNode s
            (branch ++ [c])) =
        if c.type ≠ .main then Except.ok s
          else findSubgraphRecursive g destination trigger depth c.fromNode s (branch ++ [c]) := by
      intro s c hc
      have hto : c.toNode = current := by simpa using (List.mem_filter.1 hc).2
      rw [findSubgraphRecursive_succ hg depth c.fromNode s (branch ++ [c])
        (hg.fromNode c (List.mem_of_mem_filter hc))]
      rw [List.map_append, List.map_singleton, hto]
      omega
    have hturns := Fallible.foldlM_congr hturn s
    by_cases hstop : current = trigger
    · rw [if_pos hstop, if_pos hstop]
    rw [if_neg hstop, if_neg hstop, getDirectParentConnections_eq hcurrent]
    exact if_congr Iff.rfl rfl (if_congr Iff.rfl rfl
      ((if_neg hclosed).trans (hturns.trans (if_neg hclosed).symm)))

end Search

/-! ## Walks -/

section Walks

variable (g) (destination trigger : Node)

/-- A walk of main connections from the trigger to the destination, which visits the trigger only at
its start and the destination only at its end. -/
structure IsWalk (walk : List GraphConnection) : Prop where
  path : IsPath (·.fromNode) (·.toNode) trigger walk destination
  main : ∀ c ∈ walk, c ∈ g.values ∧ c.type = .main
  trigger : ∀ c ∈ walk, c.toNode ≠ trigger
  destination : ∀ c ∈ walk, c.fromNode ≠ destination

/-- The node lies on such a walk. -/
def OnWalk (node : Node) : Prop :=
  ∃ walk, IsWalk g destination trigger walk ∧ (node = trigger ∨ ∃ c ∈ walk, c.toNode = node)

/-- A path without main connections leads from the node to one on a walk. -/
def SubOfWalk (node : Node) : Prop :=
  ∃ main, OnWalk g destination trigger main ∧ ReflTransGen (SubConnects g) node main

/-- Exactly the nodes of the walks and their sub nodes are in the subgraph, with all connections of
the walks. -/
structure IsExact (subgraph : DirectedGraph) : Prop where
  nodes : ∀ node, subgraph.contains node ↔
    OnWalk g destination trigger node ∨ SubOfWalk g destination trigger node
  connections : ∀ walk, IsWalk g destination trigger walk → walk ⊆ subgraph.values

/-- It leads to the destination, and a cycle leads to it, on main connections that neither leave the
destination nor enter the trigger. -/
def OnLoop (node : Node) : Prop :=
  ReflTransGen (Joins (·.fromNode) (·.toNode) (IsMain g) destination trigger) node destination ∧
    ∃ x, TransGen (Joins (·.fromNode) (·.toNode) (IsMain g) destination trigger) x x ∧
      ReflTransGen (Joins (·.fromNode) (·.toNode) (IsMain g) destination trigger) x node

end Walks

section

variable {destination trigger : Node}

theorem IsWalk.inner {walk : List GraphConnection} (h : IsWalk g destination trigger walk) :
    ∀ c ∈ walk, Inner (·.fromNode) (·.toNode) (IsMain g) destination trigger c :=
  fun c hc => ⟨h.main c hc, h.destination c hc, h.trigger c hc⟩

theorem isWalk_of_isPath {walk : List GraphConnection}
    (hpath : IsPath (·.fromNode) (·.toNode) trigger walk destination)
    (hinner : ∀ c ∈ walk, Inner (·.fromNode) (·.toNode) (IsMain g) destination trigger c) :
    IsWalk g destination trigger walk :=
  ⟨hpath, fun c hc => (hinner c hc).1, fun c hc => (hinner c hc).2.2,
    fun c hc => (hinner c hc).2.1⟩

/-- The trigger leads to the nodes of the walks, and they lead to the destination. -/
theorem onWalk_iff {node : Node} : OnWalk g destination trigger node ↔
    ReflTransGen (Joins (·.fromNode) (·.toNode) (IsMain g) destination trigger) trigger node ∧
      ReflTransGen (Joins (·.fromNode) (·.toNode) (IsMain g) destination trigger) node
        destination := by
  constructor
  · rintro ⟨walk, hwalk, rfl | ⟨c, hc, rfl⟩⟩
    · exact ⟨.refl, hwalk.path.joins hwalk.inner⟩
    · obtain ⟨hto, hfrom⟩ := hwalk.path.joins_of_mem hwalk.inner c hc
      exact ⟨hto.tail ⟨c, hwalk.inner c hc, rfl, rfl⟩, hfrom⟩
  · rintro ⟨hto, hfrom⟩
    obtain ⟨cs, hcs, hinner⟩ := exists_isPath hto
    obtain ⟨cs', hcs', hinner'⟩ := exists_isPath hfrom
    refine ⟨cs ++ cs', isWalk_of_isPath (hcs.append hcs') fun c hc =>
      (List.mem_append.1 hc).elim (hinner c) (hinner' c), hcs.mem.imp_right ?_⟩
    exact fun ⟨c, hc, hnode⟩ => ⟨c, List.mem_append_left cs' hc, hnode⟩

end

/-! ## Sub nodes -/

section

variable {destination trigger node : Node}

/-- What is on a walk, or a sub node of what is, leads to a walk. -/
theorem exists_leads (h : OnWalk g destination trigger node ∨ SubOfWalk g destination trigger node) :
    ∃ main, OnWalk g destination trigger main ∧ ReflTransGen g.Connects node main := by
  rcases h with h | ⟨main, hmain, hpath⟩
  · exact ⟨node, h, .refl⟩
  · exact ⟨main, hmain, ReflTransGen.mono (fun _ _ => connects_of_subConnects) _ _ hpath⟩

theorem subOfWalk_of_connection {c : GraphConnection} (hc : c ∈ g.values) (hsub : c.type ≠ .main)
    (h : OnWalk g destination trigger c.toNode ∨ SubOfWalk g destination trigger c.toNode) :
    SubOfWalk g destination trigger c.fromNode := by
  rcases h with h | ⟨main, hmain, hpath⟩
  · exact ⟨c.toNode, h, .single ⟨c, hc, hsub, rfl, rfl⟩⟩
  · exact ⟨main, hmain, .head ⟨c, hc, hsub, rfl, rfl⟩ hpath⟩

end

theorem keepSubNodes_grows (hg : g.WellFormed) {s : DirectedGraph} (h : PartOf g s) {node : Node}
    (hnode : g.contains node) : ∃ s', keepSubNodes g s node = .ok s' ∧
      Grows g s s' (fun x => ∃ c ∈ g.values, c.type ≠ .main ∧
          ReflTransGen g.Connects c.toNode node ∧ (x = c.fromNode ∨ x = c.toNode))
        fun c => c ∈ g.values ∧ c.type ≠ .main ∧ ReflTransGen g.Connects c.toNode node := by
  obtain ⟨connections, hok, hmem⟩ := hg.getParentConnections_eq hnode
  have hsub : connections.filter (·.type ≠ .main) ⊆ g.values := fun c hc =>
    ((hmem c).1 (List.mem_of_mem_filter hc)).1
  obtain ⟨s', hs', hgrows⟩ := keepBranch_grows hg h hsub
  have hiff : ∀ c, c ∈ connections.filter (·.type ≠ .main) ↔
      c ∈ g.values ∧ c.type ≠ .main ∧ ReflTransGen g.Connects c.toNode node := by
    intro c
    rw [List.mem_filter, hmem, decide_eq_true_iff]
    tauto
  refine ⟨s', ?_, hgrows.congr (fun x => ?_) hiff⟩
  · unfold keepSubNodes
    rw [hok]
    exact hs'
  · simp only [hiff, and_assoc]

/-- What the subgraph has in the end. -/
theorem findSubgraph_spec (hg : g.WellFormed) {destination trigger : Node}
    (hdestination : g.contains destination) (htrigger : g.contains trigger) :
    ∃ subgraph, findSubgraph g destination trigger = .ok subgraph ∧
      (∀ node, subgraph.contains node ↔
        (OnWalk g destination trigger node ∨ OnLoop g destination trigger node) ∨
          ∃ kept, (OnWalk g destination trigger kept ∨ OnLoop g destination trigger kept) ∧
            ∃ c ∈ g.values, c.type ≠ .main ∧ ReflTransGen g.Connects c.toNode kept ∧
              (node = c.fromNode ∨ node = c.toNode)) ∧
      ∀ walk, IsWalk g destination trigger walk → walk ⊆ subgraph.values := by
  have hwhole : ∀ c, IsMain g c → c.toNode ∈ g.nodeList := fun c hc =>
    mem_nodeList_of_contains (hg.toNode c hc.1)
  obtain ⟨s, hs, hpart, hnodes, hvalues⟩ : ∃ s, findSubgraphRecursive g destination trigger
      (g.nodeList.length + 1) destination .empty [] = .ok s ∧
        Found g destination trigger destination [] .empty s :=
    findSubgraphRecursive_spec hg htrigger _ destination .empty [] hdestination
      (List.nil_subset _) (fun h => absurd rfl h) (Nat.lt_succ_of_le (List.length_filter_le _ _))
      partOf_empty
  have hkept : ∀ node, s.contains node ↔
      OnWalk g destination trigger node ∨ OnLoop g destination trigger node := by
    intro node
    have hempty : ¬ DirectedGraph.empty.contains node := by simp [contains_iff, DirectedGraph.empty]
    rw [hnodes, or_iff_right hempty, exists_keeps_node_iff hwhole, onWalk_iff]
    unfold Entered OnLoop
    tauto
  obtain ⟨s', hs', -, hnodes', hvalues'⟩ := @Grows.foldlM g Node (keepSubNodes g) _ _
    s.nodeList (fun node hnode s' hs' =>
      keepSubNodes_grows hg hs' (hpart.contains ((hpart.mem_nodeList hg).1 hnode))) s hpart
  refine ⟨s', bind_eq_ok.2 ⟨s, hs, hs'⟩, fun node => ?_, fun walk hwalk c hc => ?_⟩
  · simp only [hnodes', hpart.mem_nodeList hg, hkept]
  · refine (hvalues' c).2 (.inl ((hvalues c).2 (.inr ?_)))
    obtain ⟨hto, hfrom⟩ := hwalk.path.joins_of_mem hwalk.inner c hc
    exact (exists_keeps_edge_iff hwhole).2 ⟨hwalk.inner c hc, hfrom, .inl hto⟩

/-- The subgraph is exact if each node that is kept for a cycle lies on a walk or is a sub node of
one that does, and if so does each node that leads to a walk and has a sub node. The search ends
however deep it may go. -/
theorem findSubgraph_exact_iff (hg : g.WellFormed) {destination trigger : Node}
    (hdestination : g.contains destination) (htrigger : g.contains trigger) :
    ∃ subgraph, findSubgraph g destination trigger = .ok subgraph ∧
      (∀ depth, g.nodeList.length < depth →
        findSubgraphRecursive g destination trigger depth destination .empty [] =
          findSubgraphRecursive g destination trigger (g.nodeList.length + 1) destination .empty
            []) ∧
      (IsExact g destination trigger subgraph ↔
        (∀ node, OnLoop g destination trigger node →
          OnWalk g destination trigger node ∨ SubOfWalk g destination trigger node) ∧
        ∀ c ∈ g.values, c.type ≠ .main → ∀ main, OnWalk g destination trigger main →
          ReflTransGen g.Connects c.toNode main →
          OnWalk g destination trigger c.toNode ∨ SubOfWalk g destination trigger c.toNode) := by
  obtain ⟨subgraph, hok, hnodes, hwalks⟩ := findSubgraph_spec hg hdestination htrigger
  refine ⟨subgraph, hok, fun depth hdepth => ?_, fun hexact => ⟨fun node hloop => ?_,
    fun c hc hsub main hmain hleads => ?_⟩, fun ⟨hloops, hsubs⟩ => ⟨fun node => ?_, hwalks⟩⟩
  · induction depth, hdepth using Nat.le_induction with
    | base => rfl
    | succ depth hdepth ih =>
      rw [findSubgraphRecursive_succ hg depth destination .empty [] hdestination
        (Nat.lt_of_le_of_lt (List.length_filter_le _ _) hdepth), ih]
  · exact (hexact.nodes node).1 ((hnodes node).2 (.inl (.inr hloop)))
  · exact (hexact.nodes c.toNode).1 ((hnodes _).2 (.inr ⟨main, .inl hmain, c, hc, hsub, hleads,
      .inr rfl⟩))
  · rw [hnodes]
    constructor
    · rintro ((hwalk | hloop) | ⟨kept, hkept, c, hc, hsub, hleads, hend⟩)
      · exact .inl hwalk
      · exact hloops node hloop
      · have hkept : OnWalk g destination trigger kept ∨ SubOfWalk g destination trigger kept :=
          hkept.elim .inl (hloops kept)
        obtain ⟨main, hmain, hpath⟩ := exists_leads hkept
        have hto := hsubs c hc hsub main hmain (hleads.trans hpath)
        rcases hend with rfl | rfl
        · exact .inr (subOfWalk_of_connection hc hsub hto)
        · exact hto
    · rintro (hwalk | ⟨main, hmain, hpath⟩)
      · exact .inl (.inl hwalk)
      · rcases ReflTransGen.cases_head hpath with rfl | ⟨y, ⟨c, hc, hsub, rfl, rfl⟩, hrest⟩
        · exact .inl (.inl hmain)
        · exact .inr ⟨main, .inl hmain, c, hc, hsub, ReflTransGen.mono
            (fun _ _ => connects_of_subConnects) _ _ hrest, .inl rfl⟩

/-! ### A model of another branch -/

/-- The trigger is connected to the destination. -/
def toDestination : GraphConnection := ⟨nodeNamed "T", nodeNamed "D", .main, 0, 0⟩

/-- An agent with a model is connected to the destination as well. -/
def otherBranch : DirectedGraph :=
  (((addNodes .empty [nodeNamed "T", nodeNamed "D", nodeNamed "Agent",
    nodeNamed "Model"]).setConnection toDestination).setConnection
      ⟨nodeNamed "Agent", nodeNamed "D", .main, 0, 0⟩).setConnection
      ⟨nodeNamed "Model", nodeNamed "Agent", .aiLanguageModel, 0, 0⟩

theorem otherBranch_wellFormed : otherBranch.WellFormed :=
  (((wellFormed_empty.addNodes [nodeNamed "T", nodeNamed "D", nodeNamed "Agent", nodeNamed "Model"]
    rfl).setConnection (by decide) (by decide)).setConnection (by decide) (by decide)).setConnection
      (by decide) (by decide)

/-- The agent is in the subgraph, though the trigger does not lead to it. -/
theorem otherBranch_not_exact : otherBranch.WellFormed ∧ ∃ subgraph,
    findSubgraph otherBranch (nodeNamed "D") (nodeNamed "T") = .ok subgraph ∧
      ¬ IsExact otherBranch (nodeNamed "D") (nodeNamed "T") subgraph := by
  refine ⟨otherBranch_wellFormed, _, rfl, fun hexact => ?_⟩
  have hnot : ¬ OnWalk otherBranch (nodeNamed "D") (nodeNamed "T") (nodeNamed "Agent") := by
    rintro ⟨walk, hwalk, hnode | ⟨c, hc, hto⟩⟩
    · exact absurd hnode (by decide)
    · have hno : ∀ c ∈ otherBranch.values, c.type = .main → c.toNode ≠ nodeNamed "Agent" := by
        decide
      exact hno c (hwalk.main c hc).1 (hwalk.main c hc).2 hto
  rcases (hexact.nodes (nodeNamed "Agent")).1 (by decide) with h | ⟨main, hmain, hpath⟩
  · exact hnot h
  · rcases ReflTransGen.cases_head hpath with rfl | ⟨y, ⟨c, hc, hsub, hfrom, -⟩, -⟩
    · exact hnot hmain
    · have hno : ∀ c ∈ otherBranch.values, c.type ≠ .main → c.fromNode ≠ nodeNamed "Agent" := by
        decide
      exact hno c hc hsub hfrom

/-- The model belongs to the destination. -/
def modelOfDestination : DirectedGraph :=
  ((addNodes .empty [nodeNamed "T", nodeNamed "D", nodeNamed "Model"]).setConnection
    toDestination).setConnection ⟨nodeNamed "Model", nodeNamed "D", .aiLanguageModel, 0, 0⟩

/-- Then the subgraph is exact. -/
theorem modelOfDestination_exact : ∃ subgraph,
    findSubgraph modelOfDestination (nodeNamed "D") (nodeNamed "T") = .ok subgraph ∧
      IsExact modelOfDestination (nodeNamed "D") (nodeNamed "T") subgraph := by
  have hg : modelOfDestination.WellFormed :=
    ((wellFormed_empty.addNodes [nodeNamed "T", nodeNamed "D", nodeNamed "Model"]
      rfl).setConnection (by decide) (by decide)).setConnection (by decide) (by decide)
  obtain ⟨subgraph, hok, -, hiff⟩ := findSubgraph_exact_iff hg
    (show modelOfDestination.contains (nodeNamed "D") by decide)
    (show modelOfDestination.contains (nodeNamed "T") by decide)
  refine ⟨subgraph, hok, hiff.2 ⟨fun node hloop => ?_, fun c hc hsub main _ _ => ?_⟩⟩
  · obtain ⟨-, x, hcycle, -⟩ := hloop
    have hedge : ∀ a b, Joins (·.fromNode) (·.toNode) (IsMain modelOfDestination) (nodeNamed "D")
        (nodeNamed "T") a b → a = nodeNamed "T" := by
      rintro a b ⟨c, ⟨⟨hc, hmain⟩, -, -⟩, rfl, -⟩
      have hfrom : ∀ c ∈ modelOfDestination.values, c.type = .main →
          c.fromNode = nodeNamed "T" := by
        decide
      exact hfrom c hc hmain
    obtain ⟨y, -, hlast⟩ := TransGen.tail'_iff.1 hcycle
    obtain ⟨z, hfirst, -⟩ := TransGen.head'_iff.1 hcycle
    exact absurd (hedge _ _ hfirst) hlast.tgt_ne
  · have hto : ∀ c ∈ modelOfDestination.values, c.type ≠ .main → c.toNode = nodeNamed "D" := by
      decide
    rw [hto c hc hsub]
    exact .inl ⟨[toDestination], ⟨⟨rfl, rfl⟩, by decide, by decide, by decide⟩,
      .inr ⟨_, List.mem_singleton.2 rfl, rfl⟩⟩

end DirectedGraph

end N8n
