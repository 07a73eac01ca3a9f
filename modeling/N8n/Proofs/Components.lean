import N8n.Library.Fallible
import N8n.Library.LowLink
import N8n.Proofs.SourceDataGroups
import N8n.Proofs.DirectedGraph

/-!
# Strongly connected components

What `getStronglyConnectedComponents` keeps is a search for low links over the nodes and their
children. So it finds the components if and only if there are paths back to their first nodes.
-/

namespace N8n

open Relation DepthFirst Traversal

/-! ## What is kept -/

/-- The numbers and the low links are those of the search. -/
structure LowLinks.Refines (s : LowLinks) (t : LowLink.State Node) : Prop where
  id : s.id = t.order.visited.length
  visited : s.visited = t.order.visited
  ids : ∀ node ∈ t.order.visited, s.ids.get? node = some (t.order.num node)
  lowLinkValues : ∀ node ∈ t.order.visited, s.lowLinkValues.get? node = some (t.low node)
  stack : s.stack = t.stack
  onStack : t.stack ⊆ t.order.visited
  components : s.stronglyConnectedComponents = t.components

namespace LowLinks

variable {s : LowLinks} {t : LowLink.State Node} {node child : Node}

theorem takeWhile_dropWhile_congr {α : Type*} {p q : α → Bool} : ∀ {l : List α},
    (∀ x ∈ l, p x = q x) → l.takeWhile p = l.takeWhile q ∧ l.dropWhile p = l.dropWhile q
  | [], _ => ⟨rfl, rfl⟩
  | x :: l, h => by
    obtain ⟨htake, hdrop⟩ := takeWhile_dropWhile_congr fun y hy => h y (List.mem_cons_of_mem x hy)
    rw [List.takeWhile_cons, List.takeWhile_cons, List.dropWhile_cons, List.dropWhile_cons, htake,
      hdrop, h x List.mem_cons_self]
    exact ⟨rfl, rfl⟩

theorem refines_empty : Refines {} {} :=
  ⟨rfl, rfl, by simp, by simp, rfl, List.nil_subset _, rfl⟩

theorem Refines.visit (h : Refines s t) (hnew : node ∉ t.order.visited) :
    Refines (s.visit node) (t.enter node) := by
  have hnum : s.id = (t.enter node).order.num node :=
    h.id.trans (Order.num_enter_self hnew).symm
  refine ⟨?_, congrArg (· ++ [node]) h.visited, fun u hu => ?_, fun u hu => ?_,
    congrArg (node :: ·) h.stack, ?_, h.components⟩
  · simp [LowLinks.visit, LowLink.State.enter, Order.enter, h.id]
  · unfold LowLinks.visit
    rw [Dict.get?_set]
    split_ifs with heq
    · rw [heq, hnum]
    · have hold := (LowLink.mem_enter.1 hu).resolve_right heq
      exact (h.ids u hold).trans (congrArg some (Order.num_enter hold).symm)
  · unfold LowLinks.visit
    rw [Dict.get?_set]
    split_ifs with heq
    · rw [heq, LowLink.State.low_enter_self, h.id]
    · have hold := (LowLink.mem_enter.1 hu).resolve_right heq
      rw [LowLink.State.low_enter_of_ne heq, h.lowLinkValues u hold]
  · exact List.cons_subset.2 ⟨LowLink.mem_enter.2 (.inr rfl),
      fun u hu => LowLink.mem_enter.2 (.inl (h.onStack hu))⟩

theorem Refines.takeLowest (h : Refines s t) (hnode : node ∈ t.order.visited) :
    ∃ s', s.takeLowest node child = .ok s' ∧ Refines s' (t.finish node child) := by
  unfold LowLinks.takeLowest
  by_cases hchild : child ∈ t.stack
  · rw [if_pos (h.stack ▸ hchild), h.lowLinkValues child (h.onStack hchild),
      h.lowLinkValues node hnode]
    refine ⟨_, rfl, h.id, h.visited, h.ids, fun u hu => ?_, h.stack, h.onStack, h.components⟩
    dsimp only
    rw [Dict.get?_set]
    split_ifs with heq
    · rw [heq, LowLink.State.low_finish_of_mem hchild]
    · rw [LowLink.State.low_finish_of_ne heq]
      exact h.lowLinkValues u hu
  · rw [if_neg (h.stack ▸ hchild)]
    refine ⟨s, rfl, h.id, h.visited, h.ids, fun u hu => ?_, h.stack, h.onStack, h.components⟩
    rw [LowLink.State.low_finish_of_not_mem hchild]
    exact h.lowLinkValues u hu

theorem Refines.popComponent (h : Refines s t) (hnode : node ∈ t.order.visited) :
    ∃ s', s.popComponent node = .ok s' ∧ Refines s' (t.leave node) := by
  have hlow : ∀ u ∈ t.stack, s.hasLowLink (t.order.num node) u = decide (t.low u = t.order.num node) :=
    fun u hu => by simp [hasLowLink, h.lowLinkValues u (h.onStack hu)]
  unfold LowLinks.popComponent
  rw [h.ids node hnode, h.lowLinkValues node hnode]
  dsimp only
  by_cases hroot : t.order.num node = t.low node
  · rw [if_pos hroot, LowLink.State.leave, if_pos hroot, h.stack, h.components]
    obtain ⟨htake, hdrop⟩ := takeWhile_dropWhile_congr hlow
    rw [htake, hdrop]
    refine ⟨_, rfl, h.id, h.visited, h.ids, h.lowLinkValues, rfl, ?_, rfl⟩
    exact List.Subset.trans (List.dropWhile_sublist _).subset h.onStack
  · rw [if_neg hroot, LowLink.State.leave, if_neg hroot]
    exact ⟨s, rfl, h⟩

theorem visited_takeLowest {s' : LowLinks} (h : s.takeLowest node child = .ok s') :
    s'.visited = s.visited := by
  unfold LowLinks.takeLowest at h
  split_ifs at h
  · split at h
    · rw [← Except.ok.inj h]
    · cases h
  · rw [← Except.ok.inj h]

theorem visited_popComponent {s' : LowLinks} (h : s.popComponent node = .ok s') :
    s'.visited = s.visited := by
  unfold LowLinks.popComponent at h
  split at h
  · split_ifs at h
    all_goals rw [← Except.ok.inj h]
  · cases h

end LowLinks

namespace DirectedGraph

variable {g : DirectedGraph}

/-! ## The search -/

variable (g) in
/-- The nodes that a node leads to, once for each connection. -/
def childrenOf (node : Node) : List Node := (g.values.filter (·.fromNode = node)).map (·.toNode)

variable (g) in
/-- The connections of nodes of the graph lead to nodes of the graph. -/
def LeadsInside : Prop := ∀ c ∈ g.values, g.contains c.fromNode → g.contains c.toNode

theorem mem_childrenOf {a b : Node} : b ∈ g.childrenOf a ↔ g.Connects a b := mem_directChildren

theorem LeadsInside.contains (hg : g.LeadsInside) {a b : Node} (ha : g.contains a)
    (hb : b ∈ g.childrenOf a) : g.contains b := by
  obtain ⟨c, hc, rfl, rfl⟩ := mem_childrenOf.1 hb
  exact hg c hc ha

/-- The turns of the loop over the children. -/
theorem foldlM_refines {depth : ℕ} {node : Node}
    (hfollow : ∀ child s t, g.contains child → LowLinks.Refines s t → ∃ s',
      g.followNode depth child s = .ok s' ∧
        LowLinks.Refines s' (walk g.childrenOf LowLink.search depth child t)) :
    ∀ (children : List Node) (s : LowLinks) (t : LowLink.State Node),
      (∀ child ∈ children, g.contains child) → LowLinks.Refines s t → node ∈ t.order.visited →
      ∃ s', children.foldlM (fun s child => do
          let s ← g.followNode depth child s
          s.takeLowest node child) s = .ok s' ∧
        LowLinks.Refines s' (children.foldl (fun t child =>
          (walk g.childrenOf LowLink.search depth child t).finish node child) t) ∧
        node ∈ (children.foldl (fun t child =>
          (walk g.childrenOf LowLink.search depth child t).finish node child) t).order.visited
  | [], s, t, _, hs, hnode => ⟨s, rfl, hs, hnode⟩
  | child :: children, s, t, hchildren, hs, hnode => by
    obtain ⟨s₁, hok₁, hs₁⟩ := hfollow child s t (hchildren child List.mem_cons_self) hs
    have hnode₁ : node ∈ (walk g.childrenOf LowLink.search depth child t).order.visited :=
      (after_walk (S := LowLink.search) depth child t).visited.subset hnode
    obtain ⟨s₂, hok₂, hs₂⟩ := @LowLinks.Refines.takeLowest _ _ _ child hs₁ hnode₁
    obtain ⟨s', hok', hs', hnode'⟩ := foldlM_refines hfollow children s₂ _
      (fun c hc => hchildren c (List.mem_cons_of_mem child hc)) hs₂ hnode₁
    refine ⟨s', ?_, hs', hnode'⟩
    rw [List.foldlM_cons, hok₁]
    exact (congrArg (· >>= _) hok₂).trans hok'

theorem followNode_refines (hg : g.LeadsInside) : ∀ (depth : ℕ) (node : Node) (s : LowLinks)
    (t : LowLink.State Node), g.contains node → LowLinks.Refines s t → ∃ s',
      g.followNode depth node s = .ok s' ∧
        LowLinks.Refines s' (walk g.childrenOf LowLink.search depth node t)
  | 0, _, s, _, _, hs => ⟨s, rfl, hs⟩
  | depth + 1, node, s, t, hnode, hs => by
    rw [followNode, walk]
    by_cases hvisited : node ∈ t.order.visited
    · rw [if_pos (hs.visited ▸ hvisited)]
      exact ⟨s, rfl, (if_pos hvisited).symm ▸ hs⟩
    · obtain ⟨s₁, hok₁, hs₁, hnode₁⟩ := foldlM_refines (followNode_refines hg depth)
        (g.childrenOf node) (s.visit node) (t.enter node) (fun c hc => hg.contains hnode hc)
        (hs.visit hvisited) (LowLink.mem_enter.2 (.inr rfl))
      obtain ⟨s', hok', hs'⟩ := hs₁.popComponent hnode₁
      refine ⟨s', ?_, ?_⟩
      · rw [if_neg (hs.visited ▸ hvisited), directChildren_eq hnode]
        exact (congrArg (· >>= _) hok₁).trans hok'
      · rw [show (if node ∈ (LowLink.search.order t).visited then t else _) = _ from if_neg hvisited]
        exact hs'

/-! ## Searches that succeed -/

variable (g) in
/-- What is visited on the way is in the graph, and so are the nodes it leads to. -/
structure Explored (s s' : LowLinks) : Prop where
  keeps : s.visited ⊆ s'.visited
  inside : ∀ u ∈ s'.visited, u ∉ s.visited → g.contains u ∧ g.childrenOf u ⊆ s'.visited

theorem Explored.refl (s : LowLinks) : g.Explored s s :=
  ⟨List.Subset.refl _, fun _ hu hnot => absurd hu hnot⟩

theorem Explored.trans {s s' s'' : LowLinks} (h : g.Explored s s') (h' : g.Explored s' s'') :
    g.Explored s s'' := by
  refine ⟨List.Subset.trans h.keeps h'.keeps, fun u hu hnot => ?_⟩
  by_cases hmem : u ∈ s'.visited
  · obtain ⟨hcontains, hsub⟩ := h.inside u hmem hnot
    exact ⟨hcontains, List.Subset.trans hsub h'.keeps⟩
  · exact h'.inside u hu hmem

/-- The turns of the loop over the children, when none of them fails. -/
theorem foldlM_explored {depth : ℕ} {node : Node}
    (hfollow : ∀ child s s', remaining g.nodeList s.visited < depth →
      g.followNode depth child s = .ok s' → g.Explored s s' ∧ child ∈ s'.visited) :
    ∀ (children : List Node) (s s' : LowLinks), remaining g.nodeList s.visited < depth →
      children.foldlM (fun s child => do
        let s ← g.followNode depth child s
        s.takeLowest node child) s = .ok s' → g.Explored s s' ∧ children ⊆ s'.visited
  | [], s, s', _, h => by
    rw [← Except.ok.inj h]
    exact ⟨.refl s, List.nil_subset _⟩
  | child :: children, s, s', hdepth, h => by
    rw [List.foldlM_cons] at h
    obtain ⟨s₂, hs₂, h⟩ := Fallible.bind_eq_ok.1 h
    obtain ⟨s₁, hs₁, hs₂⟩ := Fallible.bind_eq_ok.1 hs₂
    obtain ⟨hexplored₁, hchild⟩ := hfollow child s s₁ hdepth hs₁
    have hvisited : s₂.visited = s₁.visited := LowLinks.visited_takeLowest hs₂
    have hexplored₂ : g.Explored s s₂ := ⟨hvisited ▸ hexplored₁.keeps, hvisited ▸ hexplored₁.inside⟩
    obtain ⟨hexplored, hchildren⟩ := foldlM_explored hfollow children s₂ s'
      (Nat.lt_of_le_of_lt (remaining_le hexplored₂.keeps) hdepth) h
    exact ⟨hexplored₂.trans hexplored,
      List.cons_subset.2 ⟨hexplored.keeps (hvisited ▸ hchild), hchildren⟩⟩

theorem followNode_explored : ∀ (depth : ℕ) (node : Node) (s s' : LowLinks),
    remaining g.nodeList s.visited < depth → g.followNode depth node s = .ok s' →
      g.Explored s s' ∧ node ∈ s'.visited
  | 0, _, _, _, hdepth, _ => absurd hdepth (Nat.not_lt_zero _)
  | depth + 1, node, s, s', hdepth, h => by
    rw [followNode] at h
    by_cases hvisited : node ∈ s.visited
    · rw [if_pos hvisited] at h
      rw [← Except.ok.inj h]
      exact ⟨.refl s, hvisited⟩
    · rw [if_neg hvisited] at h
      obtain ⟨children, hchildren, h⟩ := Fallible.bind_eq_ok.1 h
      obtain ⟨s₁, hs₁, hpop⟩ := Fallible.bind_eq_ok.1 h
      have hnode := contains_of_directChildren hchildren
      rw [directChildren_eq hnode] at hchildren
      obtain rfl : g.childrenOf node = children := Except.ok.inj hchildren
      have hless : remaining g.nodeList (s.visit node).visited < depth :=
        Nat.lt_of_lt_of_le (remaining_lt (mem_nodeList_of_contains hnode) hvisited)
          (Nat.lt_succ_iff.1 hdepth)
      obtain ⟨hexplored, hsub⟩ := foldlM_explored (followNode_explored depth)
        (g.childrenOf node) (s.visit node) s₁ hless hs₁
      have hkept : s'.visited = s₁.visited := LowLinks.visited_popComponent hpop
      have hmem : ∀ {u}, u ∈ (s.visit node).visited ↔ u ∈ s.visited ∨ u = node := by
        simp [LowLinks.visit]
      rw [hkept]
      refine ⟨⟨fun u hu => hkept ▸ hexplored.keeps (hmem.2 (.inl hu)), fun u hu hnot => ?_⟩,
        hexplored.keeps (hmem.2 (.inr rfl))⟩
      rw [hkept] at hu ⊢
      by_cases hnew : u = node
      · rw [hnew]
        exact ⟨hnode, hsub⟩
      · exact hexplored.inside u hu fun hmem' => (hmem.1 hmem').elim hnot hnew

/-- A search that succeeds has met no node that is not in the graph. -/
theorem leadsInside_of_eq_ok {components : List (List Node)}
    (h : g.getStronglyConnectedComponents = .ok components) : g.LeadsInside := by
  obtain ⟨s, hs, -⟩ := Fallible.bind_eq_ok.1 h
  have hall : ∀ (nodes : List Node) (s s' : LowLinks),
      nodes.foldlM (fun s node => g.followNode (g.nodeList.length + 1) node s) s = .ok s' →
      g.Explored s s' ∧ nodes ⊆ s'.visited := by
    intro nodes
    induction nodes with
    | nil =>
      intro s s' h
      rw [← Except.ok.inj h]
      exact ⟨.refl s, List.nil_subset _⟩
    | cons node nodes ih =>
      intro s s' h
      rw [List.foldlM_cons] at h
      obtain ⟨s₁, hs₁, h⟩ := Fallible.bind_eq_ok.1 h
      obtain ⟨hexplored, hnode⟩ := followNode_explored _ node s s₁
        (Nat.lt_succ_of_le (List.length_filter_le _ _)) hs₁
      obtain ⟨hexplored', hnodes⟩ := ih s₁ s' h
      exact ⟨hexplored.trans hexplored', List.cons_subset.2 ⟨hexplored'.keeps hnode, hnodes⟩⟩
  obtain ⟨hexplored, hnodes⟩ := hall g.nodeList {} s hs
  intro c hc hfrom
  have hmem := hnodes (mem_nodeList_of_contains hfrom)
  have hto := (hexplored.inside _ hmem List.not_mem_nil).2 (mem_childrenOf.2 ⟨c, hc, rfl, rfl⟩)
  exact (hexplored.inside _ hto List.not_mem_nil).1

/-! ## The components -/

variable (g) in
/-- The sets are the strongly connected components of the graph. -/
structure IsPartition (components : List (List Node)) : Prop where
  nonempty : ∀ component ∈ components, component ≠ []
  disjoint : components.Pairwise List.Disjoint
  cover : ∀ node, (∃ component ∈ components, node ∈ component) ↔ g.contains node
  same_iff : ∀ a b, g.contains a → g.contains b →
    ((∃ component ∈ components, a ∈ component ∧ b ∈ component) ↔
      ReflTransGen g.Connects a b ∧ ReflTransGen g.Connects b a)

variable (g) in
/-- From each node a path goes back to the node of its component that a depth-first traversal of the
graph enters first, and the traversal finishes each connection of it before the one before. -/
def ReturnsInOrder : Prop :=
  LowLink.AllBack g.childrenOf (LowLink.traversal g.childrenOf g.nodeList)

theorem reach_iff {a b : Node} : Reach g.childrenOf a b ↔ ReflTransGen g.Connects a b := by
  have hsteps : (fun a b => b ∈ g.childrenOf a) = g.Connects :=
    funext fun a => funext fun b => propext mem_childrenOf
  rw [Reach, hsteps]

/-- Where no connection leads outside, the components are those of the search. -/
theorem getStronglyConnectedComponents_eq (hg : g.LeadsInside)
    (hnamed : ∀ nodeName node, g.nodes.get? nodeName = some node → node.name = nodeName) :
    g.getStronglyConnectedComponents =
      .ok (LowLink.run g.childrenOf g.nodeList).components := by
  have hall : ∀ (nodes : List Node) (s : LowLinks) (t : LowLink.State Node),
      (∀ node ∈ nodes, g.contains node) → LowLinks.Refines s t → ∃ s',
      nodes.foldlM (fun s node => g.followNode (g.nodeList.length + 1) node s) s = .ok s' ∧
        LowLinks.Refines s' (nodes.foldl (fun t node =>
          walk g.childrenOf LowLink.search (g.nodeList.length + 1) node t) t) := by
    intro nodes
    induction nodes with
    | nil => exact fun s t _ hs => ⟨s, rfl, hs⟩
    | cons node nodes ih =>
      intro s t hnodes hs
      obtain ⟨s₁, hok₁, hs₁⟩ := followNode_refines hg (g.nodeList.length + 1) node s t
        (hnodes node List.mem_cons_self) hs
      obtain ⟨s', hok', hs'⟩ := ih s₁ _ (fun n hn => hnodes n (List.mem_cons_of_mem node hn)) hs₁
      refine ⟨s', ?_, hs'⟩
      rw [List.foldlM_cons, hok₁]
      exact hok'
  obtain ⟨s, hok, hs⟩ := hall g.nodeList {} {} (fun node => contains_of_named hnamed)
    LowLinks.refines_empty
  unfold getStronglyConnectedComponents
  rw [hok]
  exact congrArg Except.ok hs.components

theorem LeadsInside.contains_of_reach (hg : g.LeadsInside) {a b : Node} (ha : g.contains a)
    (h : Reach g.childrenOf a b) : g.contains b := by
  induction h with
  | refl => exact ha
  | tail _ hstep ih => exact hg.contains ih hstep

/-- The search is over the nodes of the graph. -/
theorem LeadsInside.childrenOf_subset (hg : g.LeadsInside)
    (hnamed : ∀ nodeName node, g.nodes.get? nodeName = some node → node.name = nodeName) :
    ∀ node ∈ g.nodeList, g.childrenOf node ⊆ g.nodeList := fun _ hnode _ hchild =>
  mem_nodeList_of_contains (hg.contains (contains_of_named hnamed hnode) hchild)

theorem IsPartition.eq {components : List (List Node)} (h : g.IsPartition components)
    {component component' : List Node} (hmem : component ∈ components)
    (hmem' : component' ∈ components) {node : Node} (hnode : node ∈ component)
    (hnode' : node ∈ component') : component = component' := by
  by_contra hne
  have : Std.Symm (List.Disjoint (α := Node)) := ⟨fun _ _ hdisjoint => hdisjoint.symm⟩
  exact h.disjoint.forall hmem hmem' hne hnode hnode'

/-- The sets of the search are the components if and only if each of these is taken as a whole. -/
theorem isPartition_iff (hg : g.LeadsInside)
    (hnamed : ∀ nodeName node, g.nodes.get? nodeName = some node → node.name = nodeName) :
    g.IsPartition (LowLink.run g.childrenOf g.nodeList).components ↔ g.ReturnsInOrder := by
  have hclosed := hg.childrenOf_subset hnamed
  have hsub := LowLink.run_subset hclosed
  obtain ⟨-, hsane, -⟩ := LowLink.run_rule hclosed
  rw [ReturnsInOrder, ← LowLink.run_whole_iff hclosed]
  constructor
  · intro h node hnode
    have hcontains := contains_of_named hnamed hnode
    obtain ⟨component, hcomponent, hmem⟩ := (h.cover node).2 hcontains
    refine ⟨component, hcomponent, fun w hsame => ?_⟩
    have hw := hg.contains_of_reach hcontains hsame.1
    obtain ⟨component', hcomponent', hnode', hw'⟩ := (h.same_iff node w hcontains hw).2
      ⟨reach_iff.1 hsame.1, reach_iff.1 hsame.2⟩
    rwa [h.eq hcomponent hcomponent' hmem hnode']
  · refine fun hwhole => ⟨fun c hc => (hsane.components c hc).1, ?_, fun node => ⟨?_, ?_⟩,
      fun a b ha hb => ⟨?_, ?_⟩⟩
    · exact hsane.disjoint.imp fun h u hu hu' => h u hu hu'
    · rintro ⟨component, hcomponent, hmem⟩
      exact contains_of_named hnamed (hsub ((hsane.components component hcomponent).2.1 hmem))
    · intro hcontains
      obtain ⟨component, hcomponent, hmem⟩ := hwhole node (mem_nodeList_of_contains hcontains)
      exact ⟨component, hcomponent, hmem node (.refl node)⟩
    · rintro ⟨component, hcomponent, hmem, hmem'⟩
      have hsame := (hsane.components component hcomponent).2.2.2 a hmem b hmem'
      exact ⟨reach_iff.1 hsame.1, reach_iff.1 hsame.2⟩
    · rintro ⟨hab, hba⟩
      obtain ⟨component, hcomponent, hmem⟩ := hwhole a (mem_nodeList_of_contains ha)
      exact ⟨component, hcomponent, hmem a (.refl a), hmem b ⟨reach_iff.2 hab, reach_iff.2 hba⟩⟩

/-- Exactly then the strongly connected components are returned. -/
theorem components_partition_iff
    (hnamed : ∀ nodeName node, g.nodes.get? nodeName = some node → node.name = nodeName) :
    (∃ components, g.getStronglyConnectedComponents = .ok components ∧ g.IsPartition components) ↔
      g.LeadsInside ∧ g.ReturnsInOrder := by
  constructor
  · rintro ⟨components, hok, hpartition⟩
    have hinside := leadsInside_of_eq_ok hok
    rw [getStronglyConnectedComponents_eq hinside hnamed] at hok
    exact ⟨hinside, (isPartition_iff hinside hnamed).1 (Except.ok.inj hok ▸ hpartition)⟩
  · rintro ⟨hinside, hreturns⟩
    exact ⟨_, getStronglyConnectedComponents_eq hinside hnamed,
      (isPartition_iff hinside hnamed).2 hreturns⟩

/-! ### Two cycles that share a node -/

/-- `R` and `A` lead to each other, and so do `A` and `B`. The connections of `A` are in this
order. -/
def twoCycles (first second : String) : DirectedGraph :=
  [("R", "A"), ("A", first), ("A", second), ("B", "A")].foldl
    (fun g (a, b) => g.setConnection ⟨nodeNamed a, nodeNamed b, .main, 0, 0⟩)
    (DirectedGraph.empty.addNodes [nodeNamed "R", nodeNamed "A", nodeNamed "B"])

theorem twoCycles_named (first second : String) : ∀ nodeName node,
    (twoCycles first second).nodes.get? nodeName = some node → node.name = nodeName :=
  (wellFormed_empty.addNodes [nodeNamed "R", nodeNamed "A", nodeNamed "B"] rfl).named

theorem twoCycles_partition_iff : (∃ components,
    (twoCycles "R" "B").getStronglyConnectedComponents = .ok components ∧
      (twoCycles "R" "B").IsPartition components) ↔
    (twoCycles "R" "B").LeadsInside ∧ (twoCycles "R" "B").ReturnsInOrder :=
  components_partition_iff (twoCycles_named "R" "B")

example : (twoCycles "R" "B").getStronglyConnectedComponents =
    .ok [[nodeNamed "B", nodeNamed "A", nodeNamed "R"]] := by decide

/-- Where `A` leads to `B` first, `B` takes the number of `A` before `A` has that of `R`, and none of
them is in a component. -/
theorem twoCycles_not_partition : ¬ ∃ components,
    (twoCycles "B" "R").getStronglyConnectedComponents = .ok components ∧
      (twoCycles "B" "R").IsPartition components := by
  have hnone : (twoCycles "B" "R").getStronglyConnectedComponents = .ok [] := by decide
  rintro ⟨components, hok, hpartition⟩
  rw [hnone] at hok
  obtain rfl := Except.ok.inj hok
  obtain ⟨component, hcomponent, -⟩ := (hpartition.cover (nodeNamed "R")).2 (by decide)
  cases hcomponent

end DirectedGraph

end N8n
