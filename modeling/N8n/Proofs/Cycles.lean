import N8n.Proofs.Components

/-!
# Start nodes on cycles

A start node on a cycle is replaced by the node of its component that is met first from the
trigger, where the component is found. A component of which a part is found, or nothing, leaves
start nodes where they are, or moves them to another node.
-/

namespace N8n

open Relation DepthFirst Traversal

namespace DirectedGraph

variable {g : DirectedGraph}

/-! ## The search for a node -/

/-- The first of these nodes is found; if there is none, they have all been seen. -/
def Finds (fn : Node → Bool) (entered : List Node)
    (result : Except String (Option Node × List Node)) : Prop :=
  ∃ seen, result = .ok (entered.find? fn, seen) ∧ (entered.find? fn = none → seen = entered)

theorem Finds.of_none {fn : Node → Bool} {entered : List Node} (h : entered.find? fn = none) :
    Finds fn entered (.ok (none, entered)) := ⟨entered, by rw [h], fun _ => rfl⟩

/-- What is entered later comes after what is found. -/
theorem Finds.of_before {fn : Node → Bool} {before entered seen : List Node} {node : Node}
    (hbefore : before <+: entered) (h : before.find? fn = some node) :
    Finds fn entered (.ok (some node, seen)) := by
  have hfirst := hbefore.find?_eq_some h
  exact ⟨seen, by rw [hfirst], fun hnone => absurd (hfirst.symm.trans hnone) (Option.some_ne_none _)⟩

theorem foldlM_unlessFound {fn : Node → Bool} {depth : ℕ} {node : Node} :
    ∀ (connections : List GraphConnection) (seen : List Node),
      connections.foldlM (fun result c =>
        unlessFound (g.depthFirstSearchRecursive fn depth c.toNode) result) (some node, seen) =
          .ok (some node, seen)
  | [], _ => rfl
  | _ :: connections, seen => foldlM_unlessFound connections seen

variable (g) in
/-- The traversal of the children of a node. -/
def traverseChildren (depth : ℕ) (node : Node) (children : List Node) (t : Order Node) : Order Node :=
  children.foldl (fun t child => (walk g.childrenOf (plain Node) depth child t).finish node child) t

theorem prefix_traverseChildren (depth : ℕ) (node : Node) (children : List Node) (t : Order Node) :
    t.visited <+: (g.traverseChildren depth node children t).visited :=
  List.foldlRecOn (motive := fun t' : Order Node => t.visited <+: t'.visited) _ _ List.prefix_rfl
    fun t' ht' child _ => ht'.trans (after_walk (S := plain Node) depth child t').visited

/-- The turns of the loop over the connections. -/
theorem foldlM_finds {fn : Node → Bool} {depth : ℕ} {node : Node}
    (hsearch : ∀ child (t : Order Node), g.contains child → t.visited.find? fn = none →
      Finds fn (walk g.childrenOf (plain Node) depth child t).visited
        (g.depthFirstSearchRecursive fn depth child t.visited)) :
    ∀ (connections : List GraphConnection) (t : Order Node),
      (∀ c ∈ connections, g.contains c.toNode) → t.visited.find? fn = none →
      Finds fn (g.traverseChildren depth node (connections.map (·.toNode)) t).visited
        (connections.foldlM (fun result c =>
          unlessFound (g.depthFirstSearchRecursive fn depth c.toNode) result) (none, t.visited))
  | [], _, _, hnone => .of_none hnone
  | c :: connections, t, hcontains, hnone => by
    obtain ⟨seen, hok, hseen⟩ := hsearch c.toNode t (hcontains c List.mem_cons_self) hnone
    rw [List.foldlM_cons, unlessFound, hok]
    cases hfound : (walk g.childrenOf (plain Node) depth c.toNode t).visited.find? fn with
    | none =>
      rw [hseen hfound]
      exact foldlM_finds hsearch connections
        ((walk g.childrenOf (plain Node) depth c.toNode t).finish node c.toNode)
        (fun c' hc' => hcontains c' (List.mem_cons_of_mem c hc')) hfound
    | some found =>
      show Finds fn _ (connections.foldlM _ (some found, seen))
      rw [foldlM_unlessFound]
      exact .of_before (prefix_traverseChildren depth node (connections.map (·.toNode))
        ((walk g.childrenOf (plain Node) depth c.toNode t).finish node c.toNode)) hfound

/-- The search finds the first node that the traversal enters. -/
theorem depthFirstSearchRecursive_finds (hg : g.LeadsInside) {fn : Node → Bool} :
    ∀ (depth : ℕ) (node : Node) (t : Order Node), g.contains node → t.visited.find? fn = none →
      Finds fn (walk g.childrenOf (plain Node) depth node t).visited
        (g.depthFirstSearchRecursive fn depth node t.visited)
  | 0, _, _, _, hnone => .of_none hnone
  | depth + 1, node, t, hnode, hnone => by
    rw [depthFirstSearchRecursive, walk]
    by_cases hvisited : node ∈ t.visited
    · rw [if_pos hvisited, show (if node ∈ ((plain Node).order t).visited then t else _) = t from
        if_pos hvisited]
      exact .of_none hnone
    rw [if_neg hvisited, show (if node ∈ ((plain Node).order t).visited then t else _) = _ from
      if_neg hvisited]
    show Finds fn (g.traverseChildren depth node (g.childrenOf node) (t.enter node)).visited _
    by_cases hfn : fn node
    · rw [if_pos hfn]
      refine .of_before (prefix_traverseChildren depth node _ (t.enter node)) ?_
      simp [Order.enter, List.find?_append, hnone, hfn]
    · rw [if_neg hfn, getDirectChildConnections_eq hnode]
      have hto : ∀ c ∈ g.values.filter (·.fromNode = node), g.contains c.toNode := by
        intro c hc
        obtain ⟨hmem, hfrom⟩ := List.mem_filter.1 hc
        exact hg c hmem ((of_decide_eq_true hfrom).symm ▸ hnode)
      exact foldlM_finds (depthFirstSearchRecursive_finds hg depth) _ (t.enter node) hto
        (by simp [Order.enter, List.find?_append, hnone, hfn])

variable (g) in
/-- What a depth-first traversal from the node enters, in this order. -/
def enteredFrom (node : Node) : List Node :=
  (walk g.childrenOf (plain Node) (g.nodeList.length + 1) node {}).visited

theorem depthFirstSearch_eq (hg : g.LeadsInside) {node : Node} (h : g.contains node)
    (fn : Node → Bool) : g.depthFirstSearch node fn = .ok ((g.enteredFrom node).find? fn) := by
  obtain ⟨seen, hok, -⟩ := @depthFirstSearchRecursive_finds g hg fn (g.nodeList.length + 1) node {} h
    rfl
  unfold depthFirstSearch
  rw [show g.depthFirstSearchRecursive fn (g.nodeList.length + 1) node [] = _ from hok]
  rfl

/-- All that the node leads to is entered. -/
theorem mem_enteredFrom (hg : g.LeadsInside)
    (hnamed : ∀ nodeName node, g.nodes.get? nodeName = some node → node.name = nodeName)
    {node s : Node} (h : g.contains node) (hreach : Reach g.childrenOf node s) :
    s ∈ g.enteredFrom node := by
  obtain ⟨hinv, hnode, -⟩ := walk_rule (Order.Inv.rule (plain Node)) (hg.childrenOf_subset hnamed)
    (g.nodeList.length + 1) [] node {} (mem_nodeList_of_contains h) (by simp) Order.inv_empty
    (Nat.lt_succ_of_le (List.length_filter_le _ _))
  induction hreach with
  | refl => exact hnode
  | tail _ hchild ih => exact (hinv.edges _ (hinv.done _ ih List.not_mem_nil _ hchild)).2.2

end DirectedGraph

/-! ## Replaced start nodes -/

section Replaced

variable {components : List (List Node)} {entered : List Node} {s : Node}

/-- What a start node is replaced by. -/
def replacement (components : List (List Node)) (entered : List Node) (s : Node) : Node :=
  ((components.find? (s ∈ ·)).bind fun cycle => entered.find? (· ∈ cycle)).getD s

theorem replacement_of_not_mem (h : ∀ cycle ∈ components, s ∉ cycle) :
    replacement components entered s = s := by
  have hnone : components.find? (s ∈ ·) = none := List.find?_eq_none.2 (by simpa using h)
  rw [replacement, hnone]
  rfl

theorem find?_of_mem : ∀ {components : List (List Node)}, components.Pairwise List.Disjoint →
    ∀ {cycle : List Node}, cycle ∈ components → s ∈ cycle →
      components.find? (s ∈ ·) = some cycle
  | first :: components, hdisjoint, cycle, hcycle, hs => by
    obtain ⟨hfirst, hdisjoint⟩ := List.pairwise_cons.1 hdisjoint
    rcases List.mem_cons.1 hcycle with rfl | hcycle
    · exact List.find?_cons_of_pos (by simpa using hs)
    · rw [List.find?_cons_of_neg (by simpa using fun hmem => hfirst cycle hcycle hmem hs)]
      exact find?_of_mem hdisjoint hcycle hs

theorem replacement_of_mem (hdisjoint : components.Pairwise List.Disjoint) {cycle : List Node}
    (hcycle : cycle ∈ components) (hs : s ∈ cycle) :
    replacement components entered s = (entered.find? (· ∈ cycle)).getD s := by
  rw [replacement, find?_of_mem hdisjoint hcycle hs]
  rfl

/-- What is replaced stays in its set. -/
theorem replacement_mem (hdisjoint : components.Pairwise List.Disjoint) {cycle : List Node}
    (hcycle : cycle ∈ components) (hs : s ∈ cycle) :
    replacement components entered s ∈ cycle := by
  rw [replacement_of_mem hdisjoint hcycle hs]
  cases hfirst : entered.find? (· ∈ cycle) with
  | none => exact hs
  | some first => simpa using List.find?_some hfirst

/-- What a start node is replaced by is replaced by itself. -/
theorem replacement_replacement (hdisjoint : components.Pairwise List.Disjoint) (s : Node) :
    replacement components entered (replacement components entered s) =
      replacement components entered s := by
  by_cases hnone : ∀ cycle ∈ components, s ∉ cycle
  · rw [replacement_of_not_mem hnone, replacement_of_not_mem hnone]
  · push Not at hnone
    obtain ⟨cycle, hcycle, hs⟩ := hnone
    rw [replacement_of_mem hdisjoint hcycle (replacement_mem hdisjoint hcycle hs),
      replacement_of_mem hdisjoint hcycle hs]
    cases entered.find? (· ∈ cycle) <;> rfl

/-- The start nodes after a start node has been replaced. -/
def IsReplaced (f : Node → Node) (s : Node) (nodes nodes' : List Node) : Prop :=
  (∀ x, x ∈ nodes' ↔ x = f s ∨ x ∈ nodes ∧ x ≠ s) ∨ f s = s ∧ nodes' = nodes

theorem isReplaced_step {f : Node → Node} (hf : ∀ s, f (f s) = f s)
    {startNodes replaced nodes nodes' : List Node} (hs : s ∈ startNodes)
    (hnodes : ∀ x, x ∈ nodes ↔ (∃ s ∈ replaced, f s = x) ∨ x ∈ startNodes ∧ x ∉ replaced)
    (h : IsReplaced f s nodes nodes') (x : Node) :
    x ∈ nodes' ↔ (∃ s' ∈ replaced ++ [s], f s' = x) ∨ x ∈ startNodes ∧ x ∉ replaced ++ [s] := by
  have hreplaced : (∃ s' ∈ replaced ++ [s], f s' = x) ↔ (∃ s' ∈ replaced, f s' = x) ∨ f s = x := by
    simp only [List.mem_append, List.mem_singleton, or_and_right, exists_or, exists_eq_left]
  rw [hreplaced, List.mem_append, List.mem_singleton]
  by_cases hx : x = s
  · subst hx
    -- it is there again if it has replaced another one before
    have hself : (∃ s' ∈ replaced, f s' = x) → f x = x := by
      rintro ⟨s', -, rfl⟩
      exact hf s'
    rcases h with hmem | ⟨hfix, rfl⟩
    · rw [hmem]
      constructor
      · rintro (heq | ⟨-, hne⟩)
        · exact .inl (.inr heq.symm)
        · exact absurd rfl hne
      · rintro ((heq | heq) | ⟨-, hne⟩)
        · exact .inl (hself heq).symm
        · exact .inl heq.symm
        · exact absurd (.inr rfl) hne
    · refine iff_of_true ((hnodes x).2 ?_) (.inl (.inr hfix))
      by_cases hmem : x ∈ replaced
      · exact .inl ⟨x, hmem, hfix⟩
      · exact .inr ⟨hs, hmem⟩
  · rcases h with hmem | ⟨hfix, rfl⟩
    · rw [hmem, hnodes]
      simp only [hx, or_false, ne_eq, not_false_eq_true, and_true]
      rw [eq_comm (a := x), or_comm, or_right_comm]
    · rw [hnodes, hfix]
      simp only [hx, Ne.symm hx, or_false]

/-- When all of them have been replaced one by one, there is what each is replaced by. -/
theorem foldlM_isReplaced {f : Node → Node} (hf : ∀ s, f (f s) = f s)
    {step : List Node → Node → Except String (List Node)} {startNodes : List Node}
    (hstep : ∀ s ∈ startNodes, ∀ nodes, ∃ nodes', step nodes s = .ok nodes' ∧
      IsReplaced f s nodes nodes') :
    ∀ (rest replaced nodes : List Node), replaced ++ rest = startNodes →
      (∀ x, x ∈ nodes ↔ (∃ s ∈ replaced, f s = x) ∨ x ∈ startNodes ∧ x ∉ replaced) →
      ∃ nodes', rest.foldlM step nodes = .ok nodes' ∧ ∀ x, x ∈ nodes' ↔ ∃ s ∈ startNodes, f s = x
  | [], replaced, nodes, hall, hnodes => by
    rw [List.append_nil] at hall
    refine ⟨nodes, rfl, fun x => ?_⟩
    rw [hnodes, hall, or_iff_left fun h => h.2 h.1]
  | s :: rest, replaced, nodes, hall, hnodes => by
    have hs : s ∈ startNodes := hall ▸ List.mem_append_right _ List.mem_cons_self
    obtain ⟨nodes₁, hok₁, hnodes₁⟩ := hstep s hs nodes
    obtain ⟨nodes', hok', hnodes'⟩ := foldlM_isReplaced hf hstep rest (replaced ++ [s]) nodes₁
      (by simpa using hall) (isReplaced_step hf hs hnodes hnodes₁)
    refine ⟨nodes', ?_, hnodes'⟩
    rw [List.foldlM_cons, hok₁]
    exact hok'

end Replaced

/-! ## One start node after the other -/

namespace DirectedGraph

section Handle

variable {g : DirectedGraph} {trigger s : Node}

/-- The turns of the loop over the cycles that do not have the start node. -/
theorem foldlM_handleCycle_of_not_mem : ∀ {cycles : List (List Node)} (nodes : List Node),
    (∀ cycle ∈ cycles, s ∉ cycle) → cycles.foldlM (handleCycle g trigger s) nodes = .ok nodes
  | [], _, _ => rfl
  | cycle :: cycles, nodes, h => by
    rw [List.foldlM_cons, handleCycle, if_neg (h cycle List.mem_cons_self)]
    exact foldlM_handleCycle_of_not_mem nodes fun c hc => h c (List.mem_cons_of_mem cycle hc)

theorem handleCycle_of_mem (hg : g.LeadsInside) (htrigger : g.contains trigger)
    {cycle : List Node} {first : Node} (nodes : List Node) (hs : s ∈ cycle)
    (hfirst : (g.enteredFrom trigger).find? (· ∈ cycle) = some first) :
    handleCycle g trigger s nodes cycle = .ok ((nodes.filter (· ≠ s)).insert first) := by
  rw [handleCycle, if_pos hs, depthFirstSearch_eq hg htrigger, hfirst]
  rfl

/-- The turns of the loop over the cycles, one of which has the start node. -/
theorem foldlM_handleCycle_of_mem (hg : g.LeadsInside) (htrigger : g.contains trigger)
    {cycles : List (List Node)} (nodes : List Node) (hdisjoint : cycles.Pairwise List.Disjoint)
    {cycle : List Node} {first : Node} (hcycle : cycle ∈ cycles) (hs : s ∈ cycle)
    (hfirst : (g.enteredFrom trigger).find? (· ∈ cycle) = some first) :
    cycles.foldlM (handleCycle g trigger s) nodes =
      .ok ((nodes.filter (· ≠ s)).insert first) := by
  induction cycles with
  | nil => cases hcycle
  | cons cycle' cycles ih =>
    obtain ⟨hcycle', hdisjoint⟩ := List.pairwise_cons.1 hdisjoint
    rw [List.foldlM_cons]
    by_cases hs' : s ∈ cycle'
    · have heq : cycle = cycle' := (List.mem_cons.1 hcycle).resolve_right fun hmem =>
        hcycle' cycle hmem hs' hs
      subst heq
      rw [handleCycle_of_mem hg htrigger nodes hs hfirst]
      exact foldlM_handleCycle_of_not_mem _ fun c hc hmem => hcycle' c hc hs hmem
    · rw [handleCycle, if_neg hs']
      exact ih hdisjoint ((List.mem_cons.1 hcycle).resolve_left fun heq => hs' (heq ▸ hs))

/-- Each start node is replaced, if it can be met from the trigger where it is in a set. -/
theorem handleCycles_eq (hg : g.LeadsInside) (htrigger : g.contains trigger)
    {components : List (List Node)} (hok : g.getStronglyConnectedComponents = .ok components)
    (hnonempty : ∀ component ∈ components, component ≠ [])
    (hdisjoint : components.Pairwise List.Disjoint) {startNodes : List Node}
    (hmet : ∀ s ∈ startNodes, s ∈ g.enteredFrom trigger) :
    ∃ newStartNodes, handleCycles g startNodes trigger = .ok newStartNodes ∧
      ∀ node, node ∈ newStartNodes ↔
        ∃ s ∈ startNodes, replacement components (g.enteredFrom trigger) s = node := by
  have hall : components.filter (·.length ≥ 1) = components :=
    List.filter_eq_self.2 fun component hcomponent => by
      simpa [Nat.one_le_iff_ne_zero] using hnonempty component hcomponent
  have hstep : ∀ s ∈ startNodes, ∀ nodes, ∃ nodes',
      components.foldlM (handleCycle g trigger s) nodes = .ok nodes' ∧
        IsReplaced (replacement components (g.enteredFrom trigger)) s nodes nodes' := by
    intro s hs nodes
    by_cases hnone : ∀ cycle ∈ components, s ∉ cycle
    · exact ⟨nodes, foldlM_handleCycle_of_not_mem nodes hnone,
        .inr ⟨replacement_of_not_mem hnone, rfl⟩⟩
    · push Not at hnone
      obtain ⟨cycle, hcycle, hmem⟩ := hnone
      have hsome : ((g.enteredFrom trigger).find? (· ∈ cycle)).isSome :=
        List.find?_isSome.2 ⟨s, hmet s hs, decide_eq_true hmem⟩
      obtain ⟨first, hfirst⟩ := Option.isSome_iff_exists.1 hsome
      refine ⟨_, foldlM_handleCycle_of_mem hg htrigger nodes hdisjoint hcycle hmem hfirst,
        .inl fun x => ?_⟩
      rw [replacement_of_mem hdisjoint hcycle hmem, hfirst]
      simp [List.mem_insert_iff]
  obtain ⟨newStartNodes, hnew, hmem⟩ := foldlM_isReplaced (replacement_replacement hdisjoint) hstep
    startNodes [] startNodes rfl (by simp)
  refine ⟨newStartNodes, ?_, hmem⟩
  unfold handleCycles
  rw [hok]
  refine Eq.trans ?_ hnew
  show (if components.filter (·.length ≥ 1) = [] then _ else _) = _
  rw [hall]
  split_ifs with hempty
  · have hsame : ∀ (rest nodes : List Node), rest.foldlM (fun newStartNodes startNode =>
        [].foldlM (handleCycle g trigger startNode) newStartNodes) nodes = Except.ok nodes := by
      intro rest nodes
      induction rest with
      | nil => rfl
      | cons s rest ih => exact ih
    rw [hempty]
    exact (hsame startNodes startNodes).symm
  · rfl

end Handle

/-! ## First nodes -/

section Entries

variable (g : DirectedGraph) (trigger : Node)

/-- Each of the nodes leads to the other. -/
def SameComponent (a b : Node) : Prop :=
  ReflTransGen g.Connects a b ∧ ReflTransGen g.Connects b a

open scoped Classical in
/-- The first node of the component that a depth-first search from the trigger meets. -/
def IsEntry (s entry : Node) : Prop :=
  (g.enteredFrom trigger).find? (fun node => decide (g.SameComponent s node)) = some entry

/-- A start node on a cycle by the first node of its component, and others by themselves. -/
def ReplacedBy (s node : Node) : Prop :=
  (TransGen g.Connects s s ∧ g.IsEntry trigger s node) ∨ ¬ TransGen g.Connects s s ∧ node = s

/-- Exactly the start nodes on cycles are replaced. -/
def HandlesCycles (startNodes : List Node) : Prop :=
  ∃ newStartNodes, handleCycles g startNodes trigger = .ok newStartNodes ∧
    ∀ node, node ∈ newStartNodes ↔ ∃ s ∈ startNodes, g.ReplacedBy trigger s node

/-- A set has the start node together with the first node of its component, or it is this node and
no set has it. -/
def FoundWithEntry (components : List (List Node)) (s : Node) : Prop :=
  ∀ entry, g.IsEntry trigger s entry →
    (∃ component ∈ components, s ∈ component ∧ entry ∈ component) ∨
      s = entry ∧ ∀ component ∈ components, s ∉ component

end Entries

section Spec

variable {g : DirectedGraph} {trigger s : Node}

theorem sameComponent_iff {a b : Node} : Same g.childrenOf a b ↔ g.SameComponent a b :=
  and_congr reach_iff reach_iff

theorem SameComponent.symm {a b : Node} (h : g.SameComponent a b) : g.SameComponent b a :=
  ⟨h.2, h.1⟩

theorem SameComponent.trans {a b c : Node} (h : g.SameComponent a b) (h' : g.SameComponent b c) :
    g.SameComponent a c := ⟨h.1.trans h'.1, h'.2.trans h.2⟩

theorem SameComponent.eq_of_not_cycle {node : Node} (h : g.SameComponent s node)
    (hcycle : ¬ TransGen g.Connects s s) : node = s := by
  rcases reflTransGen_iff_eq_or_transGen.1 h.1 with heq | hpath
  · exact heq
  · exact absurd (hpath.trans_left h.2) hcycle

theorem IsEntry.sameComponent {entry : Node} (h : g.IsEntry trigger s entry) :
    g.SameComponent s entry := by
  classical
  have hfound := List.find?_some (p := fun node => decide (g.SameComponent s node)) h
  exact of_decide_eq_true hfound

theorem IsEntry.eq {entry entry' : Node} (h : g.IsEntry trigger s entry)
    (h' : g.IsEntry trigger s entry') : entry = entry' := Option.some.inj (h.symm.trans h')

theorem IsEntry.of_sameComponent {s' entry : Node} (h : g.IsEntry trigger s entry)
    (hsame : g.SameComponent s s') : g.IsEntry trigger s' entry := by
  classical
  have hiff : ∀ node, decide (g.SameComponent s' node) = decide (g.SameComponent s node) :=
    fun node => decide_eq_decide.2 ⟨hsame.trans, hsame.symm.trans⟩
  exact (congrArg (List.find? · (g.enteredFrom trigger)) (funext hiff)).trans h

theorem exists_isEntry (hs : s ∈ g.enteredFrom trigger) : ∃ entry, g.IsEntry trigger s entry := by
  classical
  exact Option.isSome_iff_exists.1 (List.find?_isSome.2 ⟨s, hs, decide_eq_true ⟨.refl, .refl⟩⟩)

/-- The first of the nodes with one property has a narrower one, so it is the first with that. -/
theorem find?_of_imp {p q : Node → Bool} {nodes : List Node} {first : Node}
    (hpq : ∀ node, p node → q node) (h : nodes.find? q = some first) (hfirst : p first) :
    nodes.find? p = some first := by
  obtain ⟨-, before, after, heq, hbefore⟩ := List.find?_eq_some_iff_append.1 h
  refine List.find?_eq_some_iff_append.2 ⟨hfirst, before, after, heq, fun node hnode => ?_⟩
  have hnot := hbefore node hnode
  by_contra hp
  simp only [Bool.not_eq_true', Bool.not_eq_false] at hp
  simp [hpq node hp] at hnot

variable {components : List (List Node)}

theorem replacement_eq_iff (hdisjoint : components.Pairwise List.Disjoint)
    (hsame : ∀ component ∈ components, ∀ u ∈ component, ∀ w ∈ component, g.SameComponent u w)
    {entry : Node} (h : g.IsEntry trigger s entry) :
    replacement components (g.enteredFrom trigger) s = entry ↔
      (∃ component ∈ components, s ∈ component ∧ entry ∈ component) ∨
        s = entry ∧ ∀ component ∈ components, s ∉ component := by
  classical
  constructor
  · rintro rfl
    by_cases hnone : ∀ component ∈ components, s ∉ component
    · exact .inr ⟨(replacement_of_not_mem hnone).symm, hnone⟩
    · push Not at hnone
      obtain ⟨component, hcomponent, hs⟩ := hnone
      exact .inl ⟨component, hcomponent, hs, replacement_mem hdisjoint hcomponent hs⟩
  · rintro (⟨component, hcomponent, hs, hentry⟩ | ⟨rfl, hnone⟩)
    · rw [replacement_of_mem hdisjoint hcomponent hs,
        find?_of_imp (fun node hnode => decide_eq_true (hsame component hcomponent s hs node
          (of_decide_eq_true hnode))) h (decide_eq_true hentry)]
      rfl
    · exact replacement_of_not_mem hnone

theorem replacement_sameComponent (hdisjoint : components.Pairwise List.Disjoint)
    (hsame : ∀ component ∈ components, ∀ u ∈ component, ∀ w ∈ component, g.SameComponent u w)
    (entered : List Node) : g.SameComponent s (replacement components entered s) := by
  by_cases hnone : ∀ component ∈ components, s ∉ component
  · rw [replacement_of_not_mem hnone]
    exact ⟨.refl, .refl⟩
  · push Not at hnone
    obtain ⟨component, hcomponent, hs⟩ := hnone
    exact hsame component hcomponent s hs _ (replacement_mem hdisjoint hcomponent hs)

/-- With these sets, exactly the start nodes that are found with their first nodes are handled. -/
theorem handlesCycles_iff_of_eq (hg : g.LeadsInside) (htrigger : g.contains trigger)
    (hok : g.getStronglyConnectedComponents = .ok components)
    (hnonempty : ∀ component ∈ components, component ≠ [])
    (hdisjoint : components.Pairwise List.Disjoint)
    (hsame : ∀ component ∈ components, ∀ u ∈ component, ∀ w ∈ component, g.SameComponent u w)
    {startNodes : List Node} (hmet : ∀ s ∈ startNodes, s ∈ g.enteredFrom trigger) :
    g.HandlesCycles trigger startNodes ↔
      ∀ s ∈ startNodes, TransGen g.Connects s s → g.FoundWithEntry trigger components s := by
  obtain ⟨newStartNodes, hnew, hmem⟩ := handleCycles_eq hg htrigger hok hnonempty hdisjoint hmet
  have hstays : ∀ s, g.SameComponent s (replacement components (g.enteredFrom trigger) s) :=
    fun s => replacement_sameComponent hdisjoint hsame _
  constructor
  · rintro ⟨newStartNodes', hnew', hmem'⟩ s hs hcycle entry hentry
    obtain rfl := Except.ok.inj (hnew.symm.trans hnew')
    refine (replacement_eq_iff hdisjoint hsame hentry).1 ?_
    -- the start node is in the component of one that is replaced by the first node
    obtain ⟨s', hs', hreplaced⟩ := (hmem' _).1 ((hmem _).2 ⟨s, hs, rfl⟩)
    rcases hreplaced with ⟨-, hentry'⟩ | ⟨hnot, heq⟩
    · exact (hentry'.of_sameComponent (hentry'.sameComponent.trans (hstays s).symm)).eq hentry
    · have hback : g.SameComponent s' s := heq ▸ (hstays s).symm
      exact absurd hcycle (hback.eq_of_not_cycle hnot ▸ hnot)
  · intro hfound
    refine ⟨newStartNodes, hnew, fun node => (hmem node).trans ?_⟩
    refine exists_congr fun s => and_congr_right fun hs => ?_
    by_cases hcycle : TransGen g.Connects s s
    · obtain ⟨entry, hentry⟩ := exists_isEntry (hmet s hs)
      have heq := (replacement_eq_iff hdisjoint hsame hentry).2 (hfound s hs hcycle entry hentry)
      rw [heq]
      constructor
      · rintro rfl
        exact .inl ⟨hcycle, hentry⟩
      · rintro (⟨-, hentry'⟩ | ⟨hnot, -⟩)
        · exact hentry.eq hentry'
        · exact absurd hcycle hnot
    · rw [(hstays s).eq_of_not_cycle hcycle]
      constructor
      · rintro rfl
        exact .inr ⟨hcycle, rfl⟩
      · rintro (⟨hnot, -⟩ | ⟨-, rfl⟩)
        · exact absurd hnot hcycle
        · rfl

/-- A call that succeeds has computed the components. -/
theorem eq_ok_of_handleCycles {startNodes newStartNodes : List Node}
    (h : handleCycles g startNodes trigger = .ok newStartNodes) :
    ∃ components, g.getStronglyConnectedComponents = .ok components := by
  obtain ⟨components, hok, -⟩ := Fallible.bind_eq_ok.1 h
  exact ⟨components, hok⟩

/-- The start nodes are handled if and only if those on cycles are found with the first nodes of their
components. That is so for all of them where the components are returned; and only there, if the
trigger leads to all nodes. -/
theorem handlesCycles_iff
    (hnamed : ∀ nodeName node, g.nodes.get? nodeName = some node → node.name = nodeName)
    (htrigger : g.contains trigger) :
    (∀ startNodes, (∀ s ∈ startNodes, ReflTransGen g.Connects trigger s) →
      (g.HandlesCycles trigger startNodes ↔
        ∃ components, g.getStronglyConnectedComponents = .ok components ∧
          ∀ s ∈ startNodes, TransGen g.Connects s s → g.FoundWithEntry trigger components s)) ∧
    (g.LeadsInside → g.ReturnsInOrder → ∀ startNodes,
      (∀ s ∈ startNodes, ReflTransGen g.Connects trigger s) →
        g.HandlesCycles trigger startNodes) ∧
    ((∀ node, g.contains node → ReflTransGen g.Connects trigger node) →
      (∀ startNodes, (∀ s ∈ startNodes, ReflTransGen g.Connects trigger s) →
        g.HandlesCycles trigger startNodes) → g.LeadsInside ∧ g.ReturnsInOrder) := by
  have hiff : g.LeadsInside → ∀ startNodes,
      (∀ s ∈ startNodes, ReflTransGen g.Connects trigger s) →
      (g.HandlesCycles trigger startNodes ↔ ∀ s ∈ startNodes, TransGen g.Connects s s →
        g.FoundWithEntry trigger (LowLink.run g.childrenOf g.nodeList).components s) := by
    intro hg startNodes hstart
    obtain ⟨-, hsane, -⟩ := LowLink.run_rule (hg.childrenOf_subset hnamed)
    exact handlesCycles_iff_of_eq hg htrigger (getStronglyConnectedComponents_eq hg hnamed)
      (fun c hc => (hsane.components c hc).1)
      (hsane.disjoint.imp fun h u hu hu' => h u hu hu')
      (fun c hc u hu w hw => sameComponent_iff.1 ((hsane.components c hc).2.2.2 u hu w hw))
      fun s hs => mem_enteredFrom hg hnamed htrigger (reach_iff.2 (hstart s hs))
  refine ⟨fun startNodes hstart => ⟨fun h => ?_, ?_⟩, fun hg hreturns startNodes hstart => ?_,
    fun hall h => ?_⟩
  · obtain ⟨components, hok⟩ := eq_ok_of_handleCycles h.choose_spec.1
    have hg := leadsInside_of_eq_ok hok
    exact ⟨_, getStronglyConnectedComponents_eq hg hnamed, (hiff hg startNodes hstart).1 h⟩
  · rintro ⟨components, hok, hfound⟩
    have hg := leadsInside_of_eq_ok hok
    rw [getStronglyConnectedComponents_eq hg hnamed] at hok
    exact (hiff hg startNodes hstart).2 (Except.ok.inj hok ▸ hfound)
  · refine (hiff hg startNodes hstart).2 fun s hs _ entry hentry => .inl ?_
    have hcontains := hg.contains_of_reach htrigger (reach_iff.2 (hstart s hs))
    obtain ⟨component, hcomponent, hmem⟩ := (LowLink.run_whole_iff
      (hg.childrenOf_subset hnamed)).2 hreturns s (mem_nodeList_of_contains hcontains)
    exact ⟨component, hcomponent, hmem s (.refl s), hmem entry
      (sameComponent_iff.2 hentry.sameComponent)⟩
  · obtain ⟨components, hok⟩ := eq_ok_of_handleCycles (h [] (by simp)).choose_spec.1
    have hg := leadsInside_of_eq_ok hok
    refine ⟨hg, ?_⟩
    by_contra hnot
    obtain ⟨r, u, hr, hne, hsame, hleft⟩ := LowLink.exists_left_behind
      (hg.childrenOf_subset hnamed) hnot
    have hcycle : ∀ {a b}, Same g.childrenOf a b → b ≠ a → TransGen g.Connects a a :=
      fun hsame hne => by
        by_contra hnot
        exact hne ((sameComponent_iff.1 hsame).eq_of_not_cycle hnot)
    have hreach : ∀ node, Same g.childrenOf r node → ReflTransGen g.Connects trigger node :=
      fun node hsame => hall node (hg.contains_of_reach (contains_of_named hnamed hr) hsame.1)
    obtain ⟨entry, hentry⟩ := exists_isEntry
      (mem_enteredFrom hg hnamed htrigger (reach_iff.2 (hreach r (.refl r))))
    -- the first node replaces neither the one that is left behind nor the other one
    by_cases heq : entry = r
    · have hfound := (hiff hg [u] (by simpa using hreach u hsame)).1
        (h [u] (by simpa using hreach u hsame)) u (by simp) (hcycle hsame.symm hne.symm) entry
        (hentry.of_sameComponent (sameComponent_iff.1 hsame))
      rcases hfound with ⟨component, hcomponent, -, hmem⟩ | ⟨heq', -⟩
      · exact hleft component hcomponent (heq ▸ hmem)
      · exact hne (heq'.trans heq)
    · have hfound := (hiff hg [r] (by simpa using hreach r (.refl r))).1
        (h [r] (by simpa using hreach r (.refl r))) r (by simp) (hcycle hsame hne) entry hentry
      rcases hfound with ⟨component, hcomponent, hmem, -⟩ | ⟨heq', -⟩
      · exact hleft component hcomponent hmem
      · exact heq heq'.symm

end Spec

/-! ### A cycle that is not entered -/

/-- The trigger leads to `R`. -/
def triggeredCycles (first second : String) : DirectedGraph :=
  [("T", "R"), ("R", "A"), ("A", first), ("A", second), ("B", "A")].foldl
    (fun g (a, b) => g.setConnection ⟨nodeNamed a, nodeNamed b, .main, 0, 0⟩)
    (DirectedGraph.empty.addNodes (["T", "R", "A", "B"].map nodeNamed))

theorem triggeredCycles_named (first second : String) : ∀ nodeName node,
    (triggeredCycles first second).nodes.get? nodeName = some node → node.name = nodeName :=
  (wellFormed_empty.addNodes (["T", "R", "A", "B"].map nodeNamed) rfl).named

theorem triggeredCycles_handled_iff :
    (∀ startNodes,
      (∀ s ∈ startNodes, ReflTransGen (triggeredCycles "R" "B").Connects (nodeNamed "T") s) →
      ((triggeredCycles "R" "B").HandlesCycles (nodeNamed "T") startNodes ↔
        ∃ components, (triggeredCycles "R" "B").getStronglyConnectedComponents = .ok components ∧
          ∀ s ∈ startNodes, TransGen (triggeredCycles "R" "B").Connects s s →
            (triggeredCycles "R" "B").FoundWithEntry (nodeNamed "T") components s)) ∧
    ((triggeredCycles "R" "B").LeadsInside → (triggeredCycles "R" "B").ReturnsInOrder →
      ∀ startNodes,
        (∀ s ∈ startNodes, ReflTransGen (triggeredCycles "R" "B").Connects (nodeNamed "T") s) →
        (triggeredCycles "R" "B").HandlesCycles (nodeNamed "T") startNodes) ∧
    ((∀ node, (triggeredCycles "R" "B").contains node →
        ReflTransGen (triggeredCycles "R" "B").Connects (nodeNamed "T") node) →
      (∀ startNodes,
        (∀ s ∈ startNodes, ReflTransGen (triggeredCycles "R" "B").Connects (nodeNamed "T") s) →
        (triggeredCycles "R" "B").HandlesCycles (nodeNamed "T") startNodes) →
      (triggeredCycles "R" "B").LeadsInside ∧ (triggeredCycles "R" "B").ReturnsInOrder) :=
  handlesCycles_iff (triggeredCycles_named "R" "B") (by decide)

example : handleCycles (triggeredCycles "R" "B") [nodeNamed "A"] (nodeNamed "T") =
    .ok [nodeNamed "R"] := by decide

/-- `A` is left where it is, though the search from the trigger meets `R` before it. -/
theorem triggeredCycles_not_handled :
    ReflTransGen (triggeredCycles "B" "R").Connects (nodeNamed "T") (nodeNamed "A") ∧
      ¬ (triggeredCycles "B" "R").HandlesCycles (nodeNamed "T") [nodeNamed "A"] := by
  have hconnects : ∀ {a b : Node},
      b ∈ (triggeredCycles "B" "R").childrenOf a → (triggeredCycles "B" "R").Connects a b :=
    fun h => mem_childrenOf.1 h
  have hRA : (triggeredCycles "B" "R").Connects (nodeNamed "R") (nodeNamed "A") :=
    hconnects (by decide)
  have hAR : (triggeredCycles "B" "R").Connects (nodeNamed "A") (nodeNamed "R") :=
    hconnects (by decide)
  have hcycle : TransGen (triggeredCycles "B" "R").Connects (nodeNamed "A") (nodeNamed "A") :=
    .tail (.single hAR) hRA
  refine ⟨.tail (.single (hconnects (by decide))) hRA, ?_⟩
  rintro ⟨newStartNodes, hok, hmem⟩
  have hsame : handleCycles (triggeredCycles "B" "R") [nodeNamed "A"] (nodeNamed "T") =
      .ok [nodeNamed "A"] := by decide
  obtain rfl := Except.ok.inj (hsame.symm.trans hok)
  obtain ⟨s, hs, hreplaced⟩ := (hmem (nodeNamed "A")).1 (List.mem_singleton.2 rfl)
  obtain rfl := List.mem_singleton.1 hs
  rcases hreplaced with ⟨-, hentry⟩ | ⟨hnot, -⟩
  · -- the first node is `T` or `R`
    classical
    obtain ⟨-, before, after, heq, hbefore⟩ := List.find?_eq_some_iff_append.1 hentry
    have hentered : (triggeredCycles "B" "R").enteredFrom (nodeNamed "T") =
        [nodeNamed "T", nodeNamed "R", nodeNamed "A", nodeNamed "B"] := by decide
    rw [hentered] at heq
    have hR : nodeNamed "R" ∈ before := by
      rcases before with _ | ⟨first, _ | ⟨second, before⟩⟩
      · exact absurd (List.cons.inj heq).1 (by decide)
      · exact absurd (List.cons.inj (List.cons.inj heq).2).1 (by decide)
      · rw [(List.cons.inj (List.cons.inj heq).2).1]
        exact List.mem_cons_of_mem first List.mem_cons_self
    have hnot := hbefore _ hR
    simp [show (triggeredCycles "B" "R").SameComponent (nodeNamed "A") (nodeNamed "R") from
      ⟨.single hAR, .single hRA⟩] at hnot
  · exact hnot hcycle

end DirectedGraph

end N8n
