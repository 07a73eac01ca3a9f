import Mathlib.Tactic
import N8n.RecreateNodeExecutionStack
import N8n.Library.Fallible
import N8n.Proofs.SourceDataGroups

/-!
# Rebuilt entries of the stack

An entry of a complete group has a source for each connection and a list for each that has items,
both by their place in the group. They belong together when all have items, and to the inputs of the
node when each place has a connection of the same output.
-/

namespace N8n

open Fallible

variable {runData : Dict String (List TaskData)} {pinData : Dict String (List Item)}

/-! ## Incoming data -/

theorem lt_of_getIncomingData {nodeName : String} {runIndex : ℕ} {type : NodeConnectionType}
    {outputIndex : ℕ} {items : List Item}
    (h : getIncomingData runData nodeName runIndex type outputIndex = .ok (.items items)) :
    runIndex < getRunIndexLength runData nodeName := by
  by_contra hge
  have hnone : ((runData.get? nodeName).bind (·[runIndex]?)).bind (·.data) = none := by
    unfold getRunIndexLength at hge
    cases hruns : runData.get? nodeName with
    | none => rfl
    | some runs =>
      rw [hruns, Option.getD_some, not_lt] at hge
      simp [List.getElem?_eq_none hge]
  rw [getIncomingData, hnone] at h
  cases h

theorem firstIncomingData_eq_some {nodeName : String} {type : NodeConnectionType}
    {outputIndex : ℕ} {found : List Item × ℕ} : ∀ {runIndexes : List ℕ},
    firstIncomingData runData nodeName type outputIndex runIndexes = .ok (some found) →
    found.1 ≠ [] ∧
      getIncomingData runData nodeName found.2 type outputIndex = .ok (.items found.1)
  | [], h => by cases h
  | runIndex :: runIndexes, h => by
    unfold firstIncomingData at h
    obtain ⟨slot, hslot, h⟩ := bind_eq_ok.1 h
    split at h
    · obtain rfl := Option.some.inj (Except.ok.inj h)
      exact ⟨List.cons_ne_nil _ _, hslot⟩
    · exact firstIncomingData_eq_some h

theorem firstIncomingData_eq_none {nodeName : String} {type : NodeConnectionType}
    {outputIndex : ℕ} {runIndex : ℕ} {item : Item} {items : List Item} : ∀ {runIndexes : List ℕ},
    firstIncomingData runData nodeName type outputIndex runIndexes = .ok none →
    runIndex ∈ runIndexes →
    getIncomingData runData nodeName runIndex type outputIndex ≠ .ok (.items (item :: items))
  | runIndex' :: runIndexes, h, hmem => by
    unfold firstIncomingData at h
    obtain ⟨slot, hslot, h⟩ := bind_eq_ok.1 h
    split at h
    · cases h
    · rename_i hnot
      rcases List.mem_cons.1 hmem with rfl | hmem
      · rw [hslot]
        exact fun heq => hnot _ _ (Except.ok.inj heq)
      · exact firstIncomingData_eq_none h hmem

theorem getIncomingDataFromAnyRun_eq_none {nodeName : String} {type : NodeConnectionType}
    {outputIndex : ℕ} (h : getIncomingDataFromAnyRun runData nodeName type outputIndex = .ok none)
    (runIndex : ℕ) (item : Item) (items : List Item) :
    getIncomingData runData nodeName runIndex type outputIndex ≠ .ok (.items (item :: items)) :=
  fun heq => firstIncomingData_eq_none h (List.mem_range.2 (lt_of_getIncomingData heq)) heq

theorem completeData_eq_some {c : GraphConnection} {found : List Item × ℕ}
    (h : completeData runData pinData c = .ok (some found)) :
    HasItems runData pinData c ∧ CarriesItems runData pinData c found.2 found.1 := by
  unfold completeData at h
  split at h
  · rename_i items hpin
    obtain rfl := Option.some.inj (Except.ok.inj h)
    exact ⟨.inl (by rw [hpin]; rfl), .inl hpin⟩
  · split_ifs at h
    obtain ⟨hne, hdata⟩ := firstIncomingData_eq_some h
    obtain ⟨item, items, hitems⟩ := List.exists_cons_of_ne_nil hne
    exact ⟨.inr ⟨found.2, item, items, by rw [hdata, hitems]⟩, .inr hdata⟩

theorem completeData_eq_none {c : GraphConnection}
    (h : completeData runData pinData c = .ok none) : ¬ HasItems runData pinData c := by
  unfold completeData at h
  split at h
  · cases h
  · rename_i hpin
    split_ifs at h
    rintro (hsome | ⟨runIndex, item, items, hdata⟩)
    · rw [hpin] at hsome
      cases hsome
    · exact getIncomingDataFromAnyRun_eq_none h runIndex item items hdata

/-! ## The entry of a complete group -/

theorem exists_map_some {α : Type} : ∀ {xs : List (Option α)}, (∀ x ∈ xs, x.isSome) →
    ∃ ys : List α, xs = ys.map some
  | [], _ => ⟨[], rfl⟩
  | none :: xs, h => absurd (h none List.mem_cons_self) Bool.false_ne_true
  | some x :: xs, h => by
    obtain ⟨ys, rfl⟩ := exists_map_some fun y hy => h y (List.mem_cons_of_mem _ hy)
    exact ⟨x :: ys, rfl⟩

theorem filterMap_map_some {α β : Type} (f : α → β) (ys : List α) :
    ((ys.map some).filterMap fun y => y.map f) = ys.map f := by
  induction ys with
  | nil => rfl
  | cons y ys ih => simp [ih]

theorem isSome_of_length_filterMap {α β : Type} {f : α → β} : ∀ {xs : List (Option α)},
    (xs.filterMap fun x => x.map f).length = xs.length → ∀ x ∈ xs, x.isSome
  | [], _ => fun _ hx => absurd hx List.not_mem_nil
  | none :: xs, h => by
    have hle : (xs.filterMap fun x => x.map f).length ≤ xs.length := List.length_filterMap_le _ _
    simp only [List.filterMap_cons, Option.map_none, List.length_cons] at h
    omega
  | some x :: xs, h => by
    simp only [List.filterMap_cons, Option.map_some, List.length_cons, Nat.succ_inj] at h
    intro y hy
    rcases List.mem_cons.1 hy with rfl | hy
    · rfl
    · exact isSome_of_length_filterMap h y hy

/-- The entry when every connection of the group has items. -/
structure EntryOf (runData : Dict String (List TaskData)) (pinData : Dict String (List Item))
    (e : ExecuteData) (connections : List GraphConnection) (found : List (List Item × ℕ)) :
    Prop where
  length : found.length = connections.length
  main : e.main = found.map fun x => Slot.items x.1
  source : ∀ (i : ℕ) (c : GraphConnection) (x : List Item × ℕ), connections[i]? = some c →
    found[i]? = some x → (e.source.getD [])[i]? = some (some (c.source x.2))
  data : ∀ (i : ℕ) (c : GraphConnection) (x : List Item × ℕ), connections[i]? = some c →
    found[i]? = some x →
    completeData runData pinData c = .ok (some x)

theorem length_source_completeEntry {node : Node} {connections : List GraphConnection}
    {e : ExecuteData} (he : completeEntry runData pinData node connections = .ok e) :
    (e.source.getD []).length = connections.length := by
  obtain ⟨incoming, hincoming, he⟩ := bind_eq_ok.1 he
  obtain rfl := Except.ok.inj he
  have hlength := (mapM_eq_ok hincoming).length_eq
  simp [hlength]

theorem completeEntry_spec {node : Node} {connections : List GraphConnection} {e : ExecuteData}
    (he : completeEntry runData pinData node connections = .ok e)
    (hall : e.main.length = connections.length ∨ ∀ c ∈ connections, HasItems runData pinData c) :
    ∃ found, EntryOf runData pinData e connections found := by
  obtain ⟨incoming, hincoming, he⟩ := bind_eq_ok.1 he
  obtain rfl := Except.ok.inj he
  have hforall := mapM_eq_ok hincoming
  have hsome : ∀ x ∈ incoming, x.isSome := by
    rcases hall with hlength | hitems
    · rw [hforall.length_eq] at hlength
      exact isSome_of_length_filterMap hlength
    · intro x hx
      obtain ⟨c, hc, hcx⟩ := (mem_of_mapM_eq_ok hincoming).1 hx
      cases x with
      | none => exact absurd (hitems c hc) (completeData_eq_none hcx)
      | some x => rfl
  obtain ⟨found, rfl⟩ := exists_map_some hsome
  have hlength : found.length = connections.length := by simpa using hforall.length_eq.symm
  refine ⟨found, hlength, filterMap_map_some _ found, fun i c x hc hx => ?_, fun i c x hc hx => ?_⟩
  · show (List.zipWith _ connections (found.map some))[i]? = _
    rw [List.getElem?_zipWith, hc, List.getElem?_map, hx]
    rfl
  · obtain ⟨hlt, rfl⟩ := List.getElem?_eq_some_iff.1 hc
    obtain ⟨hlt', rfl⟩ := List.getElem?_eq_some_iff.1 hx
    have h := (List.forall₂_iff_get.1 hforall).2 i hlt (by simpa using hlt')
    simpa using h

/-- The entry of a group belongs to the inputs of its node exactly when the group fits them. -/
theorem completeEntry_aligned_iff {graph : DirectedGraph} {node : Node}
    {group : SourceConnectionGroup} {e : ExecuteData}
    (hmain : ∀ c ∈ graph.getConnections node, c.type = .main)
    (hgroup : ∀ c ∈ group.connections, c ∈ graph.getConnections node)
    (he : completeEntry runData pinData node group.connections = .ok e) :
    Aligned runData pinData graph e ↔ Fits runData pinData graph node group := by
  have hnode : e.node = node := by
    obtain ⟨incoming, -, he⟩ := bind_eq_ok.1 he
    obtain rfl := Except.ok.inj he
    rfl
  have hsourceLength := length_source_completeEntry he
  have hslot : ∀ {found}, EntryOf runData pinData e group.connections
      found → ∀ i items, slotAt e.main i = .items items ↔ ∃ run, found[i]? = some (items, run) := by
    intro found hentry i items
    rw [hentry.main, slotAt, List.getElem?_map]
    cases found[i]? with
    | none => simp
    | some x =>
      obtain ⟨items', run⟩ := x
      simp
  constructor
  · rintro ⟨hlength, harrived⟩
    obtain ⟨found, hentry⟩ := completeEntry_spec he (.inl (hlength.trans hsourceLength))
    intro i c hc
    obtain ⟨⟨items, run⟩, hx⟩ : ∃ x, found[i]? = some x := by
      have hlt := (List.getElem?_eq_some_iff.1 hc).1
      exact ⟨_, List.getElem?_eq_getElem (hentry.length ▸ hlt)⟩
    refine ⟨(completeData_eq_some (hentry.data i c _ hc hx)).1, ?_⟩
    obtain ⟨c', hc', hindex, source, hsource, hnames, -⟩ :=
      harrived i items ((hslot hentry i items).2 ⟨run, hx⟩)
    rw [hentry.source i c _ hc hx] at hsource
    obtain rfl := Option.some.inj (Option.some.inj hsource)
    exact ⟨c', hnode ▸ hc', hindex, hnames.node.symm, hnames.output.symm⟩
  · intro hfits
    have hitems : ∀ c ∈ group.connections, HasItems runData pinData c := by
      intro c hc
      obtain ⟨i, hi⟩ := List.mem_iff_getElem?.1 hc
      exact (hfits i c hi).1
    obtain ⟨found, hentry⟩ := completeEntry_spec he (.inr hitems)
    refine ⟨?_, fun i items hi => ?_⟩
    · rw [hsourceLength, hentry.main, List.length_map, hentry.length]
    · obtain ⟨run, hx⟩ := (hslot hentry i items).1 hi
      obtain ⟨c, hc⟩ : ∃ c, group.connections[i]? = some c := by
        have hlt := (List.getElem?_eq_some_iff.1 hx).1
        exact ⟨_, List.getElem?_eq_getElem (hentry.length ▸ hlt)⟩
      obtain ⟨-, c', hc', hindex, hfrom, houtput⟩ := hfits i c hc
      refine ⟨c', hnode.symm ▸ hc', hindex, _, hentry.source i c _ hc hx, ⟨hfrom.symm, houtput.symm⟩,
        ?_⟩
      have hcarries := (completeData_eq_some (hentry.data i c _ hc hx)).2
      have htype : c'.type = c.type :=
        (hmain c' hc').trans (hmain c (hgroup c (List.mem_of_getElem? hc))).symm
      unfold CarriesItems at hcarries ⊢
      rw [hfrom, houtput, htype]
      exact hcarries

/-! ## The stack -/

section Stack

variable {localeCompare : String → String → ℤ} {graph : DirectedGraph} {startNodes : List Node}
  {node : Node} {r r' : RecreatedStack} {e : ExecuteData}

theorem addIncomplete_stack {nodeName : String} {index : ℕ} {c : GraphConnection}
    (h : addIncomplete runData nodeName index r c = .ok r') :
    r'.nodeExecutionStack = r.nodeExecutionStack := by
  obtain ⟨found, -, h⟩ := bind_eq_ok.1 h
  cases found with
  | none =>
    obtain rfl := Except.ok.inj h
    rfl
  | some found =>
    obtain rfl := Except.ok.inj h
    rfl

/-- The entry is that of the group, which is complete. -/
def EntryOfGroup (runData : Dict String (List TaskData)) (pinData : Dict String (List Item))
    (node : Node) (e : ExecuteData) (group : SourceConnectionGroup) : Prop :=
  group.complete = true ∧ completeEntry runData pinData node group.connections = .ok e

theorem mem_stack_addGroup {group : SourceConnectionGroup}
    (h : addGroup runData pinData node r group = .ok r') :
    e ∈ r'.nodeExecutionStack ↔
      e ∈ r.nodeExecutionStack ∨ EntryOfGroup runData pinData node e group := by
  unfold addGroup at h
  unfold EntryOfGroup
  split_ifs at h with hcomplete
  · obtain ⟨e', he', h⟩ := bind_eq_ok.1 h
    obtain rfl := Except.ok.inj h
    simp [hcomplete, he', eq_comm]
  · rw [foldlM_keeps (g := RecreatedStack.nodeExecutionStack)
      (fun c _ s s' => addIncomplete_stack) h]
    simp [hcomplete]

/-- The entry has been put on the stack for the start node. -/
def EntryOfNode (runData : Dict String (List TaskData)) (pinData : Dict String (List Item))
    (localeCompare : String → String → ℤ) (graph : DirectedGraph) (e : ExecuteData) (node : Node) :
    Prop :=
  if (graph.getConnections node).filter (·.type = .main) = [] then
    e = { node, data := Dict.empty.set .main [.items [{ json := .empty }]], source := none }
  else ∃ group ∈ getSourceDataGroups localeCompare graph node runData pinData,
    EntryOfGroup runData pinData node e group

theorem mem_stack_addStartNode
    (h : addStartNode runData pinData localeCompare graph r node = .ok r') :
    e ∈ r'.nodeExecutionStack ↔ e ∈ r.nodeExecutionStack ∨
      EntryOfNode runData pinData localeCompare graph e node := by
  obtain ⟨parents, hparents, h⟩ := bind_eq_ok.1 h
  unfold DirectedGraph.getDirectParentConnections at hparents
  split_ifs at hparents
  obtain rfl : graph.getConnections node = parents := Except.ok.inj hparents
  unfold EntryOfNode
  split_ifs at h ⊢
  · obtain rfl := Except.ok.inj h
    simp
  · exact foldlM_adds (P := fun r => e ∈ r.nodeExecutionStack) (fun _ _ _ => mem_stack_addGroup) h

theorem recreate_eq_foldlM
    (hr : recreateNodeExecutionStack runData pinData localeCompare graph startNodes = .ok r) :
    startNodes.foldlM (addStartNode runData pinData localeCompare graph) {} = .ok r := by
  unfold recreateNodeExecutionStack at hr
  split at hr
  · cases hr
  · exact hr

theorem mem_stack_iff
    (hr : recreateNodeExecutionStack runData pinData localeCompare graph startNodes = .ok r) :
    e ∈ r.nodeExecutionStack ↔
      ∃ node ∈ startNodes, EntryOfNode runData pinData localeCompare graph e node := by
  rw [foldlM_adds (P := fun r => e ∈ r.nodeExecutionStack) (fun _ _ _ => mem_stack_addStartNode)
    (recreate_eq_foldlM hr)]
  exact or_iff_right List.not_mem_nil

theorem node_of_entryOfGroup {group : SourceConnectionGroup}
    (h : EntryOfGroup runData pinData node e group) : e.node = node := by
  obtain ⟨incoming, -, he⟩ := bind_eq_ok.1 h.2
  obtain rfl := Except.ok.inj he
  rfl

/-- Where the call succeeds, a complete group of a start node has its entry on the stack. -/
theorem exists_entry_of_complete
    (hr : recreateNodeExecutionStack runData pinData localeCompare graph startNodes = .ok r)
    (hnode : node ∈ startNodes) (hmain : ∀ c ∈ graph.getConnections node, c.type = .main)
    {group : SourceConnectionGroup}
    (hgroup : group ∈ getSourceDataGroups localeCompare graph node runData pinData)
    (hcomplete : group.complete = true) (hne : graph.getConnections node ≠ []) :
    ∃ e ∈ r.nodeExecutionStack, EntryOfGroup runData pinData node e group := by
  have hfilter : (graph.getConnections node).filter (·.type = .main) ≠ [] := by
    rw [List.filter_eq_self.2 fun c hc => decide_eq_true (hmain c hc)]
    exact hne
  obtain ⟨r₁, r₂, h⟩ := exists_of_foldlM_eq_ok (recreate_eq_foldlM hr) hnode
  obtain ⟨parents, hparents, h⟩ := bind_eq_ok.1 h
  unfold DirectedGraph.getDirectParentConnections at hparents
  split_ifs at hparents
  obtain rfl : graph.getConnections node = parents := Except.ok.inj hparents
  rw [if_neg hfilter] at h
  obtain ⟨r₃, r₄, h⟩ := exists_of_foldlM_eq_ok h hgroup
  rw [addGroup, if_pos hcomplete] at h
  obtain ⟨e, he, -⟩ := bind_eq_ok.1 h
  refine ⟨e, (mem_stack_iff hr).2 ⟨node, hnode, ?_⟩, hcomplete, he⟩
  rw [EntryOfNode, if_neg hfilter]
  exact ⟨group, hgroup, hcomplete, he⟩

/-- A group that begins at the first input fits when its connections have items. -/
theorem fits_of_first_input {group : SourceConnectionGroup}
    (hgroup : group ∈ getSourceDataGroups localeCompare graph node runData pinData)
    (hfirst : ∀ c ∈ group.connections.head?, c.inputIndex = 0)
    (hitems : ∀ c ∈ group.connections, HasItems runData pinData c) :
    Fits runData pinData graph node group := by
  obtain ⟨last, hupTo⟩ := getSourceDataGroups_goesUpTo hgroup
  obtain ⟨m, hm⟩ := hupTo.inputIndex_eq
  intro i c hc
  have hmem := List.mem_of_getElem? hc
  refine ⟨hitems c hmem, c, mem_group_connections hgroup hmem, ?_, rfl, rfl⟩
  have hzero : m = 0 := by
    cases hconnections : group.connections with
    | nil => simp [hconnections] at hc
    | cons c₀ cs =>
      have hhead := hm 0 c₀ (by rw [hconnections]; rfl)
      rw [hfirst c₀ (by rw [hconnections]; rfl)] at hhead
      omega
  rw [hm i c hc, hzero, Nat.zero_add]

end Stack

/-! ### A node with two inputs -/

def nodeA : Node := { name := "A", type := "set" }

def nodeB : Node := { name := "B", type := "set" }

def nodeN : Node := { name := "N", type := "merge" }

/-- The first output of a node, and an input of `N`. -/
def connectionInto (inputIndex : ℕ) (fromNode : Node) : GraphConnection where
  fromNode
  toNode := nodeN
  type := .main
  outputIndex := 0
  inputIndex

/-- `A` and `B` are connected to the first and the second input of `N`. -/
def mergeGraph : DirectedGraph :=
  ((DirectedGraph.empty.addNodes [nodeA, nodeB, nodeN]).setConnection
    (connectionInto 0 nodeA)).setConnection (connectionInto 1 nodeB)

/-- A run with the items on its first output. -/
def runWith (items : List Item) : TaskData where
  executionIndex := 0
  data := some (Dict.empty.set .main [.items items])

def oneItem : List Item := [{ json := .empty }]

/-- The order of names that have the same case. -/
def compareNames (a b : String) : ℤ := if a = b then 0 else if a.toList < b.toList then -1 else 1

end N8n
