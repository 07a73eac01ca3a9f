import N8n.Proofs.DirectedGraph
import N8n.Proofs.RebuiltEntries

/-!
# The nodes a partial execution starts from

The search remembers the nodes on its way only, so it goes over all simple paths. Where a path has
a node twice, the part after its last visit is a path too, and whether the search stops at a node
does not depend on the way it has come: what it finds is what can be reached at all.
-/

namespace N8n

open Relation DepthFirst

variable {graph : DirectedGraph} {destination : Node} {runData : Dict String (List TaskData)}
  {pinData : Dict String (List Item)}

/-! ## Where the search stops, and what it follows -/

section

variable (graph : DirectedGraph) (destination : Node) (runData : Dict String (List TaskData))
  (pinData : Dict String (List Item))

/-- A loop node, in the last run of which there were no items on the first output. -/
def OpenLoop (node : Node) : Prop :=
  node.type = splitInBatches ∧
    ∀ item items, getLastIncomingData runData node.name .main 0 ≠ .ok (.items (item :: items))

/-- It is dirty, or the destination, or a loop that is not done. -/
def IsStop (node : Node) : Prop :=
  (pinData.get? node.name = none ∧ runData.get? node.name = none) ∨ node = destination ∨
    OpenLoop runData node

/-- A step from a node that is not a stop, over a connection that has items or is pinned. -/
def Follows (a b : Node) : Prop :=
  ¬ IsStop destination runData pinData a ∧
    ∃ c ∈ graph.values, c.fromNode = a ∧ c.toNode = b ∧ HasItems runData pinData c

/-- Task data have an entry for each connection type they are read with. -/
structure Readable : Prop where
  connections : ∀ c ∈ graph.values, ∀ runs, runData.get? c.fromNode.name = some runs →
    ∀ taskData ∈ runs, ∀ data, taskData.data = some data → (data.get? c.type).isSome
  loops : ∀ node, graph.contains node → node.type = splitInBatches →
    ∀ runs, runData.get? node.name = some runs →
    ∀ taskData, runs.getLast? = some taskData → ∀ data, taskData.data = some data →
      (data.get? .main).isSome

end

theorem isDirty_iff {node : Node} : isDirty runData pinData node ↔
    pinData.get? node.name = none ∧ runData.get? node.name = none := by
  unfold isDirty
  rw [Bool.and_eq_true, Option.isNone_iff_eq_none, Option.isNone_iff_eq_none]

/-- Data can be read where there is an entry for the type. -/
theorem getIncomingData_eq_ok {nodeName : String} {runIndex : ℕ} {type : NodeConnectionType}
    (h : ∀ runs, runData.get? nodeName = some runs → ∀ taskData, runs[runIndex]? = some taskData →
      ∀ data, taskData.data = some data → (data.get? type).isSome) (outputIndex : ℕ) :
    ∃ slot, getIncomingData runData nodeName runIndex type outputIndex = .ok slot := by
  unfold getIncomingData
  split
  · exact ⟨_, rfl⟩
  · rename_i data hdata
    obtain ⟨taskData, htask, hdata⟩ := Option.bind_eq_some_iff.1 hdata
    obtain ⟨runs, hruns, htask⟩ := Option.bind_eq_some_iff.1 htask
    obtain ⟨outputs, houtputs⟩ := Option.isSome_iff_exists.1 (h runs hruns taskData htask data hdata)
    rw [houtputs]
    dsimp only
    split <;> exact ⟨_, rfl⟩

theorem getLastIncomingData_eq_ok (hread : Readable graph runData) {node : Node}
    (h : graph.contains node) (htype : node.type = splitInBatches) :
    ∃ slot, getLastIncomingData runData node.name .main 0 = .ok slot := by
  refine getIncomingData_eq_ok (fun runs hruns taskData htask data hdata => ?_) 0
  refine hread.loops node h htype runs hruns taskData ?_ data hdata
  rw [getRunIndexLength, hruns, Option.getD_some] at htask
  rw [List.getLast?_eq_getElem?]
  exact htask

theorem isOpenLoop_eq (hread : Readable graph runData) {node : Node} (h : graph.contains node) :
    ∃ b, isOpenLoop runData node = .ok b ∧ (b = true ↔ OpenLoop runData node) := by
  unfold isOpenLoop OpenLoop
  split_ifs with htype
  · obtain ⟨slot, hslot⟩ := getLastIncomingData_eq_ok hread h htype
    rw [hslot]
    match slot with
    | .items (item :: items) => exact ⟨false, rfl, by simp⟩
    | .items [] | .null | .hole | .undefined => exact ⟨true, rfl, by simp [htype]⟩
  · exact ⟨false, rfl, by simp [htype]⟩

theorem firstIncomingData_eq_ok {nodeName : String} {type : NodeConnectionType} {outputIndex : ℕ}
    (h : ∀ runIndex, ∃ slot, getIncomingData runData nodeName runIndex type outputIndex = .ok slot) :
    ∀ runIndexes : List ℕ, ∃ found,
      firstIncomingData runData nodeName type outputIndex runIndexes = .ok found
  | [] => ⟨none, rfl⟩
  | runIndex :: runIndexes => by
    obtain ⟨slot, hslot⟩ := h runIndex
    obtain ⟨found, hfound⟩ := firstIncomingData_eq_ok h runIndexes
    unfold firstIncomingData
    rw [hslot]
    cases slot with
    | items data =>
      cases data with
      | nil => exact ⟨found, hfound⟩
      | cons item items => exact ⟨_, rfl⟩
    | null => exact ⟨found, hfound⟩
    | hole => exact ⟨found, hfound⟩
    | undefined => exact ⟨found, hfound⟩

theorem isFollowed_eq (pinData : Dict String (List Item)) (hread : Readable graph runData)
    {c : GraphConnection} (hc : c ∈ graph.values) :
    ∃ b, isFollowed runData pinData c = .ok b ∧ (b = true ↔ HasItems runData pinData c) := by
  have hok : ∀ runIndex, ∃ slot, getIncomingData runData c.fromNode.name runIndex c.type
      c.outputIndex = .ok slot := fun runIndex =>
    getIncomingData_eq_ok (fun runs hruns taskData htask data hdata =>
      hread.connections c hc runs hruns taskData (List.mem_of_getElem? htask) data hdata) _
  obtain ⟨found, hfound⟩ := firstIncomingData_eq_ok hok
    (List.range (getRunIndexLength runData c.fromNode.name))
  unfold isFollowed
  refine ⟨found.isSome || (pinData.get? c.fromNode.name).isSome, ?_, ?_⟩
  · rw [getIncomingDataFromAnyRun, hfound]
    rfl
  · rw [Bool.or_eq_true, or_comm]
    refine or_congr_right ⟨fun hsome => ?_, fun ⟨runIndex, item, items, hitems⟩ => ?_⟩
    · obtain ⟨⟨data, runIndex⟩, rfl⟩ := Option.isSome_iff_exists.1 hsome
      obtain ⟨hne, hdata⟩ := firstIncomingData_eq_some hfound
      obtain ⟨item, items, rfl⟩ := List.exists_cons_of_ne_nil hne
      exact ⟨runIndex, item, items, hdata⟩
    · cases found with
      | none => exact absurd hitems (getIncomingDataFromAnyRun_eq_none hfound runIndex item items)
      | some found => rfl

/-! ## The search -/

variable (graph destination runData pinData) in
/-- It is a stop that is reached over connections with items, past nodes that are not seen. -/
def ReachedPast (seen : List Node) (current node : Node) : Prop :=
  IsStop destination runData pinData node ∧
    ReflTransGen (Avoiding (Follows graph destination runData pinData) seen) current node

theorem ReachedPast.eq_of_stop {seen : List Node} {current node : Node}
    (hstop : IsStop destination runData pinData current ∨ current ∈ seen)
    (h : ReachedPast graph destination runData pinData seen current node) : node = current := by
  rcases ReflTransGen.cases_head h.2 with heq | ⟨b, hstep, -⟩
  · exact heq.symm
  · exact (hstop.elim hstep.1.1 hstep.2).elim

/-- Past a node that is neither a stop nor seen, the search goes over its connections. -/
theorem reachedPast_iff {seen : List Node} {current node : Node}
    (hnot : ¬ IsStop destination runData pinData current) (hseen : current ∉ seen) :
    ReachedPast graph destination runData pinData seen current node ↔
      ∃ c ∈ graph.values.filter (·.fromNode = current), HasItems runData pinData c ∧
        ReachedPast graph destination runData pinData (seen ++ [current]) c.toNode node := by
  constructor
  · rintro ⟨hstop, hpath⟩
    obtain ⟨b, ⟨-, c, hc, hfrom, rfl, hitems⟩, hrest⟩ :=
      exists_avoiding hpath fun heq => hnot (heq ▸ hstop)
    exact ⟨c, List.mem_filter.2 ⟨hc, by simpa using hfrom⟩, hitems, hstop, hrest⟩
  · rintro ⟨c, hc, hitems, hstop, hpath⟩
    obtain ⟨hc, hfrom⟩ := List.mem_filter.1 hc
    exact ⟨hstop, .head ⟨⟨hnot, c, hc, by simpa using hfrom, rfl, hitems⟩, hseen⟩
      (Avoiding.weaken hpath)⟩

section Search

variable (hread : Readable graph runData)

include hread

/-- The turns of the loop over the connections of a node. -/
theorem foldlM_startNodes {depth : ℕ} {seen : List Node}
    (hrec : ∀ c ∈ graph.values, ∀ startNodes, ∃ result,
      findStartNodesRecursive graph destination runData pinData depth c.toNode startNodes seen =
        .ok result ∧ ∀ n, n ∈ result ↔ n ∈ startNodes ∨
          ReachedPast graph destination runData pinData seen c.toNode n) :
    ∀ (cs startNodes), cs ⊆ graph.values → ∃ result,
      cs.foldlM (fun startNodes c => do
          if ← isFollowed runData pinData c then
            findStartNodesRecursive graph destination runData pinData depth c.toNode startNodes seen
          else return startNodes) startNodes = .ok result ∧
        ∀ n, n ∈ result ↔ n ∈ startNodes ∨ ∃ c ∈ cs, HasItems runData pinData c ∧
          ReachedPast graph destination runData pinData seen c.toNode n
  | [], startNodes, _ => ⟨startNodes, rfl, by simp⟩
  | c :: cs, startNodes, hcs => by
    obtain ⟨hc, hcs⟩ := List.cons_subset.1 hcs
    obtain ⟨followed, hok, hiff⟩ := isFollowed_eq pinData hread hc
    obtain ⟨middle, hmiddle, hmem⟩ : ∃ middle, (do
        if ← isFollowed runData pinData c then
          findStartNodesRecursive graph destination runData pinData depth c.toNode startNodes seen
        else return startNodes) = Except.ok middle ∧ ∀ n, n ∈ middle ↔ n ∈ startNodes ∨
          HasItems runData pinData c ∧
            ReachedPast graph destination runData pinData seen c.toNode n := by
      rw [hok]
      cases followed with
      | false =>
        have hnot : ¬ HasItems runData pinData c := fun h => by cases hiff.2 h
        exact ⟨startNodes, rfl, fun n => by simp [hnot]⟩
      | true =>
        obtain ⟨result, hresult, hmem⟩ := hrec c hc startNodes
        exact ⟨result, hresult, fun n => by rw [hmem, and_iff_right (hiff.1 rfl)]⟩
    obtain ⟨result, hresult, hmem'⟩ := foldlM_startNodes hrec cs middle hcs
    refine ⟨result, ?_, fun n => ?_⟩
    · rw [List.foldlM_cons, hmiddle]
      exact hresult
    · rw [hmem', hmem, or_assoc, List.exists_mem_cons_iff]

theorem findStartNodesRecursive_spec (hg : graph.WellFormed) : ∀ (depth : ℕ) (current : Node)
    (startNodes seen : List Node), graph.contains current →
    remaining graph.nodeList seen < depth → ∃ result,
      findStartNodesRecursive graph destination runData pinData depth current startNodes seen =
        .ok result ∧ ∀ n, n ∈ result ↔ n ∈ startNodes ∨
          ReachedPast graph destination runData pinData seen current n
  | 0, _, _, _, _, hdepth => absurd hdepth (Nat.not_lt_zero _)
  | depth + 1, current, startNodes, seen, hcurrent, hdepth => by
    -- a stop is what is found, and nothing is beyond it
    have hstopped : IsStop destination runData pinData current → ∀ n,
        n ∈ startNodes.insert current ↔ n ∈ startNodes ∨
          ReachedPast graph destination runData pinData seen current n := by
      intro hstop n
      rw [List.mem_insert_iff, or_comm]
      refine or_congr_right ⟨?_, fun h => h.eq_of_stop (.inl hstop)⟩
      rintro rfl
      exact ⟨hstop, .refl⟩
    obtain ⟨openLoop, hloop, hopen⟩ := isOpenLoop_eq hread hcurrent
    rw [findStartNodesRecursive]
    by_cases hdirty : isDirty runData pinData current = true
    · rw [if_pos hdirty]
      exact ⟨_, rfl, hstopped (.inl (isDirty_iff.1 hdirty))⟩
    by_cases hdestination : current = destination
    · rw [if_neg hdirty, if_pos hdestination]
      exact ⟨_, rfl, hstopped (.inr (.inl hdestination))⟩
    rw [if_neg hdirty, if_neg hdestination, hloop]
    cases openLoop with
    | true => exact ⟨_, rfl, hstopped (.inr (.inr (hopen.1 rfl)))⟩
    | false =>
      have hnot : ¬ IsStop destination runData pinData current := by
        rintro (h | h | h)
        · exact hdirty (isDirty_iff.2 h)
        · exact hdestination h
        · cases hopen.2 h
      by_cases hseen : current ∈ seen
      · refine ⟨startNodes, if_pos hseen, fun n => ?_⟩
        refine (or_iff_left fun h => hnot ?_).symm
        rw [← h.eq_of_stop (.inr hseen)]
        exact h.1
      · have hdepth' := remaining_lt (DirectedGraph.mem_nodeList_of_contains hcurrent) hseen
        obtain ⟨result, hresult, hmem⟩ := foldlM_startNodes hread
          (fun c hc startNodes => findStartNodesRecursive_spec hg depth c.toNode startNodes
            (seen ++ [current]) (hg.toNode c hc) (by omega))
          (graph.values.filter (·.fromNode = current)) startNodes (List.filter_subset_self _)
        refine ⟨result, ?_, fun n => ?_⟩
        · refine (if_neg hseen).trans ?_
          rw [DirectedGraph.getDirectChildConnections_eq hcurrent]
          exact hresult
        · rw [hmem, reachedPast_iff hnot hseen]

end Search

/-- A search that may go deeper than there are nodes left does not go deeper still. -/
theorem findStartNodesRecursive_succ (hg : graph.WellFormed) : ∀ (depth : ℕ) (current : Node)
    (startNodes seen : List Node), graph.contains current →
    remaining graph.nodeList seen < depth →
    findStartNodesRecursive graph destination runData pinData (depth + 1) current startNodes seen =
      findStartNodesRecursive graph destination runData pinData depth current startNodes seen
  | 0, _, _, _, _, hdepth => absurd hdepth (Nat.not_lt_zero _)
  | depth + 1, current, startNodes, seen, hcurrent, hdepth => by
    rw [findStartNodesRecursive, findStartNodesRecursive]
    by_cases hseen : current ∈ seen
    · simp only [hseen, if_true]
    have hdepth' := remaining_lt (DirectedGraph.mem_nodeList_of_contains hcurrent) hseen
    have hturn : ∀ startNodes, ∀ c ∈ graph.values.filter (·.fromNode = current), (do
          if ← isFollowed runData pinData c then
            findStartNodesRecursive graph destination runData pinData (depth + 1) c.toNode
              startNodes (seen ++ [current])
          else return startNodes : Except String (List Node)) = do
          if ← isFollowed runData pinData c then
            findStartNodesRecursive graph destination runData pinData depth c.toNode
              startNodes (seen ++ [current])
          else return startNodes := by
      intro startNodes c hc
      rw [findStartNodesRecursive_succ hg depth c.toNode startNodes (seen ++ [current])
        (hg.toNode c (List.mem_of_mem_filter hc)) (by omega)]
    have hturns := Fallible.foldlM_congr hturn startNodes
    simp only [hseen, if_false, DirectedGraph.getDirectChildConnections_eq hcurrent]
    split_ifs
    · rfl
    · rfl
    · refine congrArg _ (funext fun openLoop => ?_)
      split_ifs
      · rfl
      · exact hturns

def cycleGraph : DirectedGraph :=
  ((DirectedGraph.empty.addNodes [nodeNamed "A", nodeNamed "B"]).setConnection
    ⟨nodeNamed "A", nodeNamed "B", .main, 0, 0⟩).setConnection
    ⟨nodeNamed "B", nodeNamed "A", .main, 0, 0⟩

theorem cycleGraph_wellFormed : cycleGraph.WellFormed :=
  ((DirectedGraph.wellFormed_empty.addNodes [nodeNamed "A", nodeNamed "B"] rfl).setConnection
    (by decide) (by decide)).setConnection (by decide) (by decide)

theorem readable_empty (graph : DirectedGraph) : Readable graph .empty :=
  ⟨fun _ _ _ h => (by cases h), fun _ _ _ _ h => (by cases h)⟩

example : findStartNodes cycleGraph (nodeNamed "B") .empty ((Dict.empty.set "A" []).set "B" [])
    (nodeNamed "A") = .ok [nodeNamed "B"] := by decide

end N8n
