import Mathlib.Tactic
import N8n.Proofs.RebuiltEntries

/-!
# Rebuilt entries that wait

The incomplete groups of a start node that have run data are written one after the other, each under
the number of those before it. What a connection of a group has at its input is the data of its
first run with items, whatever is pinned, and the source names the run with the group's number.
-/

namespace N8n

open Fallible

/-! ## Rows of a waiting table -/

namespace WaitingLists

variable {α : Type} {hole : α}

theorem readInput_writeInput (ofRun : Dict NodeConnectionType (List α)) (t t' : NodeConnectionType)
    (i i' : ℕ) (value : α) : readInput hole (writeInput hole ofRun t i value) t' i' =
      if t' = t ∧ i' = i then value else readInput hole ofRun t' i' := by
  unfold readInput writeInput
  rw [Dict.get?_set]
  by_cases ht : t' = t
  · subst ht
    simp only [if_true, Option.getD_some, true_and, getD_setAt]
  · simp only [ht, if_false, false_and]

theorem ofNode_write_self (waiting : WaitingLists α) (nodeName : String) (k : ℕ)
    (t : NodeConnectionType) (i : ℕ) (value : α) :
    (waiting.write hole nodeName k t i value).ofNode nodeName =
      (waiting.ofNode nodeName).set k
        (writeInput hole (((waiting.ofNode nodeName).get? k).getD .empty) t i value) := by
  rw [write, ofNode, Dict.get?_set_self, Option.getD_some]

theorem ofNode_write_of_ne {nodeName nodeName' : String} (h : nodeName' ≠ nodeName)
    (waiting : WaitingLists α) (k : ℕ) (t : NodeConnectionType) (i : ℕ) (value : α) :
    (waiting.write hole nodeName k t i value).ofNode nodeName' = waiting.ofNode nodeName' := by
  rw [write, ofNode, Dict.get?_set_of_ne _ h]
  rfl

end WaitingLists

open WaitingLists

section Table

variable {α : Type} (hole : α) (value : ℕ → GraphConnection → List Item → α)
  (runData : Dict String (List TaskData))

/-- The items of the first run of the connection that has some. -/
def foundItems (c : GraphConnection) : Option (List Item) :=
  match getIncomingDataFromAnyRun runData c.fromNode.name c.type c.outputIndex with
  | .ok (some found) => some found.1
  | _ => none

/-- A connection with run data is written at its input. -/
def fillInput (k : ℕ) (ofRun : Dict NodeConnectionType (List α)) (c : GraphConnection) :
    Dict NodeConnectionType (List α) :=
  match foundItems runData c with
  | none => ofRun
  | some items => writeInput hole ofRun c.type c.inputIndex (value k c items)

def fillTable (nodeName : String) (k : ℕ) (waiting : WaitingLists α) (c : GraphConnection) :
    WaitingLists α :=
  match foundItems runData c with
  | none => waiting
  | some items => waiting.write hole nodeName k c.type c.inputIndex (value k c items)

/-- What a group has written. -/
def rowOf (k : ℕ) (connections : List GraphConnection) : Dict NodeConnectionType (List α) :=
  connections.foldl (fillInput hole value runData k) .empty

/-- The rows of groups, each written under its number. -/
def rowsOf (groups : List SourceConnectionGroup) : List (Dict NodeConnectionType (List α)) :=
  groups.zipIdx.map fun entry => rowOf hole value runData entry.2 entry.1.connections

variable {hole value runData} {nodeName nodeName' : String} {waiting : WaitingLists α}
  {rows : List (Dict NodeConnectionType (List α))}

theorem fillInput_of_none {k : ℕ} {ofRun : Dict NodeConnectionType (List α)} {c : GraphConnection}
    (h : foundItems runData c = none) : fillInput hole value runData k ofRun c = ofRun := by
  rw [fillInput, h]

theorem fillInput_of_some {k : ℕ} {ofRun : Dict NodeConnectionType (List α)} {c : GraphConnection}
    {items : List Item} (h : foundItems runData c = some items) :
    fillInput hole value runData k ofRun c =
      writeInput hole ofRun c.type c.inputIndex (value k c items) := by
  rw [fillInput, h]

theorem fillTable_of_none {k : ℕ} {c : GraphConnection} (h : foundItems runData c = none) :
    fillTable hole value runData nodeName k waiting c = waiting := by
  rw [fillTable, h]

theorem fillTable_of_some {k : ℕ} {c : GraphConnection} {items : List Item}
    (h : foundItems runData c = some items) :
    fillTable hole value runData nodeName k waiting c =
      waiting.write hole nodeName k c.type c.inputIndex (value k c items) := by
  rw [fillTable, h]

theorem rowsOf_concat (groups : List SourceConnectionGroup) (group : SourceConnectionGroup) :
    rowsOf hole value runData (groups ++ [group]) =
      rowsOf hole value runData groups ++
        [rowOf hole value runData groups.length group.connections] := by
  simp [rowsOf, List.zipIdx_append]

@[simp] theorem length_rowsOf (groups : List SourceConnectionGroup) :
    (rowsOf hole value runData groups).length = groups.length := by
  simp [rowsOf]

theorem getElem?_rowsOf (groups : List SourceConnectionGroup) (k : ℕ) :
    (rowsOf hole value runData groups)[k]? =
      groups[k]?.map fun group => rowOf hole value runData k group.connections := by
  simp [rowsOf, List.getElem?_zipIdx, Option.map_map, Function.comp_def]

theorem foldl_fillTable_of_ne (h : nodeName' ≠ nodeName) (k : ℕ) :
    ∀ (cs : List GraphConnection) (waiting : WaitingLists α),
    (cs.foldl (fillTable hole value runData nodeName k) waiting).ofNode nodeName' =
      waiting.ofNode nodeName'
  | [], _ => rfl
  | c :: cs, waiting => by
    rw [List.foldl_cons, foldl_fillTable_of_ne h k cs]
    cases hfound : foundItems runData c with
    | none => rw [fillTable_of_none hfound]
    | some items => rw [fillTable_of_some hfound, ofNode_write_of_ne h]

/-- The last row is filled further. -/
theorem foldl_fillTable_concat : ∀ (cs : List GraphConnection) {waiting : WaitingLists α}
    {ofRun : Dict NodeConnectionType (List α)},
    waiting.ofNode nodeName = IndexMap.consecutive 0 (rows ++ [ofRun]) →
    (cs.foldl (fillTable hole value runData nodeName rows.length) waiting).ofNode nodeName =
      IndexMap.consecutive 0 (rows ++ [cs.foldl (fillInput hole value runData rows.length) ofRun])
  | [], _, _, h => h
  | c :: cs, waiting, ofRun, h => by
    rw [List.foldl_cons, List.foldl_cons]
    cases hfound : foundItems runData c with
    | none =>
      rw [fillTable_of_none hfound, fillInput_of_none hfound]
      exact foldl_fillTable_concat cs h
    | some items =>
      rw [fillTable_of_some hfound, fillInput_of_some hfound]
      refine foldl_fillTable_concat cs ?_
      have hget := IndexMap.get?_consecutive 0 (rows ++ [ofRun]) rows.length
      have hset := IndexMap.consecutive_set 0 (rows ++ [ofRun]) (j := rows.length) (by simp)
        (writeInput hole ofRun c.type c.inputIndex (value rows.length c items))
      rw [Nat.zero_add] at hget hset
      rw [ofNode_write_self, h, hget, List.getElem?_concat_length, Option.getD_some, hset]
      simp

/-- A group is written in a row of its own, if it has run data. -/
theorem foldl_fillTable : ∀ (cs : List GraphConnection) {waiting : WaitingLists α},
    waiting.ofNode nodeName = IndexMap.consecutive 0 rows →
    (cs.foldl (fillTable hole value runData nodeName rows.length) waiting).ofNode nodeName =
      IndexMap.consecutive 0 (if cs.any fun c => (foundItems runData c).isSome then
        rows ++ [rowOf hole value runData rows.length cs] else rows)
  | [], _, h => by simpa using h
  | c :: cs, waiting, h => by
    rw [List.foldl_cons, rowOf, List.foldl_cons, List.any_cons]
    cases hfound : foundItems runData c with
    | none =>
      rw [fillTable_of_none hfound, fillInput_of_none hfound, foldl_fillTable cs h]
      rfl
    | some items =>
      rw [fillTable_of_some hfound, fillInput_of_some hfound]
      have hget := IndexMap.get?_consecutive 0 rows rows.length
      have hset := IndexMap.consecutive_append 0 rows
        (writeInput hole .empty c.type c.inputIndex (value rows.length c items))
      rw [Nat.zero_add] at hget hset
      have hrow : (waiting.write hole nodeName rows.length c.type c.inputIndex
          (value rows.length c items)).ofNode nodeName = IndexMap.consecutive 0
            (rows ++ [writeInput hole .empty c.type c.inputIndex (value rows.length c items)]) := by
        rw [ofNode_write_self, h, hget, List.getElem?_eq_none le_rfl, Option.getD_none, hset]
      exact foldl_fillTable_concat cs hrow

/-- The rows of groups, and that of the next one. -/
theorem foldl_fillTable_rowsOf {groups : List SourceConnectionGroup} {group : SourceConnectionGroup}
    (h : waiting.ofNode nodeName = IndexMap.consecutive 0 (rowsOf hole value runData groups)) :
    (group.connections.foldl (fillTable hole value runData nodeName groups.length)
        waiting).ofNode nodeName =
      IndexMap.consecutive 0 (rowsOf hole value runData
        (groups ++ if group.connections.any fun c => (foundItems runData c).isSome then [group]
          else [])) := by
  have hlength : (rowsOf hole value runData groups).length = groups.length := length_rowsOf groups
  rw [← hlength, foldl_fillTable group.connections h, hlength]
  split_ifs
  · rw [rowsOf_concat]
  · rw [List.append_nil]

variable (hole) in
/-- What is read of a row is the last that was written there. -/
theorem readInput_foldl (k : ℕ) (t : NodeConnectionType) (i : ℕ) :
    ∀ (cs : List GraphConnection) (ofRun : Dict NodeConnectionType (List α)),
    (∃ c ∈ cs, c.type = t ∧ c.inputIndex = i ∧ ∃ items, foundItems runData c = some items ∧
      readInput hole (cs.foldl (fillInput hole value runData k) ofRun) t i = value k c items) ∨
    ((∀ c ∈ cs, c.type = t → c.inputIndex = i → foundItems runData c = none) ∧
      readInput hole (cs.foldl (fillInput hole value runData k) ofRun) t i =
        readInput hole ofRun t i)
  | [], ofRun => .inr ⟨fun _ h => absurd h List.not_mem_nil, rfl⟩
  | c :: cs, ofRun => by
    rw [List.foldl_cons]
    rcases readInput_foldl k t i cs (fillInput hole value runData k ofRun c) with
      ⟨c', hc', hrest⟩ | ⟨hnone, hread⟩
    · exact .inl ⟨c', List.mem_cons_of_mem c hc', hrest⟩
    · by_cases hplace : c.type = t ∧ c.inputIndex = i
      · cases hfound : foundItems runData c with
        | none =>
          refine .inr ⟨fun c' hc' ht hi => ?_, ?_⟩
          · rcases List.mem_cons.1 hc' with rfl | hc'
            · exact hfound
            · exact hnone c' hc' ht hi
          · rw [hread, fillInput, hfound]
        | some items =>
          refine .inl ⟨c, List.mem_cons_self, hplace.1, hplace.2, items, hfound, ?_⟩
          rw [hread, fillInput, hfound]
          simp only [readInput_writeInput, hplace, and_self, if_true]
      · refine .inr ⟨fun c' hc' ht hi => ?_, ?_⟩
        · rcases List.mem_cons.1 hc' with rfl | hc'
          · exact absurd ⟨ht, hi⟩ hplace
          · exact hnone c' hc' ht hi
        · rw [hread, fillInput]
          split
          · rfl
          · rw [readInput_writeInput, if_neg]
            exact fun h => hplace ⟨h.1.symm, h.2.symm⟩

/-- What is read of a table is what some connection of the group has written, or a hole. -/
theorem read_rowsOf {groups : List SourceConnectionGroup}
    (h : waiting.ofNode nodeName = IndexMap.consecutive 0 (rowsOf hole value runData groups))
    (k : ℕ) (t : NodeConnectionType) (i : ℕ) :
    (∃ group, groups[k]? = some group ∧ ∃ c ∈ group.connections, c.type = t ∧ c.inputIndex = i ∧
      ∃ items, foundItems runData c = some items ∧
        waiting.read hole nodeName k t i = value k c items) ∨
    ((∀ group, groups[k]? = some group → ∀ c ∈ group.connections, c.type = t → c.inputIndex = i →
      foundItems runData c = none) ∧ waiting.read hole nodeName k t i = hole) := by
  have hget := IndexMap.get?_consecutive 0 (rowsOf hole value runData groups) k
  rw [Nat.zero_add, getElem?_rowsOf] at hget
  rw [WaitingLists.read, h, hget]
  cases hgroup : groups[k]? with
  | none => exact .inr ⟨fun _ hnone => (by cases hnone), rfl⟩
  | some group =>
    rcases readInput_foldl hole k t i group.connections .empty with hwritten | ⟨hnone, hread⟩
    · exact .inl ⟨group, rfl, hwritten⟩
    · refine .inr ⟨fun group' hgroup' => ?_, hread⟩
      obtain rfl := Option.some.inj hgroup'
      exact hnone

end Table

/-! ## The rows of a node -/

def dataAt (_ : ℕ) (_ : GraphConnection) (items : List Item) : Slot := .items items

def sourceAt (k : ℕ) (c : GraphConnection) (_ : List Item) : Option SourceData := some (c.source k)

/-- The rows of the groups wait for the node. -/
structure Rows (runData : Dict String (List TaskData)) (nodeName : String)
    (groups : List SourceConnectionGroup) (r : RecreatedStack) : Prop where
  data : r.waitingExecution.ofNode nodeName =
    IndexMap.consecutive 0 (rowsOf .hole dataAt runData groups)
  source : r.waitingExecutionSource.ofNode nodeName =
    IndexMap.consecutive 0 (rowsOf none sourceAt runData groups)

section Rows

variable {runData : Dict String (List TaskData)} {pinData : Dict String (List Item)}
  {localeCompare : String → String → ℤ} {graph : DirectedGraph} {node : Node} {nodeName : String}
  {r r' : RecreatedStack} {groups : List SourceConnectionGroup} {group : SourceConnectionGroup}

theorem hasRunData_eq (c : GraphConnection) :
    hasRunData runData c = (foundItems runData c).isSome := by
  unfold hasRunData foundItems
  rcases getIncomingDataFromAnyRun runData c.fromNode.name c.type c.outputIndex with _ | _ | _ <;>
    rfl

theorem rows_nil (runData : Dict String (List TaskData)) (nodeName : String) :
    Rows runData nodeName [] {} :=
  ⟨IndexMap.ext rfl, IndexMap.ext rfl⟩

theorem addIncomplete_eq {k : ℕ} {c : GraphConnection}
    (h : addIncomplete runData nodeName k r c = .ok r') :
    r' = { r with
      waitingExecution := fillTable .hole dataAt runData nodeName k r.waitingExecution c
      waitingExecutionSource :=
        fillTable none sourceAt runData nodeName k r.waitingExecutionSource c } := by
  obtain ⟨found, hfound, h⟩ := bind_eq_ok.1 h
  cases found with
  | none =>
    have hnone : foundItems runData c = none := by rw [foundItems, hfound]
    rw [fillTable_of_none hnone, fillTable_of_none hnone]
    exact (Except.ok.inj h).symm
  | some found =>
    have hsome : foundItems runData c = some found.1 := by rw [foundItems, hfound]
    rw [fillTable_of_some hsome, fillTable_of_some hsome]
    exact (Except.ok.inj h).symm

theorem foldlM_addIncomplete_eq {k : ℕ} : ∀ (cs : List GraphConnection) {r r' : RecreatedStack},
    cs.foldlM (addIncomplete runData nodeName k) r = .ok r' →
    r' = { r with
      waitingExecution := cs.foldl (fillTable .hole dataAt runData nodeName k) r.waitingExecution
      waitingExecutionSource :=
        cs.foldl (fillTable none sourceAt runData nodeName k) r.waitingExecutionSource }
  | [], r, r', h => (Except.ok.inj h).symm
  | c :: cs, r, r', h => by
    rw [List.foldlM_cons] at h
    obtain ⟨r₁, hr₁, h⟩ := bind_eq_ok.1 h
    rw [foldlM_addIncomplete_eq cs h, addIncomplete_eq hr₁]
    rfl

theorem Rows.addGroup (h : Rows runData node.name groups r)
    (hr : addGroup runData pinData node r group = .ok r') :
    Rows runData node.name (groups ++ if written runData group then [group] else []) r' := by
  unfold N8n.addGroup at hr
  split_ifs at hr with hcomplete
  · obtain ⟨e, -, hr⟩ := bind_eq_ok.1 hr
    obtain rfl := Except.ok.inj hr
    have hwritten : written runData group = false := by simp [written, hcomplete]
    rw [hwritten, if_neg Bool.false_ne_true, List.append_nil]
    exact ⟨h.data, h.source⟩
  · have hk : r.waitingExecution.nextRunIndex node.name = groups.length := by
      rw [nextRunIndex, h.data, IndexMap.size_consecutive, length_rowsOf]
    have hwritten : (group.connections.any fun c => (foundItems runData c).isSome) =
        written runData group := by
      simp only [written, hcomplete, ← hasRunData_eq]
      rfl
    rw [hk] at hr
    rw [foldlM_addIncomplete_eq _ hr, ← hwritten]
    exact ⟨foldl_fillTable_rowsOf h.data, foldl_fillTable_rowsOf h.source⟩

theorem Rows.addGroup_of_ne (h : Rows runData nodeName groups r) (hne : nodeName ≠ node.name)
    (hr : N8n.addGroup runData pinData node r group = .ok r') : Rows runData nodeName groups r' := by
  unfold N8n.addGroup at hr
  split_ifs at hr with hcomplete
  · obtain ⟨e, -, hr⟩ := bind_eq_ok.1 hr
    obtain rfl := Except.ok.inj hr
    exact ⟨h.data, h.source⟩
  · rw [foldlM_addIncomplete_eq _ hr]
    exact ⟨(foldl_fillTable_of_ne hne _ _ _).trans h.data,
      (foldl_fillTable_of_ne hne _ _ _).trans h.source⟩

theorem Rows.addGroups : ∀ (gs : List SourceConnectionGroup) {done : List SourceConnectionGroup}
    {r r' : RecreatedStack}, Rows runData node.name done r →
    gs.foldlM (N8n.addGroup runData pinData node) r = .ok r' →
    Rows runData node.name (done ++ gs.filter (written runData)) r'
  | [], done, r, r', h, hr => by
    obtain rfl := Except.ok.inj hr
    simpa using h
  | group :: gs, done, r, r', h, hr => by
    rw [List.foldlM_cons] at hr
    obtain ⟨r₁, hr₁, hr⟩ := bind_eq_ok.1 hr
    have ih := (h.addGroup hr₁).addGroups gs hr
    cases hwritten : written runData group with
    | true => simpa [hwritten] using ih
    | false => simpa [hwritten] using ih

/-- Without main connections no group is incomplete. -/
theorem groupLoop_complete : ∀ (fuel : ℕ) {withData : List GraphConnection}
    {currentGroup : SourceConnectionGroup} {inputIndex : ℕ}, currentGroup.complete = true →
    ∀ group ∈ groupLoop fuel withData [] currentGroup inputIndex, group.complete = true
  | 0, _, _, _, hcurrent => fun group hgroup => by
    rw [groupLoop, List.mem_singleton] at hgroup
    rw [hgroup, hcurrent]
  | fuel + 1, withData, currentGroup, inputIndex, hcurrent => by
    intro group hgroup
    unfold groupLoop at hgroup
    split at hgroup
    · rw [List.mem_singleton] at hgroup
      rw [hgroup, hcurrent]
    · split at hgroup
      · refine groupLoop_complete fuel ?_ group hgroup
        exact hcurrent
      · rcases List.mem_cons.1 hgroup with rfl | hgroup
        · exact hcurrent
        · exact groupLoop_complete fuel rfl group hgroup

theorem complete_of_no_main (h : (graph.getConnections node).filter (·.type = .main) = [])
    (hgroup : group ∈ getSourceDataGroups localeCompare graph node runData pinData) :
    group.complete = true := by
  have hwithout : ∀ hasData : GraphConnection → Bool, ((graph.getConnections node).filter
      fun connection => !hasData connection && connection.type = .main) = [] := by
    intro hasData
    rw [List.filter_eq_nil_iff] at h ⊢
    intro c hc hand
    exact h c hc (Bool.and_eq_true_iff.1 hand).2
  unfold getSourceDataGroups at hgroup
  simp only [hwithout, sortConnections, List.insertionSort_nil] at hgroup
  split_ifs at hgroup
  · exact absurd hgroup List.not_mem_nil
  · exact groupLoop_complete _ rfl group hgroup

/-- The groups that are written for a start node. -/
def writtenGroups (localeCompare : String → String → ℤ) (graph : DirectedGraph)
    (runData : Dict String (List TaskData)) (pinData : Dict String (List Item)) (node : Node) :
    List SourceConnectionGroup :=
  (getSourceDataGroups localeCompare graph node runData pinData).filter (written runData)

theorem Rows.addStartNode (h : Rows runData node.name [] r)
    (hr : addStartNode runData pinData localeCompare graph r node = .ok r') :
    Rows runData node.name (writtenGroups localeCompare graph runData pinData node) r' := by
  obtain ⟨parents, hparents, hr⟩ := bind_eq_ok.1 hr
  unfold DirectedGraph.getDirectParentConnections at hparents
  split_ifs at hparents
  obtain rfl : graph.getConnections node = parents := Except.ok.inj hparents
  split_ifs at hr with hmain
  · obtain rfl := Except.ok.inj hr
    have hnil : writtenGroups localeCompare graph runData pinData node = [] := by
      refine List.filter_eq_nil_iff.2 fun group hgroup hwritten => ?_
      simp [written, complete_of_no_main hmain hgroup] at hwritten
    rw [hnil]
    exact ⟨h.data, h.source⟩
  · exact h.addGroups _ hr

theorem Rows.addStartNode_of_ne (h : Rows runData nodeName groups r) (hne : nodeName ≠ node.name)
    (hr : N8n.addStartNode runData pinData localeCompare graph r node = .ok r') :
    Rows runData nodeName groups r' := by
  obtain ⟨parents, -, hr⟩ := bind_eq_ok.1 hr
  split_ifs at hr
  · obtain rfl := Except.ok.inj hr
    exact ⟨h.data, h.source⟩
  · exact foldlM_invariant (fun _ _ _ _ h hr => h.addGroup_of_ne hne hr) h hr

theorem rows_of_startNodes : ∀ {startNodes : List Node} {r r' : RecreatedStack},
    (startNodes.map (·.name)).Nodup → (∀ node ∈ startNodes, Rows runData node.name [] r) →
    startNodes.foldlM (N8n.addStartNode runData pinData localeCompare graph) r = .ok r' →
    ∀ node ∈ startNodes,
      Rows runData node.name (writtenGroups localeCompare graph runData pinData node) r'
  | [], _, _, _, _, _ => fun _ hnode => absurd hnode List.not_mem_nil
  | node :: startNodes, r, r', hnodup, hrows, hr => by
    rw [List.foldlM_cons] at hr
    obtain ⟨r₁, hr₁, hrest⟩ := bind_eq_ok.1 hr
    rw [List.map_cons, List.nodup_cons] at hnodup
    have hne : ∀ node' ∈ startNodes, node'.name ≠ node.name := fun node' hnode' heq =>
      hnodup.1 (List.mem_map.2 ⟨node', hnode', heq⟩)
    intro node' hnode'
    rcases List.mem_cons.1 hnode' with heq | hnode'
    · rw [heq]
      exact foldlM_invariant
        (fun node'' hnode'' _ _ h hr => h.addStartNode_of_ne (hne node'' hnode'').symm hr)
        ((hrows node List.mem_cons_self).addStartNode hr₁) hrest
    · exact rows_of_startNodes hnodup.2 (fun node'' hnode'' =>
        (hrows node'' (List.mem_cons_of_mem node hnode'')).addStartNode_of_ne
          (hne node'' hnode'') hr₁) hrest node' hnode'

/-- The rows that wait for a start node in the end. -/
theorem rows_of_recreate {startNodes : List Node} (hnodup : startNodes.Nodup)
    (hr : recreateNodeExecutionStack runData pinData localeCompare graph startNodes = .ok r)
    (hnode : node ∈ startNodes) :
    Rows runData node.name (writtenGroups localeCompare graph runData pinData node) r := by
  have hfold := recreate_eq_foldlM hr
  have hcontained : ∀ node ∈ startNodes, graph.nodes.get? node.name = some node := by
    intro node hnode
    obtain ⟨r₁, r₂, h⟩ := exists_of_foldlM_eq_ok hfold hnode
    obtain ⟨parents, hparents, -⟩ := bind_eq_ok.1 h
    unfold DirectedGraph.getDirectParentConnections at hparents
    split_ifs at hparents with hcontains
    exact of_decide_eq_true hcontains
  have hnames : (startNodes.map (·.name)).Nodup := by
    refine hnodup.map_on fun x hx y hy heq => ?_
    have hxy := hcontained x hx
    rw [heq, hcontained y hy] at hxy
    exact (Option.some.inj hxy).symm
  exact rows_of_startNodes hnames (fun node _ => rows_nil runData node.name) hfold node hnode

/-! ## The place of a group and of a connection -/

theorem getElem?_filter_countP {α : Type} {p : α → Bool} {x : α} : ∀ {xs : List α} {j : ℕ},
    xs[j]? = some x → p x = true → (xs.filter p)[(xs.take j).countP p]? = some x
  | y :: xs, 0, h, hp => by
    obtain rfl := Option.some.inj h
    simp [hp]
  | y :: xs, j + 1, h, hp => by
    have ih := getElem?_filter_countP (j := j) h hp
    cases hy : p y <;> simp [hy, ih]

theorem exists_of_getElem?_filter {α : Type} {p : α → Bool} {x : α} : ∀ {xs : List α} {k : ℕ},
    (xs.filter p)[k]? = some x → ∃ j, xs[j]? = some x ∧ (xs.take j).countP p = k
  | y :: xs, k, h => by
    cases hy : p y with
    | false =>
      rw [List.filter_cons_of_neg (by simp [hy])] at h
      obtain ⟨j, hj, hk⟩ := exists_of_getElem?_filter h
      exact ⟨j + 1, hj, by simp [hy, hk]⟩
    | true =>
      rw [List.filter_cons_of_pos hy] at h
      cases k with
      | zero => exact ⟨0, h, rfl⟩
      | succ k =>
        obtain ⟨j, hj, hk⟩ := exists_of_getElem?_filter (k := k) h
        exact ⟨j + 1, hj, by simp [hy, hk]⟩

theorem values_nodup (graph : DirectedGraph) : graph.values.Nodup := by
  refine List.Nodup.of_map makeKey ?_
  have hkeys : graph.values.map makeKey = graph.connections.keys := by
    rw [DirectedGraph.values, List.map_map]
    refine List.map_congr_left fun ⟨key, c⟩ hmem => ?_
    exact (graph.keyed key c (Dict.mem_entries.1 hmem)).symm
  rw [hkeys]
  exact graph.connections.nodup

/-- Two connections of a graph that have the same key are one. -/
theorem eq_of_makeKey_eq {c c' : GraphConnection} (hc : c ∈ graph.values) (hc' : c' ∈ graph.values)
    (h : makeKey c = makeKey c') : c = c' := by
  obtain ⟨⟨key, c⟩, hmem, rfl⟩ := List.mem_map.1 hc
  obtain ⟨⟨key', c'⟩, hmem', rfl⟩ := List.mem_map.1 hc'
  have hget := Dict.mem_entries.1 hmem
  have hget' := Dict.mem_entries.1 hmem'
  rw [graph.keyed key c hget, h, ← graph.keyed key' c' hget', hget'] at hget
  exact (Option.some.inj hget).symm

/-- A connection is in one group only. -/
theorem group_unique {c : GraphConnection} {j j' : ℕ} {group' : SourceConnectionGroup}
    (hj : (getSourceDataGroups localeCompare graph node runData pinData)[j]? = some group)
    (hj' : (getSourceDataGroups localeCompare graph node runData pinData)[j']? = some group')
    (hc : c ∈ group.connections) (hc' : c ∈ group'.connections) : j = j' := by
  have hnodup : ((getSourceDataGroups localeCompare graph node runData pinData).flatMap
      (·.connections)).Nodup :=
    getSourceDataGroups_perm.nodup_iff.2 (((values_nodup graph).filter _).filter _)
  have hdisjoint := List.pairwise_iff_getElem.1 (List.nodup_flatMap.1 hnodup).2
  obtain ⟨hlt, hget⟩ := List.getElem?_eq_some_iff.1 hj
  obtain ⟨hlt', hget'⟩ := List.getElem?_eq_some_iff.1 hj'
  rcases Nat.lt_trichotomy j j' with h | h | h
  · have hapart := hdisjoint j j' hlt hlt' h
    rw [Function.onFun, hget, hget'] at hapart
    exact absurd hc' (hapart hc)
  · exact h
  · have hapart := hdisjoint j' j hlt' hlt h
    rw [Function.onFun, hget, hget'] at hapart
    exact absurd hc (hapart hc')

/-- The connections of a group go to inputs of their own. -/
theorem eq_of_inputIndex_eq
    (hgroup : group ∈ getSourceDataGroups localeCompare graph node runData pinData)
    {c c' : GraphConnection} (hc : c ∈ group.connections) (hc' : c' ∈ group.connections)
    (h : c.inputIndex = c'.inputIndex) : c = c' := by
  obtain ⟨last, hupTo⟩ := getSourceDataGroups_goesUpTo hgroup
  obtain ⟨m, hm⟩ := hupTo.inputIndex_eq
  obtain ⟨i, hi⟩ := List.mem_iff_getElem?.1 hc
  obtain ⟨i', hi'⟩ := List.mem_iff_getElem?.1 hc'
  have hindex := hm i c hi
  have hindex' := hm i' c' hi'
  obtain rfl : i = i' := by omega
  exact Option.some.inj (hi.symm.trans hi')

theorem foundItems_eq_some {c : GraphConnection} {items : List Item} :
    foundItems runData c = some items ↔ ∃ found, found.1 = items ∧
      getIncomingDataFromAnyRun runData c.fromNode.name c.type c.outputIndex =
        .ok (some found) := by
  unfold foundItems
  rcases getIncomingDataFromAnyRun runData c.fromNode.name c.type c.outputIndex with
    _ | _ | found <;> simp

theorem runHasItems_iff {k : ℕ} {c : GraphConnection} :
    RunHasItems runData pinData k c ↔
      ∃ items, foundItems runData c = some items ∧ TakenFrom runData pinData c k items := by
  simp only [RunHasItems, foundItems_eq_some]
  constructor
  · rintro ⟨found, hfound, htaken⟩
    exact ⟨found.1, ⟨found, rfl, hfound⟩, htaken⟩
  · rintro ⟨items, ⟨found, rfl, hfound⟩, htaken⟩
    exact ⟨found, hfound, htaken⟩

/-- Where a row waits for the connection, the row is that of its group. -/
theorem number_of_source {c : GraphConnection} {source : SourceData} {j k : ℕ}
    (hrows : Rows runData node.name (writtenGroups localeCompare graph runData pinData node) r)
    (hj : (getSourceDataGroups localeCompare graph node runData pinData)[j]? = some group)
    (hc : c ∈ group.connections) (hmain : c.type = .main)
    (hsource : r.waitingExecutionSource.read none node.name k .main c.inputIndex = some source)
    (hnames : source.Names c) :
    ((getSourceDataGroups localeCompare graph node runData pinData).take j).countP
        (written runData) = k ∧ written runData group = true ∧
      source.previousNodeRun.getD 0 = k := by
  rcases read_rowsOf hrows.source k .main c.inputIndex with
    ⟨group', hgroup', c', hc', htype, hindex, items, -, hread⟩ | ⟨-, hread⟩
  · rw [hsource] at hread
    obtain rfl : source = c'.source k := Option.some.inj hread
    obtain ⟨j', hj', hk⟩ := exists_of_getElem?_filter hgroup'
    have hmem := mem_group_connections (List.mem_of_getElem? hj) hc
    have hmem' := mem_group_connections (List.mem_of_getElem? hj') hc'
    have htoNode : c'.toNode = c.toNode := by
      rw [of_decide_eq_true (List.mem_filter.1 hmem).2,
        of_decide_eq_true (List.mem_filter.1 hmem').2]
    have hfrom : c'.fromNode.name = c.fromNode.name := hnames.node
    have houtput : c'.outputIndex = c.outputIndex := hnames.output
    have heq : c' = c := by
      refine eq_of_makeKey_eq (List.mem_of_mem_filter hmem') (List.mem_of_mem_filter hmem) ?_
      simp only [makeKey, hfrom, houtput, htype, hmain, hindex, htoNode]
    obtain rfl := group_unique hj hj' hc (heq ▸ hc')
    obtain rfl : group = group' := Option.some.inj (hj.symm.trans hj')
    exact ⟨hk, (List.mem_filter.1 (List.mem_of_getElem? hgroup')).2, rfl⟩
  · rw [hsource] at hread
    cases hread

/-- What a row has at the input of a connection of its group. -/
theorem foundItems_of_read {c : GraphConnection} {items : List Item} {j : ℕ}
    (hrows : Rows runData node.name (writtenGroups localeCompare graph runData pinData node) r)
    (hj : (getSourceDataGroups localeCompare graph node runData pinData)[j]? = some group)
    (hwritten : written runData group = true) (hc : c ∈ group.connections)
    (hread : r.waitingExecution.read .hole node.name
      (((getSourceDataGroups localeCompare graph node runData pinData).take j).countP
        (written runData)) .main c.inputIndex = .items items) :
    foundItems runData c = some items := by
  have hk := getElem?_filter_countP hj hwritten
  rcases read_rowsOf hrows.data _ .main c.inputIndex with
    ⟨group', hgroup', c', hc', -, hindex, items', hfound, hread'⟩ | ⟨-, hread'⟩
  · obtain rfl : group = group' := Option.some.inj (hk.symm.trans hgroup')
    obtain rfl := eq_of_inputIndex_eq (List.mem_of_getElem? hj) hc' hc hindex
    rw [hread] at hread'
    obtain rfl : items = items' := Slot.items.inj hread'
    exact hfound
  · rw [hread] at hread'
    cases hread'

/-- What waits at the inputs of the group with this number. -/
theorem waitsWith_of_found {c : GraphConnection} {items : List Item} {k : ℕ}
    (hrows : Rows runData node.name (writtenGroups localeCompare graph runData pinData node) r)
    (hgroup : group ∈ getSourceDataGroups localeCompare graph node runData pinData)
    (hk : (writtenGroups localeCompare graph runData pinData node)[k]? = some group)
    (hc : c ∈ group.connections) (hmain : c.type = .main)
    (hfound : foundItems runData c = some items) (htaken : TakenFrom runData pinData c k items) :
    WaitsWith runData pinData r node.name k c := by
  refine ⟨items, c.source k, ?_, ?_, ⟨rfl, rfl⟩, htaken⟩
  · rcases read_rowsOf hrows.data k .main c.inputIndex with
      ⟨group', hgroup', c', hc', -, hindex, items', hfound', hread⟩ | ⟨hnone, -⟩
    · obtain rfl : group = group' := Option.some.inj (hk.symm.trans hgroup')
      obtain rfl := eq_of_inputIndex_eq hgroup hc' hc hindex
      obtain rfl : items = items' := Option.some.inj (hfound.symm.trans hfound')
      exact hread
    · rw [hnone group hk c hc hmain rfl] at hfound
      cases hfound
  · rcases read_rowsOf hrows.source k .main c.inputIndex with
      ⟨group', hgroup', c', hc', -, hindex, items', -, hread⟩ | ⟨hnone, -⟩
    · obtain rfl : group = group' := Option.some.inj (hk.symm.trans hgroup')
      obtain rfl := eq_of_inputIndex_eq hgroup hc' hc hindex
      exact hread
    · rw [hnone group hk c hc hmain rfl] at hfound
      cases hfound

theorem groupWaits_iff {j : ℕ}
    (hrows : Rows runData node.name (writtenGroups localeCompare graph runData pinData node) r)
    (hj : (getSourceDataGroups localeCompare graph node runData pinData)[j]? = some group)
    (hincomplete : group.complete = false) :
    GroupWaits runData pinData r node group ↔ ∀ c ∈ group.connections, c.type = .main →
      HasItems runData pinData c → RunHasItems runData pinData
        (((getSourceDataGroups localeCompare graph node runData pinData).take j).countP
          (written runData)) c := by
  constructor
  · rintro ⟨k, hwaits⟩ c hc hmain hitems
    obtain ⟨items, source, hread, hsource, hnames, htaken⟩ := hwaits c hc hmain hitems
    obtain ⟨rfl, hwritten, hrun⟩ := number_of_source hrows hj hc hmain hsource hnames
    rw [hrun] at htaken
    exact runHasItems_iff.2 ⟨items, foundItems_of_read hrows hj hwritten hc hread, htaken⟩
  · intro h
    refine ⟨((getSourceDataGroups localeCompare graph node runData pinData).take j).countP
      (written runData), fun c hc hmain hitems => ?_⟩
    obtain ⟨items, hfound, htaken⟩ := runHasItems_iff.1 (h c hc hmain hitems)
    have hwritten : written runData group = true := by
      rw [written, hincomplete, Bool.not_false, Bool.true_and, List.any_eq_true]
      exact ⟨c, hc, by rw [hasRunData_eq, hfound]; rfl⟩
    exact waitsWith_of_found hrows (List.mem_of_getElem? hj) (getElem?_filter_countP hj hwritten) hc
      hmain hfound htaken

end Rows

/-! ### The first input waits for the second -/

/-- The data of `A` is that of its second run. -/
def secondRun : Dict String (List TaskData) := Dict.empty.set "A" [runWith [], runWith oneItem]

/-- `A` has items and `B` none. -/
def waitingGroup : SourceConnectionGroup where
  complete := false
  connections := [connectionInto 0 nodeA, connectionInto 1 nodeB]

end N8n
