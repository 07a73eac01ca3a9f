import Mathlib.Tactic
import N8n.RecreateNodeExecutionStack

/-!
# The groups of a start node's connections

Each incoming connection that has data, or is of the main type, is in one group, once. The inputs of
a group follow one another, from whichever is the first.
-/

namespace N8n

open scoped List

/-- The connections go to consecutive inputs, `inputIndex` being the one after the last. -/
def GoesUpTo (connections : List GraphConnection) (inputIndex : ℕ) : Prop :=
  ∃ m, connections.map (·.inputIndex) = List.range' m connections.length ∧
    inputIndex = m + connections.length

theorem GoesUpTo.push {connections : List GraphConnection} {inputIndex : ℕ}
    (h : GoesUpTo connections inputIndex) {c : GraphConnection} (hc : c.inputIndex = inputIndex) :
    GoesUpTo (connections ++ [c]) (inputIndex + 1) := by
  obtain ⟨m, hmap, rfl⟩ := h
  refine ⟨m, ?_, by simp only [List.length_append, List.length_singleton]; omega⟩
  rw [List.map_append, hmap, List.map_singleton, hc, List.length_append, List.length_singleton,
    List.range'_1_concat]

theorem goesUpTo_nil (inputIndex : ℕ) : GoesUpTo [] inputIndex := ⟨inputIndex, rfl, rfl⟩

/-- The input of the connection at a place. -/
theorem GoesUpTo.inputIndex_eq {connections : List GraphConnection} {inputIndex : ℕ}
    (h : GoesUpTo connections inputIndex) : ∃ m : ℕ, ∀ (i : ℕ) (c : GraphConnection),
      connections[i]? = some c → c.inputIndex = m + i := by
  obtain ⟨m, hmap, -⟩ := h
  refine ⟨m, fun i c hc => ?_⟩
  have hi := congrArg (·[i]?) hmap
  simp only [List.getElem?_map, hc, Option.map_some] at hi
  rw [List.getElem?_range' (by simpa using (List.getElem?_eq_some_iff.1 hc).1)] at hi
  simpa using hi

theorem eraseP_perm {p : GraphConnection → Bool} {c : GraphConnection} :
    ∀ {cs : List GraphConnection}, cs.find? p = some c → cs ~ c :: cs.eraseP p
  | x :: cs, h => by
    by_cases hx : p x
    · rw [List.find?_cons_of_pos hx] at h
      rw [List.eraseP_cons_of_pos hx, Option.some.inj h]
    · rw [List.find?_cons_of_neg hx] at h
      rw [List.eraseP_cons_of_neg hx]
      exact ((eraseP_perm h).cons x).trans (.swap c x _)

theorem exists_minInputIndex {connections : List GraphConnection} (h : connections ≠ []) :
    ∃ c ∈ connections, c.inputIndex = minInputIndex connections := by
  have hne : connections.map (·.inputIndex) ≠ [] := by simpa using h
  obtain ⟨m, hm⟩ := Option.isSome_iff_exists.1 (List.isSome_min?_of_ne_nil hne)
  obtain ⟨c, hc, hcm⟩ := List.mem_map.1 (List.min?_mem hm)
  exact ⟨c, hc, by rw [minInputIndex, hm]; exact hcm⟩

/-! ## Turns of the loop -/

/-- The loop ends with these groups. -/
inductive GroupLoopEnds : List GraphConnection → List GraphConnection → SourceConnectionGroup →
    ℕ → List SourceConnectionGroup → Prop
  | ended {currentGroup inputIndex} : GroupLoopEnds [] [] currentGroup inputIndex [currentGroup]
  | withData {withData withoutData currentGroup inputIndex connection groups} :
      withData.find? (·.inputIndex = inputIndex) = some connection →
      GroupLoopEnds (withData.eraseP (·.inputIndex = inputIndex)) withoutData
        { currentGroup with connections := currentGroup.connections ++ [connection] }
        (inputIndex + 1) groups →
      GroupLoopEnds withData withoutData currentGroup inputIndex groups
  | withoutData {withData withoutData currentGroup inputIndex connection groups} :
      withData.find? (·.inputIndex = inputIndex) = none →
      withoutData.find? (·.inputIndex = inputIndex) = some connection →
      GroupLoopEnds withData (withoutData.eraseP (·.inputIndex = inputIndex))
        { complete := false, connections := currentGroup.connections ++ [connection] }
        (inputIndex + 1) groups →
      GroupLoopEnds withData withoutData currentGroup inputIndex groups
  | gap {withData withoutData currentGroup inputIndex groups} :
      withData ++ withoutData ≠ [] →
      (∀ c ∈ withData ++ withoutData, c.inputIndex ≠ inputIndex) →
      GroupLoopEnds withData withoutData {} (minInputIndex (withData ++ withoutData)) groups →
      GroupLoopEnds withData withoutData currentGroup inputIndex (currentGroup :: groups)

theorem length_eraseP_of_find? {p : GraphConnection → Bool} {c : GraphConnection}
    {cs : List GraphConnection} (h : cs.find? p = some c) :
    cs.length = (cs.eraseP p).length + 1 := (eraseP_perm h).length_eq

theorem not_mem_of_find?_none {withData withoutData : List GraphConnection} {inputIndex : ℕ}
    (h : withData.find? (·.inputIndex = inputIndex) = none)
    (h' : withoutData.find? (·.inputIndex = inputIndex) = none) :
    ∀ c ∈ withData ++ withoutData, c.inputIndex ≠ inputIndex := by
  intro c hc hindex
  rcases List.mem_append.1 hc with hc | hc
  · exact List.find?_eq_none.1 h c hc (decide_eq_true hindex)
  · exact List.find?_eq_none.1 h' c hc (decide_eq_true hindex)

/-- As many turns as `getSourceDataGroups` takes are enough. -/
theorem groupLoop_ends : ∀ (fuel : ℕ) {withData withoutData : List GraphConnection}
    {currentGroup : SourceConnectionGroup} {inputIndex : ℕ},
    2 * (withData.length + withoutData.length) ≤ fuel →
    (2 * (withData.length + withoutData.length) < fuel ∨ withData ++ withoutData = [] ∨
      ∃ c ∈ withData ++ withoutData, c.inputIndex = inputIndex) →
    GroupLoopEnds withData withoutData currentGroup inputIndex
      (groupLoop fuel withData withoutData currentGroup inputIndex)
  | 0, withData, withoutData, currentGroup, inputIndex, hfuel, _ => by
    obtain rfl : withData = [] := List.length_eq_zero_iff.1 (by omega)
    obtain rfl : withoutData = [] := List.length_eq_zero_iff.1 (by omega)
    exact .ended
  | fuel + 1, withData, withoutData, currentGroup, inputIndex, hfuel, hnext => by
    unfold groupLoop
    split_ifs with hempty
    · rw [hempty.1, hempty.2]
      exact .ended
    split
    · rename_i c hfind
      have hlength := length_eraseP_of_find? hfind
      exact .withData hfind (groupLoop_ends fuel (by omega) (.inl (by omega)))
    rename_i hnone
    split
    · rename_i c hfind
      have hlength := length_eraseP_of_find? hfind
      exact .withoutData hnone hfind (groupLoop_ends fuel (by omega) (.inl (by omega)))
    · rename_i hnone'
      have hne : withData ++ withoutData ≠ [] := by simpa using hempty
      have habsent := not_mem_of_find?_none hnone hnone'
      have hlt := hnext.resolve_right fun h => h.elim hne fun ⟨c, hc, hindex⟩ => habsent c hc hindex
      exact .gap hne habsent
        (groupLoop_ends fuel (by omega) (.inr (.inr (exists_minInputIndex hne))))

namespace GroupLoopEnds

variable {withData withoutData : List GraphConnection} {currentGroup : SourceConnectionGroup}
  {inputIndex : ℕ} {groups : List SourceConnectionGroup}

theorem perm (h : GroupLoopEnds withData withoutData currentGroup inputIndex groups) :
    groups.flatMap (·.connections) ~ currentGroup.connections ++ (withData ++ withoutData) := by
  induction h with
  | ended => simp
  | withData hfind _ ih =>
    refine ih.trans ?_
    simp only [List.append_assoc, List.singleton_append]
    exact ((eraseP_perm hfind).symm.append_right _).append_left _
  | withoutData _ hfind _ ih =>
    refine ih.trans ?_
    simp only [List.append_assoc, List.singleton_append]
    refine .append_left _ ?_
    exact List.perm_middle.symm.trans ((eraseP_perm hfind).symm.append_left _)
  | gap _ _ _ ih =>
    rw [List.flatMap_cons]
    exact ih.append_left _

theorem goesUpTo (h : GroupLoopEnds withData withoutData currentGroup inputIndex groups)
    (hcurrent : GoesUpTo currentGroup.connections inputIndex) :
    ∀ group ∈ groups, ∃ last, GoesUpTo group.connections last := by
  induction h with
  | ended =>
    rintro group hgroup
    exact ⟨_, List.mem_singleton.1 hgroup ▸ hcurrent⟩
  | withData hfind _ ih =>
    exact ih (hcurrent.push (by simpa using List.find?_some hfind))
  | withoutData _ hfind _ ih =>
    exact ih (hcurrent.push (by simpa using List.find?_some hfind))
  | gap _ _ _ ih =>
    rintro group hgroup
    rcases List.mem_cons.1 hgroup with rfl | hgroup
    · exact ⟨_, hcurrent⟩
    · exact ih (goesUpTo_nil _) group hgroup

theorem complete_iff {hasData : GraphConnection → Prop}
    (h : GroupLoopEnds withData withoutData currentGroup inputIndex groups)
    (hwith : ∀ c ∈ withData, hasData c) (hwithout : ∀ c ∈ withoutData, ¬ hasData c)
    (hcurrent : currentGroup.complete = true ↔ ∀ c ∈ currentGroup.connections, hasData c) :
    ∀ group ∈ groups, group.complete = true ↔ ∀ c ∈ group.connections, hasData c := by
  induction h with
  | ended =>
    rintro group hgroup
    rw [List.mem_singleton.1 hgroup]
    exact hcurrent
  | withData hfind _ ih =>
    refine ih (fun c hc => hwith c (List.mem_of_mem_eraseP hc)) hwithout ?_
    have hc := hwith _ (List.mem_of_find?_eq_some hfind)
    simp only [List.forall_mem_append, List.forall_mem_singleton, hc, and_true]
    exact hcurrent
  | withoutData _ hfind _ ih =>
    refine ih hwith (fun c hc => hwithout c (List.mem_of_mem_eraseP hc)) ?_
    have hc := hwithout _ (List.mem_of_find?_eq_some hfind)
    simp [hc]
  | gap _ _ _ ih =>
    rintro group hgroup
    rcases List.mem_cons.1 hgroup with rfl | hgroup
    · exact hcurrent
    · exact ih hwith hwithout (by simp) group hgroup

/-- What is taken for one input leaves the connections of any other. -/
theorem mem_eraseP_iff {connections : List GraphConnection} {c : GraphConnection}
    (hc : c.inputIndex ≠ inputIndex) :
    c ∈ connections.eraseP (·.inputIndex = inputIndex) ↔ c ∈ connections :=
  List.mem_eraseP_of_neg (by simpa using hc)

/-- To these inputs a group adds those from `inputIndex` on, up to the first that has none of the
connections. -/
def FillsUp (connections : List GraphConnection) (inputs : List ℕ) (inputIndex : ℕ)
    (group : SourceConnectionGroup) : Prop :=
  ∃ k, group.connections.map (·.inputIndex) = inputs ++ List.range' inputIndex k ∧
    (∀ c ∈ connections, c.inputIndex ≠ inputIndex + k) ∧
    ∀ i, inputIndex ≤ i → i < inputIndex + k → ∃ c ∈ connections, c.inputIndex = i

theorem FillsUp.push {connections rest : List GraphConnection} {inputs : List ℕ}
    {c : GraphConnection} {group : SourceConnectionGroup}
    (hrest : ∀ d : GraphConnection, d.inputIndex ≠ c.inputIndex → (d ∈ rest ↔ d ∈ connections))
    (hc : c ∈ connections) (h : FillsUp rest (inputs ++ [c.inputIndex]) (c.inputIndex + 1) group) :
    FillsUp connections inputs c.inputIndex group := by
  obtain ⟨k, hmap, habsent, hpresent⟩ := h
  refine ⟨k + 1, ?_, fun d hd hlast => ?_, fun i hle hlt => ?_⟩
  · rw [hmap, List.append_assoc, List.range'_succ, List.singleton_append]
  · exact habsent d ((hrest d (by omega)).2 hd) (by omega)
  · rcases hle.eq_or_lt with rfl | hlt'
    · exact ⟨c, hc, rfl⟩
    · obtain ⟨d, hd, hdi⟩ := hpresent i hlt' (by omega)
      exact ⟨d, (hrest d (by omega)).1 hd, hdi⟩

/-- The first group goes on to the first input that has no connection. -/
theorem head (h : GroupLoopEnds withData withoutData currentGroup inputIndex groups) :
    ∃ group, groups.head? = some group ∧ FillsUp (withData ++ withoutData)
      (currentGroup.connections.map (·.inputIndex)) inputIndex group := by
  induction h with
  | ended => exact ⟨_, rfl, 0, by simp, by simp, fun i _ _ => by omega⟩
  | @withData withData withoutData currentGroup inputIndex c _ hfind _ ih =>
    obtain ⟨group, hhead, hfills⟩ := ih
    obtain rfl : c.inputIndex = inputIndex := by simpa using List.find?_some hfind
    rw [List.map_append, List.map_singleton] at hfills
    refine ⟨group, hhead, hfills.push (fun d hd => ?_)
      (List.mem_append_left _ (List.mem_of_find?_eq_some hfind))⟩
    rw [List.mem_append, mem_eraseP_iff hd, List.mem_append]
  | @withoutData withData withoutData currentGroup inputIndex c _ _ hfind _ ih =>
    obtain ⟨group, hhead, hfills⟩ := ih
    obtain rfl : c.inputIndex = inputIndex := by simpa using List.find?_some hfind
    rw [List.map_append, List.map_singleton] at hfills
    refine ⟨group, hhead, hfills.push (fun d hd => ?_)
      (List.mem_append_right _ (List.mem_of_find?_eq_some hfind))⟩
    rw [List.mem_append, mem_eraseP_iff hd, List.mem_append]
  | @gap withData withoutData currentGroup inputIndex _ _ habsent _ _ =>
    exact ⟨currentGroup, rfl, 0, by simp, habsent, fun i _ _ => by omega⟩

end GroupLoopEnds

section Groups

variable {localeCompare : String → String → ℤ} {graph : DirectedGraph} {node : Node}
  {runData : Dict String (List TaskData)} {pinData : Dict String (List Item)}

/-- The connections that are put into groups. -/
def groupedConnections (graph : DirectedGraph) (node : Node) (runData : Dict String (List TaskData))
    (pinData : Dict String (List Item)) : List GraphConnection :=
  (graph.getConnections node).filter fun connection =>
    (runData.get? connection.fromNode.name).isSome ||
      (pinData.get? connection.fromNode.name).isSome || connection.type = .main

theorem filter_append_filter_perm {α : Type} (p q : α → Bool) : ∀ xs : List α,
    xs.filter p ++ xs.filter (fun x => !p x && q x) ~ xs.filter fun x => p x || q x
  | [] => .nil
  | x :: xs => by
    have ih := filter_append_filter_perm p q xs
    cases hp : p x <;> cases hq : q x
    · simpa [hp, hq] using ih
    · simp only [List.filter_cons, hp, hq, Bool.not_false, Bool.and_self, if_true, Bool.false_or,
        Bool.false_eq_true, if_false]
      exact List.perm_middle.trans (ih.cons x)
    · simpa [hp, hq] using ih.cons x
    · simpa [hp, hq] using ih.cons x

theorem getSourceDataGroups_perm :
    (getSourceDataGroups localeCompare graph node runData pinData).flatMap (·.connections) ~
      groupedConnections graph node runData pinData := by
  unfold getSourceDataGroups
  simp only []
  set hasData : GraphConnection → Bool := fun connection =>
    (runData.get? connection.fromNode.name).isSome ||
      (pinData.get? connection.fromNode.name).isSome with hhasData
  set withData := sortConnections localeCompare ((graph.getConnections node).filter hasData)
  set withoutData := sortConnections localeCompare ((graph.getConnections node).filter
    fun connection => !hasData connection && connection.type = .main)
  have hperm : withData ++ withoutData ~ groupedConnections graph node runData pinData :=
    ((List.perm_insertionSort _ _).append (List.perm_insertionSort _ _)).trans
      (filter_append_filter_perm hasData (fun connection => connection.type = .main) _)
  split_ifs with hempty
  · rw [hempty.1, hempty.2] at hperm
    exact hperm
  · have hne : withData ++ withoutData ≠ [] := by simpa using hempty
    exact (groupLoop_ends _ le_rfl (.inr (.inr (exists_minInputIndex hne)))).perm.trans hperm

theorem getSourceDataGroups_goesUpTo {group : SourceConnectionGroup}
    (h : group ∈ getSourceDataGroups localeCompare graph node runData pinData) :
    ∃ last, GoesUpTo group.connections last := by
  unfold getSourceDataGroups at h
  simp only [] at h
  split_ifs at h
  · exact absurd h List.not_mem_nil
  · rename_i hempty
    refine (groupLoop_ends _ le_rfl (.inr (.inr (exists_minInputIndex ?_)))).goesUpTo
      (goesUpTo_nil _) group h
    simpa using hempty

theorem mem_group_connections {group : SourceConnectionGroup}
    (h : group ∈ getSourceDataGroups localeCompare graph node runData pinData)
    {c : GraphConnection} (hc : c ∈ group.connections) : c ∈ graph.getConnections node :=
  List.mem_of_mem_filter (getSourceDataGroups_perm.mem_iff.1 (List.mem_flatMap.2 ⟨group, h, hc⟩))

end Groups

/-! ## The groups as they should be -/

section Partition

variable (localeCompare : String → String → ℤ) (graph : DirectedGraph) (node : Node)
  (runData : Dict String (List TaskData)) (pinData : Dict String (List Item))

/-- The connection has run or pin data. -/
def HasData (connection : GraphConnection) : Prop :=
  (runData.get? connection.fromNode.name).isSome = true ∨
    (pinData.get? connection.fromNode.name).isSome = true

instance : DecidablePred (HasData runData pinData) := fun _ =>
  inferInstanceAs (Decidable (_ ∨ _))

/-- `sortedConnectionsWithData` -/
def sortedWithData : List GraphConnection :=
  sortConnections localeCompare
    ((graph.getConnections node).filter fun c => decide (HasData runData pinData c))

/-- `sortedConnectionsWithoutData`, where every connection is of the main type. -/
def sortedWithoutData : List GraphConnection :=
  sortConnections localeCompare
    ((graph.getConnections node).filter fun c => !decide (HasData runData pinData c))

/-- The loop of `getSourceDataGroups` ends with these groups. -/
def GroupsEnd (groups : List SourceConnectionGroup) : Prop :=
  let withData := sortedWithData localeCompare graph node runData pinData
  let withoutData := sortedWithoutData localeCompare graph node runData pinData
  (withData = [] ∧ withoutData = [] ∧ groups = []) ∨
    GroupLoopEnds withData withoutData {} (minInputIndex (withData ++ withoutData)) groups

/-- The groups hold the incoming connections, one for an input, and the first has every input. -/
structure GroupsConnections (groups : List SourceConnectionGroup) : Prop where
  ends : GroupsEnd localeCompare graph node runData pinData groups
  perm : groups.flatMap (·.connections) ~ graph.getConnections node
  inputs : ∀ group ∈ groups, (group.connections.map (·.inputIndex)).Nodup
  complete : ∀ group ∈ groups,
    group.complete = true ↔ ∀ c ∈ group.connections, HasData runData pinData c
  first : ∀ group, groups.head? = some group → ∀ c ∈ graph.getConnections node,
    ∃ c' ∈ group.connections, c'.inputIndex = c.inputIndex

/-- Between two inputs that are connected, every input is. -/
def NoGap : Prop :=
  ∀ c ∈ graph.getConnections node, ∀ c' ∈ graph.getConnections node, ∀ i,
    c.inputIndex ≤ i → i ≤ c'.inputIndex → ∃ d ∈ graph.getConnections node, d.inputIndex = i

end Partition

theorem minInputIndex_le {connections : List GraphConnection} {c : GraphConnection}
    (hc : c ∈ connections) : minInputIndex connections ≤ c.inputIndex := by
  have hmem := List.mem_map_of_mem (f := GraphConnection.inputIndex) hc
  obtain ⟨m, hm⟩ := Option.isSome_iff_exists.1
    (List.isSome_min?_of_ne_nil (List.ne_nil_of_mem hmem))
  rw [minInputIndex, hm]
  exact (List.min?_eq_some_iff.1 hm).2 _ hmem

section Partition

variable {localeCompare : String → String → ℤ} {graph : DirectedGraph} {node : Node}
  {runData : Dict String (List TaskData)} {pinData : Dict String (List Item)}

theorem sorted_perm : sortedWithData localeCompare graph node runData pinData ++
    sortedWithoutData localeCompare graph node runData pinData ~ graph.getConnections node :=
  ((List.perm_insertionSort _ _).append (List.perm_insertionSort _ _)).trans
    (List.filter_append_perm _ _)

theorem mem_sortedWithData {c : GraphConnection}
    (hc : c ∈ sortedWithData localeCompare graph node runData pinData) :
    HasData runData pinData c :=
  of_decide_eq_true (List.mem_filter.1 ((List.perm_insertionSort _ _).mem_iff.1 hc)).2

theorem mem_sortedWithoutData {c : GraphConnection}
    (hc : c ∈ sortedWithoutData localeCompare graph node runData pinData) :
    ¬ HasData runData pinData c := by
  simpa using (List.mem_filter.1 ((List.perm_insertionSort _ _).mem_iff.1 hc)).2

theorem GroupsEnd.complete_iff {groups : List SourceConnectionGroup}
    (h : GroupsEnd localeCompare graph node runData pinData groups) :
    ∀ group ∈ groups, group.complete = true ↔ ∀ c ∈ group.connections,
      HasData runData pinData c := by
  rcases h with ⟨-, -, rfl⟩ | h
  · simp
  · exact h.complete_iff (fun c => mem_sortedWithData) (fun c => mem_sortedWithoutData) (by simp)

/-- The first group has the inputs from the lowest one on, up to a gap. -/
theorem GroupsEnd.head {groups : List SourceConnectionGroup}
    (h : GroupsEnd localeCompare graph node runData pinData groups) :
    graph.getConnections node = [] ∨ ∃ group, groups.head? = some group ∧
      ∃ d ∈ graph.getConnections node, (∀ c ∈ graph.getConnections node,
        d.inputIndex ≤ c.inputIndex) ∧
      GroupLoopEnds.FillsUp (graph.getConnections node) [] d.inputIndex group := by
  have hperm := @sorted_perm localeCompare graph node runData pinData
  by_cases hempty : sortedWithData localeCompare graph node runData pinData ++
      sortedWithoutData localeCompare graph node runData pinData = []
  · rw [hempty] at hperm
    exact .inl hperm.nil_eq.symm
  rcases h with ⟨hwith, hwithout, -⟩ | h
  · exact absurd (by rw [hwith, hwithout]; rfl) hempty
  obtain ⟨group, hhead, k, hmap, habsent, hpresent⟩ := h.head
  obtain ⟨d, hd, hmin⟩ := exists_minInputIndex hempty
  rw [← hmin] at hmap habsent hpresent
  refine .inr ⟨group, hhead, d, hperm.mem_iff.1 hd, fun c hc => ?_, k, hmap,
    fun c hc => habsent c (hperm.mem_iff.2 hc), fun i hle hlt => ?_⟩
  · rw [hmin]
    exact minInputIndex_le (hperm.mem_iff.2 hc)
  · obtain ⟨c, hc, hci⟩ := hpresent i hle hlt
    exact ⟨c, hperm.mem_iff.1 hc, hci⟩

theorem decide_hasData (c : GraphConnection) : decide (HasData runData pinData c) =
    ((runData.get? c.fromNode.name).isSome || (pinData.get? c.fromNode.name).isSome) := by
  rw [Bool.eq_iff_iff, decide_eq_true_iff, Bool.or_eq_true]
  exact .rfl

variable (hmain : ∀ c ∈ graph.getConnections node, c.type = .main)

include hmain

theorem getSourceDataGroups_eq :
    getSourceDataGroups localeCompare graph node runData pinData =
      let withData := sortedWithData localeCompare graph node runData pinData
      let withoutData := sortedWithoutData localeCompare graph node runData pinData
      if withData = [] ∧ withoutData = [] then []
      else groupLoop (2 * (withData.length + withoutData.length)) withData withoutData {}
        (minInputIndex (withData ++ withoutData)) := by
  have hwith : (graph.getConnections node).filter (fun connection =>
      (runData.get? connection.fromNode.name).isSome ||
        (pinData.get? connection.fromNode.name).isSome) =
      (graph.getConnections node).filter fun c => decide (HasData runData pinData c) :=
    List.filter_congr fun c _ => (decide_hasData c).symm
  have hwithout : (graph.getConnections node).filter (fun connection =>
      !((runData.get? connection.fromNode.name).isSome ||
        (pinData.get? connection.fromNode.name).isSome) && connection.type = .main) =
      (graph.getConnections node).filter fun c => !decide (HasData runData pinData c) := by
    refine List.filter_congr fun c hc => ?_
    rw [decide_hasData, decide_eq_true (hmain c hc), Bool.and_true]
  unfold getSourceDataGroups sortedWithData sortedWithoutData
  rw [← hwith, ← hwithout]

theorem getSourceDataGroups_ends : GroupsEnd localeCompare graph node runData pinData
    (getSourceDataGroups localeCompare graph node runData pinData) := by
  rw [getSourceDataGroups_eq hmain]
  simp only []
  split_ifs with hempty
  · exact .inl ⟨hempty.1, hempty.2, rfl⟩
  · refine .inr (groupLoop_ends _ le_rfl (.inr (.inr (exists_minInputIndex ?_))))
    simpa using hempty

theorem groupedConnections_eq :
    groupedConnections graph node runData pinData = graph.getConnections node :=
  List.filter_eq_self.2 fun c hc => by simp [hmain c hc]

end Partition

/-! ## A node with two sources -/

def nodeNamed (name : String) : Node := { name, type := "set" }

/-- `A` is connected to the first input of `N`, and `B` to another. -/
def sourcesGraph (inputIndex : ℕ) : DirectedGraph :=
  ((DirectedGraph.empty.addNodes [nodeNamed "A", nodeNamed "B", nodeNamed "N"]).setConnection
    ⟨nodeNamed "A", nodeNamed "N", .main, 0, 0⟩).setConnection
    ⟨nodeNamed "B", nodeNamed "N", .main, 0, inputIndex⟩

end N8n
