import N8n.HighestNodes

/-!
# Highest nodes

The search for the highest nodes is the search of the library, so an enabled node with enabled nodes
above it is among them if it comes upon it when all ways up from there have been checked.
-/

namespace N8n

open Relation DepthFirst Traversal Topmost

namespace Workflow

variable {w : Workflow}

/-! ## The search -/

/-- One connection of the loop. -/
def highestStep (w : Workflow) (fuel : ℕ) (s : List String × List String) (connection : Connection) :
    List String × List String :=
  if connection.node ∈ s.2 ∨ (w.nodes.get? connection.node).isNone then s
  else
    let added := w.getHighestNodeFrom fuel connection.node none s.2
    (merge s.1 (if added.1 = [] ∧ (w.node connection.node).disabled ≠ some true then
      [connection.node] else added.1), added.2)

theorem getHighestNodeFrom_succ {fuel : ℕ} {nodeName : String} {checkedNodes : List String}
    {inputs : List (Option (List Connection))} (nodeConnectionIndex : Option ℕ)
    (hinputs : w.connectionsByDestinationNode.ofType nodeName .main = some inputs)
    (hchecked : nodeName ∉ checkedNodes) :
    w.getHighestNodeFrom (fuel + 1) nodeName nodeConnectionIndex checkedNodes =
      (flatConnections (nodeConnectionIndex.elim inputs fun index =>
        [inputs.getD index none])).foldl (w.highestStep fuel) ([], checkedNodes ++ [nodeName]) := by
  unfold getHighestNodeFrom
  simp only [hinputs, if_neg hchecked]
  cases nodeConnectionIndex <;> rfl

theorem mem_keys_of_not_isSource {nodeName : String} (h : w.isSource nodeName = false) :
    nodeName ∈ w.connectionsByDestinationNode.keys := by
  unfold isSource Connections.ofType at h
  rw [Dict.mem_keys]
  cases hget : w.connectionsByDestinationNode.get? nodeName with
  | some _ => rfl
  | none => simp [hget] at h

theorem exists_inputs {nodeName : String} (h : w.isSource nodeName = false) :
    ∃ inputs, w.connectionsByDestinationNode.ofType nodeName .main = some inputs := by
  unfold isSource at h
  cases hinputs : w.connectionsByDestinationNode.ofType nodeName .main with
  | some inputs => exact ⟨inputs, rfl⟩
  | none => simp [hinputs] at h

theorem mainParents_of_isSource {nodeName : String} (h : w.isSource nodeName = true) :
    w.mainParents nodeName = [] := by
  unfold isSource at h
  unfold mainParents
  rw [Option.isNone_iff_eq_none.1 h]
  rfl

theorem getHighestNodeFrom_source {nodeName : String} (h : w.isSource nodeName = true) (fuel : ℕ)
    (checkedNodes : List String) :
    w.getHighestNodeFrom fuel nodeName none checkedNodes = ([], checkedNodes) ∨
      w.isEnabled nodeName = true ∧
        w.getHighestNodeFrom fuel nodeName none checkedNodes = ([nodeName], checkedNodes) := by
  cases fuel with
  | zero => exact .inl rfl
  | succ fuel =>
    unfold isSource at h
    unfold getHighestNodeFrom
    simp only [Option.isNone_iff_eq_none.1 h]
    split_ifs with hdisabled
    · exact .inr ⟨by simp [isEnabled, hdisabled], rfl⟩
    · exact .inl rfl

/-- The step of the library for a node of the workflow, and none for another. -/
theorem highestStep_eq {fuel : ℕ} {s : List String × List String}
    (hsearch : ∀ nodeName, w.isSource nodeName = false → nodeName ∉ s.2 →
      w.getHighestNodeFrom fuel nodeName none s.2 =
        tops w.mainParents w.isSource w.isEnabled fuel (w.mainParents nodeName)
          (s.2 ++ [nodeName])) (connection : Connection) :
    w.highestStep fuel s connection =
      if (w.nodes.get? connection.node).isSome then
        step w.mainParents w.isSource w.isEnabled fuel s connection.node
      else s := by
  unfold highestStep step
  cases hget : w.nodes.get? connection.node with
  | none => simp
  | some node =>
    have henabled : (w.node connection.node).disabled ≠ some true ↔
        w.isEnabled connection.node = true := by
      simp [isEnabled]
    simp only [Option.isNone_some, Bool.false_eq_true, or_false, Option.isSome_some, if_true,
      henabled]
    by_cases hmem : connection.node ∈ s.2
    · rw [if_pos hmem, if_pos hmem]
    rw [if_neg hmem, if_neg hmem]
    cases hsource : w.isSource connection.node with
    | true =>
      rcases getHighestNodeFrom_source hsource fuel s.2 with hnone | ⟨henabled, hone⟩
      · rw [hnone]
        cases w.isEnabled connection.node <;> rfl
      · rw [hone, henabled]
        rfl
    | false =>
      rw [hsearch _ hsource hmem]
      rfl

theorem foldl_highestStep {fuel : ℕ}
    (hsearch : ∀ nodeName checkedNodes, w.isSource nodeName = false → nodeName ∉ checkedNodes →
      remaining w.connectionsByDestinationNode.keys checkedNodes < fuel →
      w.getHighestNodeFrom fuel nodeName none checkedNodes =
        tops w.mainParents w.isSource w.isEnabled fuel (w.mainParents nodeName)
          (checkedNodes ++ [nodeName])) :
    ∀ (connections : List Connection) (s : List String × List String),
      remaining w.connectionsByDestinationNode.keys s.2 < fuel →
      connections.foldl (w.highestStep fuel) s =
        (w.existing connections).foldl (step w.mainParents w.isSource w.isEnabled fuel) s
  | [], _, _ => rfl
  | connection :: connections, s, hfuel => by
    have hstep := highestStep_eq (s := s) (fun nodeName hsource hnot =>
      hsearch nodeName s.2 hsource hnot hfuel) connection
    rw [List.foldl_cons, hstep]
    unfold existing
    rw [List.map_cons]
    split_ifs with hsome
    · rw [List.filter_cons_of_pos (by exact hsome), List.foldl_cons]
      have hnext := @checked_step _ _ w.mainParents w.isSource w.isEnabled fuel s connection.node
      exact foldl_highestStep hsearch connections _
        (Nat.lt_of_le_of_lt (remaining_le hnext.subset) hfuel)
    · rw [List.filter_cons_of_neg (by exact hsome)]
      exact foldl_highestStep hsearch connections s hfuel

theorem getHighestNodeFrom_eq : ∀ (fuel : ℕ) (nodeName : String) (checkedNodes : List String),
    w.isSource nodeName = false → nodeName ∉ checkedNodes →
    remaining w.connectionsByDestinationNode.keys checkedNodes < fuel →
    w.getHighestNodeFrom fuel nodeName none checkedNodes =
      tops w.mainParents w.isSource w.isEnabled fuel (w.mainParents nodeName)
        (checkedNodes ++ [nodeName])
  | 0, _, _, _, _, hfuel => absurd hfuel (Nat.not_lt_zero _)
  | fuel + 1, nodeName, checkedNodes, hsource, hnot, hfuel => by
    have hlt := remaining_lt (mem_keys_of_not_isSource hsource) hnot
    obtain ⟨inputs, hinputs⟩ := exists_inputs hsource
    rw [getHighestNodeFrom_succ none hinputs hnot, Option.elim_none,
      foldl_highestStep (getHighestNodeFrom_eq fuel) _ _ (by dsimp only; omega), tops_succ]
    unfold mainParents
    rw [hinputs]
    rfl

/-- The highest nodes above one input. -/
theorem getHighestNode_eq {nodeName : String} (hsource : w.isSource nodeName = false)
    (connectionIndex : ℕ) :
    w.getHighestNode nodeName connectionIndex =
      (tops w.mainParents w.isSource w.isEnabled
        (w.connectionsByDestinationNode.keys.length + 1) (w.parentsAt nodeName connectionIndex)
        [nodeName]).1 := by
  have hlt := remaining_lt (mem_keys_of_not_isSource hsource) List.not_mem_nil
  have hall : remaining w.connectionsByDestinationNode.keys [] ≤
    w.connectionsByDestinationNode.keys.length := List.length_filter_le _ _
  obtain ⟨inputs, hinputs⟩ := exists_inputs hsource
  unfold getHighestNode
  rw [getHighestNodeFrom_succ _ hinputs List.not_mem_nil, Option.elim_some,
    foldl_highestStep (getHighestNodeFrom_eq _) _ _ (by dsimp only; omega), tops_succ]
  unfold parentsAt flatConnections
  rw [hinputs, List.flatMap_singleton, Option.getD_some]
  rfl

/-- All that the search from a node finds. -/
theorem found_tops (nodeName : String) (cs : List String) :
    Found w.mainParents w.isSource w.isEnabled
      (tops w.mainParents w.isSource w.isEnabled (w.connectionsByDestinationNode.keys.length + 1) cs
        [nodeName]).2 cs [nodeName]
      (tops w.mainParents w.isSource w.isEnabled (w.connectionsByDestinationNode.keys.length + 1) cs
        [nodeName]) :=
  tops_found (fun _ => mainParents_of_isSource) (fun _ => mem_keys_of_not_isSource) _ _ _
    (Nat.lt_succ_of_le (List.length_filter_le _ _)) List.prefix_rfl

/-! ## All inputs -/

theorem highestNodes_eq {nodeName : String} (hsource : w.isSource nodeName = false) :
    w.highestNodes nodeName =
      (tops w.mainParents w.isSource w.isEnabled (w.connectionsByDestinationNode.keys.length + 1)
        (w.mainParents nodeName) [nodeName]).1 := by
  unfold highestNodes
  rw [getHighestNodeFrom_eq _ _ _ hsource List.not_mem_nil
    (Nat.lt_succ_of_le (List.length_filter_le _ _)), List.nil_append]

theorem visited_entered (nodeName : String) :
    (w.entered nodeName).visited =
      (tops w.mainParents w.isSource w.isEnabled (w.connectionsByDestinationNode.keys.length + 1)
        (w.mainParents nodeName) [nodeName]).2 :=
  (checked_eq_walk _ nodeName _ (Order.enter nodeName {})).symm

/-- Where there are no cycles, no path comes back to the node. -/
theorem from_iff_above (hacyclic : w.Acyclic) {nodeName node : String} :
    From w.mainParents (w.mainParents nodeName) [nodeName] node ↔ w.Above nodeName node := by
  rw [← transGen_iff_from]
  refine ⟨fun h => TransGen.mono (fun _ _ hstep => hstep.1) _ _ h, fun h => ?_⟩
  induction h with
  | @single b hb =>
    refine .single ⟨hb, fun hmem => hacyclic nodeName (.single ?_)⟩
    rwa [List.mem_singleton.1 hmem] at hb
  | @tail a b hab hb ih =>
    refine ih.tail ⟨hb, fun hmem => hacyclic nodeName (hab.tail ?_)⟩
    rwa [List.mem_singleton.1 hmem] at hb

/-- A node is handed down if it is enabled and the search finds nothing enabled from it. -/
theorem mem_highestNodes_iff (hacyclic : w.Acyclic) {nodeName node : String}
    (hsource : w.isSource nodeName = false) :
    node ∈ w.highestNodes nodeName ↔
      (w.isEnabled node ∧ ¬ w.FindsEnabled nodeName node) ∧ w.Above nodeName node := by
  rw [highestNodes_eq hsource, (found_tops nodeName _).mem_tops, from_iff_above hacyclic]
  refine and_congr_left fun _ => and_congr_right fun _ => ?_
  unfold FindsEnabled Order.num
  rw [visited_entered]
  push Not
  rfl

/-- Main connections that all lead to a node of higher rank make no cycle. -/
theorem acyclic_of_rank {rank : String → ℕ}
    (h : ∀ a ∈ w.connectionsByDestinationNode.keys, ∀ b ∈ w.mainParents a, rank b < rank a) :
    w.Acyclic := by
  have hstep : ∀ a b, b ∈ w.mainParents a → rank b < rank a := fun a b hb => by
    refine h a (mem_keys_of_not_isSource (Bool.eq_false_iff.2 fun hsource => ?_)) b hb
    rw [mainParents_of_isSource hsource] at hb
    exact absurd hb List.not_mem_nil
  have hpath : ∀ {a b}, w.Above a b → rank b < rank a := fun hab => by
    induction hab with
    | single hb => exact hstep _ _ hb
    | tail _ hb ih => exact (hstep _ _ hb).trans ih
  exact fun nodeName habove => absurd (hpath habove) (lt_irrefl _)

/-- The connection to the first input of each of the nodes. -/
def mainTo (nodeNames : List String) : Dict NodeConnectionType (List (Option (List Connection))) :=
  Dict.empty.set .main [some (nodeNames.map fun node => { node, type := .main, index := 0 })]

def enabledNode (name : String) : Node := { name, type := "set", disabled := some false }

/-- `Trigger` leads to `If`, and this over each of the branches to `Merge`. -/
def branching (branches : List String) : Workflow where
  nodes := ("Trigger" :: "If" :: "Merge" :: branches).foldl
    (fun nodes name => nodes.set name (enabledNode name)) .empty
  connectionsBySourceNode := branches.foldl
    (fun connections name => connections.set name (mainTo ["Merge"]))
    ((Dict.empty.set "Trigger" (mainTo ["If"])).set "If" (mainTo branches))

def depth (nodeName : String) : ℕ :=
  if nodeName = "Trigger" then 0 else if nodeName = "If" then 1 else if nodeName = "Merge" then 3
  else 2

end Workflow

end N8n

/-!
# Inputs without data

In the legacy order an entry is only run with data on all of its inputs. They are looked at one
after the other, up to the first one that no enabled node leads to; what is on those after it does
not count. An input right behind the last one with data counts as if it had some.
-/

namespace N8n

open DepthFirst Topmost

namespace Workflow

variable {w : Workflow}

/-- Nothing is handed down for an input that no enabled node leads to. -/
theorem getHighestNode_eq_nil_iff {nodeName : String} (hsource : w.isSource nodeName = false)
    (connectionIndex : ℕ) :
    w.getHighestNode nodeName connectionIndex = [] ↔ ¬ ∃ node, w.isEnabled node ∧
      From w.mainParents (w.parentsAt nodeName connectionIndex) [nodeName] node := by
  have hfound := @found_tops w nodeName (w.parentsAt nodeName connectionIndex)
  rw [getHighestNode_eq hsource]
  constructor
  · rintro hnil ⟨node, henabled, hfrom⟩
    obtain ⟨x, hx, hxfrom⟩ := exists_top hfound.before _ node le_rfl henabled hfrom
    have hmem := (hfound.mem_tops x).2 ⟨hx, hxfrom⟩
    rw [hnil] at hmem
    exact absurd hmem List.not_mem_nil
  · intro hnone
    refine List.eq_nil_iff_forall_not_mem.2 fun x hx => hnone ?_
    obtain ⟨htop, hfrom⟩ := (hfound.mem_tops x).1 hx
    exact ⟨x, htop.1, hfrom⟩

theorem Checked.enabledAbove {nodeName : String} {connectionIndex : ℕ}
    (h : w.Checked nodeName connectionIndex) : w.EnabledAbove nodeName connectionIndex := by
  obtain ⟨node, henabled, parent, hparent, -, hpath⟩ := h connectionIndex le_rfl
  refine ⟨node, henabled, parent, hparent, ?_⟩
  rcases Relation.reflTransGen_iff_eq_or_transGen.1 hpath with heq | hpath
  · exact .inl heq.symm
  · exact .inr (Relation.TransGen.mono (fun _ _ hstep => hstep.1) _ _ hpath)

end Workflow

namespace WorkflowExecute

variable {w : Workflow} {s : WorkflowExecute} {executionNode : Node} {executionData : ExecuteData}

/-- The loop stops with `true` before the first input that nothing is handed down for. -/
theorem hasInputData_go (hlegacy : w.isLegacyExecutionOrder = true) : ∀ inputs connectionIndex : ℕ,
    hasInputData.go w executionNode executionData inputs connectionIndex = true ↔
      ∀ i, connectionIndex ≤ i → i < connectionIndex + inputs →
        (∀ j, connectionIndex ≤ j → j ≤ i → w.getHighestNode executionNode.name j ≠ []) →
        ¬ executionData.Lacks i
  | 0, connectionIndex => by
    refine iff_of_true rfl fun i hle hlt => ?_
    omega
  | inputs + 1, connectionIndex => by
    have hrest := hasInputData_go hlegacy inputs (connectionIndex + 1)
    unfold hasInputData.go
    by_cases hhighest : w.getHighestNode executionNode.name connectionIndex = []
    · rw [if_pos hhighest]
      exact iff_of_true rfl fun i hle _ hall => absurd hhighest (hall connectionIndex le_rfl hle)
    · rw [if_neg hhighest]
      have hfirst : (∀ i, connectionIndex ≤ i → i < connectionIndex + (inputs + 1) →
          (∀ j, connectionIndex ≤ j → j ≤ i → w.getHighestNode executionNode.name j ≠ []) →
          ¬ executionData.Lacks i) ↔ ¬ executionData.Lacks connectionIndex ∧
          ∀ i, connectionIndex + 1 ≤ i → i < connectionIndex + 1 + inputs →
            (∀ j, connectionIndex + 1 ≤ j → j ≤ i →
              w.getHighestNode executionNode.name j ≠ []) → ¬ executionData.Lacks i := by
        constructor
        · intro h
          refine ⟨h connectionIndex le_rfl (by omega) fun j hle hge => ?_, fun i hle hlt hall =>
            h i (by omega) (by omega) fun j hj hji => ?_⟩
          · obtain rfl := le_antisymm hge hle
            exact hhighest
          · rcases Nat.eq_or_lt_of_le hj with rfl | hj
            · exact hhighest
            · exact hall j hj hji
        · rintro ⟨hthis, hlater⟩ i hle hlt hall
          rcases Nat.eq_or_lt_of_le hle with rfl | hle
          · exact hthis
          · exact hlater i hle (by omega) fun j hj hji => hall j (by omega) hji
      rw [hfirst, ← hrest]
      unfold ExecuteData.Lacks ExecuteData.main
      cases executionData.data.get? .main with
      | none => simp
      | some main =>
        dsimp only
        rw [Option.getD_some]
        by_cases hlacks : main.length < connectionIndex ∨ slotAt main connectionIndex = .null
        · rw [if_pos ⟨hlegacy, hlacks⟩]
          simp [hlacks]
        · rw [if_neg fun h => hlacks h.2]
          simp [hlacks]

/-- The entry may run unless it lacks data on an input that is looked at. -/
theorem hasInputData_iff (hlegacy : w.isLegacyExecutionOrder = true) :
    hasInputData w executionNode executionData = true ↔
      ∀ i < w.numberOfInputs executionNode.name, w.Checked executionNode.name i →
        ¬ executionData.Lacks i := by
  unfold hasInputData
  rw [hasInputData_go hlegacy]
  have hinputs : 0 + ((w.connectionsByDestinationNode.ofType executionNode.name .main).getD
      []).length = w.numberOfInputs executionNode.name := Nat.zero_add _
  rw [hinputs]
  refine forall_congr' fun i => ?_
  rw [forall_prop_of_true (Nat.zero_le i)]
  refine forall_congr' fun hlt => ?_
  have hsource : w.isSource executionNode.name = false := by
    unfold Workflow.isSource
    unfold Workflow.numberOfInputs at hlt
    cases hget : w.connectionsByDestinationNode.ofType executionNode.name .main with
    | some _ => rfl
    | none =>
      rw [hget] at hlt
      exact absurd hlt (Nat.not_lt_zero i)
  refine imp_congr (forall_congr' fun j => ?_) Iff.rfl
  rw [forall_prop_of_true (Nat.zero_le j)]
  refine imp_congr Iff.rfl ?_
  rw [Ne, Workflow.getHighestNode_eq_nil_iff hsource, not_not]

theorem hasList_iff {i : ℕ} (h : ¬ executionData.Lacks i) :
    executionData.HasList i ↔ slotAt executionData.main i ≠ .undefined := by
  unfold ExecuteData.Lacks at h
  rw [not_or, not_or] at h
  obtain ⟨-, -, hnull⟩ := h
  unfold ExecuteData.HasList
  cases hslot : slotAt executionData.main i with
  | hole =>
    unfold slotAt at hslot
    split at hslot
    · cases hslot
    · cases hslot
    · rename_i hne _
      rw [hslot] at hne
      exact absurd rfl hne
  | undefined => simp
  | null => exact absurd hslot hnull
  | items items => simp

/-- `A` leads to the second input of `Merge`, and `B` to its first. -/
def merging (b : Node) : Workflow where
  nodes := ((Dict.empty.set "B" b).set "A" (Workflow.enabledNode "A")).set "Merge"
    (Workflow.enabledNode "Merge")
  connectionsBySourceNode := (Dict.empty.set "B" (Workflow.mainTo ["Merge"])).set "A"
    (Dict.empty.set .main [some [{ node := "Merge", type := .main, index := 1 }]])
  executionOrder := none

def mergeData (main : List Slot) : ExecuteData where
  node := Workflow.enabledNode "Merge"
  data := Dict.empty.set .main main
  source := none

end WorkflowExecute

end N8n
