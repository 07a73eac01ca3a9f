import N8n.ProcessRunExecutionData

/-!
# The order of branches

The nodes that the output of a node goes to are sorted from the bottom right to the top left, and
then one after the other goes on top of the stack. The comparison is `0` where the first node is to
the left of the second at the same height, so it is not the same in both directions. But where it
is negative, the first node is further down or further to the right, and this is an order.
-/

namespace N8n

namespace WorkflowExecute

open scoped List

/-! ## Positions -/

/-- Further up, or further to the left at the same height. -/
def TopLeft (a b : ℤ × ℤ) : Prop := a.2 < b.2 ∨ a.2 = b.2 ∧ a.1 < b.1

theorem TopLeft.trans {a b c : ℤ × ℤ} (h : TopLeft a b) (h' : TopLeft b c) : TopLeft a c := by
  unfold TopLeft at *
  omega

theorem TopLeft.asymm {a b : ℤ × ℤ} (h : TopLeft a b) : ¬ TopLeft b a := by
  unfold TopLeft at *
  omega

theorem topLeft_or {a b : ℤ × ℤ} (hne : a ≠ b) : TopLeft a b ∨ TopLeft b a := by
  obtain ⟨x, y⟩ := a
  obtain ⟨x', y'⟩ := b
  have hne : ¬ (x = x' ∧ y = y') := fun h => hne (Prod.ext h.1 h.2)
  unfold TopLeft
  dsimp only
  omega

theorem not_topLeft_trans {a b c : ℤ × ℤ} (h : ¬ TopLeft a b) (h' : ¬ TopLeft b c) :
    ¬ TopLeft a c := by
  unfold TopLeft at *
  omega

theorem comparePositions_neg_iff {a b : ℤ × ℤ} : comparePositions a b < 0 ↔ TopLeft b a := by
  unfold comparePositions TopLeft
  split_ifs <;> omega

theorem comesBefore_iff {a b : ℤ × ℤ} : comesBefore a b ↔ comparePositions a b < 0 := by
  rw [comparePositions_neg_iff]
  unfold comesBefore TopLeft
  simp only [Bool.or_eq_true, Bool.and_eq_true, decide_eq_true_eq]
  omega

/-! ## Sorted outputs -/

section Sorted

variable (w : Workflow)

/-- The position of the node that a connection leads to. -/
def targetPosition (output : ℕ × Connection) : ℤ × ℤ := (w.node output.2.node).position

variable {w} {outputs : List (ℕ × Connection)}

theorem sortByPosition_perm : sortByPosition w outputs ~ outputs := List.perm_insertionSort _ _

theorem pairwise_sortByPosition : (sortByPosition w outputs).Pairwise fun a b =>
    ¬ TopLeft (targetPosition w a) (targetPosition w b) := by
  have hiff : ∀ a b : ℕ × Connection,
      (!comesBefore (targetPosition w b) (targetPosition w a)) = true ↔
        ¬ TopLeft (targetPosition w a) (targetPosition w b) := by
    intro a b
    rw [← comparePositions_neg_iff, ← comesBefore_iff, Bool.not_eq_true']
    exact (Bool.not_eq_true _).symm.to_iff
  have htotal : Std.Total fun a b : ℕ × Connection =>
      (!comesBefore (targetPosition w b) (targetPosition w a)) = true := by
    refine ⟨fun a b => ?_⟩
    rw [hiff, hiff]
    by_cases h : TopLeft (targetPosition w a) (targetPosition w b)
    · exact .inr h.asymm
    · exact .inl h
  have htrans : IsTrans (ℕ × Connection) fun a b =>
      (!comesBefore (targetPosition w b) (targetPosition w a)) = true := by
    refine ⟨fun a b c hab hbc => ?_⟩
    rw [hiff] at hab hbc ⊢
    exact not_topLeft_trans hab hbc
  have hsorted := List.pairwise_insertionSort (fun a b : ℕ × Connection =>
    (!comesBefore (targetPosition w b) (targetPosition w a)) = true) outputs
  exact hsorted.imp fun h => (hiff _ _).1 h

/-- Nodes at positions of their own are in the order of the positions. -/
theorem pairwise_topLeft {arranged : List (ℕ × Connection)}
    (hnodup : (arranged.map (targetPosition w)).Nodup)
    (h : arranged.Pairwise fun a b => ¬ TopLeft (targetPosition w a) (targetPosition w b)) :
    arranged.Pairwise fun a b => TopLeft (targetPosition w b) (targetPosition w a) :=
  ((List.pairwise_map.1 hnodup).and h).imp fun h => (topLeft_or h.1).resolve_left h.2

end Sorted

/-! ## The nodes on the stack -/

section Stack

variable {w : Workflow} {nodeName : String} {nodeSuccessData : List Slot} {runIndex : ℕ}

/-- The entry of a node with one input. -/
def branchEntry (w : Workflow) (nodeName : String) (nodeSuccessData : List Slot) (runIndex : ℕ)
    (output : ℕ × Connection) : ExecuteData where
  node := w.node output.2.node
  data := Dict.empty.set .main
    (List.replicate output.2.index .null ++ [slotAt nodeSuccessData output.1])
  source := some [some (WorkflowExecute.sourceOf nodeName output.1 runIndex)]

/-- Each node goes on top of those that are added before it. -/
theorem forEach_addNodeToBeExecuted (hv1 : w.isLegacyExecutionOrder = false) :
    ∀ (outputs : List (ℕ × Connection)) (s : WorkflowExecute),
      (∀ output ∈ outputs, w.numberOfInputs output.2.node ≤ 1) →
      Outcome.forEach (fun s output => s.addNodeToBeExecuted w output.2 output.1 nodeName
          nodeSuccessData runIndex none none) s outputs =
        { state := { s with
            nodeExecutionStack :=
              (outputs.map (branchEntry w nodeName nodeSuccessData runIndex)).reverse ++
                s.nodeExecutionStack } }
  | [], _, _ => rfl
  | output :: outputs, s, hsingle => by
    have hadd : s.addNodeToBeExecuted w output.2 output.1 nodeName nodeSuccessData runIndex none
        none = { state := { s with
          nodeExecutionStack :=
            branchEntry w nodeName nodeSuccessData runIndex output :: s.nodeExecutionStack } } := by
      rw [WorkflowExecute.addNodeToBeExecuted,
        if_neg (not_lt.2 (hsingle output List.mem_cons_self)), WorkflowExecute.addToStack,
        WorkflowExecute.enqueue, hv1]
      rfl
    rw [Outcome.forEach, hadd]
    refine (forEach_addNodeToBeExecuted hv1 outputs _ fun o ho =>
      hsingle o (List.mem_cons_of_mem output ho)).trans ?_
    simp

/-- Sorting asks whether the comparison is negative. However it goes about it, it comes to the
arrangement in which this is not so between any two neighbours. -/
theorem eq_of_neighbours {outputs arranged sorted : List (ℕ × Connection)}
    (harranged : arranged ~ outputs) (hsorted : sorted ~ outputs)
    (hnodup : (outputs.map (targetPosition w)).Nodup)
    (hneighbours : arranged.IsChain fun a b =>
      ¬ comparePositions (targetPosition w b) (targetPosition w a) < 0)
    (htopLeft : sorted.Pairwise fun a b => TopLeft (targetPosition w b) (targetPosition w a)) :
    arranged = sorted := by
  have htrans : IsTrans (ℕ × Connection) fun a b =>
      ¬ TopLeft (targetPosition w a) (targetPosition w b) :=
    ⟨fun a b c => not_topLeft_trans⟩
  have hpairwise : arranged.Pairwise fun a b =>
      ¬ TopLeft (targetPosition w a) (targetPosition w b) :=
    List.isChain_iff_pairwise.1 (hneighbours.imp fun a b h => mt comparePositions_neg_iff.2 h)
  have harrangedNodup := (harranged.map (targetPosition w)).nodup_iff.2 hnodup
  refine (harranged.trans hsorted.symm).eq_of_pairwise (fun a b _ _ h h' => ?_)
    (pairwise_topLeft harrangedNodup hpairwise) htopLeft
  exact absurd h' h.asymm

/-- The stack with a node for each of the targets on it. -/
def withBranches (s : WorkflowExecute) (w : Workflow) (nodeName : String)
    (nodeSuccessData : List Slot) (runIndex : ℕ) (targets : List (ℕ × Connection)) :
    WorkflowExecute :=
  { s with
    nodeExecutionStack :=
      targets.map (branchEntry w nodeName nodeSuccessData runIndex) ++ s.nodeExecutionStack }

theorem addNodes_eq (hv1 : w.isLegacyExecutionOrder = false) (s : WorkflowExecute)
    (hfound : ∀ output ∈ outgoing w nodeName, (w.nodes.get? output.2.node).isSome)
    (hsingle : ∀ output ∈ (outgoing w nodeName).filter (receives w nodeSuccessData),
      w.numberOfInputs output.2.node ≤ 1) :
    s.addNodes w nodeName nodeSuccessData runIndex =
      { state := s.withBranches w nodeName nodeSuccessData runIndex
          (sortByPosition w
            ((outgoing w nodeName).filter (receives w nodeSuccessData))).reverse } := by
  have hany : ((outgoing w nodeName).any fun output =>
      (w.nodes.get? output.2.node).isNone) = false := by
    refine List.any_eq_false.2 fun output houtput hnone => ?_
    have hsome := hfound output houtput
    rw [Option.isNone_iff_eq_none.1 hnone] at hsome
    cases hsome
  unfold addNodes withBranches
  simp only [hv1, hany, Bool.false_eq_true, if_false]
  rw [forEach_addNodeToBeExecuted hv1 _ _ fun output houtput =>
    hsingle output (sortByPosition_perm.mem_iff.1 houtput), List.map_reverse]

/-- The nodes that get items go on the stack over what is there, the one furthest to the top left
first. The scan of the waiting nodes does not come to it unless the stack is empty. -/
theorem addNodes_topLeft (hv1 : w.executionOrder = some .v1) (s : WorkflowExecute)
    (hfound : ∀ output ∈ outgoing w nodeName, (w.nodes.get? output.2.node).isSome)
    (hsingle : ∀ output ∈ (outgoing w nodeName).filter (receives w nodeSuccessData),
      w.numberOfInputs output.2.node ≤ 1)
    (hpositions : (((outgoing w nodeName).filter (receives w nodeSuccessData)).map
      (targetPosition w)).Nodup) :
    ∃ targets, targets ~ (outgoing w nodeName).filter (receives w nodeSuccessData) ∧
      (targets.Pairwise fun a b => TopLeft (targetPosition w a) (targetPosition w b)) ∧
      s.addNodes w nodeName nodeSuccessData runIndex =
        { state := s.withBranches w nodeName nodeSuccessData runIndex targets } ∧
      (targets ≠ [] → s.handOn w nodeName nodeSuccessData runIndex =
        ⟨s.withBranches w nodeName nodeSuccessData runIndex targets, .handedOn⟩) ∧
      ∀ arranged, arranged ~ (outgoing w nodeName).filter (receives w nodeSuccessData) →
        (arranged.IsChain fun a b =>
          ¬ comparePositions (targetPosition w b) (targetPosition w a) < 0) →
        arranged.reverse = targets := by
  have hlegacy : w.isLegacyExecutionOrder = false := by simp [Workflow.isLegacyExecutionOrder, hv1]
  have hperm : sortByPosition w ((outgoing w nodeName).filter (receives w nodeSuccessData)) ~ _ :=
    sortByPosition_perm
  have hsorted := pairwise_topLeft ((hperm.map (targetPosition w)).nodup_iff.2 hpositions)
    pairwise_sortByPosition
  have hadded := @addNodes_eq _ _ _ runIndex hlegacy s hfound hsingle
  refine ⟨_, (List.reverse_perm _).trans hperm, List.pairwise_reverse.2 hsorted, hadded,
    fun hne => ?_, fun arranged harranged hneighbours => congrArg List.reverse
      (eq_of_neighbours harranged hperm hpositions hneighbours hsorted)⟩
  have hstack {targets : List (ℕ × Connection)} (hne : targets ≠ []) :
      (s.withBranches w nodeName nodeSuccessData runIndex targets).nodeExecutionStack ≠ [] :=
    List.append_ne_nil_of_left_ne_nil (by simpa using hne) _
  unfold handOn
  rw [hadded]
  simp only [Outcome.andThen, hstack hne, if_false]
  rfl

end Stack

/-! ### Two branches -/

/-- A node with two successors, of which the first is further down. -/
def twoBranches : Workflow where
  nodes := ((Dict.empty.set "Trigger" { name := "Trigger", type := "trigger" }).set "Below"
    { name := "Below", type := "set", position := (100, 100) }).set "Above"
    { name := "Above", type := "set", position := (100, 0) }
  connectionsBySourceNode := Dict.empty.set "Trigger" (Dict.empty.set .main
    [some [{ node := "Below", type := .main, index := 0 },
      { node := "Above", type := .main, index := 0 }]])

def triggerData : List Slot := [.items [{ json := .empty }]]

theorem twoBranches_topLeft :
    ∃ targets, (targets.Pairwise fun a b =>
        TopLeft (targetPosition twoBranches a) (targetPosition twoBranches b)) ∧
      addNodes twoBranches { nodeExecutionStack := [] } "Trigger" triggerData 0 =
        { state := withBranches { nodeExecutionStack := [] } twoBranches "Trigger" triggerData 0
            targets } := by
  obtain ⟨targets, -, hpairwise, hadded, -⟩ := @addNodes_topLeft twoBranches "Trigger" triggerData
    0 rfl { nodeExecutionStack := [] } (by decide) (by decide) (by decide)
  exact ⟨targets, hpairwise, hadded⟩

end WorkflowExecute

end N8n
