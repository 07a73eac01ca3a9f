import Mathlib.Tactic
import N8n.WaitingNodes
import N8n.Proofs.NodeExecution
import N8n.Proofs.PausedNodes

/-!
# No releasable entry waits behind an empty stack

The scan of the waiting nodes starts again after each entry it only removes, so it ends with a pass
that finds nothing. A turn that comes to it leaves nothing behind that it would release. The turns
that do not are those that end a branch.
-/

namespace N8n

variable {w : Workflow}

namespace WorkflowExecute

/-! ## The scan -/

theorem mem_scanOrder {waiting : IndexMap WaitingEntry} {entry : ℕ × WaitingEntry} :
    entry ∈ scanOrder waiting ↔ entry ∈ waiting.entries :=
  List.mem_insertionSort _

/-- A node that is passed over has no entry to release. -/
theorem not_releasable_of_passedOver {s : WorkflowExecute} {waitingNodes : List String}
    (hwaiting : ∀ nodeName, nodeName ∈ waitingNodes ↔ nodeName ∈ s.waitingExecution.keys)
    {nodeName : String} (h : s.waitingCandidate w waitingNodes nodeName = none)
    (entry : ℕ × WaitingEntry) : ¬ s.Releasable w nodeName entry := by
  intro hr
  obtain ⟨node, hnode⟩ := Option.isSome_iff_exists.1 hr.existing
  have hw : w.node nodeName = node := by simp [Workflow.node, hnode]
  have hparents : ((w.getParentNodes nodeName).any (· ∈ waitingNodes)) = false := by
    simp only [List.any_eq_false, decide_eq_true_eq]
    exact fun p hp hmem => hr.ancestors p hp ((hwaiting p).1 hmem)
  have hrequired := hr.required
  have hnot := hr.notAllRequired
  rw [hw] at hrequired hnot
  unfold waitingCandidate at h
  simp only [hnode, hnot, hparents, Bool.false_eq_true, if_false] at h
  cases horder : scanOrder ((s.waitingExecution.get? nodeName).getD .empty) with
  | nil =>
    rw [horder] at hrequired
    exact absurd hrequired List.not_mem_nil
  | cons first later =>
    rw [horder, List.takeWhile_cons] at hrequired
    rw [horder] at h
    simp only [List.head?_cons] at h
    split_ifs at h hrequired with hfirst
    exact absurd hrequired List.not_mem_nil

/-- An entry that is taken out is an entry of the node that was looked at. -/
theorem mem_of_waitingCandidate {s : WorkflowExecute} {waitingNodes : List String}
    {nodeName nodeName' : String} {runIndex : ℕ} {entry : WaitingEntry}
    (h : s.waitingCandidate w waitingNodes nodeName = some (.entry nodeName' runIndex entry)) :
    nodeName' = nodeName ∧ (runIndex, entry) ∈ s.entriesOf nodeName := by
  unfold waitingCandidate at h
  split at h
  · cases h
  · split_ifs at h
    split at h
    · cases h
    · rename_i first hfirst
      split_ifs at h
      simp only [Option.some.injEq, Candidate.entry.injEq] at h
      obtain ⟨rfl, rfl, rfl⟩ := h
      exact ⟨rfl, mem_scanOrder.1 (List.mem_of_mem_head? hfirst)⟩

theorem waitingCount_removeWaiting {s : WorkflowExecute} {nodeName : String}
    {entry : ℕ × WaitingEntry} (h : entry ∈ s.entriesOf nodeName) :
    (s.removeWaiting nodeName entry.1).waitingCount < s.waitingCount := by
  unfold entriesOf at h
  cases hget : s.waitingExecution.get? nodeName with
  | none =>
    rw [hget] at h
    exact absurd h List.not_mem_nil
  | some waiting =>
    rw [hget] at h
    have hlt : (waiting.erase entry.1).size < waiting.size := IndexMap.size_erase_lt h
    unfold removeWaiting waitingCount
    simp only [hget, Option.getD_some]
    split_ifs with hzero
    · have hsum := Dict.sum_erase IndexMap.size s.waitingExecution hget
      omega
    · have hsum := Dict.sum_set IndexMap.size s.waitingExecution hget (waiting.erase entry.1)
      omega

/-- The scan ends with a pass that finds nothing, or it puts an entry on the stack. -/
theorem scanWaiting_releasesNothing : ∀ (fuel : ℕ) (s : WorkflowExecute), s.waitingCount < fuel →
    (scanWaiting w fuel s).error = none →
    (scanWaiting w fuel s).state.nodeExecutionStack = [] →
    (scanWaiting w fuel s).state.ReleasesNothing w
  | 0, _, hfuel, _, _ => absurd hfuel (Nat.not_lt_zero _)
  | fuel + 1, s, hfuel, herror, hstack => by
    unfold scanWaiting at herror hstack ⊢
    simp only [] at herror hstack ⊢
    cases hfound : (objectKeys s.waitingExecution.keys).findSome?
        (s.waitingCandidate w (objectKeys s.waitingExecution.keys)) with
    | none =>
      rw [List.findSome?_eq_none_iff] at hfound
      exact fun nodeName hname entry _ => not_releasable_of_passedOver (fun _ => mem_objectKeys)
        (hfound nodeName (mem_objectKeys.2 hname)) entry
    | some candidate =>
      obtain ⟨nodeName, -, hcandidate⟩ := List.exists_of_findSome?_eq_some hfound
      cases candidate with
      | throws => simp [hfound] at herror
      | entry nodeName' runIndex entry =>
        obtain ⟨rfl, hmem⟩ := mem_of_waitingCandidate hcandidate
        simp only [hfound] at herror hstack ⊢
        split_ifs at herror hstack ⊢ with hundefined hitems
        · simp [removeWaiting, pushWaiting] at hstack
        · have hlt := Nat.lt_of_lt_of_le (waitingCount_removeWaiting hmem) (Nat.le_of_lt_succ hfuel)
          exact scanWaiting_releasesNothing fuel _ hlt herror hstack

/-! ## Requests -/

section Request

variable {executionData : ExecuteData}

theorem addRequestedNode_adds (s : WorkflowExecute) (n : NodeToBeExecuted) :
    Adds w (fun _ => True) s (addRequestedNode w s n).state := by
  unfold addRequestedNode
  split
  · exact addNodeToBeExecuted_adds (fun _ _ => trivial) _ _ _ _ _ _
  · simp only []
    split_ifs <;> exact .of_eq rfl rfl rfl

theorem forEach_addRequestedNode_ne_nil {s : WorkflowExecute} (hs : s.nodeExecutionStack ≠ [])
    (ns : List NodeToBeExecuted) :
    (Outcome.forEach (addRequestedNode w) s ns).state.nodeExecutionStack ≠ [] :=
  Adds.ne_nil (Outcome.forEach_rel Adds.refl (fun _ _ _ => Adds.trans) s
    fun s n _ => addRequestedNode_adds s n) hs

/-- What a request is handled with comes on top of its records. -/
theorem handleEngineRequest_adds (s : WorkflowExecute) (currentNode : Node)
    (request : EngineRequest) (runIndex : ℕ) (executionData : ExecuteData) :
    Adds w (fun _ => True) (s.handleRequest w currentNode request runIndex executionData).state
      (s.handleEngineRequest w currentNode request runIndex executionData).state := by
  unfold handleEngineRequest
  simp only []
  split_ifs
  · exact .refl _
  · exact Outcome.forEach_rel Adds.refl (fun _ _ _ => Adds.trans) _
      fun s n _ => addRequestedNode_adds s n

theorem handleEngineRequest_ne_nil {s : WorkflowExecute} (hs : s.nodeExecutionStack ≠ [])
    (currentNode : Node) (request : EngineRequest) (runIndex : ℕ) (executionData : ExecuteData) :
    (s.handleEngineRequest w currentNode request runIndex
      executionData).state.nodeExecutionStack ≠ [] := by
  rw [← (handleRequest_queues (w := w) s request).1] at hs
  exact (handleEngineRequest_adds s currentNode request runIndex executionData).ne_nil hs

/-- A request puts something on the stack, or it leaves both queues as they are. -/
theorem handleEngineRequest_queues (s : WorkflowExecute) (request : EngineRequest) (runIndex : ℕ)
    (hone : (prepareRequestingNodeForResuming executionData).isSome →
      w.numberOfInputs executionData.node.name ≤ 1) :
    let handled := s.handleEngineRequest w executionData.node request runIndex executionData
    handled.state.nodeExecutionStack ≠ [] ∨
      handled.state.nodeExecutionStack = s.nodeExecutionStack ∧
      handled.state.waitingExecution = s.waitingExecution ∧
      (handled.error = none → prepareRequestingNodeForResuming executionData = none) := by
  intro handled
  cases hresuming : prepareRequestingNodeForResuming executionData with
  | none =>
    exact .inr ⟨(handleEngineRequest_of_ignored s hresuming).1,
      (handleEngineRequest_of_ignored s hresuming).2, fun _ => rfl⟩
  | some resuming =>
    have hqueues := prepareRequestedNodesForExecution_queues w executionData.node runIndex
      executionData request.actions s
    have hone' : w.numberOfInputs resuming.1.node ≤ 1 := by
      obtain ⟨source, -, -, rfl⟩ := resuming_eq hresuming
      exact hone (by simp [hresuming])
    have hhandled : handled = _ := handleEngineRequest_of_resuming s hresuming
    rw [hhandled]
    set requested := prepareRequestedNodesForExecution w executionData.node runIndex executionData s
      request.actions
    split_ifs with herror
    · refine .inr ⟨hqueues.1, hqueues.2, fun h => ?_⟩
      rw [show requested.error = none from h] at herror
      cases herror
    · cases hmain : executionData.data.get? .main with
      | none =>
        right
        simp [Outcome.forEach, Outcome.andThen, addRequestedNode, resumingNode, hmain,
          not_lt.2 hone', hqueues]
      | some main =>
        have hdata : (resumingNode request runIndex executionData requested.actions
            resuming).parentOutputData.isSome := by simp [resumingNode, hmain]
        rw [Outcome.forEach, addRequestedNode_eq hdata hone']
        exact .inl (forEach_addRequestedNode_ne_nil (enqueue_ne_nil _ _) _)

end Request

end WorkflowExecute

/-! ## One turn -/

/-- The entry was not the last on the stack and something is there still, or it was (`last`) and the
waiting entries are still those that were there. -/
def Kept (last : Prop) (waiting : Dict String (IndexMap WaitingEntry)) (s : WorkflowExecute) :
    Prop :=
  s.nodeExecutionStack ≠ [] ∨ last ∧ s.waitingExecution = waiting

theorem kept_keeps {last : Prop} (waiting : Dict String (IndexMap WaitingEntry)) {t : Turn}
    {executionData : ExecuteData} (runIndex : ℕ) {maxTries : ℕ}
    (hone : last → ∀ k < maxTries, (t.attempt k).isRequest →
      (prepareRequestingNodeForResuming executionData).isSome →
        w.numberOfInputs executionData.node.name ≤ 1) :
    Keeps w t runIndex executionData maxTries (Kept last waiting) where
  waits _ _ h := h
  ran _ h := h
  request s k hk request hresult h := by
    rcases h with h | ⟨hlast, hwaiting⟩
    · exact .inl (WorkflowExecute.handleEngineRequest_ne_nil h _ _ _ _)
    · have hrequest : (t.attempt k).isRequest := by simp [Attempt.isRequest, hresult]
      exact (WorkflowExecute.handleEngineRequest_queues s request runIndex
        (hone hlast k hk hrequest)).imp_right fun ⟨_, hw, _⟩ => ⟨hlast, hw.trans hwaiting⟩

namespace WorkflowExecute

variable {s s' : WorkflowExecute} {t : Turn} {executionData : ExecuteData}

theorem ReleasesNothing.of_eq (h : s.ReleasesNothing w)
    (hwaiting : s'.waitingExecution = s.waitingExecution) : s'.ReleasesNothing w := by
  intro nodeName hname entry hentry hr
  rw [hwaiting] at hname
  unfold entriesOf at hentry
  rw [hwaiting] at hentry
  exact h nodeName hname entry hentry
    ⟨hr.existing, hr.notAllRequired, hwaiting ▸ hr.required, hwaiting ▸ hr.ancestors, hr.items⟩

/-- The turn does not leave the loop with an empty stack and an entry that could be released. -/
def ScansOn (w : Workflow) (r : TurnResult) : Prop :=
  r.ending.leaves = false → r.state.nodeExecutionStack = [] → r.state.destinationNode = none →
    r.state.ReleasesNothing w

theorem handOn_scansOn (s : WorkflowExecute) (nodeName : String) (nodeSuccessData : List Slot)
    (runIndex : ℕ) : ScansOn w (s.handOn w nodeName nodeSuccessData runIndex) := by
  intro hleaves hstack _
  unfold handOn Outcome.ends at hleaves hstack ⊢
  simp only [] at hleaves hstack ⊢
  generalize s.addNodes w nodeName nodeSuccessData runIndex = added at hleaves hstack ⊢
  cases herror : added.error with
  | some error => simp [Outcome.andThen, herror, TurnEnd.leaves] at hleaves
  | none =>
    simp only [Outcome.andThen, herror, Option.isSome_none, Bool.false_eq_true, if_false]
      at hleaves hstack ⊢
    by_cases hempty : added.state.nodeExecutionStack = []
    · simp only [if_pos hempty] at hleaves hstack ⊢
      cases hscan : (scanWaiting w (added.state.waitingCount + 1) added.state).error with
      | some error => simp [hscan, TurnEnd.leaves] at hleaves
      | none => exact scanWaiting_releasesNothing _ _ (Nat.lt_succ_self _) hscan hstack
    · simp only [if_neg hempty] at hstack
      exact absurd hstack hempty

theorem finishNode_scansOn (s : WorkflowExecute) (executionData : ExecuteData) (runIndex : ℕ)
    (nodeSuccessData : Option (List Slot)) (taskData : TaskData) :
    ScansOn w (s.finishNode w executionData runIndex nodeSuccessData taskData) := by
  unfold finishNode
  simp only []
  split
  · exact fun hleaves => by simp [TurnEnd.leaves] at hleaves
  · split_ifs with hwait hdestination
    · exact fun hleaves => by simp [TurnEnd.leaves] at hleaves
    · intro _ _ hnone
      rw [hdestination] at hnone
      cases hnone
    · exact handOn_scansOn _ _ _ _

theorem recordRun_scansOn (executionIndex runIndex : ℕ) (executionData : ExecuteData)
    (tries : Tries) : ScansOn w (recordRun w executionIndex runIndex executionData tries) := by
  unfold recordRun
  simp only []
  split_ifs
  · exact finishNode_scansOn _ _ _ _ _
  · exact finishNode_scansOn _ _ _ _ _
  · exact fun hleaves => by simp [stopAt, TurnEnd.leaves] at hleaves

theorem runEntry_scansOn (s : WorkflowExecute) (t : Turn) (executionIndex : ℕ)
    (executionData : ExecuteData)
    (hends : s.nodeExecutionStack = [] → EndsBranch s executionData t → s.ReleasesNothing w)
    (hone : s.nodeExecutionStack = [] → ∀ k < executionData.node.maxCalls,
      (t.attempt k).isRequest → (prepareRequestingNodeForResuming executionData).isSome →
        w.numberOfInputs executionData.node.name ≤ 1) :
    ScansOn w (s.runEntry w t executionIndex executionData) := by
  unfold runEntry
  split
  · exact fun hleaves => by simp [TurnEnd.leaves] at hleaves
  · rename_i data _
    simp only []
    generalize hentry : ({ executionData with data } : ExecuteData) = entry
    -- the rest of the turn is about the entry with its items in place
    have hends' : s.nodeExecutionStack = [] → EndsBranch s entry t → s.ReleasesNothing w :=
      hentry ▸ hends
    have hone' : s.nodeExecutionStack = [] → ∀ k < entry.node.maxCalls,
        (t.attempt k).isRequest → (prepareRequestingNodeForResuming entry).isSome →
          w.numberOfInputs entry.node.name ≤ 1 := hentry ▸ hone
    have hnode : executionData.node = entry.node := hentry ▸ rfl
    rw [hnode]
    split_ifs with hloop hfiltered
    · exact fun hleaves => by simp [TurnEnd.leaves] at hleaves
    · exact fun _ hstack _ => hends' hstack (.inl hfiltered)
    · unfold ensureInputData
      by_cases hinput : hasInputData w entry.node entry = true
      · simp only [hinput, if_true]
        have houtcome := executeNode_comes
          (kept_keeps s.waitingExecution (s.runIndexOf entry) hone')
          ((Decidable.em (s.nodeExecutionStack = [])).elim (fun h => .inr ⟨h, rfl⟩) .inl)
        revert houtcome
        cases s.executeNode w t (s.runIndexOf entry) entry with
        | requested s' =>
          rintro ⟨k, hk, request, s₁, hresult, hs₁, hhandled⟩ _ hstack _
          have hrequest : (t.attempt k).isRequest := by simp [Attempt.isRequest, hresult]
          rcases hs₁ with hs₁ | ⟨hlast, hwaiting⟩
          · have hne : (s₁.handleEngineRequest w entry.node request (s.runIndexOf entry)
                entry).state.nodeExecutionStack ≠ [] := handleEngineRequest_ne_nil hs₁ _ _ _ _
            rw [hhandled] at hne
            exact absurd hstack hne
          · have hqueues := handleEngineRequest_queues s₁ request (s.runIndexOf entry)
              (hone' hlast k hk hrequest)
            simp only [hhandled] at hqueues
            obtain ⟨-, hw, hignored⟩ := hqueues.resolve_left (not_not_intro hstack)
            exact (hends' hlast (.inr ⟨k, hk, .inr ⟨hrequest, hignored trivial⟩⟩)).of_eq
              (hw.trans hwaiting)
        | noData s' =>
          rintro ⟨hkept, hnot, k, hk, hnone⟩ _ hstack _
          obtain ⟨hlast, hwaiting⟩ := hkept.resolve_left (not_not_intro hstack)
          exact (hends' hlast (.inr ⟨k, hk, .inl ⟨hnone, hnot⟩⟩)).of_eq hwaiting
        | done tries => exact fun _ => recordRun_scansOn _ _ _ _
      · simp only [hinput]
        exact fun _ hstack => by simp at hstack

theorem turn_scansOn (s : WorkflowExecute) (t : Turn) (executionData : ExecuteData)
    (nodeExecutionStack : List ExecuteData)
    (hends : nodeExecutionStack = [] → EndsBranch s executionData t → s.ReleasesNothing w)
    (hone : nodeExecutionStack = [] → ∀ k < executionData.node.maxCalls,
      (t.attempt k).isRequest → (prepareRequestingNodeForResuming executionData).isSome →
        w.numberOfInputs executionData.node.name ≤ 1) :
    ScansOn w (s.turn w t executionData nodeExecutionStack) := by
  unfold turn
  split_ifs
  · exact fun hleaves => by simp [TurnEnd.leaves] at hleaves
  · exact runEntry_scansOn { s with
      nodeExecutionStack, currentNodeExecutionIndex := s.currentNodeExecutionIndex + 1 } t _
      executionData (fun hnil he => (hends hnil he).of_eq rfl) hone

end WorkflowExecute

/-! ## Runs -/

namespace Execution

theorem step_nothingAbandoned {x : Execution} {t : Turn} (hx : x.NothingAbandoned w)
    (h : x.KeepsScanning w t) : (x.step w t).NothingAbandoned w := by
  unfold step
  split_ifs with hleft
  · exact hx
  · cases hstack : x.state.nodeExecutionStack with
    | nil => exact hx
    | cons executionData nodeExecutionStack =>
      have hlast : nodeExecutionStack = [] → x.state.lastEntry = some executionData := by
        rintro rfl
        simp [WorkflowExecute.lastEntry, hstack]
      have hscans := WorkflowExecute.turn_scansOn (w := w) x.state t executionData
        nodeExecutionStack (fun hnil => (h _ (hlast hnil)).1) fun hnil => (h _ (hlast hnil)).2
      exact fun hleaves hempty _ hdestination => hscans hleaves hempty hdestination

/-- As long as no turn ends a branch with the last entry while another node could run, no entry is
left that the scan would release. -/
theorem nothing_abandoned (w : Workflow) (s : WorkflowExecute)
    (hs : s.nodeExecutionStack = [] → s.ReleasesNothing w) (ts : List Turn)
    (h : Runs.Meets (Execution.step w) (Execution.KeepsScanning w) ⟨s, false⟩ ts) :
    Runs.Along (Execution.step w) (Execution.NothingAbandoned w) ⟨s, false⟩ ts :=
  Runs.meets_along (fun _ _ => step_nothingAbandoned) (fun _ hstack _ _ => hs hstack) h

/-! ### Two branches that come together -/

/-- The trigger goes to `A` and `B`, and these to the two inputs of `Merge`, which can do with
one. -/
def branches : Workflow where
  nodes := (((Dict.empty.set "Trigger" { name := "Trigger", type := "trigger" }).set "A"
    { name := "A", type := "set" }).set "B" { name := "B", type := "set" }).set "Merge"
    { name := "Merge", type := "merge" }
  connectionsBySourceNode := ((Dict.empty.set "Trigger" (Dict.empty.set .main
    [some [{ node := "A", type := .main, index := 0 }, { node := "B", type := .main, index := 0 }]])).set
    "A" (Dict.empty.set .main [some [{ node := "Merge", type := .main, index := 0 }]])).set
    "B" (Dict.empty.set .main [some [{ node := "Merge", type := .main, index := 1 }]])
  nodeType node :=
    if node.type = "merge" then { inputs := 2, requiredInputs := some (.value (.count 1)) } else {}

/-- The trigger is about to run. -/
def branchesStart : WorkflowExecute where
  nodeExecutionStack :=
    [{ node := branches.node "Trigger"
       data := Dict.empty.set .main [.items [{ json := .empty }]]
       source := none }]

/-- The node returns this. -/
def returning (data : Option (List Slot)) : Turn where
  attempt _ := { result := .response data }

def oneItem : Option (List Slot) := some [.items [{ json := .empty }]]

/-- One branch returns data, and the other, which runs last, returns none. `Merge` never runs. -/
theorem merge_abandoned :
    ¬ Runs.Along (Execution.step branches) (Execution.NothingAbandoned branches)
      ⟨branchesStart, false⟩ [returning oneItem, returning oneItem, returning none] := by
  decide

/-- When the other branch returns an empty list, `Merge` runs. -/
theorem merge_not_abandoned :
    Runs.Along (Execution.step branches) (Execution.NothingAbandoned branches)
      ⟨branchesStart, false⟩
      [returning oneItem, returning oneItem, returning (some [.items []]), returning oneItem] :=
  nothing_abandoned branches branchesStart (by decide) _ (by decide)

end Execution

end N8n
