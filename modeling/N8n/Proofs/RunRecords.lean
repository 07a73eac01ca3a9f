import Mathlib.Tactic
import N8n.ProcessRunExecutionData
import N8n.Proofs.WaitingNodes

/-!
# One record for each run

A record is written in one of two ways. That of a node that has run completes the record that is at
the run index, and goes to the end if none is there. That of a node that has failed for good always
goes to the end, so a tool that fails has two: the one its request put there, and its own.
-/

namespace N8n

variable {w : Workflow}

namespace WorkflowExecute

/-! ## What leaves the run data alone -/

theorem taskData_set (s : WorkflowExecute) (nodeName : String) (records : List TaskData) :
    ({ s with runData := s.runData.set nodeName records } : WorkflowExecute).taskData nodeName =
      records := by
  simp [taskData]

theorem taskData_pushTaskData_of_ne (s : WorkflowExecute) {nodeName nodeName' : String}
    (h : nodeName ≠ nodeName') (record : TaskData) :
    (s.pushTaskData nodeName' record).taskData nodeName = s.taskData nodeName := by
  unfold pushTaskData
  simp only [taskData]
  rw [Dict.get?_set_of_ne _ h]

/-- A request adds records of the nodes it names. -/
theorem prepareRequestedNodesForExecution_taskData (currentNode : Node) (runIndex : ℕ)
    (executionData : ExecuteData) {nodeName : String} : ∀ (actions : List EngineAction)
    (s : WorkflowExecute),
    (∀ a ∈ actions, ∀ tool ∈ w.nodes.get? a.nodeName, tool.name ≠ nodeName) →
    (prepareRequestedNodesForExecution w currentNode runIndex executionData s
      actions).state.taskData nodeName = s.taskData nodeName
  | [], _, _ => rfl
  | action :: actions, s, h => by
    unfold prepareRequestedNodesForExecution
    split
    · rfl
    · rename_i node hnode
      simp only []
      rw [prepareRequestedNodesForExecution_taskData _ _ _ actions _
        fun a ha => h a (List.mem_cons_of_mem _ ha)]
      exact taskData_pushTaskData_of_ne _ (h action List.mem_cons_self node hnode).symm _

theorem handleRequest_state (s : WorkflowExecute) (currentNode : Node) (runIndex : ℕ)
    (executionData : ExecuteData) (request : EngineRequest) :
    (s.handleRequest w currentNode request runIndex executionData).state =
      (prepareRequestedNodesForExecution w currentNode runIndex executionData s
        request.actions).state := by
  unfold handleRequest
  simp only []
  split_ifs
  · rfl
  · split <;> rfl

theorem handleEngineRequest_taskData (s : WorkflowExecute) (currentNode : Node) (runIndex : ℕ)
    (executionData : ExecuteData) {nodeName : String} {request : EngineRequest}
    (h : ∀ a ∈ request.actions, ∀ tool ∈ w.nodes.get? a.nodeName, tool.name ≠ nodeName) :
    (s.handleEngineRequest w currentNode request runIndex executionData).state.taskData nodeName =
      s.taskData nodeName := by
  have hprepared := prepareRequestedNodesForExecution_taskData (w := w) currentNode runIndex
    executionData request.actions s h
  rw [← handleRequest_state] at hprepared
  rw [← hprepared]
  unfold taskData
  rw [(handleEngineRequest_adds s currentNode request runIndex executionData).runData]

theorem addNodes_runData (s : WorkflowExecute) (nodeName : String) (nodeSuccessData : List Slot)
    (runIndex : ℕ) :
    (s.addNodes w nodeName nodeSuccessData runIndex).state.runData = s.runData := by
  have hadd : ∀ (s : WorkflowExecute) (output : ℕ × Connection),
      (s.addNodeToBeExecuted w output.2 output.1 nodeName nodeSuccessData runIndex none
        none).state.runData = s.runData := fun s output =>
    (addNodeToBeExecuted_adds (p := fun _ => True) (fun _ _ => trivial) _ _ _ _ _ _).runData
  have hforEach : ∀ {f : WorkflowExecute → ℕ × Connection → Outcome} {outputs},
      (∀ s output, (f s output).state.runData = s.runData) →
        (Outcome.forEach f s outputs).state.runData = s.runData := fun h =>
    (Outcome.forEach_rel (R := fun s s' => s'.runData = s.runData) (fun _ => rfl)
      (fun _ _ _ h h' => h'.trans h) s fun s output _ => h s output)
  unfold addNodes
  simp only []
  split_ifs
  · refine hforEach fun s output => ?_
    split_ifs
    · rfl
    · exact hadd s output
    · rfl
  · rfl
  · exact hforEach hadd

theorem scanWaiting_runData : ∀ (fuel : ℕ) (s : WorkflowExecute),
    (scanWaiting w fuel s).state.runData = s.runData
  | 0, _ => rfl
  | fuel + 1, s => by
    unfold scanWaiting
    simp only []
    split
    · rfl
    · rfl
    · split_ifs
      · rfl
      · rfl
      · exact scanWaiting_runData fuel _

theorem handOn_runData (s : WorkflowExecute) (nodeName : String) (nodeSuccessData : List Slot)
    (runIndex : ℕ) : (s.handOn w nodeName nodeSuccessData runIndex).state.runData = s.runData := by
  have hadded := addNodes_runData (w := w) s nodeName nodeSuccessData runIndex
  unfold handOn Outcome.ends Outcome.andThen
  simp only []
  split_ifs
  · exact hadded
  · exact (scanWaiting_runData _ _).trans hadded
  · exact hadded

/-! ## What is written -/

/-- The records of a node once a record has been written at a run index. -/
def writeRecord (records : List TaskData) (runIndex : ℕ) (record : TaskData) : List TaskData :=
  match records[runIndex]? with
  | some current => records.set runIndex (current.assign record)
  | none => records ++ [record]

theorem taskData_writeTaskData (s : WorkflowExecute) (nodeName : String) (runIndex : ℕ)
    (record : TaskData) : (s.writeTaskData nodeName runIndex record).taskData nodeName =
      writeRecord (s.taskData nodeName) runIndex record := by
  unfold writeTaskData writeRecord
  cases (s.taskData nodeName)[runIndex]? with
  | none => exact taskData_set s nodeName _
  | some currentTaskData => exact taskData_set s nodeName _

/-- The record is at the run index and is the only new one. -/
def Records (records records' : List TaskData) (runIndex executionIndex : ℕ) : Prop :=
  (∃ record ∈ records'[runIndex]?, record.executionIndex = executionIndex) ∧
    records'.length = max records.length (runIndex + 1)

theorem records_append {records : List TaskData} {runIndex : ℕ} (record : TaskData) :
    Records records (records ++ [record]) runIndex record.executionIndex ↔
      runIndex = records.length := by
  refine ⟨fun ⟨⟨_, hmem, _⟩, hlength⟩ => ?_, ?_⟩
  · have hlt := (List.getElem?_eq_some_iff.1 hmem).1
    rw [List.length_append, List.length_singleton] at hlt hlength
    omega
  · rintro rfl
    exact ⟨⟨record, by simp, rfl⟩, by simp⟩

theorem records_writeRecord {records : List TaskData} {runIndex : ℕ} (record : TaskData) :
    Records records (writeRecord records runIndex record) runIndex record.executionIndex ↔
      runIndex ≤ records.length := by
  unfold writeRecord
  cases hcurrent : records[runIndex]? with
  | none =>
    have hge := List.getElem?_eq_none_iff.1 hcurrent
    rw [records_append]
    omega
  | some current =>
    have hlt := (List.getElem?_eq_some_iff.1 hcurrent).1
    refine ⟨fun _ => hlt.le, fun _ => ⟨⟨current.assign record, ?_, rfl⟩, ?_⟩⟩
    · simp [hlt]
    · rw [List.length_set, max_eq_left hlt]

theorem executionIndex_withData (s : WorkflowExecute) (nodeName : String) (runIndex : ℕ)
    (nodeSuccessData : List Slot) (record : TaskData) :
    (s.withData nodeName runIndex nodeSuccessData record).executionIndex =
      record.executionIndex := by
  unfold withData
  split <;> rfl

/-- A turn that comes to the node's record writes it at the run index. -/
theorem finishNode_taskData (s : WorkflowExecute) (executionData : ExecuteData) (runIndex : ℕ)
    (nodeSuccessData : Option (List Slot)) (taskData : TaskData)
    (h : (s.finishNode w executionData runIndex nodeSuccessData taskData).ending.continues) :
    ∃ record : TaskData, record.executionIndex = taskData.executionIndex ∧
      (s.finishNode w executionData runIndex nodeSuccessData taskData).state.taskData
        executionData.node.name =
      writeRecord (s.taskData executionData.node.name) runIndex record := by
  unfold finishNode at h ⊢
  simp only [] at h ⊢
  cases houtputs : nodeSuccessData.bind mergeErrors with
  | none => simp [houtputs, TurnEnd.continues] at h
  | some outputs =>
    simp only []
    refine ⟨_, executionIndex_withData s executionData.node.name runIndex outputs taskData, ?_⟩
    rw [← taskData_writeTaskData]
    split_ifs
    · rfl
    · rfl
    · unfold WorkflowExecute.taskData
      rw [handOn_runData]

theorem finishNode_not_failed (s : WorkflowExecute) (executionData : ExecuteData) (runIndex : ℕ)
    (nodeSuccessData : Option (List Slot)) (taskData : TaskData) :
    (s.finishNode w executionData runIndex nodeSuccessData taskData).ending ≠ .failed := by
  unfold finishNode
  simp only []
  split
  · simp
  · split_ifs
    · simp
    · simp
    · unfold handOn Outcome.ends
      simp only []
      generalize Outcome.error _ = error
      cases error <;> simp

theorem recordRun_records (executionIndex runIndex : ℕ) (executionData : ExecuteData)
    (tries : Tries) (records : List TaskData)
    (hrecords : tries.state.taskData executionData.node.name = records)
    (h : (recordRun w executionIndex runIndex executionData tries).ending.continues ∨
      (recordRun w executionIndex runIndex executionData tries).ending = .failed) :
    Records records ((recordRun w executionIndex runIndex executionData tries).state.taskData
        executionData.node.name) runIndex executionIndex ↔
      runIndex ≤ records.length ∧
        ((recordRun w executionIndex runIndex executionData tries).ending = .failed →
          runIndex = records.length) := by
  have hfinish : ∀ (s : WorkflowExecute) nodeSuccessData (taskData : TaskData),
      s.taskData executionData.node.name = records → taskData.executionIndex = executionIndex →
      let r := s.finishNode w executionData runIndex nodeSuccessData taskData
      (r.ending.continues ∨ r.ending = .failed) →
        (Records records (r.state.taskData executionData.node.name) runIndex executionIndex ↔
          runIndex ≤ records.length ∧ (r.ending = .failed → runIndex = records.length)) := by
    rintro s nodeSuccessData taskData rfl rfl r hending
    have hnot := finishNode_not_failed (w := w) s executionData runIndex nodeSuccessData taskData
    obtain ⟨record, hindex, hwritten⟩ := finishNode_taskData s executionData runIndex
      nodeSuccessData taskData (hending.resolve_right hnot)
    rw [hwritten, ← hindex, records_writeRecord]
    exact ⟨fun hle => ⟨hle, fun hfailed => absurd hfailed hnot⟩, fun hle => hle.1⟩
  have hopen : (tries.state.openTaskData executionData.node.name).taskData
      executionData.node.name = records := (taskData_set _ _ _).trans hrecords
  unfold recordRun at h ⊢
  simp only [] at h ⊢
  split_ifs at h ⊢ with herror hcontinues
  · exact hfinish _ _ _ hopen rfl h
  · exact hfinish _ _ _ hopen rfl h
  · have hpushed : ((tries.state.openTaskData executionData.node.name).stopAt executionData
        (newTaskData executionIndex executionData tries)).state.taskData executionData.node.name =
        records ++ [newTaskData executionIndex executionData tries] :=
      (taskData_set _ _ _).trans (by rw [hopen])
    rw [hpushed]
    exact (records_append _).trans ⟨fun heq => ⟨heq.le, fun _ => heq⟩, fun heq => heq.2 rfl⟩

/-! ## One turn -/

/-- A node that does not ask for a run of itself leaves its records alone until it has run. -/
theorem taskData_keeps (records : List TaskData) {t : Turn} {executionData : ExecuteData}
    (runIndex : ℕ) (hself : ¬ RequestsItself w t executionData.node) :
    Keeps w t runIndex executionData executionData.node.maxCalls
      (fun s => s.taskData executionData.node.name = records) where
  waits _ _ h := h
  ran _ h := h
  request s k hk request hresult h := by
    have hactions : (t.attempt k).actions = request.actions := by simp [Attempt.actions, hresult]
    rw [handleEngineRequest_taskData, h]
    exact fun a ha tool htool hname => hself ⟨k, hk, a, hactions ▸ ha, tool, htool, hname⟩

theorem runEntry_records (s : WorkflowExecute) (t : Turn) (executionIndex : ℕ)
    (executionData : ExecuteData) (hself : ¬ RequestsItself w t executionData.node)
    (hending : (s.runEntry w t executionIndex executionData).ending.continues ∨
      (s.runEntry w t executionIndex executionData).ending = .failed) :
    Records (s.taskData executionData.node.name)
        ((s.runEntry w t executionIndex executionData).state.taskData executionData.node.name)
        (s.runIndexOf executionData) executionIndex ↔
      s.runIndexOf executionData ≤ (s.taskData executionData.node.name).length ∧
        ((s.runEntry w t executionIndex executionData).ending = .failed →
          s.runIndexOf executionData = (s.taskData executionData.node.name).length) := by
  unfold runEntry at hending ⊢
  cases hdata : newTaskDataConnections executionData with
  | none => simp [hdata, TurnEnd.continues] at hending
  | some data =>
    simp only [hdata] at hending ⊢
    -- the rest of the turn is about the entry with its items in place
    generalize hentry : ({ executionData with data } : ExecuteData) = entry at hending ⊢
    have hnode : executionData.node = entry.node := hentry ▸ rfl
    have hrunIndex : s.runIndexOf executionData = s.runIndexOf entry := hentry ▸ rfl
    rw [hnode] at hself hending
    rw [hnode, hrunIndex]
    split_ifs at hending ⊢
    · simp [TurnEnd.continues] at hending
    · simp [TurnEnd.continues] at hending
    · unfold ensureInputData at hending ⊢
      by_cases hinput : hasInputData w entry.node entry = true
      · simp only [hinput, if_true] at hending ⊢
        have houtcome := executeNode_comes (s := s)
          (taskData_keeps (s.taskData entry.node.name) (s.runIndexOf entry) hself) rfl
        revert houtcome hending
        cases s.executeNode w t (s.runIndexOf entry) entry with
        | requested s' => simp [TurnEnd.continues]
        | noData s' => simp [TurnEnd.continues]
        | done tries => exact fun hending hrecords => recordRun_records _ _ _ _ _ hrecords hending
      · simp [hinput, TurnEnd.continues] at hending

/-- The agent has asked for its tools, and the first is about to run. -/
def agentPaused : WorkflowExecute :=
  (agentState.handleEngineRequest (agentWorkflow .v1) (agentEntry none none).node twoTools 0
    (agentEntry none none)).state

/-- Every call of the node throws. -/
def throwing : Turn where
  attempt _ := { result := .throws "Search failed" }

end WorkflowExecute

end N8n

/-!
# Requests that are rejected

A request for a node that is not there throws, and one of a node without a parent is ignored. The
records of the actions before have been written by then, and stay.
-/

namespace N8n

variable {w : Workflow}

/-- An action names a node that is not there, or the requesting node has no parent. -/
def Rejects (w : Workflow) (request : EngineRequest) (executionData : ExecuteData) : Prop :=
  (∃ action ∈ request.actions, w.nodes.get? action.nodeName = none) ∨
    prepareRequestingNodeForResuming executionData = none

/-- The request has thrown, or is ignored: nothing is to be executed. -/
def RequestedNodes.Rejected (requested : RequestedNodes) : Prop :=
  requested.error.isSome ∨ requested.nodesToBeExecuted = []

namespace WorkflowExecute

variable (currentNode : Node) (runIndex : ℕ) (executionData : ExecuteData)

theorem length_taskData_pushTaskData (s : WorkflowExecute) (nodeName nodeName' : String)
    (record : TaskData) :
    (s.taskData nodeName).length ≤ ((s.pushTaskData nodeName' record).taskData nodeName).length := by
  by_cases h : nodeName = nodeName'
  · subst h
    unfold pushTaskData
    rw [taskData_set, List.length_append]
    exact Nat.le_add_right _ _
  · rw [taskData_pushTaskData_of_ne _ h]

/-- A request takes no record away. -/
theorem length_taskData_prepareRequestedNodesForExecution (nodeName : String) :
    ∀ (actions : List EngineAction) (s : WorkflowExecute), (s.taskData nodeName).length ≤
      ((prepareRequestedNodesForExecution w currentNode runIndex executionData s
        actions).state.taskData nodeName).length
  | [], _ => le_rfl
  | action :: actions, s => by
    unfold prepareRequestedNodesForExecution
    split
    · exact le_rfl
    · refine le_trans ?_ (length_taskData_prepareRequestedNodesForExecution nodeName actions _)
      exact length_taskData_pushTaskData _ _ _ _

/-- The record of the first action is there, whatever becomes of the others. -/
theorem prepareRequestedNodesForExecution_runData_ne {action : EngineAction} {node : Node}
    (hnode : w.nodes.get? action.nodeName = some node) (actions : List EngineAction)
    (s : WorkflowExecute) :
    (prepareRequestedNodesForExecution w currentNode runIndex executionData s
      (action :: actions)).state.runData ≠ s.runData := by
  intro heq
  have hlength : ((prepareRequestedNodesForExecution w currentNode runIndex executionData s
      (action :: actions)).state.taskData node.name).length = (s.taskData node.name).length := by
    unfold taskData
    rw [heq]
  unfold prepareRequestedNodesForExecution at hlength
  simp only [hnode] at hlength
  have hle := length_taskData_prepareRequestedNodesForExecution (w := w) currentNode runIndex
    executionData node.name actions (pushTaskData
      { s with rewireOutputLogTo := s.rewireOutputLogTo.set node.name action.type } node.name
      { executionIndex := 0
        inputOverride := some (Dict.empty.set .aiTool
          [Slot.items [toolItem currentNode runIndex executionData action]]) })
  have hpush : ((pushTaskData
      { s with rewireOutputLogTo := s.rewireOutputLogTo.set node.name action.type } node.name
      { executionIndex := 0
        inputOverride := some (Dict.empty.set .aiTool
          [Slot.items [toolItem currentNode runIndex executionData action]]) }).taskData
      node.name).length = (s.taskData node.name).length + 1 := by
    unfold pushTaskData
    rw [taskData_set, List.length_append, List.length_singleton]
    rfl
  omega

/-- It throws where a node is not there. -/
theorem prepareRequestedNodesForExecution_error_iff : ∀ (actions : List EngineAction)
    (s : WorkflowExecute),
    (prepareRequestedNodesForExecution w currentNode runIndex executionData s
      actions).error.isSome ↔ ∃ action ∈ actions, w.nodes.get? action.nodeName = none
  | [], _ => by simp [prepareRequestedNodesForExecution]
  | action :: actions, s => by
    unfold prepareRequestedNodesForExecution
    split
    · rename_i hnode
      simp [hnode]
    · rename_i node hnode
      simp only [List.exists_mem_cons_iff, hnode, reduceCtorEq, false_or]
      exact prepareRequestedNodesForExecution_error_iff actions _

theorem rejected_iff (s : WorkflowExecute) (request : EngineRequest) :
    (s.handleRequest w currentNode request runIndex executionData).Rejected ↔
      Rejects w request executionData := by
  have herror := prepareRequestedNodesForExecution_error_iff (w := w) currentNode runIndex
    executionData request.actions s
  unfold handleRequest Rejects RequestedNodes.Rejected
  simp only []
  split_ifs with hthrown
  · simp [hthrown, herror.1 hthrown]
  · have hfound := mt herror.2 hthrown
    cases prepareRequestingNodeForResuming executionData with
    | none => simp
    | some resuming => simp [hthrown, hfound]

/-- A rejected request has left the run data alone where it has no action before the one that is
rejected: it is not rejected, has no action, or its first names a node that is not there. -/
theorem rejected_unchanged_iff (w : Workflow) (s : WorkflowExecute) (currentNode : Node)
    (runIndex : ℕ) (executionData : ExecuteData) (request : EngineRequest) :
    ((s.handleRequest w currentNode request runIndex executionData).Rejected →
      (s.handleRequest w currentNode request runIndex executionData).state.runData = s.runData) ↔
      (Rejects w request executionData → ∀ action, request.actions.head? = some action →
        w.nodes.get? action.nodeName = none) := by
  rw [rejected_iff, handleRequest_state]
  refine imp_congr_right fun _ => ⟨fun hsame action hhead => ?_, fun hfirst => ?_⟩
  · obtain ⟨actions, hactions⟩ := List.head?_eq_some_iff.1 hhead
    by_contra hne
    obtain ⟨node, hnode⟩ := Option.ne_none_iff_exists'.1 hne
    rw [hactions] at hsame
    exact prepareRequestedNodesForExecution_runData_ne _ _ _ hnode actions s hsame
  · cases hactions : request.actions with
    | nil => rfl
    | cons action actions =>
      have hnone := hfirst action (by rw [hactions]; rfl)
      unfold prepareRequestedNodesForExecution
      simp only [hnone]

/-! ### An agent without a parent -/

/-- The request of a node that has no parent is ignored, but its tools have records. -/
theorem ignored_request_recorded :
    prepareRequestingNodeForResuming { agentEntry none none with source := none } = none ∧
      ¬ ((agentState.handleRequest (agentWorkflow .v1) (agentEntry none none).node twoTools 0
          { agentEntry none none with source := none }).Rejected →
        (agentState.handleRequest (agentWorkflow .v1) (agentEntry none none).node twoTools 0
          { agentEntry none none with source := none }).state.runData = agentState.runData) := by
  refine ⟨rfl, fun h => ?_⟩
  have hlength := congrArg Dict.entries (h (.inr rfl))
  exact absurd hlength (by decide)

end WorkflowExecute

end N8n
