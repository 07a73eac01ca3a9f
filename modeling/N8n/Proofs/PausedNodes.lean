import Mathlib.Tactic
import N8n.RequestsResponse

/-!
# The order and the data of a resumed node

A request schedules the node first and then its tools, by the call that also hands on data. What
comes last on the list comes first off the stack in execution order v1, so the node is resumed after
its tools; in the legacy order it is resumed before them.
-/

namespace N8n

variable {w : Workflow}

theorem Outcome.forEach_rel {α : Type*} {R : WorkflowExecute → WorkflowExecute → Prop}
    (hrefl : ∀ s, R s s) (htrans : ∀ s s' s'', R s s' → R s' s'' → R s s'')
    {f : WorkflowExecute → α → Outcome} : ∀ {xs : List α} (s : WorkflowExecute),
      (∀ s, ∀ x ∈ xs, R s (f s x).state) → R s (Outcome.forEach f s xs).state
  | [], s, _ => hrefl s
  | x :: xs, s, h => by
    have hx := h s x List.mem_cons_self
    unfold Outcome.forEach Outcome.andThen
    split_ifs
    · exact hx
    · exact htrans _ _ _ hx
        (Outcome.forEach_rel hrefl htrans _ fun s y hy => h s y (List.mem_cons_of_mem x hy))

namespace WorkflowExecute

/-! ## Entries put on the stack -/

/-- The stack of `s'` is that of `s` with some more entries, all of which have `p`; the run data and
the pinned data are the same. -/
structure Adds (w : Workflow) (p : ExecuteData → Prop) (s s' : WorkflowExecute) : Prop where
  stack : ∃ added : List ExecuteData, (∀ e ∈ added, p e) ∧
    s'.nodeExecutionStack =
      if w.isLegacyExecutionOrder then s.nodeExecutionStack ++ added
      else added ++ s.nodeExecutionStack
  runData : s'.runData = s.runData
  pinData : s'.pinData = s.pinData

variable {p : ExecuteData → Prop} {s s' s'' : WorkflowExecute}

theorem Adds.of_eq (h : s'.nodeExecutionStack = s.nodeExecutionStack)
    (hrun : s'.runData = s.runData) (hpin : s'.pinData = s.pinData) : Adds w p s s' :=
  ⟨⟨[], by simp, by simp [h]⟩, hrun, hpin⟩

theorem Adds.refl (s : WorkflowExecute) : Adds w p s s := .of_eq rfl rfl rfl

theorem Adds.trans (h : Adds w p s s') (h' : Adds w p s' s'') : Adds w p s s'' := by
  obtain ⟨added, hp, hs⟩ := h.stack
  obtain ⟨added', hp', hs'⟩ := h'.stack
  refine ⟨?_, h'.runData.trans h.runData, h'.pinData.trans h.pinData⟩
  by_cases hlegacy : w.isLegacyExecutionOrder = true
  · refine ⟨added ++ added', fun e he => ?_, ?_⟩
    · exact (List.mem_append.1 he).elim (hp e) (hp' e)
    · simp only [hlegacy, if_true] at hs hs' ⊢
      rw [hs', hs, List.append_assoc]
  · refine ⟨added' ++ added, fun e he => ?_, ?_⟩
    · exact (List.mem_append.1 he).elim (hp' e) (hp e)
    · simp only [hlegacy] at hs hs' ⊢
      rw [hs', hs]
      simp

theorem Adds.enqueue {e : ExecuteData} (hp : p e) : Adds w p s (s.enqueue w e) := by
  refine ⟨⟨[e], by simpa using hp, ?_⟩, rfl, rfl⟩
  unfold WorkflowExecute.enqueue
  split_ifs <;> simp

theorem Adds.ne_nil (h : Adds w p s s') (hs : s.nodeExecutionStack ≠ []) :
    s'.nodeExecutionStack ≠ [] := by
  obtain ⟨added, -, hs'⟩ := h.stack
  rw [hs']
  split_ifs <;> simp [hs]

theorem enqueue_ne_nil (s : WorkflowExecute) (e : ExecuteData) :
    (s.enqueue w e).nodeExecutionStack ≠ [] := by
  unfold enqueue
  split_ifs <;> simp

theorem forceParent_adds (hp : ∀ e : ExecuteData, e.metadata = none → p e)
    (checkOutputNodes executionStackNodes : List String) (inputNode : String) (outputIndex : ℕ)
    (parentNodeName : String) (nodeSuccessData : List Slot) (runIndex : ℕ) :
    Adds w p s (s.forceParent w checkOutputNodes executionStackNodes inputNode outputIndex
      parentNodeName nodeSuccessData runIndex).state := by
  unfold forceParent
  simp only []
  split
  · exact .refl s
  · split_ifs
    · exact .refl s
    · exact .refl s
    · split
      · exact .refl s
      · exact .refl s
      · exact .enqueue (hp _ rfl)

theorem addMissingParent_adds (hp : ∀ e : ExecuteData, e.metadata = none → p e)
    (checkOutputNodes : List String) (outputIndex : ℕ) (parentNodeName : String)
    (nodeSuccessData : List Slot) (runIndex : ℕ) (s : WorkflowExecute) (inputData : Connection) :
    Adds w p s (addMissingParent w checkOutputNodes outputIndex parentNodeName nodeSuccessData
      runIndex s inputData).state := by
  unfold addMissingParent
  simp only []
  split_ifs
  · exact .refl s
  · split
    · exact .refl s
    · split <;> exact .refl s
  · split
    · exact .refl s
    · split <;> exact .refl s
  · split
    · exact .refl s
    · split <;> exact .refl s
  · split
    · exact .refl s
    · split
      · exact .refl s
      · exact .refl s
      · exact forceParent_adds hp _ _ _ _ _ _ _
  · exact .refl s
  · exact .refl s
  · exact .refl s
  · exact forceParent_adds hp _ _ _ _ _ _ _

theorem addMissingParents_adds (hp : ∀ e : ExecuteData, e.metadata = none → p e)
    (nodeName : String) (outputIndex : ℕ) (parentNodeName : String) (nodeSuccessData : List Slot)
    (runIndex : ℕ) : Adds w p s
      (s.addMissingParents w nodeName outputIndex parentNodeName nodeSuccessData runIndex).state := by
  unfold addMissingParents
  split
  · exact .refl s
  · exact Outcome.forEach_rel Adds.refl (fun _ _ _ => Adds.trans) s
      fun s inputData _ => addMissingParent_adds hp _ _ _ _ _ s inputData

theorem addToWaiting_adds (hp : ∀ e : ExecuteData, e.metadata = none → p e)
    (connectionData : Connection) (outputIndex : ℕ) (parentNodeName : String)
    (nodeSuccessData : List Slot) (runIndex : ℕ) : Adds w p s
      (s.addToWaiting w connectionData outputIndex parentNodeName nodeSuccessData runIndex).state := by
  unfold addToWaiting
  simp only []
  split
  · exact Adds.trans (.of_eq rfl rfl rfl) (Adds.trans (.enqueue (hp _ rfl)) (.of_eq rfl rfl rfl))
  · split
    · exact .of_eq rfl rfl rfl
    · refine Adds.trans ?_ (addMissingParents_adds hp _ _ _ _ _)
      exact .of_eq rfl rfl rfl

theorem addNodeToBeExecuted_adds {metadata : Option TaskMetadata}
    (hp : ∀ e : ExecuteData, e.metadata = none ∨ e.metadata = metadata → p e)
    (connectionData : Connection) (outputIndex : ℕ) (parentNodeName : String)
    (nodeSuccessData : List Slot) (runIndex : ℕ) (newRunIndex : Option ℕ) : Adds w p s
      (s.addNodeToBeExecuted w connectionData outputIndex parentNodeName nodeSuccessData runIndex
        newRunIndex metadata).state := by
  unfold addNodeToBeExecuted
  split_ifs
  · exact addToWaiting_adds (fun e he => hp e (.inl he)) _ _ _ _ _
  · exact .enqueue (hp _ (.inr rfl))

/-! ## Requests -/

section Request

variable {currentNode : Node} {runIndex : ℕ} {executionData : ExecuteData}

/-- A request is prepared in the run data only, whether it is rejected or not. -/
theorem prepareRequestedNodesForExecution_queues (w : Workflow) (currentNode : Node) (runIndex : ℕ)
    (executionData : ExecuteData) : ∀ (actions : List EngineAction) (s : WorkflowExecute),
    (prepareRequestedNodesForExecution w currentNode runIndex executionData s
      actions).state.nodeExecutionStack = s.nodeExecutionStack ∧
    (prepareRequestedNodesForExecution w currentNode runIndex executionData s
      actions).state.waitingExecution = s.waitingExecution
  | [], _ => ⟨rfl, rfl⟩
  | action :: actions, s => by
    unfold prepareRequestedNodesForExecution
    split
    · exact ⟨rfl, rfl⟩
    · exact prepareRequestedNodesForExecution_queues w currentNode runIndex executionData actions _

theorem handleRequest_queues (s : WorkflowExecute) (request : EngineRequest) :
    (s.handleRequest w currentNode request runIndex executionData).state.nodeExecutionStack =
      s.nodeExecutionStack ∧
    (s.handleRequest w currentNode request runIndex executionData).state.waitingExecution =
      s.waitingExecution := by
  have h := prepareRequestedNodesForExecution_queues w currentNode runIndex executionData
    request.actions s
  unfold handleRequest
  simp only []
  split_ifs
  · exact h
  · split <;> exact h

/-- What is to be executed for an action. -/
structure ForAction (n : NodeToBeExecuted) (a : SubNodeAction) : Prop where
  node : n.inputConnectionData.node = a.nodeName
  run : n.nodeRunIndex = a.runIndex
  data : n.parentOutputData.isSome
  isTool : n.metadata.nodeWasResumed = false

/-- A request for nodes of the workflow is prepared action by action. -/
theorem prepareRequestedNodesForExecution_spec (w : Workflow) (currentNode : Node) (runIndex : ℕ)
    (executionData : ExecuteData) : ∀ (actions : List EngineAction) (s : WorkflowExecute),
    (∀ a ∈ actions, (w.nodes.get? a.nodeName).isSome) →
    let requested :=
      prepareRequestedNodesForExecution w currentNode runIndex executionData s actions
    requested.error = none ∧ requested.actions.map (·.action) = actions ∧
      (∀ a ∈ requested.actions, a.nodeName = a.action.nodeName) ∧
      List.Forall₂ ForAction requested.nodesToBeExecuted requested.actions
  | [], _, _ => ⟨rfl, rfl, fun _ h => absurd h List.not_mem_nil, .nil⟩
  | action :: actions, s, h => by
    obtain ⟨node, hnode⟩ := Option.isSome_iff_exists.1 (h action List.mem_cons_self)
    unfold prepareRequestedNodesForExecution
    simp only [hnode]
    obtain ⟨herror, hactions, hnames, hnodes⟩ :=
      prepareRequestedNodesForExecution_spec w currentNode runIndex executionData actions _
        fun a ha => h a (List.mem_cons_of_mem _ ha)
    refine ⟨herror, congrArg (action :: ·) hactions, ?_, .cons ⟨rfl, rfl, rfl, rfl⟩ hnodes⟩
    intro a ha
    rcases List.mem_cons.1 ha with rfl | ha
    · rfl
    · exact hnames a ha

/-- The entry that executes a node with at most one input. -/
def requestedEntry (w : Workflow) (n : NodeToBeExecuted) : ExecuteData where
  node := w.node n.inputConnectionData.node
  data := Dict.empty.set .main (List.replicate n.inputConnectionData.index .null ++
    [slotAt (n.parentOutputData.getD []) n.parentOutputIndex])
  source := some [some (sourceOf n.parentNode n.parentOutputIndex n.runIndex)]
  runIndex := some n.nodeRunIndex
  metadata := some n.metadata

theorem addRequestedNode_eq {n : NodeToBeExecuted} (hdata : n.parentOutputData.isSome)
    (hone : w.numberOfInputs n.inputConnectionData.node ≤ 1) (s : WorkflowExecute) :
    addRequestedNode w s n = { state := s.enqueue w (requestedEntry w n) } := by
  obtain ⟨data, hdata⟩ := Option.isSome_iff_exists.1 hdata
  unfold addRequestedNode addNodeToBeExecuted addToStack
  simp only [hdata, not_lt.2 hone, if_false]
  simp [requestedEntry, hdata]

theorem forEach_addRequestedNode : ∀ (ns : List NodeToBeExecuted) (s : WorkflowExecute),
    (∀ n ∈ ns, n.parentOutputData.isSome ∧ w.numberOfInputs n.inputConnectionData.node ≤ 1) →
    (Outcome.forEach (addRequestedNode w) s ns).state.nodeExecutionStack =
      if w.isLegacyExecutionOrder then s.nodeExecutionStack ++ ns.map (requestedEntry w)
      else (ns.map (requestedEntry w)).reverse ++ s.nodeExecutionStack
  | [], s, _ => by simp [Outcome.forEach]
  | n :: ns, s, h => by
    obtain ⟨hdata, hone⟩ := h n List.mem_cons_self
    have ih := forEach_addRequestedNode ns (s.enqueue w (requestedEntry w n))
      fun n hn => h n (List.mem_cons_of_mem _ hn)
    unfold Outcome.forEach
    rw [addRequestedNode_eq hdata hone]
    simp only [Outcome.andThen, Option.isSome_none, Bool.false_eq_true, if_false]
    rw [ih]
    unfold enqueue
    split_ifs <;> simp

theorem scheduledSince_eq {added : List ExecuteData} {s s₀ : WorkflowExecute}
    (h : s.nodeExecutionStack = if w.isLegacyExecutionOrder then s₀.nodeExecutionStack ++ added
      else added ++ s₀.nodeExecutionStack) : s.scheduledSince w s₀ = added := by
  unfold scheduledSince
  rw [h]
  split_ifs <;> simp

/-- The node that made the request, as it is resumed. -/
def resumingNode (request : EngineRequest) (runIndex : ℕ) (executionData : ExecuteData)
    (actions : List SubNodeAction) (resuming : Connection × String) : NodeToBeExecuted where
  inputConnectionData := resuming.1
  parentOutputIndex := 0
  parentNode := resuming.2
  parentOutputData := executionData.data.get? .main
  runIndex
  nodeRunIndex := runIndex
  metadata :=
    { nodeWasResumed := true
      subNodeExecutionData := some { actions, metadata := request.metadata } }

variable {request : EngineRequest}

/-- A request of a node that cannot be resumed is ignored. -/
theorem handleEngineRequest_of_ignored (s : WorkflowExecute)
    (h : prepareRequestingNodeForResuming executionData = none) :
    (s.handleEngineRequest w currentNode request runIndex
      executionData).state.nodeExecutionStack = s.nodeExecutionStack ∧
    (s.handleEngineRequest w currentNode request runIndex
      executionData).state.waitingExecution = s.waitingExecution := by
  have hqueues := prepareRequestedNodesForExecution_queues w currentNode runIndex executionData
    request.actions s
  unfold handleEngineRequest handleRequest
  simp only [h]
  split_ifs <;> exact hqueues

/-- Else the node comes first on the list. -/
theorem handleEngineRequest_of_resuming (s : WorkflowExecute) {resuming : Connection × String}
    (h : prepareRequestingNodeForResuming executionData = some resuming) :
    let requested := prepareRequestedNodesForExecution w currentNode runIndex executionData s
      request.actions
    s.handleEngineRequest w currentNode request runIndex executionData =
      if requested.error.isSome then { state := requested.state, error := requested.error }
      else Outcome.forEach (addRequestedNode w) requested.state
        (resumingNode request runIndex executionData requested.actions resuming ::
          requested.nodesToBeExecuted) := by
  unfold handleEngineRequest handleRequest
  simp only [h]
  split_ifs with herror <;> simp_all [resumingNode]

theorem resuming_eq {resuming : Connection × String}
    (h : prepareRequestingNodeForResuming executionData = some resuming) :
    ∃ source, executionData.firstSource = some source ∧ source.previousNode ≠ "" ∧
      resuming =
        ({ type := .aiTool, node := executionData.node.name, index := 0 }, source.previousNode) := by
  unfold prepareRequestingNodeForResuming at h
  split at h
  · cases h
  · rename_i source hsource
    split_ifs at h with hname
    exact ⟨source, hsource, hname, (Option.some.inj h).symm⟩

theorem isResumed_resumingNode (actions : List SubNodeAction) (resuming : Connection × String) :
    (requestedEntry w
      (resumingNode request runIndex executionData actions resuming)).isResumed = true := rfl

theorem mem_of_forall₂_forAction {ns : List NodeToBeExecuted} {actions : List SubNodeAction}
    (h : List.Forall₂ ForAction ns actions) : ∀ n ∈ ns, ∃ a ∈ actions, ForAction n a := by
  induction h with
  | nil => exact fun n hn => absurd hn List.not_mem_nil
  | cons hna _ ih =>
    intro n hn
    rcases List.mem_cons.1 hn with rfl | hn
    · exact ⟨_, List.mem_cons_self, hna⟩
    · obtain ⟨a, ha, hna⟩ := ih n hn
      exact ⟨a, List.mem_cons_of_mem _ ha, hna⟩

/-- The entries put on the stack, when none of the nodes waits. -/
theorem handleEngineRequest_scheduled (currentNode : Node) (runIndex : ℕ) (s : WorkflowExecute)
    {resuming : Connection × String}
    (hresuming : prepareRequestingNodeForResuming executionData = some resuming)
    (hmain : (executionData.data.get? .main).isSome)
    (hone : w.numberOfInputs executionData.node.name ≤ 1)
    (hexist : ∀ a ∈ request.actions, (w.nodes.get? a.nodeName).isSome)
    (htools : ∀ a ∈ request.actions, w.numberOfInputs a.nodeName ≤ 1) :
    let requested := prepareRequestedNodesForExecution w currentNode runIndex executionData s
      request.actions
    let entries := (resumingNode request runIndex executionData requested.actions resuming ::
      requested.nodesToBeExecuted).map (requestedEntry w)
    (s.handleEngineRequest w currentNode request runIndex
        executionData).state.scheduledSince w s =
      if w.isLegacyExecutionOrder then entries else entries.reverse := by
  intro requested entries
  obtain ⟨herror, hactions, hnames, hnodes⟩ := prepareRequestedNodesForExecution_spec w currentNode
    runIndex executionData request.actions s hexist
  have hone' : w.numberOfInputs resuming.1.node ≤ 1 := by
    obtain ⟨source, -, -, rfl⟩ := resuming_eq hresuming
    exact hone
  apply scheduledSince_eq
  rw [handleEngineRequest_of_resuming s hresuming, herror]
  simp only [Option.isSome_none, Bool.false_eq_true, if_false]
  rw [forEach_addRequestedNode, (prepareRequestedNodesForExecution_queues w currentNode runIndex
    executionData request.actions s).1]
  · split_ifs <;> rfl
  · intro n hn
    rcases List.mem_cons.1 hn with rfl | hn
    · exact ⟨hmain, hone'⟩
    · obtain ⟨a, ha, hna⟩ := mem_of_forall₂_forAction hnodes n hn
      refine ⟨hna.data, ?_⟩
      have hmem : a.action ∈ request.actions := hactions ▸ List.mem_map_of_mem ha
      rw [hna.node, hnames a ha]
      exact htools _ hmem

/-- Nothing is put on the stack for a node that cannot be resumed. -/
theorem handleEngineRequest_scheduled_of_not (s : WorkflowExecute)
    (h : ¬ IsScheduled executionData) (hone : w.numberOfInputs executionData.node.name ≤ 1) :
    (s.handleEngineRequest w currentNode request runIndex
      executionData).state.scheduledSince w s = [] := by
  have hqueues := prepareRequestedNodesForExecution_queues w currentNode runIndex executionData
    request.actions s
  apply scheduledSince_eq
  rcases hresuming : prepareRequestingNodeForResuming executionData with _ | resuming
  · rw [(handleEngineRequest_of_ignored s hresuming).1]
    simp
  · obtain ⟨source, -, -, rfl⟩ := resuming_eq hresuming
    have hmain : executionData.data.get? .main = none := by
      simpa [IsScheduled, hresuming] using h
    rw [handleEngineRequest_of_resuming s hresuming]
    split_ifs
    · simp [hqueues.1]
    · simp [hqueues.1]
    · simp [Outcome.forEach, Outcome.andThen, addRequestedNode, resumingNode, hmain,
        not_lt.2 hone, hqueues.1]
    · simp [Outcome.forEach, Outcome.andThen, addRequestedNode, resumingNode, hmain,
        not_lt.2 hone, hqueues.1]

end Request

/-! ## The order -/

section Order

theorem eq_of_append_cons_eq : ∀ {tools rest before after : List ExecuteData}
    {resuming resumed : ExecuteData}, (∀ e ∈ tools, e.isResumed = false) →
    (∀ e ∈ rest, e.isResumed = false) → resumed.isResumed = true →
    tools ++ resuming :: rest = before ++ resumed :: after → before = tools ∧ resumed = resuming
  | [], rest, [], after, resuming, resumed, _, _, _, h => ⟨rfl, (List.cons.inj h).1.symm⟩
  | [], rest, e :: before, after, resuming, resumed, _, hrest, hresumed, h => by
    have hmem : resumed ∈ rest := by
      rw [(List.cons.inj h).2]
      simp
    rw [hrest resumed hmem] at hresumed
    cases hresumed
  | e :: tools, rest, [], after, resuming, resumed, htools, _, hresumed, h => by
    rw [← (List.cons.inj h).1, htools e List.mem_cons_self] at hresumed
    cases hresumed
  | e :: tools, rest, e' :: before, after, resuming, resumed, htools, hrest, hresumed, h => by
    obtain ⟨rfl, h'⟩ := List.cons.inj h
    obtain ⟨hbefore, hresuming⟩ := eq_of_append_cons_eq
      (fun e he => htools e (List.mem_cons_of_mem _ he)) hrest hresumed h'
    exact ⟨congrArg _ hbefore, hresuming⟩

theorem resumesAfterTools_iff {request : EngineRequest} {tools rest : List ExecuteData}
    {resuming : ExecuteData} (htools : ∀ e ∈ tools, e.isResumed = false)
    (hrest : ∀ e ∈ rest, e.isResumed = false) (hresuming : resuming.isResumed = true) :
    ResumesAfterTools w request (tools ++ resuming :: rest) ↔
      ∃ data, resuming.metadata.bind (·.subNodeExecutionData) = some data ∧
        data.actions.map (·.action) = request.actions ∧
        ∀ a ∈ data.actions, ∃ tool ∈ tools, tool.RunsAction w a := by
  refine ⟨fun h => h tools resuming rest rfl hresuming, fun h before resumed after heq hresumed => ?_⟩
  obtain ⟨rfl, rfl⟩ := eq_of_append_cons_eq htools hrest hresumed heq
  exact h

theorem isResumed_of_forall₂ {ns : List NodeToBeExecuted} {actions : List SubNodeAction}
    (h : List.Forall₂ ForAction ns actions) :
    ∀ e ∈ ns.map (requestedEntry w), e.isResumed = false := by
  intro e he
  obtain ⟨n, hn, rfl⟩ := List.mem_map.1 he
  obtain ⟨a, -, hna⟩ := mem_of_forall₂_forAction h n hn
  simpa [ExecuteData.isResumed, requestedEntry] using hna.isTool

theorem runsAction_of_forall₂ {ns : List NodeToBeExecuted} {actions : List SubNodeAction}
    (h : List.Forall₂ ForAction ns actions) :
    ∀ a ∈ actions, ∃ tool ∈ ns.map (requestedEntry w), tool.RunsAction w a := by
  induction h with
  | nil => exact fun a ha => absurd ha List.not_mem_nil
  | cons hna _ ih =>
    intro a ha
    rcases List.mem_cons.1 ha with rfl | ha
    · refine ⟨_, List.mem_cons_self, ?_, ?_, ?_⟩
      · simp [requestedEntry, hna.node]
      · simp [requestedEntry, hna.run]
      · simpa [ExecuteData.isResumed, requestedEntry] using hna.isTool
    · obtain ⟨tool, htool, hruns⟩ := ih a ha
      exact ⟨tool, List.mem_cons_of_mem _ htool, hruns⟩

/-- The node is resumed after its tools in execution order v1. In the legacy order it is so only if
there is nothing to wait for. -/
theorem resumes_after_tools_iff (w : Workflow) (s : WorkflowExecute) (request : EngineRequest)
    (runIndex : ℕ) (executionData : ExecuteData)
    (hone : w.numberOfInputs executionData.node.name ≤ 1)
    (hexist : ∀ a ∈ request.actions, (w.nodes.get? a.nodeName).isSome)
    (htools : ∀ a ∈ request.actions, w.numberOfInputs a.nodeName = 0) :
    ResumesAfterTools w request
        ((s.handleEngineRequest w executionData.node request runIndex
          executionData).state.scheduledSince w s) ↔
      w.isLegacyExecutionOrder = false ∨ request.actions = [] ∨ ¬ IsScheduled executionData := by
  by_cases hscheduled : IsScheduled executionData
  · obtain ⟨resuming, hresuming⟩ := Option.isSome_iff_exists.1 hscheduled.1
    obtain ⟨-, hactions, -, hnodes⟩ := prepareRequestedNodesForExecution_spec w executionData.node
      runIndex executionData request.actions s hexist
    rw [handleEngineRequest_scheduled executionData.node runIndex s hresuming hscheduled.2 hone
      hexist fun a ha => (htools a ha).le.trans (Nat.zero_le 1)]
    have hnot := isResumed_of_forall₂ (w := w) hnodes
    by_cases hlegacy : w.isLegacyExecutionOrder = true
    · -- the node comes before all of its tools
      rw [if_pos hlegacy, List.map_cons, ← List.nil_append (requestedEntry w _ :: _),
        resumesAfterTools_iff (by simp) hnot (isResumed_resumingNode _ _)]
      simp only [hlegacy, hscheduled, not_true_eq_false, or_false, Bool.true_eq_false, false_or]
      refine ⟨fun ⟨data, _, hdata, h⟩ => ?_, fun h => ⟨_, rfl, hactions, fun a ha => ?_⟩⟩
      · rw [← hdata, List.map_eq_nil_iff, List.eq_nil_iff_forall_not_mem]
        intro a ha
        obtain ⟨tool, htool, -⟩ := h a ha
        exact List.not_mem_nil htool
      · have hnil := List.map_eq_nil_iff.1 (hactions.trans h)
        simp only [hnil] at ha
        exact absurd ha List.not_mem_nil
    · rw [if_neg hlegacy, List.map_cons, List.reverse_cons,
        resumesAfterTools_iff (fun e he => hnot e (List.mem_reverse.1 he)) (by simp)
          (isResumed_resumingNode _ _)]
      simp only [Bool.not_eq_true] at hlegacy
      refine ⟨fun _ => .inl hlegacy, fun _ => ⟨_, rfl, hactions, fun a ha => ?_⟩⟩
      obtain ⟨tool, htool, hruns⟩ := runsAction_of_forall₂ (w := w) hnodes a ha
      exact ⟨tool, List.mem_reverse.2 htool, hruns⟩
  · rw [handleEngineRequest_scheduled_of_not s hscheduled hone]
    refine ⟨fun _ => .inr (.inr hscheduled), fun _ before resumed after h => ?_⟩
    simp at h

/-! ### An agent with two tools -/

/-- The agent has data from the trigger, and calls the two tools. -/
def agentWorkflow (executionOrder : ExecutionOrder) : Workflow where
  nodes := (((Dict.empty.set "Trigger" { name := "Trigger", type := "trigger" }).set "Agent"
    { name := "Agent", type := "agent" }).set "Search" { name := "Search", type := "tool" }).set
    "Mail" { name := "Mail", type := "tool" }
  connectionsBySourceNode := ((Dict.empty.set "Trigger"
    (Dict.empty.set .main [some [{ node := "Agent", type := .main, index := 0 }]])).set "Search"
    (Dict.empty.set .aiTool [some [{ node := "Agent", type := .aiTool, index := 0 }]])).set "Mail"
    (Dict.empty.set .aiTool [some [{ node := "Agent", type := .aiTool, index := 0 }]])
  executionOrder := some executionOrder

def twoTools : EngineRequest where
  actions := [{ nodeName := "Search", id := "call_1" }, { nodeName := "Mail", id := "call_2" }]

/-- The entry the agent runs with, for an output and a run of the trigger. -/
def agentEntry (previousNodeOutput previousNodeRun : Option ℕ) : ExecuteData where
  node := { name := "Agent", type := "agent" }
  data := Dict.empty.set .main [.items [{ json := .empty }]]
  source := some [some { previousNode := "Trigger", previousNodeOutput, previousNodeRun }]

def agentState : WorkflowExecute := { nodeExecutionStack := [] }

/-- In the legacy order the agent is the first to be taken from the stack. -/
theorem resumed_before_tools :
    ¬ ResumesAfterTools (agentWorkflow .v0) twoTools
      ((agentState.handleEngineRequest (agentWorkflow .v0) (agentEntry none none).node twoTools 0
        (agentEntry none none)).state.scheduledSince (agentWorkflow .v0) agentState) := by
  intro h
  have hlength : ((agentState.handleEngineRequest (agentWorkflow .v0) (agentEntry none none).node
      twoTools 0 (agentEntry none none)).state.scheduledSince (agentWorkflow .v0)
        agentState).map (·.isResumed) = [true, false, false] := by decide
  obtain ⟨resumed, tools, hscheduled, hresumed, -⟩ := List.map_eq_cons_iff.1 hlength
  obtain ⟨data, -, hactions, htools⟩ := h [] resumed tools hscheduled hresumed
  cases hdata : data.actions with
  | nil => simp [hdata, twoTools] at hactions
  | cons a actions =>
    obtain ⟨tool, htool, -⟩ := htools a (by simp [hdata])
    exact List.not_mem_nil htool

theorem resumes_after_tools_v1 :
    ResumesAfterTools (agentWorkflow .v1) twoTools
      ((agentState.handleEngineRequest (agentWorkflow .v1) (agentEntry none none).node twoTools 0
        (agentEntry none none)).state.scheduledSince (agentWorkflow .v1) agentState) :=
  (resumes_after_tools_iff (agentWorkflow .v1) agentState twoTools 0 (agentEntry none none)
    (by decide) (by decide) (by decide)).2 (.inl (by decide))

end Order

/-! ## The run -/

section SameRun

theorem slotAt_slotAt (array : List Slot) (index : ℕ) :
    slotAt [slotAt array index] 0 = slotAt array index := by
  rcases h : array[index]? with _ | slot
  · simp [slotAt, h]
  · cases slot <;> simp [slotAt, h]

theorem sameRun_iff {request : EngineRequest} {runIndex : ℕ} {executionData : ExecuteData}
    {source : SourceData} (hsource : executionData.firstSource = some source)
    (actions : List SubNodeAction) :
    SameRun executionData runIndex (requestedEntry w (resumingNode request runIndex executionData
        actions ({ type := .aiTool, node := executionData.node.name, index := 0 },
          source.previousNode))) ↔
      w.node executionData.node.name = executionData.node ∧
        source.previousNodeOutput.getD 0 = 0 ∧ source.previousNodeRun.getD 0 = runIndex := by
  set resumed := requestedEntry w (resumingNode request runIndex executionData actions
    ({ type := .aiTool, node := executionData.node.name, index := 0 }, source.previousNode))
  have hfirst : resumed.firstSource = some (sourceOf source.previousNode 0 runIndex) := rfl
  refine ⟨fun h => ?_, fun ⟨hnode, houtput, hrun⟩ => ⟨hnode, ?_, rfl, ?_⟩⟩
  · obtain ⟨a, ha, b, hb, -, houtput, hrun⟩ := h.source
    rw [hfirst, Option.mem_some_iff] at ha
    rw [hsource, Option.mem_some_iff] at hb
    subst ha hb
    exact ⟨h.node, by simpa [sourceOf] using houtput.symm, by simpa [sourceOf] using hrun.symm⟩
  · exact slotAt_slotAt executionData.main 0
  · exact ⟨_, hfirst, source, hsource, rfl, by simp [sourceOf, houtput], by simp [sourceOf, hrun]⟩

/-- The node is put on the stack first. Whatever its tools put there, none of it resumes a node. -/
theorem handleEngineRequest_resuming (s : WorkflowExecute) (request : EngineRequest) (runIndex : ℕ)
    {executionData : ExecuteData} {resuming : Connection × String}
    (hresuming : prepareRequestingNodeForResuming executionData = some resuming)
    (hmain : (executionData.data.get? .main).isSome)
    (hone : w.numberOfInputs executionData.node.name ≤ 1)
    (hexist : ∀ a ∈ request.actions, (w.nodes.get? a.nodeName).isSome) :
    ∃ (actions : List SubNodeAction) (added : List ExecuteData),
      (∀ e ∈ added, e.isResumed = false) ∧
      (s.handleEngineRequest w executionData.node request runIndex
          executionData).state.scheduledSince w s =
        if w.isLegacyExecutionOrder then
          requestedEntry w (resumingNode request runIndex executionData actions resuming) :: added
        else added ++
          [requestedEntry w (resumingNode request runIndex executionData actions resuming)] := by
  obtain ⟨herror, -, -, hnodes⟩ := prepareRequestedNodesForExecution_spec w executionData.node
    runIndex executionData request.actions s hexist
  have hqueues := prepareRequestedNodesForExecution_queues w executionData.node runIndex
    executionData request.actions s
  have hone' : w.numberOfInputs resuming.1.node ≤ 1 := by
    obtain ⟨source, -, -, rfl⟩ := resuming_eq hresuming
    exact hone
  set requested := prepareRequestedNodesForExecution w executionData.node runIndex executionData s
    request.actions
  set resumed := requestedEntry w
    (resumingNode request runIndex executionData requested.actions resuming)
  have hadds : Adds w (fun e => e.isResumed = false) (requested.state.enqueue w resumed)
      (Outcome.forEach (addRequestedNode w) (requested.state.enqueue w resumed)
        requested.nodesToBeExecuted).state := by
    refine Outcome.forEach_rel Adds.refl (fun _ _ _ => Adds.trans) _ fun s n hn => ?_
    obtain ⟨a, -, hna⟩ := mem_of_forall₂_forAction hnodes n hn
    obtain ⟨data, hdata⟩ := Option.isSome_iff_exists.1 hna.data
    unfold addRequestedNode
    rw [hdata]
    refine addNodeToBeExecuted_adds (fun e he => ?_) _ _ _ _ _ _
    rcases he with he | he
    · simp [ExecuteData.isResumed, he]
    · simp [ExecuteData.isResumed, he, hna.isTool]
  obtain ⟨added, hadded, hstack⟩ := hadds.stack
  refine ⟨requested.actions, added, hadded, scheduledSince_eq ?_⟩
  have hhandled : s.handleEngineRequest w executionData.node request runIndex executionData =
      Outcome.forEach (addRequestedNode w) (requested.state.enqueue w resumed)
        requested.nodesToBeExecuted := by
    rw [handleEngineRequest_of_resuming s hresuming, herror]
    simp only [Option.isSome_none, Bool.false_eq_true, if_false]
    rw [Outcome.forEach, addRequestedNode_eq hmain hone']
    rfl
  rw [hhandled, hstack]
  unfold enqueue
  split_ifs
  · simp [hqueues.1, resumed]
  · simp [hqueues.1, resumed]

/-- The paused entry came from the first output of its parent, and its run has the index of the
parent's run. -/
theorem resumes_same_run_iff (w : Workflow) (s : WorkflowExecute) (request : EngineRequest)
    (runIndex : ℕ) (executionData : ExecuteData) (source : SourceData)
    (hsource : executionData.firstSource = some source) (hname : source.previousNode ≠ "")
    (hmain : (executionData.data.get? .main).isSome)
    (hone : w.numberOfInputs executionData.node.name ≤ 1)
    (hexist : ∀ a ∈ request.actions, (w.nodes.get? a.nodeName).isSome) :
    ResumesSameRun executionData runIndex
        ((s.handleEngineRequest w executionData.node request runIndex
          executionData).state.scheduledSince w s) ↔
      w.node executionData.node.name = executionData.node ∧
        source.previousNodeOutput.getD 0 = 0 ∧ source.previousNodeRun.getD 0 = runIndex := by
  have hresuming : prepareRequestingNodeForResuming executionData =
      some ({ type := .aiTool, node := executionData.node.name, index := 0 },
        source.previousNode) := by
    unfold prepareRequestingNodeForResuming
    rw [show (executionData.source.getD [])[0]?.join = some source from hsource]
    exact if_neg hname
  obtain ⟨actions, added, hadded, hscheduled⟩ :=
    handleEngineRequest_resuming s request runIndex hresuming hmain hone hexist
  rw [hscheduled, ← sameRun_iff hsource actions]
  have hcount : added.countP (·.isResumed) = 0 :=
    List.countP_eq_zero.2 fun e he => by simp [hadded e he]
  set resumed := requestedEntry w (resumingNode request runIndex executionData actions
    ({ type := .aiTool, node := executionData.node.name, index := 0 }, source.previousNode))
  have hresumed : resumed.isResumed = true := rfl
  have honly : ∀ e ∈ resumed :: added, e.isResumed → e = resumed := fun e he hr => by
    rcases List.mem_cons.1 he with rfl | he
    · rfl
    · rw [hadded e he] at hr
      cases hr
  unfold ResumesSameRun
  split_ifs
  · refine ⟨fun h => h.2 resumed List.mem_cons_self hresumed, fun h => ⟨?_, fun e he hr => ?_⟩⟩
    · rw [List.countP_cons_of_pos hresumed, hcount]
    · rw [honly e he hr]
      exact h
  · refine ⟨fun h => h.2 resumed (by simp) hresumed, fun h => ⟨?_, fun e he hr => ?_⟩⟩
    · rw [List.countP_append, hcount, List.countP_cons_of_pos hresumed]
      rfl
    · rw [honly e (by simpa [or_comm] using he) hr]
      exact h

/-- The agent comes from the second output of the trigger. It is resumed as if from the first. -/
theorem resumed_from_first_output :
    ¬ ResumesSameRun (agentEntry (some 1) none) 0
      ((agentState.handleEngineRequest (agentWorkflow .v1) (agentEntry (some 1) none).node twoTools
        0 (agentEntry (some 1) none)).state.scheduledSince (agentWorkflow .v1) agentState) := by
  decide

theorem resumes_same_run_third :
    ResumesSameRun (agentEntry none (some 2)) 2
      ((agentState.handleEngineRequest (agentWorkflow .v1) (agentEntry none (some 2)).node twoTools
        2 (agentEntry none (some 2))).state.scheduledSince (agentWorkflow .v1) agentState) :=
  (resumes_same_run_iff (agentWorkflow .v1) agentState twoTools 2 (agentEntry none (some 2))
    { previousNode := "Trigger", previousNodeRun := some 2 } rfl (by decide) (by decide)
    (by decide) (by decide)).2 (by decide)

end SameRun

end WorkflowExecute

end N8n
