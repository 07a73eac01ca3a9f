import N8n.WorkflowExecute

/-!
# Requests to run other nodes

A node may return a request instead of data: its tools are to run, and then the node itself again,
with their results. The tools and the node go on the stack as if a parent had handed data to them,
and each tool gets a record in the run data before it has run.
-/

namespace N8n

/-- `NodeToBeExecuted`. The data of the requesting node is what its entry has under `main`. -/
structure NodeToBeExecuted where
  inputConnectionData : Connection
  parentOutputIndex : ℕ
  parentNode : String
  parentOutputData : Option (List Slot)
  runIndex : ℕ
  nodeRunIndex : ℕ
  metadata : TaskMetadata
  deriving DecidableEq

/-- What a request comes to: the nodes to be executed, or the error it is rejected with. -/
structure RequestedNodes where
  state : WorkflowExecute
  nodesToBeExecuted : List NodeToBeExecuted := []
  actions : List SubNodeAction := []
  error : Option String := none
  deriving DecidableEq

/-- The item a tool is run on. The input of the action comes over the item it is about. -/
def toolItem (currentNode : Node) (runIndex : ℕ) (executionData : ExecuteData)
    (action : EngineAction) : Item :=
  let parentSourceData := (executionData.source.getD [])[runIndex]?.join
  let parentOutputIndex := (parentSourceData.bind (·.previousNodeOutput)).getD 0
  let parentRunIndex := (parentSourceData.bind (·.previousNodeRun)).getD 0
  let parentSourceNode := (parentSourceData.map (·.previousNode)).getD currentNode.name
  let agentInputData :=
    (slotAt executionData.main 0).list[action.metadata.itemIndex.getD 0]?
  { json := (DataObject.merge ((agentInputData.map (·.json)).getD .empty) action.input).set
      "toolCallId" (.string action.id)
    pairedItem := some <| .single
      { item := parentRunIndex
        input := some parentOutputIndex
        sourceOverwrite := some
          { previousNode := parentSourceNode
            previousNodeOutput := some parentOutputIndex
            previousNodeRun := some parentRunIndex } } }

namespace WorkflowExecute

variable (w : Workflow)

/-- The actions in order, up to the first whose node the workflow does not contain. -/
def prepareRequestedNodesForExecution (currentNode : Node) (runIndex : ℕ)
    (executionData : ExecuteData) : WorkflowExecute → List EngineAction → RequestedNodes
  | s, [] => { state := s }
  | s, action :: actions =>
    match w.nodes.get? action.nodeName with
    | none =>
      { state := s
        error := some ("Workflow does not contain a node with the name of \"" ++ action.nodeName ++
          "\".") }
    | some node =>
      let parentOutputData := [Slot.items [toolItem currentNode runIndex executionData action]]
      let nodeRunIndex := (s.taskData node.name).length
      let s := { s with rewireOutputLogTo := s.rewireOutputLogTo.set node.name action.type }
      let s := s.pushTaskData node.name
        { executionIndex := 0
          inputOverride := some (Dict.empty.set .aiTool parentOutputData) }
      let requested := prepareRequestedNodesForExecution currentNode runIndex executionData s actions
      { requested with
        nodesToBeExecuted :=
          { inputConnectionData := { type := action.type, node := action.nodeName, index := 0 }
            parentOutputIndex := 0
            parentNode := currentNode.name
            parentOutputData := some parentOutputData
            runIndex
            nodeRunIndex
            metadata := { preserveSourceOverwrite := true } } :: requested.nodesToBeExecuted
        actions := { action, nodeName := action.nodeName, runIndex := nodeRunIndex } ::
          requested.actions }

end WorkflowExecute

/-- The connection the requesting node is resumed over, and its parent; none if it has no parent. -/
def prepareRequestingNodeForResuming (executionData : ExecuteData) : Option (Connection × String) :=
  match (executionData.source.getD [])[0]?.join with
  | none => none
  | some sourceData =>
    if sourceData.previousNode = "" then none
    else some ({ type := .aiTool, node := executionData.node.name, index := 0 },
      sourceData.previousNode)

namespace WorkflowExecute

variable (w : Workflow) (s : WorkflowExecute)

/-- The requesting node comes before its tools. -/
def handleRequest (currentNode : Node) (request : EngineRequest) (runIndex : ℕ)
    (executionData : ExecuteData) : RequestedNodes :=
  let requested :=
    prepareRequestedNodesForExecution w currentNode runIndex executionData s request.actions
  if requested.error.isSome then requested
  else
    match prepareRequestingNodeForResuming executionData with
    | none => { requested with nodesToBeExecuted := [] }
    | some (connectionData, parentNode) =>
      { requested with
        nodesToBeExecuted :=
          { inputConnectionData := connectionData
            parentOutputIndex := 0
            parentNode
            parentOutputData := executionData.data.get? .main
            runIndex
            nodeRunIndex := runIndex
            metadata :=
              { nodeWasResumed := true
                subNodeExecutionData := some
                  { actions := requested.actions, metadata := request.metadata } } } ::
            requested.nodesToBeExecuted }

/-- Without data under `main`, reading the output throws. -/
def addRequestedNode (s : WorkflowExecute) (nodeData : NodeToBeExecuted) : Outcome :=
  match nodeData.parentOutputData with
  | some parentOutputData =>
    s.addNodeToBeExecuted w nodeData.inputConnectionData nodeData.parentOutputIndex
      nodeData.parentNode parentOutputData nodeData.runIndex (some nodeData.nodeRunIndex)
      (some nodeData.metadata)
  | none =>
    { state := if 1 < w.numberOfInputs nodeData.inputConnectionData.node then
        s.prepareWaiting w nodeData.inputConnectionData else s
      error := some typeError }

def handleEngineRequest (currentNode : Node) (request : EngineRequest) (runIndex : ℕ)
    (executionData : ExecuteData) : Outcome :=
  let requested := s.handleRequest w currentNode request runIndex executionData
  if requested.error.isSome then { state := requested.state, error := requested.error }
  else Outcome.forEach (addRequestedNode w) requested.state requested.nodesToBeExecuted

end WorkflowExecute

end N8n

/-!
## Paused nodes

What is asked of the entries that a request puts on the stack: that the node is resumed after its
tools have run, and as the same run on the same data.
-/

namespace N8n

/-- The entry resumes a node that has made a request. -/
def ExecuteData.isResumed (executionData : ExecuteData) : Bool :=
  (executionData.metadata.map (·.nodeWasResumed)).getD false

/-- The entries put on the stack since `s₀`: before the others in execution order v1, after them in
the legacy order. -/
def WorkflowExecute.scheduledSince (w : Workflow) (s s₀ : WorkflowExecute) : List ExecuteData :=
  if w.isLegacyExecutionOrder then s.nodeExecutionStack.drop s₀.nodeExecutionStack.length
  else s.nodeExecutionStack.take (s.nodeExecutionStack.length - s₀.nodeExecutionStack.length)

/-- The entry runs the tool of the action, as the run that the resumed node will ask for. -/
def ExecuteData.RunsAction (w : Workflow) (a : SubNodeAction) (executionData : ExecuteData) :
    Prop :=
  executionData.node = w.node a.nodeName ∧ executionData.runIndex = some a.runIndex ∧
    executionData.isResumed = false

instance (w : Workflow) (a : SubNodeAction) (executionData : ExecuteData) :
    Decidable (executionData.RunsAction w a) :=
  inferInstanceAs (Decidable (_ ∧ _ ∧ _))

/-- A resumed node knows all actions of the request, and comes after an entry for each of them. -/
def ResumesAfterTools (w : Workflow) (request : EngineRequest) (scheduled : List ExecuteData) :
    Prop :=
  ∀ before resumed after, scheduled = before ++ resumed :: after → resumed.isResumed →
    ∃ data, resumed.metadata.bind (·.subNodeExecutionData) = some data ∧
      data.actions.map (·.action) = request.actions ∧
      ∀ a ∈ data.actions, ∃ tool ∈ before, tool.RunsAction w a

/-- The request gets the node on the stack: it has a parent, and data on its main inputs. -/
def IsScheduled (executionData : ExecuteData) : Prop :=
  (prepareRequestingNodeForResuming executionData).isSome ∧
    (executionData.data.get? .main).isSome

instance (executionData : ExecuteData) : Decidable (IsScheduled executionData) :=
  inferInstanceAs (Decidable (_ ∧ _))

/-- `source.main[0]` -/
def ExecuteData.firstSource (executionData : ExecuteData) : Option SourceData :=
  (executionData.source.getD [])[0]?.join

/-- The two name the same output and the same run of the same node. -/
def SourceData.Same (a b : SourceData) : Prop :=
  a.previousNode = b.previousNode ∧
    a.previousNodeOutput.getD 0 = b.previousNodeOutput.getD 0 ∧
    a.previousNodeRun.getD 0 = b.previousNodeRun.getD 0

instance (a b : SourceData) : Decidable (a.Same b) := inferInstanceAs (Decidable (_ ∧ _ ∧ _))

/-- The resumed entry is that of the paused one, which was the node's run of this index. -/
structure SameRun (paused : ExecuteData) (runIndex : ℕ) (resumed : ExecuteData) : Prop where
  node : resumed.node = paused.node
  data : slotAt resumed.main 0 = slotAt paused.main 0
  run : resumed.runIndex = some runIndex
  source : ∃ a ∈ resumed.firstSource, ∃ b ∈ paused.firstSource, a.Same b

instance (paused resumed : ExecuteData) (runIndex : ℕ) :
    Decidable (SameRun paused runIndex resumed) :=
  decidable_of_iff (_ ∧ _ ∧ _ ∧ ∃ a ∈ resumed.firstSource, ∃ b ∈ paused.firstSource, a.Same b)
    ⟨fun ⟨h₁, h₂, h₃, h₄⟩ => ⟨h₁, h₂, h₃, h₄⟩, fun ⟨h₁, h₂, h₃, h₄⟩ => ⟨h₁, h₂, h₃, h₄⟩⟩

/-- One entry resumes the node, and it is that of the paused one. -/
def ResumesSameRun (paused : ExecuteData) (runIndex : ℕ) (scheduled : List ExecuteData) : Prop :=
  scheduled.countP (·.isResumed) = 1 ∧
    ∀ resumed ∈ scheduled, resumed.isResumed → SameRun paused runIndex resumed

instance (paused : ExecuteData) (runIndex : ℕ) (scheduled : List ExecuteData) :
    Decidable (ResumesSameRun paused runIndex scheduled) :=
  inferInstanceAs (Decidable (_ ∧ _))

end N8n
