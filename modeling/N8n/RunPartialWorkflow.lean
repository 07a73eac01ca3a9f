import N8n.ExecutionHistory
import N8n.ExportedGraph
import N8n.PartialExecution

/-!
# A partial execution from end to end

`runPartialWorkflow2` finds the trigger and the subgraph between it and the destination, cleans the
run data that are stale, and has the engine go on from what is left.
-/

namespace N8n

/-! ## The trigger -/

section Trigger

variable (isTriggerNode : Node → Bool) (w : Workflow)

/-- `isTriggerNode` is what the node type says. -/
def findAllParentTriggers (destinationNodeName : String) : Except String (List Node) := do
  let parentNodes ← (w.getParentNodes destinationNodeName).mapM fun name =>
    match w.nodes.get? name with
    | none => .error assertionError
    | some node => .ok node
  return parentNodes.filter isTriggerNode

/-- `trigger.type.endsWith('webhook')` -/
def isWebhook (trigger : Node) : Bool := "webhook".toList <:+ trigger.type.toList

/-- The comparison is not symmetric: webhooks come first, the last one first. -/
def sortPinned (pinnedTriggers : List Node) : List Node :=
  (pinnedTriggers.filter isWebhook).reverse ++ pinnedTriggers.filter (!isWebhook ·)

/-- `workflowPinData` is the pinned data that the workflow itself has. -/
def findTriggerForPartialExecution (workflowPinData : Dict String (List Item))
    (destinationNodeName : String) (runData : Dict String (List TaskData)) :
    Except String (Option Node) :=
  match w.nodes.get? destinationNodeName with
  | none => .ok none
  | some destinationNode =>
    if isTriggerNode destinationNode && destinationNode.disabled ≠ some true then
      .ok (some destinationNode)
    else do
      let parentTriggers := (← findAllParentTriggers isTriggerNode w destinationNodeName).filter
        (·.disabled ≠ some true)
      let withRunData := parentTriggers.find? fun trigger => (runData.get? trigger.name).isSome
      let pinnedTriggers := sortPinned
        (parentTriggers.filter fun trigger => (workflowPinData.get? trigger.name).isSome)
      return withRunData <|> pinnedTriggers.head? <|> parentTriggers.find? isWebhook <|>
        parentTriggers.head?

/-- The closest parent that has run data stands in for a trigger. -/
def findStartNode (destinationNodeName : String) (runData : Dict String (List TaskData)) :
    Option Node :=
  ((w.getParentNodes destinationNodeName).find? fun nodeName =>
    (runData.get? nodeName).isSome).bind w.nodes.get?

end Trigger

/-! ## Tools -/

def toolExecutorNodeName : String := "PartialExecutionToolExecutor"

/-- The virtual agent. It has the parameters of the request. -/
def toolExecutor : Node where
  name := toolExecutorNodeName
  type := "@n8n/n8n-nodes-langchain.toolExecutor"
  typeVersion := 0
  disabled := some false

namespace DirectedGraph

/-- `removeNode` without `reconnectConnections`. -/
def dropNode (g : DirectedGraph) (node : Node) : DirectedGraph :=
  { g.dropConnections node with nodes := g.nodes.erase node.name }

/-- The virtual agent takes the place of the agent that the tool belongs to. Without an agent the
graph stays as it is, and the tool's output goes where it went. -/
def rewireGraph (tool : Node) (graph : DirectedGraph) : Except String (DirectedGraph × Bool) := do
  let modifiedGraph ← graph.clone
  let children ← modifiedGraph.getChildren tool
  match children.getLast? with
  | none => return (graph, false)
  | some rootNode =>
    let parentConnections ← modifiedGraph.getDirectParentConnections rootNode
    let allIncomingConnection := parentConnections.filter (·.type = .main)
    let modifiedGraph ← (modifiedGraph.addNode toolExecutor).addConnection
      { fromNode := tool, toNode := toolExecutor, type := .aiTool, outputIndex := 0,
        inputIndex := 0 }
    let modifiedGraph ← modifiedGraph.addConnections <| allIncomingConnection.map fun cn =>
      { fromNode := cn.fromNode, toNode := toolExecutor, type := cn.type
        outputIndex := 0, inputIndex := 0 }
    return (modifiedGraph.dropNode rootNode, true)

def getNodesByNames (graph : DirectedGraph) (names : List String) : List Node :=
  names.foldl (fun nodes name =>
    match graph.nodes.get? name with
    | none => nodes
    | some node => nodes.insert node) []

end DirectedGraph

/-! ## From end to end -/

def getNextExecutionIndex (runData : Dict String (List TaskData)) : ℕ :=
  match ((runData.entries.flatMap (·.2)).map (·.executionIndex)).max? with
  | none => 0
  | some previousIndex => previousIndex + 1

/-- What the engine goes on with: the workflow and the state, and the graph of the nodes that may
run. -/
structure PartialExecution where
  workflow : Workflow
  graph : DirectedGraph
  state : WorkflowExecute

def noDestinationMessage (nodeName : String) : String :=
  "Could not find a node with the name " ++ nodeName ++ " in the workflow."

def noToolExecutorMessage : String := "ToolExecutor can not be found"

def connectTriggerMessage : String := "Connect a trigger to run this node"

section Run

variable (localeCompare : String → String → ℤ) (isTool isTriggerNode : Node → Bool)
  (pinData workflowPinData : Dict String (List Item))

/-- `createRunExecutionData` over a stack that is recreated. -/
def startState (graph : DirectedGraph) (r : RecreatedStack) (runData : Dict String (List TaskData))
    (destinationNode : String) : WorkflowExecute :=
  { r.toState runData pinData with
    runNodeFilter := some (graph.nodeList.map (·.name))
    destinationNode := some destinationNode }

/-- The destination has no parents: it runs alone. -/
def runDestination (w : Workflow) (graph : DirectedGraph) (runData : Dict String (List TaskData))
    (destination : Node) (destinationNode : String) : Except String PartialExecution := do
  let graph ← (← graph.filterDisabledNodes).findSubgraph destination destination
  let runData ← cleanRunData runData graph [destination]
  let r ← recreateNodeExecutionStack runData pinData localeCompare graph [destination]
  return {
    workflow := ← graph.toWorkflow w
    graph
    state := startState pinData graph r runData destinationNode }

/-- The trigger, or what stands in for it. -/
def findTrigger (w : Workflow) (destinationNode : String) (runData : Dict String (List TaskData)) :
    Except String Node := do
  match ← findTriggerForPartialExecution isTriggerNode w workflowPinData destinationNode
      runData with
  | some trigger => return trigger
  | none =>
    match findStartNode w destinationNode runData with
    | some startNode => return startNode
    | none => .error connectTriggerMessage

/-- What is between the trigger and the destination runs. -/
def runFromTrigger (w : Workflow) (graph : DirectedGraph) (runData : Dict String (List TaskData))
    (dirtyNodeNames : List String) (destination : Node) (destinationNode : String)
    (rewireOutputLogTo : Dict String NodeConnectionType) : Except String PartialExecution := do
  let trigger ← findTrigger isTriggerNode workflowPinData w destinationNode runData
  let graph ← (← graph.filterDisabledNodes).findSubgraph destination trigger
  let runData ← cleanRunData runData graph (graph.getNodesByNames dirtyNodeNames)
  let startNodes ← findStartNodes graph destination runData pinData trigger
  let startNodes ← handleCycles graph startNodes trigger
  let runData ← cleanRunData runData graph startNodes
  let r ← recreateNodeExecutionStack runData pinData localeCompare graph startNodes
  return {
    workflow := w
    graph
    state :=
      { startState pinData graph r runData destinationNode with
        rewireOutputLogTo
        currentNodeExecutionIndex := getNextExecutionIndex runData } }

def runPartialWorkflow2 (w : Workflow) (runData : Dict String (List TaskData))
    (dirtyNodeNames : List String) (destinationNode : WorkflowExecute.DestinationNode) :
    Except String PartialExecution :=
  match w.nodes.get? destinationNode.nodeName with
  | none => .error (noDestinationMessage destinationNode.nodeName)
  | some destination => do
    let graph ← DirectedGraph.fromWorkflow w
    if isTool destination then do
      let (graph, rewired) ← graph.rewireGraph destination
      let w ← graph.toWorkflow w
      match w.nodes.get? toolExecutorNodeName with
      | none => .error noToolExecutorMessage
      | some toolExecutorNode =>
        runFromTrigger localeCompare isTriggerNode pinData workflowPinData w graph runData
          dirtyNodeNames toolExecutorNode toolExecutorNode.name
          (if rewired then Dict.empty.set destination.name .aiTool else .empty)
    else if (← graph.getDirectParentConnections destination) = [] then
      runDestination localeCompare pinData w graph runData destination
        destinationNode.nodeName
    else
      runFromTrigger localeCompare isTriggerNode pinData workflowPinData w graph runData
        dirtyNodeNames destination destinationNode.nodeName .empty

end Run

/-! ## What a partial execution leaves alone -/

namespace PartialExecution

variable (p : PartialExecution)

/-- The runs of a node that have been added. -/
def added (s : WorkflowExecute) (nodeName : String) : List TaskData :=
  (s.taskData nodeName).drop (p.state.taskData nodeName).length

/-- It starts from what is left of these run data: a node keeps all of its runs or none. -/
def KeepsWhole (runData : Dict String (List TaskData)) : Prop :=
  ∀ nodeName, p.state.runData.get? nodeName = none ∨
    p.state.runData.get? nodeName = runData.get? nodeName

/-- The runs that were kept are still the first ones of their nodes. Those that have been added are
of enabled nodes of the graph, and their execution indexes come after all that were kept, tell them
apart and increase for each node. -/
structure Extends (s : WorkflowExecute) : Prop where
  kept : ∀ nodeName, p.state.taskData nodeName <+: s.taskData nodeName
  allowed : ∀ nodeName, p.added s nodeName ≠ [] →
    ∃ node ∈ p.graph.nodeList, node.name = nodeName ∧ node.disabled ≠ some true
  later : ∀ nodeName, ∀ record ∈ p.added s nodeName, ∀ nodeName',
    ∀ old ∈ p.state.taskData nodeName', old.executionIndex < record.executionIndex
  increasing : ∀ nodeName,
    (p.added s nodeName).Pairwise fun a b => a.executionIndex < b.executionIndex
  distinct : ∀ nodeName nodeName', ∀ a ∈ p.added s nodeName, ∀ b ∈ p.added s nodeName',
    a.executionIndex = b.executionIndex → nodeName = nodeName'

end PartialExecution

end N8n
