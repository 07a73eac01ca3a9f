import N8n.Library.IndexMap
import N8n.Workflow

/-!
# The state of an execution, and the nodes added to it

`addNodeToBeExecuted` hands the output of a node on to a node it is connected to. A node with one
input goes on the stack. One with several waits until each of its inputs has data: the data of one
run of it is an entry of `waitingExecution`, under an index of its own.
-/

namespace N8n

/-! ## Task data -/

/-- The contents of a request's metadata are the node's own; the engine reads the item index. -/
structure ActionMetadata where
  itemIndex : Option ℕ := none
  text : String := ""
  deriving DecidableEq, Repr

/-- `ExecuteNodeAction` -/
structure EngineAction where
  nodeName : String
  input : DataObject := .empty
  type : NodeConnectionType := .aiTool
  id : String
  metadata : ActionMetadata := {}
  deriving DecidableEq

structure EngineRequest where
  actions : List EngineAction
  metadata : String := ""
  deriving DecidableEq

structure SubNodeAction where
  action : EngineAction
  nodeName : String
  runIndex : ℕ
  deriving DecidableEq

structure SubNodeExecutionData where
  actions : List SubNodeAction
  metadata : String
  deriving DecidableEq

/-- `ITaskMetadata`, as far as the engine sets it. -/
structure TaskMetadata where
  nodeWasResumed : Bool := false
  preserveSourceOverwrite : Bool := false
  subNodeExecutionData : Option SubNodeExecutionData := none
  deriving DecidableEq

inductive ExecutionStatus
  | success | error | waiting
  deriving DecidableEq, Repr

/-- `ITaskData`, without its clock readings and hints. -/
structure TaskData where
  executionIndex : ℕ
  source : List (Option SourceData) := []
  metadata : Option TaskMetadata := none
  executionStatus : Option ExecutionStatus := none
  error : Option String := none
  data : Option TaskDataConnections := none
  inputOverride : Option TaskDataConnections := none
  deriving DecidableEq

/-- `IExecuteData`. The `source` is the array under `main`. -/
structure ExecuteData where
  node : Node
  data : TaskDataConnections
  source : Option (List (Option SourceData))
  runIndex : Option ℕ := none
  metadata : Option TaskMetadata := none
  deriving DecidableEq

/-- The lists of the main inputs. -/
def ExecuteData.main (executionData : ExecuteData) : List Slot :=
  (executionData.data.get? .main).getD []

/-- The data one run of a node waits with: an entry of `waitingExecution`, and the entry of
`waitingExecutionSource` under the same index. -/
structure WaitingEntry where
  main : List Slot
  source : List (Option SourceData)
  deriving DecidableEq

/-- The fields of `WorkflowExecute` and of its `runExecutionData` that the engine works on, with the
variables that outlive one turn of its loop. -/
structure WorkflowExecute where
  nodeExecutionStack : List ExecuteData
  waitingExecution : Dict String (IndexMap WaitingEntry) := .empty
  runData : Dict String (List TaskData) := .empty
  pinData : Dict String (List Item) := .empty
  runNodeFilter : Option (List String) := none
  destinationNode : Option String := none
  lastNodeExecuted : Option String := none
  waitTill : Bool := false
  /-- `rewireOutputLogTo` of the workflow's nodes. -/
  rewireOutputLogTo : Dict String NodeConnectionType := .empty
  currentNodeExecutionIndex : ℕ := 0
  lastExecutionTry : String := ""
  deriving DecidableEq

/-- What a call leaves behind: the state, and the error if it throws. -/
structure Outcome where
  state : WorkflowExecute
  error : Option String := none
  deriving DecidableEq

def typeError : String := "TypeError"

namespace Outcome

/-- Goes on unless the call has thrown. -/
def andThen (o : Outcome) (f : WorkflowExecute → Outcome) : Outcome :=
  if o.error.isSome then o else f o.state

/-- A loop over calls, left by the first that throws. -/
def forEach {α : Type*} (f : WorkflowExecute → α → Outcome) : WorkflowExecute → List α → Outcome
  | s, [] => { state := s }
  | s, x :: xs => (f s x).andThen fun s => forEach f s xs

end Outcome

namespace WorkflowExecute

variable (w : Workflow) (s : WorkflowExecute)

/-- `runData[nodeName]` -/
def taskData (nodeName : String) : List TaskData := (s.runData.get? nodeName).getD []

/-- `runData[nodeName].push(taskData)` -/
def pushTaskData (nodeName : String) (taskData : TaskData) : WorkflowExecute :=
  { s with runData := s.runData.set nodeName (s.taskData nodeName ++ [taskData]) }

/-- `nodeExecutionStack[enqueueFn](executionData)`: the next to run in execution order v1, the last
in the legacy order. -/
def enqueue (executionData : ExecuteData) : WorkflowExecute :=
  { s with nodeExecutionStack :=
      if w.isLegacyExecutionOrder then s.nodeExecutionStack ++ [executionData]
      else executionData :: s.nodeExecutionStack }

/-- Whether none of the connections has data; `none` when reading it throws. -/
def incomingConnectionIsEmpty (runData : Dict String (List TaskData)) (runIndex : ℕ) :
    List Connection → Option Bool
  | [] => some true
  | inputConnection :: inputConnections =>
    let main := ((runData.get? inputConnection.node).bind (·[runIndex]?)).bind fun taskData =>
      taskData.data.bind (·.get? .main)
    match slotAt (main.getD []) inputConnection.index with
    | .null => none
    | .items (_ :: _) => some false
    | _ => incomingConnectionIsEmpty runData runIndex inputConnections

/-- An entry with no data on any input. -/
def prepareWaitingToExecution (numberOfConnections : ℕ) : WaitingEntry where
  main := List.replicate numberOfConnections .null
  source := List.replicate numberOfConnections none

/-- `{ main: [{ previousNode, previousNodeOutput, previousNodeRun }] }` -/
def sourceOf (parentNodeName : String) (outputIndex runIndex : ℕ) : SourceData where
  previousNode := parentNodeName
  previousNodeOutput := orUndefined outputIndex
  previousNodeRun := orUndefined runIndex

/-! ## The parents of a node that waits for the first time -/

/-- The furthest ancestor that nothing else will add. -/
def findNodeToAdd (inputNode : String) (checkOutputNodes executionStackNodes : List String) :
    Option String → List String → Option String
  | nodeToAdd, [] => nodeToAdd
  | nodeToAdd, parentNode :: parentNodes =>
    if inputNode ≠ parentNode ∧ parentNode ∈ checkOutputNodes then none
    else if parentNode ∈ executionStackNodes then none
    else if (s.runData.get? parentNode).isSome then nodeToAdd
    else findNodeToAdd inputNode checkOutputNodes executionStackNodes (some parentNode) parentNodes

/-- Whether an ancestor is to run without data of its own: it has no inputs, or nothing comes in. -/
def addEmptyItem (nodeToAdd : String) (runIndex : ℕ) : Option Bool :=
  match w.connectionsByDestinationNode.get? nodeToAdd with
  | none => some true
  | some ofNode =>
    match ofNode.get? .main with
    | none => none
    | some inputs => incomingConnectionIsEmpty s.runData runIndex ((inputs.getD 0 none).getD [])

/-- Legacy order: forces the furthest ancestor of an input that is not on its way to run. -/
def forceParent (checkOutputNodes executionStackNodes : List String) (inputNode : String)
    (outputIndex : ℕ) (parentNodeName : String) (nodeSuccessData : List Slot) (runIndex : ℕ) :
    Outcome :=
  let parentNodes := (w.getParentNodes inputNode ++ [inputNode]).reverse
  let found := s.findNodeToAdd inputNode checkOutputNodes executionStackNodes (some inputNode)
    parentNodes
  let parentNodesNodeToAdd := (found.map w.getParentNodes).getD []
  match slotAt nodeSuccessData outputIndex, found with
  | _, none => { state := s }
  | data, some nodeToAdd =>
    if parentNodeName ∈ parentNodesNodeToAdd ∧ ¬ data.truthy then
      { state := s, error := some typeError }
    else if parentNodeName ∈ parentNodesNodeToAdd ∧ data.list = [] then { state := s }
    else
      match s.addEmptyItem w nodeToAdd runIndex with
      | none => { state := s, error := some typeError }
      | some false => { state := s }
      | some true =>
        { state := s.enqueue w
            { node := w.node nodeToAdd
              data := Dict.empty.set .main [.items [{ json := .empty }]]
              source := some [some (sourceOf parentNodeName outputIndex runIndex)] } }

/-- One connection into the waiting node. -/
def addMissingParent (checkOutputNodes : List String) (outputIndex : ℕ) (parentNodeName : String)
    (nodeSuccessData : List Slot) (runIndex : ℕ) (s : WorkflowExecute) (inputData : Connection) :
    Outcome :=
  let executionStackNodes := s.nodeExecutionStack.map (·.node.name)
  let next : Outcome :=
    if inputData.node ∈ executionStackNodes then { state := s }
    else if (s.runData.get? inputData.node).isSome then { state := s }
    else if !w.isLegacyExecutionOrder then { state := s }
    else s.forceParent w checkOutputNodes executionStackNodes inputData.node outputIndex
      parentNodeName nodeSuccessData runIndex
  if inputData.node = parentNodeName then { state := s }
  else if inputData.node ∈ checkOutputNodes then
    match w.connectionsByDestinationNode.ofType inputData.node .main with
    | none => { state := s, error := some typeError }
    | some inputs =>
      match incomingConnectionIsEmpty s.runData runIndex ((inputs.getD 0 none).getD []) with
      | none => { state := s, error := some typeError }
      | some false => { state := s }
      | some true => next
  else next

/-- All connections into a node that waits for the first time. -/
def addMissingParents (nodeName : String) (outputIndex : ℕ) (parentNodeName : String)
    (nodeSuccessData : List Slot) (runIndex : ℕ) : Outcome :=
  match w.connectionsBySourceNode.get? parentNodeName with
  | none => { state := s, error := some typeError }
  | some ofParent =>
    let checkOutputNodes := (flatConnections ((ofParent.get? .main).getD [])).map (·.node)
    let inputs := (w.connectionsByDestinationNode.ofType nodeName .main).getD []
    Outcome.forEach
      (addMissingParent w checkOutputNodes outputIndex parentNodeName nodeSuccessData runIndex)
      s (flatConnections inputs)

/-! ## Adding a node -/

/-- The entry that still lacks the input, or else a new one, under the number of live entries. -/
def waitingEntryFor (waiting : IndexMap WaitingEntry) (inputIndex numberOfConnections : ℕ) :
    ℕ × WaitingEntry :=
  match waiting.entries.find? fun entry => !(slotAt entry.2.main inputIndex).truthy with
  | some entry => entry
  | none => (waiting.size, prepareWaitingToExecution numberOfConnections)

/-- The entry is there before it is written. -/
def prepareWaiting (connectionData : Connection) : WorkflowExecute :=
  let waiting := (s.waitingExecution.get? connectionData.node).getD .empty
  let (waitingNodeIndex, entry) :=
    waitingEntryFor waiting connectionData.index (w.numberOfInputs connectionData.node)
  { s with waitingExecution :=
      s.waitingExecution.set connectionData.node (waiting.set waitingNodeIndex entry) }

/-- A node with several inputs. The entry that was written stays as it is when data is missing. -/
def addToWaiting (connectionData : Connection) (outputIndex : ℕ) (parentNodeName : String)
    (nodeSuccessData : List Slot) (runIndex : ℕ) : Outcome :=
  let nodeWasWaiting := (s.waitingExecution.get? connectionData.node).isSome
  let waiting := (s.waitingExecution.get? connectionData.node).getD .empty
  let (waitingNodeIndex, entry) :=
    waitingEntryFor waiting connectionData.index (w.numberOfInputs connectionData.node)
  let entry : WaitingEntry :=
    { main := setAt entry.main connectionData.index .hole (slotAt nodeSuccessData outputIndex)
      source := setAt entry.source connectionData.index none
        (some (sourceOf parentNodeName outputIndex runIndex)) }
  let waiting := waiting.set waitingNodeIndex entry
  let withEntry (waiting : IndexMap WaitingEntry) : WorkflowExecute :=
    { s with waitingExecution := s.waitingExecution.set connectionData.node waiting }
  if Slot.null ∉ entry.main then
    let pushed := (withEntry waiting).enqueue w
      { node := w.node connectionData.node
        data := Dict.empty.set .main entry.main
        source := some entry.source }
    let waiting := waiting.erase waitingNodeIndex
    { state := { pushed with waitingExecution :=
        if waiting.size = 0 then pushed.waitingExecution.erase connectionData.node
        else pushed.waitingExecution.set connectionData.node waiting } }
  else if nodeWasWaiting then { state := withEntry waiting }
  else
    (withEntry waiting).addMissingParents w connectionData.node outputIndex parentNodeName
      nodeSuccessData runIndex

/-- A node with one input, or none. -/
def addToStack (connectionData : Connection) (outputIndex : ℕ) (parentNodeName : String)
    (nodeSuccessData : List Slot) (runIndex : ℕ) (newRunIndex : Option ℕ)
    (metadata : Option TaskMetadata) : WorkflowExecute :=
  s.enqueue w
    { node := w.node connectionData.node
      data := Dict.empty.set .main
        (List.replicate connectionData.index .null ++ [slotAt nodeSuccessData outputIndex])
      source := some [some (sourceOf parentNodeName outputIndex runIndex)]
      runIndex := newRunIndex
      metadata }

def addNodeToBeExecuted (connectionData : Connection) (outputIndex : ℕ) (parentNodeName : String)
    (nodeSuccessData : List Slot) (runIndex : ℕ) (newRunIndex : Option ℕ)
    (metadata : Option TaskMetadata) : Outcome :=
  if 1 < w.numberOfInputs connectionData.node then
    s.addToWaiting w connectionData outputIndex parentNodeName nodeSuccessData runIndex
  else
    { state := s.addToStack w connectionData outputIndex parentNodeName nodeSuccessData runIndex
        newRunIndex metadata }

end WorkflowExecute

end N8n
