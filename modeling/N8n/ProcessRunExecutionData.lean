import N8n.NodeExecution

/-!
# The loop of an execution

`processRunExecutionData` takes one entry of the stack after the other: it executes the node, writes
the record of the run, and adds the nodes the output goes to. When the stack is empty after that, it
scans the nodes that wait for one that may run without data on all of its inputs.
-/

namespace N8n

/-! ## The entry that is executed -/

/-- The item with its place in the input. A tool keeps where its parent's item comes from. -/
def Item.atInput (item : Item) (isToolExecution : Bool) (inputIndex itemIndex : ℕ) : Item :=
  let sourceOverwrite := match isToolExecution, item.pairedItem with
    | true, some (.single data) => data.sourceOverwrite
    | _, _ => none
  let pairedItem := { item := itemIndex, input := orUndefined inputIndex, sourceOverwrite }
  { item with pairedItem := some (.single pairedItem) }

/-- The inputs of one type, with the places of their items. None when it throws. -/
def pairInputs (isToolExecution : Bool) (inputs : List Slot) : Option (List Slot) :=
  if .undefined ∈ inputs then none
  else some <| inputs.zipIdx.map fun (input, inputIndex) =>
    match input with
    | .items items => .items <| items.zipIdx.map fun (item, itemIndex) =>
        item.atInput isToolExecution inputIndex itemIndex
    | input => input

def newTaskDataConnections (executionData : ExecuteData) : Option TaskDataConnections :=
  let isToolExecution := (executionData.metadata.map (·.preserveSourceOverwrite)).getD false
  executionData.data.entries.foldlM (fun data entry =>
    (pairInputs isToolExecution entry.2).map (data.set entry.1)) .empty

/-! ## The record of a run -/

/-- `Object.assign(currentTaskData, taskData)` -/
def TaskData.assign (current taskData : TaskData) : TaskData :=
  { taskData with
    error := taskData.error <|> current.error
    data := taskData.data <|> current.data
    inputOverride := taskData.inputOverride <|> current.inputOverride }

def Node.continuesOnError (node : Node) : Bool :=
  node.continueOnFail || node.onError == some .continueRegularOutput ||
    node.onError == some .continueErrorOutput

/-- A node that has failed hands on its first input, if it has data there. -/
def passThrough (executionData : ExecuteData) (nodeSuccessData : Option (List Slot)) :
    Option (List Slot) :=
  if executionData.main = [] ∨ slotAt executionData.main 0 = .null then nodeSuccessData
  else some [slotAt executionData.main 0]

/-- An item with an error has nothing but its message as JSON. None when it throws. -/
def Item.mergeError (item : Item) : Option Item :=
  if item.json.read "$error" ≠ .undefined ∧ item.json.read "$json" ≠ .undefined then
    (item.json.read "$error").message.map fun message =>
      { item with error := item.json.read "$error", json := Dict.empty.set "error" message }
  else if item.error ≠ .undefined then
    item.error.message.map fun message =>
      { item with json := Dict.empty.set "error" message }
  else some item

/-- None when it throws. -/
def mergeErrors (nodeSuccessData : List Slot) : Option (List Slot) :=
  nodeSuccessData.mapM fun
    | .items items => (items.mapM Item.mergeError).map .items
    | _ => none

/-! ## How a turn ends -/

inductive TurnEnd
  /-- The node is not on `runNodeFilter`. -/
  | skipped
  /-- The node lacks input data, and its entry is back on the stack. -/
  | deferred
  | requested
  | noData
  /-- The destination node has run. -/
  | destination
  /-- The output has been handed on, and the waiting nodes have been looked at. -/
  | handedOn
  /-- The node has failed, which ends the execution. -/
  | failed
  | waiting
  | canceled
  | threw (error : String)
  deriving DecidableEq

namespace TurnEnd

/-- The loop is left. -/
def leaves : TurnEnd → Bool
  | .failed | .waiting | .canceled | .threw _ => true
  | _ => false

/-- The node has run, with success or with an error that does not end the execution. -/
def continues : TurnEnd → Bool
  | .destination | .handedOn | .waiting => true
  | _ => false

end TurnEnd

structure TurnResult where
  state : WorkflowExecute
  ending : TurnEnd
  deriving DecidableEq

/-- The turn ends as it does unless the call has thrown. -/
def Outcome.ends (o : Outcome) (ending : TurnEnd) : TurnResult where
  state := o.state
  ending := o.error.elim ending .threw

/-! ## Nodes that may run without data on all inputs -/

namespace Workflow

variable (w : Workflow)

/-- Read in execution order v1 only. -/
def requiredInputs (node : Node) : Option RequiredInputs :=
  if w.isLegacyExecutionOrder then none
  else
    match (w.nodeType node).requiredInputs with
    | none => none
    | some (.value requiredInputs) => some requiredInputs
    | some (.expression text) => w.evaluateRequiredInputs node text

def allInputsRequired (node : Node) : Bool :=
  match w.requiredInputs node with
  | none => false
  | some (.count count) => count = (w.nodeType node).inputs
  | some (.indexes indexes) => indexes.length = (w.nodeType node).inputs

end Workflow

/-- The inputs with any kind of data, an empty list too. -/
def inputsWithData (main : List Slot) : List ℕ :=
  (main.zipIdx.filter fun (data, _) => data ≠ .null ∧ data ≠ .hole).map (·.2)

def hasRequiredInputs (requiredInputs : Option RequiredInputs) (main : List Slot) : Bool :=
  match requiredInputs with
  | none => true
  | some (.count count) => count ≤ (inputsWithData main).length
  | some (.indexes indexes) => indexes.all (· ∈ inputsWithData main)

/-- Some input has an item. -/
def hasItems (main : List Slot) : Bool := main.any fun data => data.list ≠ []

/-- The entries of a node as the scan orders them: by run index, as strings. -/
def scanOrder (waiting : IndexMap WaitingEntry) : List (ℕ × WaitingEntry) :=
  waiting.entries.insertionSort fun a b => toString a.1 ≤ toString b.1

/-- What the scan comes to at a node. -/
inductive Candidate
  | throws
  | entry (nodeName : String) (runIndex : ℕ) (entry : WaitingEntry)
  deriving DecidableEq

namespace WorkflowExecute

variable (w : Workflow) (s : WorkflowExecute)

/-! ## The scan of the waiting nodes -/

/-- The entry of a waiting node that is taken out; none if the node is passed over. -/
def waitingCandidate (waitingNodes : List String) (nodeName : String) : Option Candidate :=
  match w.nodes.get? nodeName with
  | none => none
  | some checkNode =>
    if w.allInputsRequired checkNode then none
    else if (w.getParentNodes nodeName).any (· ∈ waitingNodes) then none
    else
      match (scanOrder ((s.waitingExecution.get? nodeName).getD .empty)).head? with
      | none => some .throws
      | some (firstRunIndex, entry) =>
        if hasRequiredInputs (w.requiredInputs checkNode) entry.main then
          some (.entry nodeName firstRunIndex entry)
        else none

def removeWaiting (nodeName : String) (runIndex : ℕ) : WorkflowExecute :=
  let waiting := ((s.waitingExecution.get? nodeName).getD .empty).erase runIndex
  { s with waitingExecution :=
      if waiting.size = 0 then s.waitingExecution.erase nodeName
      else s.waitingExecution.set nodeName waiting }

/-- Each input gets at least an empty list. -/
def pushWaiting (nodeName : String) (entry : WaitingEntry) : WorkflowExecute :=
  let taskDataMain := entry.main.map fun
    | .null => .items []
    | data => data
  let inputs := (w.nodeType (w.node nodeName)).inputs
  { s with nodeExecutionStack := s.nodeExecutionStack ++
      [{ node := w.node nodeName
         data := Dict.empty.set .main
           (taskDataMain ++ List.replicate (inputs - taskDataMain.length) (.items []))
         source := some entry.source }] }

/-- The scan starts again after an entry without items, which is only removed. -/
def scanWaiting : ℕ → WorkflowExecute → Outcome
  | 0, s => { state := s }
  | fuel + 1, s =>
    let waitingNodes := objectKeys s.waitingExecution.keys
    match waitingNodes.findSome? (s.waitingCandidate w waitingNodes) with
    | none => { state := s }
    | some .throws => { state := s, error := some typeError }
    | some (.entry nodeName firstRunIndex entry) =>
      if .undefined ∈ entry.main then { state := s, error := some typeError }
      else if hasItems entry.main then
        { state := (s.pushWaiting w nodeName entry).removeWaiting nodeName firstRunIndex }
      else scanWaiting fuel (s.removeWaiting nodeName firstRunIndex)

/-- The number of waiting entries. -/
def waitingCount : ℕ := (s.waitingExecution.entries.map fun entry => entry.2.size).sum

/-! ## The nodes the output goes to -/

/-- The outgoing connections of a node, each with its output. -/
def outgoing (nodeName : String) : List (ℕ × Connection) :=
  ((w.connectionsBySourceNode.ofType nodeName .main).getD []).zipIdx.flatMap
    fun (connections, outputIndex) => (connections.getD []).map (outputIndex, ·)

/-- The output has items. In the legacy order an empty list will do for a further input. -/
def receives (nodeSuccessData : List Slot) (output : ℕ × Connection) : Bool :=
  match slotAt nodeSuccessData output.1 with
  | .items data => data ≠ [] || (0 < output.2.index && w.isLegacyExecutionOrder)
  | _ => false

/-- The comparison that `nodesToAdd` is sorted with. -/
def comparePositions (a b : ℤ × ℤ) : ℤ :=
  if a.2 < b.2 then 1 else if b.2 < a.2 then -1 else if b.1 < a.1 then -1 else 0

/-- Where the comparison of two positions is negative: the first is further down, or further to the
right. -/
def comesBefore (a b : ℤ × ℤ) : Bool := b.2 < a.2 || (a.2 = b.2 && b.1 < a.1)

def sortByPosition (nodesToAdd : List (ℕ × Connection)) : List (ℕ × Connection) :=
  nodesToAdd.insertionSort fun a b =>
    !comesBefore (w.node b.2.node).position (w.node a.2.node).position

/-- In execution order v1 the last to be added is the first to run. -/
def addNodes (nodeName : String) (nodeSuccessData : List Slot) (runIndex : ℕ) : Outcome :=
  let add (s : WorkflowExecute) (output : ℕ × Connection) : Outcome :=
    s.addNodeToBeExecuted w output.2 output.1 nodeName nodeSuccessData runIndex none none
  let notFound := some "Destination node not found"
  if w.isLegacyExecutionOrder then
    Outcome.forEach (fun s output =>
      if (w.nodes.get? output.2.node).isNone then { state := s, error := notFound }
      else if receives w nodeSuccessData output then add s output
      else { state := s }) s (outgoing w nodeName)
  else if (outgoing w nodeName).any fun output => (w.nodes.get? output.2.node).isNone then
    { state := s, error := notFound }
  else
    Outcome.forEach add s
      (sortByPosition w ((outgoing w nodeName).filter (receives w nodeSuccessData)))

/-! ## One turn of the loop -/

/-- After the node's record: its successors, and the scan if there are none. -/
def handOn (nodeName : String) (nodeSuccessData : List Slot) (runIndex : ℕ) : TurnResult :=
  let added := s.addNodes w nodeName nodeSuccessData runIndex
  let scanned := added.andThen fun s =>
    if s.nodeExecutionStack = [] then scanWaiting w (s.waitingCount + 1) s else { state := s }
  scanned.ends .handedOn

/-- `runData[nodeName][runIndex]` is completed if it is there, else the record is put last. -/
def writeTaskData (nodeName : String) (runIndex : ℕ) (taskData : TaskData) : WorkflowExecute :=
  match (s.taskData nodeName)[runIndex]? with
  | some currentTaskData =>
    let nodeRunData := (s.taskData nodeName).set runIndex (currentTaskData.assign taskData)
    { s with runData := s.runData.set nodeName nodeRunData }
  | none => s.pushTaskData nodeName taskData

/-- The record with its data, under the connection type the node's log is rewired to. -/
def withData (nodeName : String) (runIndex : ℕ) (nodeSuccessData : List Slot)
    (taskData : TaskData) : TaskData :=
  match s.rewireOutputLogTo.get? nodeName with
  | none => { taskData with data := some (Dict.empty.set .main nodeSuccessData) }
  | some rewireOutputLogTo =>
    let inputOverride := (s.taskData nodeName)[runIndex]?.bind (·.inputOverride)
    { taskData with
      inputOverride := some (inputOverride.getD .empty)
      data := some (Dict.empty.set rewireOutputLogTo nodeSuccessData) }

/-- The node has run: its record is written with the data, and the data is handed on. -/
def finishNode (executionData : ExecuteData) (runIndex : ℕ) (nodeSuccessData : Option (List Slot))
    (taskData : TaskData) : TurnResult :=
  let nodeName := executionData.node.name
  match nodeSuccessData.bind mergeErrors with
  | none => ⟨s, .threw typeError⟩
  | some nodeSuccessData =>
    let s := s.writeTaskData nodeName runIndex
      (s.withData nodeName runIndex nodeSuccessData taskData)
    if s.waitTill then
      ⟨{ s with nodeExecutionStack := executionData :: s.nodeExecutionStack }, .waiting⟩
    else if s.destinationNode = some nodeName then ⟨s, .destination⟩
    else s.handOn w nodeName nodeSuccessData runIndex

/-- `runData[nodeName]` is there, if empty. -/
def openTaskData (nodeName : String) : WorkflowExecute :=
  { s with runData := s.runData.set nodeName (s.taskData nodeName) }

/-- The record of an execution, as yet without its data. -/
def newTaskData (executionIndex : ℕ) (executionData : ExecuteData) (tries : Tries) : TaskData where
  executionIndex
  source := executionData.source.getD []
  metadata := executionData.metadata
  executionStatus := some <|
    if tries.executionError.isSome then .error
    else if tries.state.waitTill then .waiting
    else .success
  error := tries.executionError

/-- The node has failed: its record goes last, and its entry back on the stack. -/
def stopAt (executionData : ExecuteData) (taskData : TaskData) : TurnResult :=
  let s := s.pushTaskData executionData.node.name taskData
  ⟨{ s with nodeExecutionStack := executionData :: s.nodeExecutionStack }, .failed⟩

/-- The tries are over. -/
def recordRun (w : Workflow) (executionIndex runIndex : ℕ) (executionData : ExecuteData)
    (tries : Tries) : TurnResult :=
  let s := tries.state.openTaskData executionData.node.name
  let taskData := newTaskData executionIndex executionData tries
  if tries.executionError = none then
    s.finishNode w executionData runIndex tries.nodeSuccessData taskData
  else if executionData.node.continuesOnError then
    s.finishNode w executionData runIndex (passThrough executionData tries.nodeSuccessData) taskData
  else s.stopAt executionData taskData

/-- Whether the node has the data its inputs need. If not, its entry goes to the end of the
stack. -/
def hasInputData (executionNode : Node) (executionData : ExecuteData) : Bool :=
  let inputConnections :=
    (w.connectionsByDestinationNode.ofType executionNode.name .main).getD []
  go inputConnections.length 0
where
  /-- So many inputs, from the index on. -/
  go : ℕ → ℕ → Bool
    | 0, _ => true
    | inputs + 1, connectionIndex =>
      if w.getHighestNode executionNode.name connectionIndex = [] then true
      else
        match executionData.data.get? .main with
        | none => false
        | some main =>
          if w.isLegacyExecutionOrder ∧
              (main.length < connectionIndex ∨ slotAt main connectionIndex = .null) then false
          else go inputs (connectionIndex + 1)

def ensureInputData (executionNode : Node) (executionData : ExecuteData) :
    WorkflowExecute × Bool :=
  if hasInputData w executionNode executionData then (s, true)
  else ({ s with nodeExecutionStack := s.nodeExecutionStack ++ [executionData] }, false)

/-- The index of the current run. -/
def runIndexOf (executionData : ExecuteData) : ℕ :=
  executionData.runIndex.getD (s.taskData executionData.node.name).length

/-- `runNodeFilter` is set, and the node is not on it. -/
def isFilteredOut (nodeName : String) : Bool :=
  match s.runNodeFilter with
  | none => false
  | some runNodeFilter => nodeName ∉ runNodeFilter

def endlessLoop : String := "Stopped execution because it seems to be in an endless loop"

/-- An entry that has been taken from the stack. -/
def runEntry (t : Turn) (executionIndex : ℕ) (executionData : ExecuteData) : TurnResult :=
  match newTaskDataConnections executionData with
  | none => ⟨s, .threw typeError⟩
  | some data =>
    let executionData := { executionData with data }
    let executionNode := executionData.node
    let runIndex := s.runIndexOf executionData
    let currentExecutionTry := executionNode.name ++ ":" ++ toString runIndex
    if currentExecutionTry = s.lastExecutionTry then ⟨s, .threw endlessLoop⟩
    else if s.isFilteredOut executionNode.name then ⟨s, .skipped⟩
    else
      match s.ensureInputData w executionNode executionData with
      | (s, false) => ⟨{ s with lastExecutionTry := currentExecutionTry }, .deferred⟩
      | (s, true) =>
        match s.executeNode w t runIndex executionData with
        | .requested tries => ⟨tries.state, .requested⟩
        | .noData tries => ⟨tries.state, .noData⟩
        | .done tries => recordRun w executionIndex runIndex executionData tries

/-- A turn of the loop, which takes the first entry from the stack. -/
def turn (t : Turn) (executionData : ExecuteData) (nodeExecutionStack : List ExecuteData) :
    TurnResult :=
  if t.canceled then ⟨s, .canceled⟩
  else
    let executionIndex := s.currentNodeExecutionIndex
    let s := { s with nodeExecutionStack, currentNodeExecutionIndex := executionIndex + 1 }
    s.runEntry w t executionIndex executionData

end WorkflowExecute

/-! ## Runs -/

/-- An execution, and whether its loop has been left. -/
structure Execution where
  state : WorkflowExecute
  left : Bool := false
  deriving DecidableEq

/-- The loop goes on while there is an entry on the stack. -/
def Execution.step (w : Workflow) (x : Execution) (t : Turn) : Execution :=
  if x.left then x
  else
    match x.state.nodeExecutionStack with
    | [] => x
    | executionData :: nodeExecutionStack =>
      let result := x.state.turn w t executionData nodeExecutionStack
      ⟨result.state, result.ending.leaves⟩

end N8n

/-!
## Records of runs

A turn of the loop executes a node as the run of some index, and leaves one record of it in the run
data.
-/

namespace N8n

/-- The record of the execution is at the run index, and none but it has been added. -/
def RecordsOnce (s s' : WorkflowExecute) (nodeName : String) (runIndex executionIndex : ℕ) : Prop :=
  (∃ taskData ∈ (s'.taskData nodeName)[runIndex]?, taskData.executionIndex = executionIndex) ∧
    (s'.taskData nodeName).length = max (s.taskData nodeName).length (runIndex + 1)

instance (s s' : WorkflowExecute) (nodeName : String) (runIndex executionIndex : ℕ) :
    Decidable (RecordsOnce s s' nodeName runIndex executionIndex) :=
  inferInstanceAs
    (Decidable ((∃ taskData ∈ (s'.taskData nodeName)[runIndex]?, _) ∧ _))

/-- The actions that are asked for. -/
def Attempt.actions (a : Attempt) : List EngineAction :=
  match a.result with
  | .request request => request.actions
  | _ => []

/-- The node asks for a run of itself as a tool. -/
def RequestsItself (w : Workflow) (t : Turn) (node : Node) : Prop :=
  ∃ k < node.maxCalls, ∃ action ∈ (t.attempt k).actions,
    ∃ tool ∈ w.nodes.get? action.nodeName, tool.name = node.name

instance (w : Workflow) (t : Turn) (node : Node) : Decidable (RequestsItself w t node) :=
  inferInstanceAs (Decidable (∃ k < node.maxCalls, _))

end N8n
