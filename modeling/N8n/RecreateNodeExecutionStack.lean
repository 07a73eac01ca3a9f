import N8n.DirectedGraph
import N8n.WorkflowExecute

/-!
# The stack of a partial execution

`recreateNodeExecutionStack` rebuilds the stack and the waiting entries of the engine from the data
of earlier runs. The incoming connections of a start node are put into groups, one connection for
each input: a group that has data everywhere becomes an entry of the stack, any other an entry that
waits.
-/

namespace N8n

/-! ## Incoming data -/

/-- `null` where there is no data. An array of a type that is not there throws. -/
def getIncomingData (runData : Dict String (List TaskData)) (nodeName : String) (runIndex : ℕ)
    (connectionType : NodeConnectionType) (outputIndex : ℕ) : Except String Slot :=
  match ((runData.get? nodeName).bind (·[runIndex]?)).bind (·.data) with
  | none => .ok .null
  | some data =>
    match data.get? connectionType with
    | none => .error typeError
    | some outputs =>
      match slotAt outputs outputIndex with
      | .items items => .ok (.items items)
      | _ => .ok .null

def getRunIndexLength (runData : Dict String (List TaskData)) (nodeName : String) : ℕ :=
  ((runData.get? nodeName).getD []).length

/-- The first of the runs that has items on the output. -/
def firstIncomingData (runData : Dict String (List TaskData)) (nodeName : String)
    (connectionType : NodeConnectionType) (outputIndex : ℕ) :
    List ℕ → Except String (Option (List Item × ℕ))
  | [] => .ok none
  | runIndex :: runIndexes => do
    match ← getIncomingData runData nodeName runIndex connectionType outputIndex with
    | .items (item :: items) => return some (item :: items, runIndex)
    | _ => firstIncomingData runData nodeName connectionType outputIndex runIndexes

def getIncomingDataFromAnyRun (runData : Dict String (List TaskData)) (nodeName : String)
    (connectionType : NodeConnectionType) (outputIndex : ℕ) :
    Except String (Option (List Item × ℕ)) :=
  firstIncomingData runData nodeName connectionType outputIndex
    (List.range (getRunIndexLength runData nodeName))

/-! ## Groups of connections -/

structure SourceConnectionGroup where
  complete : Bool := true
  connections : List GraphConnection := []
  deriving DecidableEq

def minInputIndex (connections : List GraphConnection) : ℕ :=
  ((connections.map (·.inputIndex)).min?).getD 0

/-- The loop of `getSourceDataGroups`, where `inputIndex` is the next one to look for. A connection
takes one turn, and a gap one more before the next connection. -/
def groupLoop : ℕ → List GraphConnection → List GraphConnection → SourceConnectionGroup → ℕ →
    List SourceConnectionGroup
  | 0, _, _, currentGroup, _ => [currentGroup]
  | fuel + 1, withData, withoutData, currentGroup, inputIndex =>
    if withData = [] ∧ withoutData = [] then [currentGroup]
    else
      match withData.find? (·.inputIndex = inputIndex) with
      | some connection =>
        groupLoop fuel (withData.eraseP (·.inputIndex = inputIndex)) withoutData
          { currentGroup with connections := currentGroup.connections ++ [connection] }
          (inputIndex + 1)
      | none =>
        match withoutData.find? (·.inputIndex = inputIndex) with
        | some connection =>
          groupLoop fuel withData (withoutData.eraseP (·.inputIndex = inputIndex))
            { complete := false, connections := currentGroup.connections ++ [connection] }
            (inputIndex + 1)
        | none =>
          currentGroup ::
            groupLoop fuel withData withoutData {} (minInputIndex (withData ++ withoutData))

section Groups

variable (localeCompare : String → String → ℤ)

def sortByInputIndexThenByName (connection1 connection2 : GraphConnection) : ℤ :=
  if connection1.inputIndex = connection2.inputIndex then
    localeCompare connection1.fromNode.name connection2.fromNode.name
  else connection1.inputIndex - connection2.inputIndex

/-- `connections.sort(sortByInputIndexThenByName)` -/
def sortConnections (connections : List GraphConnection) : List GraphConnection :=
  connections.insertionSort (sortByInputIndexThenByName localeCompare · · ≤ 0)

def getSourceDataGroups (graph : DirectedGraph) (node : Node)
    (runData : Dict String (List TaskData)) (pinnedData : Dict String (List Item)) :
    List SourceConnectionGroup :=
  let connections := graph.getConnections node
  let hasData (connection : GraphConnection) : Bool :=
    (runData.get? connection.fromNode.name).isSome ||
      (pinnedData.get? connection.fromNode.name).isSome
  let withData := sortConnections localeCompare (connections.filter hasData)
  let withoutData := sortConnections localeCompare
    (connections.filter fun connection => !hasData connection && connection.type = .main)
  if withData = [] ∧ withoutData = [] then []
  else
    groupLoop (2 * (withData.length + withoutData.length)) withData withoutData {}
      (minInputIndex (withData ++ withoutData))

end Groups

/-! ## Waiting entries -/

/-- Lists by node, run, type and input. -/
abbrev WaitingLists (α : Type) := Dict String (IndexMap (Dict NodeConnectionType (List α)))

namespace WaitingLists

variable {α : Type}

/-- `ofRun[inputType][inputIndex] = value` -/
def writeInput (hole : α) (ofRun : Dict NodeConnectionType (List α))
    (inputType : NodeConnectionType) (inputIndex : ℕ) (value : α) :
    Dict NodeConnectionType (List α) :=
  ofRun.set inputType (setAt ((ofRun.get? inputType).getD []) inputIndex hole value)

/-- `ofRun[inputType][inputIndex]` -/
def readInput (hole : α) (ofRun : Dict NodeConnectionType (List α))
    (inputType : NodeConnectionType) (inputIndex : ℕ) : α :=
  ((ofRun.get? inputType).getD []).getD inputIndex hole

/-- `waiting[nodeName]` -/
def ofNode (waiting : WaitingLists α) (nodeName : String) :
    IndexMap (Dict NodeConnectionType (List α)) :=
  (waiting.get? nodeName).getD .empty

/-- `waiting[nodeName][runIndex][inputType][inputIndex] = value`, where objects and arrays are made
as they are needed. -/
def write (hole : α) (waiting : WaitingLists α) (nodeName : String) (runIndex : ℕ)
    (inputType : NodeConnectionType) (inputIndex : ℕ) (value : α) : WaitingLists α :=
  let ofNode := waiting.ofNode nodeName
  let ofRun := (ofNode.get? runIndex).getD .empty
  waiting.set nodeName (ofNode.set runIndex (writeInput hole ofRun inputType inputIndex value))

/-- `waiting[nodeName][runIndex][inputType][inputIndex]` -/
def read (hole : α) (waiting : WaitingLists α) (nodeName : String) (runIndex : ℕ)
    (inputType : NodeConnectionType) (inputIndex : ℕ) : α :=
  readInput hole (((waiting.ofNode nodeName).get? runIndex).getD .empty) inputType inputIndex

/-- `Object.keys(waiting[nodeName]).length` -/
def nextRunIndex (waiting : WaitingLists α) (nodeName : String) : ℕ :=
  (waiting.ofNode nodeName).size

end WaitingLists

def addWaitingExecution (waitingExecution : WaitingLists Slot) (nodeName : String) (runIndex : ℕ)
    (inputType : NodeConnectionType) (inputIndex : ℕ) (executionData : Slot) : WaitingLists Slot :=
  waitingExecution.write .hole nodeName runIndex inputType inputIndex executionData

def addWaitingExecutionSource (waitingExecutionSource : WaitingLists (Option SourceData))
    (nodeName : String) (runIndex : ℕ) (inputType : NodeConnectionType) (inputIndex : ℕ)
    (sourceData : Option SourceData) : WaitingLists (Option SourceData) :=
  waitingExecutionSource.write none nodeName runIndex inputType inputIndex sourceData

/-! ## The stack -/

structure RecreatedStack where
  nodeExecutionStack : List ExecuteData := []
  waitingExecution : WaitingLists Slot := .empty
  waitingExecutionSource : WaitingLists (Option SourceData) := .empty
  deriving DecidableEq

section Recreate

variable (runData : Dict String (List TaskData)) (pinData : Dict String (List Item))

def disabledNodeMessage (nodeName : String) : String :=
  "Graph contains disabled nodes. This is not supported. Make sure to pass the graph through " ++
    "\"findSubgraph\" before calling \"recreateNodeExecutionStack\". The node in question is \"" ++
    nodeName ++ "\""

def noDataMessage (connection : GraphConnection) : String :=
  "Start node(" ++ connection.toNode.name ++ ") has an incoming connection with no run or pinned " ++
    "data. This is not supported. The connection in question is \"" ++ connection.fromNode.name ++
    "->" ++ connection.toNode.name ++
    "\". Are you sure the start nodes come from the \"findStartNodes\" function?"

/-- `{ previousNode, previousNodeOutput, previousNodeRun }` -/
def GraphConnection.source (connection : GraphConnection) (runIndex : ℕ) : SourceData where
  previousNode := connection.fromNode.name
  previousNodeOutput := some connection.outputIndex
  previousNodeRun := some runIndex

/-- The data of a connection of a complete group, with the run it is from. -/
def completeData (connection : GraphConnection) : Except String (Option (List Item × ℕ)) :=
  match pinData.get? connection.fromNode.name with
  | some items => .ok (some (items, 0))
  | none =>
    if (runData.get? connection.fromNode.name).isNone then .error (noDataMessage connection)
    else getIncomingDataFromAnyRun runData connection.fromNode.name connection.type
      connection.outputIndex

/-- A connection whose node has run without items on the output has a source, but no data. -/
def completeEntry (startNode : Node) (connections : List GraphConnection) :
    Except String ExecuteData := do
  let incoming ← connections.mapM (completeData runData pinData)
  return {
    node := startNode
    data := Dict.empty.set .main
      (incoming.filterMap fun found => found.map fun (items, _) => .items items)
    source := some (List.zipWith (fun connection found =>
      some (connection.source ((found.map (·.2)).getD 0))) connections incoming) }

/-- One connection of an incomplete group. -/
def addIncomplete (nodeName : String) (nextRunIndex : ℕ) (r : RecreatedStack)
    (connection : GraphConnection) : Except String RecreatedStack := do
  match ← getIncomingDataFromAnyRun runData connection.fromNode.name connection.type
      connection.outputIndex with
  | none => return r
  | some (items, _) =>
    return { r with
      waitingExecution := addWaitingExecution r.waitingExecution nodeName nextRunIndex
        connection.type connection.inputIndex (.items items)
      waitingExecutionSource := addWaitingExecutionSource r.waitingExecutionSource nodeName
        nextRunIndex connection.type connection.inputIndex
        (some (connection.source nextRunIndex)) }

def addGroup (startNode : Node) (r : RecreatedStack) (group : SourceConnectionGroup) :
    Except String RecreatedStack :=
  if group.complete then do
    let executeData ← completeEntry runData pinData startNode group.connections
    return { r with nodeExecutionStack := r.nodeExecutionStack ++ [executeData] }
  else
    group.connections.foldlM (addIncomplete runData startNode.name
      (r.waitingExecution.nextRunIndex startNode.name)) r

def addStartNode (localeCompare : String → String → ℤ) (graph : DirectedGraph)
    (r : RecreatedStack) (startNode : Node) : Except String RecreatedStack := do
  let incomingStartNodeConnections ← graph.getDirectParentConnections startNode
  if incomingStartNodeConnections.filter (·.type = .main) = [] then
    return { r with nodeExecutionStack := r.nodeExecutionStack ++ [{
      node := startNode
      data := Dict.empty.set .main [.items [{ json := .empty }]]
      source := none }] }
  else
    (getSourceDataGroups localeCompare graph startNode runData pinData).foldlM
      (addGroup runData pinData startNode) r

def recreateNodeExecutionStack (localeCompare : String → String → ℤ) (graph : DirectedGraph)
    (startNodes : List Node) : Except String RecreatedStack :=
  match (graph.nodes.entries.map (·.2)).find? (·.disabled = some true) with
  | some node => .error (disabledNodeMessage node.name)
  | none => startNodes.foldlM (addStartNode runData pinData localeCompare graph) {}

end Recreate

end N8n

/-!
# What rebuilt entries are to hold

The entries that `recreateNodeExecutionStack` puts on the stack, and those it lets wait, hold at each
input what has come in over a connection into it, and name where it has come from.
-/

namespace N8n

/-- The source names the node and the output that the connection leaves. -/
structure SourceData.Names (source : SourceData) (c : GraphConnection) : Prop where
  node : source.previousNode = c.fromNode.name
  output : source.previousNodeOutput.getD 0 = c.outputIndex

section Rebuilt

variable (runData : Dict String (List TaskData)) (pinData : Dict String (List Item))

/-- The connection's node has pinned data, or a run with items on the output. -/
def HasItems (c : GraphConnection) : Prop :=
  (pinData.get? c.fromNode.name).isSome ∨ ∃ runIndex item items,
    getIncomingData runData c.fromNode.name runIndex c.type c.outputIndex =
      .ok (.items (item :: items))

/-! ## Entries of the stack -/

/-- The items are pinned, or the run has them on the output. -/
def CarriesItems (c : GraphConnection) (runIndex : ℕ) (items : List Item) : Prop :=
  pinData.get? c.fromNode.name = some items ∨
    getIncomingData runData c.fromNode.name runIndex c.type c.outputIndex = .ok (.items items)

/-- Each list has come in over a connection into the input of its place. -/
structure Aligned (graph : DirectedGraph) (e : ExecuteData) : Prop where
  length : e.main.length = (e.source.getD []).length
  arrived : ∀ i items, slotAt e.main i = .items items → ∃ c ∈ graph.getConnections e.node,
    c.inputIndex = i ∧ ∃ source : SourceData, (e.source.getD [])[i]? = some (some source) ∧
      source.Names c ∧ CarriesItems runData pinData c (source.previousNodeRun.getD 0) items

/-- Each connection of a group has items, and its node is connected from the same output to the
input of its place in the group. -/
def Fits (graph : DirectedGraph) (node : Node) (group : SourceConnectionGroup) : Prop :=
  ∀ i c, group.connections[i]? = some c → HasItems runData pinData c ∧
    ∃ c' ∈ graph.getConnections node, c'.inputIndex = i ∧ c'.fromNode.name = c.fromNode.name ∧
      c'.outputIndex = c.outputIndex

/-! ## Entries that wait -/

/-- The items are pinned, or where none are, the run has them on the output. -/
def TakenFrom (c : GraphConnection) (runIndex : ℕ) (items : List Item) : Prop :=
  match pinData.get? c.fromNode.name with
  | some pinned => items = pinned
  | none => items ≠ [] ∧
    getIncomingData runData c.fromNode.name runIndex c.type c.outputIndex = .ok (.items items)

/-- The waiting entry holds the data of the connection at its input, and names its source. -/
def WaitsWith (r : RecreatedStack) (nodeName : String) (index : ℕ) (c : GraphConnection) : Prop :=
  ∃ (items : List Item) (source : SourceData),
    r.waitingExecution.read .hole nodeName index .main c.inputIndex = .items items ∧
      r.waitingExecutionSource.read none nodeName index .main c.inputIndex = some source ∧
      source.Names c ∧ TakenFrom runData pinData c (source.previousNodeRun.getD 0) items

/-- The main connections of a group that have items wait in one entry. -/
def GroupWaits (r : RecreatedStack) (node : Node) (group : SourceConnectionGroup) : Prop :=
  ∃ index, ∀ c ∈ group.connections, c.type = .main → HasItems runData pinData c →
    WaitsWith runData pinData r node.name index c

def hasRunData (c : GraphConnection) : Bool :=
  match getIncomingDataFromAnyRun runData c.fromNode.name c.type c.outputIndex with
  | .ok (some _) => true
  | _ => false

/-- The group is incomplete, and some connection of it has a run with items. -/
def written (group : SourceConnectionGroup) : Bool :=
  !group.complete && group.connections.any (hasRunData runData)

/-- The items of the first run that has some are those that are pinned, or where none are, those of
the run with this index. -/
def RunHasItems (index : ℕ) (c : GraphConnection) : Prop :=
  ∃ found, getIncomingDataFromAnyRun runData c.fromNode.name c.type c.outputIndex =
    .ok (some found) ∧ TakenFrom runData pinData c index found.1

end Rebuilt

end N8n
