import N8n.Deliveries
import N8n.ProcessRunExecutionData

/-!
# Executions that wait, fail and go on

An execution may be left and gone on with more than once: a node puts it to wait and it is resumed,
or a node fails and it is retried. What is kept in between is its run data, its stack and the
entries that wait, and each entry names the runs its data comes from.
-/

namespace N8n

namespace WorkflowExecute

variable (w : Workflow)

/-- A destination node, and whether it is to run itself. -/
structure DestinationNode where
  nodeName : String
  inclusive : Bool := true
  deriving DecidableEq, Repr

/-- `run`: the state that a full execution starts from. -/
def run (startNode : Node) (destinationNode : Option DestinationNode)
    (pinData : Dict String (List Item)) (triggerData : Option TaskDataConnections) :
    WorkflowExecute where
  nodeExecutionStack :=
    [{ node := startNode
       data := triggerData.getD (Dict.empty.set .main [.items [{ json := .empty }]])
       source := none }]
  pinData
  runNodeFilter := destinationNode.map fun destinationNode =>
    w.getParentNodes destinationNode.nodeName ++
      if destinationNode.inclusive then [destinationNode.nodeName] else []
  destinationNode := destinationNode.map (·.nodeName)

variable (s : WorkflowExecute)

/-- `runData[nodeName].pop()` -/
def popTaskData (nodeName : String) : Outcome :=
  match s.runData.get? nodeName with
  | none => { state := s, error := some typeError }
  | some records => { state := { s with runData := s.runData.set nodeName records.dropLast } }

/-- The node that has put the execution to wait does not run again. The entries that hold the same
node object see it disabled too. -/
def handleWaitingState (holdsSameNode : ExecuteData → Bool) : Outcome :=
  if s.waitTill then
    match s.nodeExecutionStack with
    | [] => { state := { s with waitTill := false }, error := some typeError }
    | executionData :: nodeExecutionStack =>
      let disable (e : ExecuteData) : ExecuteData :=
        { e with node := { e.node with disabled := some true } }
      let s := { s with
        waitTill := false
        nodeExecutionStack := disable executionData ::
          nodeExecutionStack.map fun e => if holdsSameNode e then disable e else e }
      match s.lastNodeExecuted with
      | none => { state := s, error := some typeError }
      | some lastNodeExecuted => s.popTaskData lastNodeExecuted
  else { state := s }

/-- `processRunExecutionData` up to its loop, over what has been stored. The index of executions
starts anew, and what the engine has written to the nodes is gone. -/
def startLoop (holdsSameNode : ExecuteData → Bool) : Outcome :=
  handleWaitingState
    { s with currentNodeExecutionIndex := 0, lastExecutionTry := "", rewireOutputLogTo := .empty }
    holdsSameNode

/-- `ExecutionService.retry`: the last run of the node that ran last is taken back if it failed. -/
def retry : Outcome :=
  match s.lastNodeExecuted with
  | none => { state := s }
  | some lastNodeExecuted =>
    if lastNodeExecuted = "" then { state := s }
    else
      match s.runData.get? lastNodeExecuted with
      | none => { state := s, error := some typeError }
      | some records =>
        if (records.getLast?.bind (·.error)).isSome then s.popTaskData lastNodeExecuted
        else { state := s }

/-- The last run of the node that ran last has failed. -/
def lastFailed : Bool :=
  (s.lastNodeExecuted.bind fun lastNodeExecuted =>
    (s.taskData lastNodeExecuted).getLast?.bind (·.error)).isSome

/-- The node on top of the stack ran last. -/
def RanTop : Prop :=
  s.lastNodeExecuted = s.nodeExecutionStack.head?.map (·.node.name)

instance : Decidable s.RanTop := inferInstanceAs (Decidable (_ = _))

end WorkflowExecute

/-! ## Runs over more than one loop -/

/-- No call of `runNode` returns a request. -/
def Turn.NoRequests (t : Turn) : Prop := ∀ k request, (t.attempt k).result ≠ .request request

inductive LoopEvent
  | turn (t : Turn)
  /-- The execution has waited long enough, or its webhook is called. -/
  | resume (holdsSameNode : ExecuteData → Bool)
  | retry (holdsSameNode : ExecuteData → Bool)

/-- An execution, and how its loop has been left. -/
structure ResumableExecution where
  state : WorkflowExecute
  ending : Option TurnEnd := none
  deriving DecidableEq

/-- The loop has started, unless that has thrown. -/
def Outcome.started (o : Outcome) : ResumableExecution where
  state := o.state
  ending := o.error.map .threw

namespace ResumableExecution

/-- An execution is resumed if it waits, and retried if its loop has been left. -/
def step (w : Workflow) (x : ResumableExecution) : LoopEvent → ResumableExecution
  | .turn t =>
    match x.ending, x.state.nodeExecutionStack with
    | none, executionData :: nodeExecutionStack =>
      let result := x.state.turn w t executionData nodeExecutionStack
      ⟨result.state, if result.ending.leaves then some result.ending else none⟩
    | _, _ => x
  | .resume holdsSameNode =>
    if x.ending = some .waiting then (x.state.startLoop holdsSameNode).started else x
  | .retry holdsSameNode =>
    if x.ending.isSome then (x.state.retry.andThen (·.startLoop holdsSameNode)).started else x

/-- Nodes make no requests, and at most one record is taken back: that of the entry that has failed
or waits on top of the stack. -/
def TakesBackOwn (x : ResumableExecution) : LoopEvent → Prop
  | .turn t => t.NoRequests
  | .resume _ => x.state.RanTop
  | .retry _ =>
    (x.state.lastFailed → x.state.waitTill = false) ∧
      (x.state.lastFailed ∨ x.state.waitTill →
        (x.ending = some .failed ∨ x.ending = some .waiting) ∧ x.state.RanTop)

end ResumableExecution

/-! ## What entries and records name as their sources -/

/-- The item, wherever it is paired to. -/
def Item.unpaired (item : Item) : Item := { item with pairedItem := none }

/-- The main outputs of a node lead to main inputs. -/
def Workflow.MainToMain (w : Workflow) : Prop :=
  ∀ entry ∈ w.connectionsBySourceNode.entries,
    ∀ connection ∈ flatConnections ((entry.2.get? .main).getD []), connection.type = .main

instance (w : Workflow) : Decidable w.MainToMain :=
  inferInstanceAs (Decidable (∀ entry ∈ w.connectionsBySourceNode.entries, _))

/-- The items a record has for an output. -/
def TaskData.output (record : TaskData) (outputIndex : ℕ) : Option (List Item) :=
  match slotAt ((record.data.bind (·.get? .main)).getD []) outputIndex with
  | .items data => some data
  | _ => none

/-- The data on an input is the output, apart from where its items are paired to. In the legacy
order a node may also be made to run on one empty item. -/
def HandedOver (w : Workflow) (output : List Item) (input : Slot) : Prop :=
  ∃ items, input = .items items ∧ (items.map Item.unpaired = output.map Item.unpaired ∨
    w.isLegacyExecutionOrder ∧ items.map Item.unpaired = [{ json := .empty }])

namespace WorkflowExecute

variable (w : Workflow) (s : WorkflowExecute)

/-- The record a source names. -/
def recordOf (source : SourceData) : Option TaskData :=
  (s.taskData source.previousNode)[source.previousNodeRun.getD 0]?

/-- The output a source names. -/
def outputOf (source : SourceData) : Option (List Item) :=
  (s.recordOf source).bind (·.output (source.previousNodeOutput.getD 0))

/-- The data on each input that has a source is what the source names. -/
def TracesBack (main : List Slot) (sources : List (Option SourceData)) : Prop :=
  ∀ input source, sources[input]? = some (some source) →
    ∃ output ∈ s.outputOf source, HandedOver w output (slotAt main input)

/-- All data that is on its way traces back to recorded runs, and so do the recorded runs. -/
structure Sourced : Prop where
  stack : ∀ e ∈ s.nodeExecutionStack, s.TracesBack w e.main (e.source.getD [])
  waiting : ∀ nodeName, ∀ entry ∈ s.waitingEntries nodeName, s.TracesBack w entry.main entry.source
  records : ∀ nodeName, ∀ record ∈ s.taskData nodeName, ∀ source, some source ∈ record.source →
    (s.outputOf source).isSome

/-- The order in which runs have been executed: a record comes after those of its node that stand
before it and after those that it names as its sources. -/
structure Ordered : Prop where
  below : ∀ nodeName, ∀ record ∈ s.taskData nodeName,
    record.executionIndex < s.currentNodeExecutionIndex
  increasing : ∀ nodeName,
    (s.taskData nodeName).Pairwise fun a b => a.executionIndex < b.executionIndex
  distinct : ∀ nodeName nodeName', ∀ a ∈ s.taskData nodeName, ∀ b ∈ s.taskData nodeName',
    a.executionIndex = b.executionIndex → nodeName = nodeName'
  earlier : ∀ nodeName, ∀ record ∈ s.taskData nodeName, ∀ source, some source ∈ record.source →
    ∃ before ∈ s.recordOf source, before.executionIndex < record.executionIndex

end WorkflowExecute

end N8n
