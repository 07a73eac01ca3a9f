import N8n.Library.Runs
import N8n.RecreateNodeExecutionStack
import N8n.WorkflowExecute

/-!
# Deliveries to a node with several inputs

Calls of `addNodeToBeExecuted` that hand items to the inputs of one node, with a record of what has
been delivered so far.
-/

namespace N8n

/-- A call of `addNodeToBeExecuted` for an input of the node. -/
structure Delivery where
  input : ℕ
  outputIndex : ℕ := 0
  parentNodeName : String
  nodeSuccessData : List Slot
  runIndex : ℕ := 0
  newRunIndex : Option ℕ := none
  metadata : Option TaskMetadata := none
  deriving DecidableEq

namespace Delivery

/-- What the call delivers. -/
def slot (d : Delivery) : Slot := slotAt d.nodeSuccessData d.outputIndex

/-- The input exists, and what is delivered is a list of items. -/
def Valid (w : Workflow) (nodeName : String) (d : Delivery) : Prop :=
  d.input < w.numberOfInputs nodeName ∧ d.slot.truthy

instance (w : Workflow) (nodeName : String) (d : Delivery) : Decidable (d.Valid w nodeName) :=
  inferInstanceAs (Decidable (_ ∧ _))

end Delivery

/-- An input with its list of items, if it has data. -/
def inputList? (main : List Slot) (input : ℕ) : Option (ℕ × List Item) :=
  match slotAt main input with
  | .items items => some (input, items)
  | _ => none

def inputLists (main : List Slot) : List (ℕ × List Item) :=
  (List.range main.length).filterMap (inputList? main)

namespace WorkflowExecute

/-- What waits for the node. -/
def waitingEntries (s : WorkflowExecute) (nodeName : String) : List WaitingEntry :=
  ((s.waitingExecution.get? nodeName).getD .empty).entries.map (·.2)

/-- The entries pushed on the stack since `s₀` in execution order v1, the first pushed first. -/
def pushedSince (s s₀ : WorkflowExecute) : List ExecuteData :=
  (s.nodeExecutionStack.take (s.nodeExecutionStack.length - s₀.nodeExecutionStack.length)).reverse

end WorkflowExecute

structure Feed where
  state : WorkflowExecute
  /-- The inputs and lists delivered so far. -/
  delivered : List (ℕ × List Item) := []
  deriving DecidableEq

namespace Feed

variable (w : Workflow) (nodeName : String)

def deliver (f : Feed) (d : Delivery) : Feed where
  state := (f.state.addNodeToBeExecuted w { node := nodeName, type := .main, index := d.input }
    d.outputIndex d.parentNodeName d.nodeSuccessData d.runIndex d.newRunIndex d.metadata).state
  delivered := f.delivered ++ [(d.input, d.slot.list)]

/-- The lists delivered to an input. -/
def arrivedAt (f : Feed) (input : ℕ) : List (List Item) :=
  f.delivered.filterMap fun arrival => if arrival.1 = input then some arrival.2 else none

/-- Nothing delivered since `s₀` is lost or mis-paired. -/
structure Kept (s₀ : WorkflowExecute) (f : Feed) : Prop where
  below : s₀.nodeExecutionStack <:+ f.state.nodeExecutionStack
  forNode : ∀ e ∈ f.state.pushedSince s₀, e.node = w.node nodeName
  conserved : f.delivered.Perm
    ((f.state.waitingEntries nodeName).flatMap (inputLists ·.main) ++
      (f.state.pushedSince s₀).flatMap (inputLists ·.main))
  paired : ∀ (k : ℕ) (e : ExecuteData), (f.state.pushedSince s₀)[k]? = some e →
    ∀ i < w.numberOfInputs nodeName,
      ∃ items, (f.arrivedAt i)[k]? = some items ∧ e.main[i]? = some (.items items)

/-- Nothing waits for the node, or the entry under index 0 is still there, or some entry lacks the
input. Otherwise the new entry is put under an index at or below those of the older entries. -/
def KeepsOrder (f : Feed) (d : Delivery) : Prop :=
  ∀ waiting ∈ f.state.waitingExecution.get? nodeName, 0 ∈ waiting.keys ∨
    ∃ entry ∈ waiting.entries, (slotAt entry.2.main d.input).truthy = false

instance (f : Feed) (d : Delivery) : Decidable (f.KeepsOrder nodeName d) :=
  inferInstanceAs (Decidable (∀ waiting ∈ f.state.waitingExecution.get? nodeName, _))

end Feed

end N8n

/-!
## Entries that the waiting path releases

A waiting entry goes on the stack when a delivery leaves no `null` among its lists. An entry that the
engine has made has a place for each input. One that is rebuilt ends with the last input it has data
for, and has holes where data is missing.
-/

namespace N8n

/-- The waiting entries as the engine goes on with them. The data and the sources of an entry are
under the same index, and those of main connections under `main`. -/
def RecreatedStack.waitingEntries (r : RecreatedStack) : Dict String (IndexMap WaitingEntry) :=
  r.waitingExecution.mapEntries fun nodeName ofNode => ofNode.mapEntries fun runIndex ofRun =>
    { main := (ofRun.get? .main).getD []
      source := (((((r.waitingExecutionSource.ofNode nodeName).get? runIndex).getD .empty).get?
        .main)).getD [] }

/-- The state a partial execution starts from. -/
def RecreatedStack.toState (r : RecreatedStack) (runData : Dict String (List TaskData))
    (pinData : Dict String (List Item)) : WorkflowExecute where
  nodeExecutionStack := r.nodeExecutionStack
  waitingExecution := r.waitingEntries
  runData
  pinData

namespace WorkflowExecute

variable (w : Workflow) (nodeName : String) (s : WorkflowExecute) (d : Delivery)

/-- The entry that a delivery is written to, as it is before. -/
def entryFor : WaitingEntry :=
  (waitingEntryFor ((s.waitingExecution.get? nodeName).getD .empty) d.input
    (w.numberOfInputs nodeName)).2

/-- The entry once the delivery is in it. -/
def writtenEntry : WaitingEntry where
  main := setAt (s.entryFor w nodeName d).main d.input .hole d.slot
  source := setAt (s.entryFor w nodeName d).source d.input none
    (some (sourceOf d.parentNodeName d.outputIndex d.runIndex))

/-- What the waiting path puts on the stack for the delivery. -/
def releasedBy : Option ExecuteData :=
  if Slot.null ∉ (s.writtenEntry w nodeName d).main then
    some { node := w.node nodeName
           data := Dict.empty.set .main (s.writtenEntry w nodeName d).main
           source := some (s.writtenEntry w nodeName d).source }
  else none

/-- Another input of the entry is `null`, or all others have their lists. -/
def ReleasesWhole : Prop :=
  (∃ i, i ≠ d.input ∧ (s.entryFor w nodeName d).main[i]? = some .null) ∨
    ∀ i < w.numberOfInputs nodeName, i ≠ d.input →
      ∃ items, slotAt (s.entryFor w nodeName d).main i = .items items

end WorkflowExecute

/-- An entry with a list for each input. -/
def CarriesAll (w : Workflow) (nodeName : String) (e : ExecuteData) : Prop :=
  ∀ i < w.numberOfInputs nodeName, ∃ items, slotAt e.main i = .items items

/-- A run of deliveries, with the entries that the waiting path has put on the stack. -/
structure Releases where
  state : WorkflowExecute
  released : List ExecuteData := []
  deriving DecidableEq

def Releases.deliver (w : Workflow) (nodeName : String) (r : Releases) (d : Delivery) :
    Releases where
  state := (r.state.addNodeToBeExecuted w { node := nodeName, type := .main, index := d.input }
    d.outputIndex d.parentNodeName d.nodeSuccessData d.runIndex d.newRunIndex d.metadata).state
  released := r.released ++ (r.state.releasedBy w nodeName d).toList

end N8n
