import N8n.Library.Cells
import N8n.Library.Runs
import N8n.Values

/-!
# Operations on the workflow of the builder

The tools of the builder return operations, which are then applied to the workflow one after the
other. The objects and arrays of connections are shared between the workflow before, the operations
and the workflow after, so that they are held in a heap.
-/

namespace N8n

namespace OperationsProcessor

/-! ## Workflows and operations -/

/-- A reference to an object or an array. -/
abbrev Ref := ℕ

/-- `INode`, as far as the operations read it. -/
structure INode where
  id : String
  name : String
  deriving DecidableEq, Repr

/-- `IConnection` -/
structure IConnection where
  node : String
  type : String
  index : ℕ
  deriving DecidableEq, Repr

/-- `NodeInputConnections`: by output its connections, `none` where the array has none. -/
abbrev NodeInputConnections := List (Option (List IConnection))

/-- `INodeConnections`: the outputs by type. -/
abbrev INodeConnections := Dict String NodeInputConnections

/-- `Partial<INode>` -/
structure NodeUpdates where
  id : Option String := none
  name : Option String := none
  deriving DecidableEq, Repr

/-- `{ ...node, ...updates }` -/
def NodeUpdates.apply (updates : NodeUpdates) (node : INode) : INode where
  id := updates.id.getD node.id
  name := updates.name.getD node.name

/-- A workflow whose nodes are given by `ν`, and the connections of a node by `γ`. -/
structure SimpleWorkflow (ν γ : Type) where
  nodes : List ν
  connections : Dict String γ
  name : String
  deriving DecidableEq

inductive WorkflowOperation (ν γ : Type)
  | clear
  | removeNode (nodeIds : List String)
  | addNodes (nodes : List ν)
  | updateNode (nodeId : String) (updates : NodeUpdates)
  | setConnections (connections : Dict String γ)
  | mergeConnections (connections : Dict String γ)
  | removeConnection (sourceNode targetNode connectionType : String)
      (sourceOutputIndex targetInputIndex : ℕ)
  | setName (name : String)
  deriving DecidableEq

/-! ## The heap -/

structure Heap where
  nodes : Cells INode
  /-- The arrays of connections. -/
  lists : Cells (List IConnection)
  /-- The arrays of outputs. -/
  outputs : Cells (List (Option Ref))
  /-- The objects that hold the outputs of a node by type. -/
  objects : Cells (Dict String Ref)

namespace Heap

variable (h : Heap)

/-- The contents of an array of outputs. -/
def readOutputs (r : Ref) : NodeInputConnections := (h.outputs.read r).map (Option.map h.lists.read)

/-- The contents of an object, at every depth. -/
def readObject (r : Ref) : INodeConnections := (h.objects.read r).mapValues h.readOutputs

def readWorkflow (workflow : SimpleWorkflow Ref Ref) : SimpleWorkflow INode INodeConnections where
  nodes := workflow.nodes.map h.nodes.read
  connections := workflow.connections.mapValues h.readObject
  name := workflow.name

def readOperation : WorkflowOperation Ref Ref → WorkflowOperation INode INodeConnections
  | .clear => .clear
  | .removeNode nodeIds => .removeNode nodeIds
  | .addNodes nodes => .addNodes (nodes.map h.nodes.read)
  | .updateNode nodeId updates => .updateNode nodeId updates
  | .setConnections connections => .setConnections (connections.mapValues h.readObject)
  | .mergeConnections connections => .mergeConnections (connections.mapValues h.readObject)
  | .removeConnection sourceNode targetNode connectionType sourceOutputIndex targetInputIndex =>
    .removeConnection sourceNode targetNode connectionType sourceOutputIndex targetInputIndex
  | .setName name => .setName name

/-- The array of an output, where there is one. -/
def output (r : Ref) (index : ℕ) : Option Ref := (h.outputs.read r)[index]?.join

/-! ## New objects -/

def newList (connections : List IConnection) : Ref × Heap :=
  (h.lists.next, { h with lists := h.lists.alloc connections })

/-- `outputs[index] = connections`, where there is an array at the index. -/
def setOutput (outputs : Ref) (index : ℕ) (connections : List IConnection) : Heap :=
  let new := h.newList connections
  { new.2 with
    outputs := new.2.outputs.write outputs
      ((new.2.outputs.read outputs).set index (some new.1)) }

def newOutput : Option (List IConnection) → Option Ref × Heap
  | none => (none, h)
  | some connections => ((h.newList connections).1, (h.newList connections).2)

def newOutputs (outputs : NodeInputConnections) : Ref × Heap :=
  let stored := storeAll newOutput h outputs
  (stored.2.outputs.next, { stored.2 with outputs := stored.2.outputs.alloc stored.1 })

def newObject (nodeConnections : INodeConnections) : Ref × Heap :=
  let stored := storeValues newOutputs h nodeConnections
  (stored.2.objects.next, { stored.2 with objects := stored.2.objects.alloc stored.1 })

def newConnections (connections : Dict String INodeConnections) : Dict String Ref × Heap :=
  storeValues newObject h connections

/-- A new object for the node where its id is the given one. -/
def updateNode (nodeId : String) (updates : NodeUpdates) (node : Ref) : Ref × Heap :=
  if (h.nodes.read node).id = nodeId then
    (h.nodes.next, { h with nodes := h.nodes.alloc (updates.apply (h.nodes.read node)) })
  else (node, h)

end Heap

/-- `Object.entries` -/
def objectEntries {α : Type} (d : Dict String α) : List (String × α) :=
  (objectKeys d.keys).filterMap fun key => (d.get? key).map (key, ·)

/-! ## The handlers -/

/-- The connections without those from and to the removed nodes. -/
def cleanedConnections (nodesToRemove : List String) (connections : Dict String INodeConnections) :
    Dict String INodeConnections :=
  (connections.filterKeys (· ∉ nodesToRemove)).mapValues fun nodeConnections =>
    nodeConnections.mapValues fun outputs =>
      outputs.map (Option.map fun outputConnections =>
        outputConnections.filter (·.node ∉ nodesToRemove))

/-- The map from ids to nodes. -/
def nodeMap (h : Heap) (nodes : List Ref) : Dict String Ref :=
  nodes.foldl (fun nodeMap node => nodeMap.set (h.nodes.read node).id node) .empty

/-- One output of a type that both have. -/
def mergeOutput (newOutputs existingOutputs : Ref) (h : Heap) (i : ℕ) : Heap :=
  match h.output newOutputs i with
  | none => h
  | some new =>
    match h.output existingOutputs i with
    | none => { h with
        outputs := h.outputs.write existingOutputs
          (setAt (h.outputs.read existingOutputs) i none (some new)) }
    | some existing => { h with
        lists := h.lists.write existing (h.lists.read existing ++
          (h.lists.read new).filter (· ∉ h.lists.read existing)) }

/-- The indexes of the longer of two arrays of outputs. -/
def outputIndexes (h : Heap) (newOutputs existingOutputs : Ref) : List ℕ :=
  List.range (max (h.outputs.read newOutputs).length (h.outputs.read existingOutputs).length)

/-- One type of a source that both have; `object` holds the existing connections. -/
def mergeType (object : Ref) (h : Heap) (entry : String × Ref) : Heap :=
  match (h.objects.read object).get? entry.1 with
  | none => { h with objects := h.objects.write object ((h.objects.read object).set entry.1 entry.2) }
  | some existingOutputs =>
    Runs.run (mergeOutput entry.2 existingOutputs) h (outputIndexes h entry.2 existingOutputs)

/-- The heap and the connections so far. -/
structure Merged where
  heap : Heap
  connections : Dict String Ref

def mergeSource (s : Merged) (entry : String × Ref) : Merged :=
  match s.connections.get? entry.1 with
  | none => { s with connections := s.connections.set entry.1 entry.2 }
  | some object => { s with
      heap := Runs.run (mergeType object) s.heap (objectEntries (s.heap.objects.read entry.2)) }

/-- The state of `applyOperations`. -/
structure State where
  heap : Heap
  result : SimpleWorkflow Ref Ref

namespace State

variable (s : State)

def applyClearOperation : State := { s with result := ⟨[], .empty, ""⟩ }

def applyRemoveNodeOperation (nodeIds : List String) : State :=
  let nodes := s.result.nodes.filter fun node => (s.heap.nodes.read node).id ∉ nodeIds
  let cleaned := s.heap.newConnections
    (cleanedConnections nodeIds (s.heap.readWorkflow s.result).connections)
  { heap := cleaned.2, result := { s.result with nodes, connections := cleaned.1 } }

def applyAddNodesOperation (nodes : List Ref) : State :=
  { s with result := { s.result with
      nodes := (nodeMap s.heap (s.result.nodes ++ nodes)).entries.map Prod.snd } }

def applyUpdateNodeOperation (nodeId : String) (updates : NodeUpdates) : State :=
  let nodes := storeAll (fun h => h.updateNode nodeId updates) s.heap s.result.nodes
  { heap := nodes.2, result := { s.result with nodes := nodes.1 } }

def applySetConnectionsOperation (connections : Dict String Ref) : State :=
  { s with result := { s.result with connections } }

def applyMergeConnectionsOperation (connections : Dict String Ref) : State :=
  let merged := Runs.run mergeSource ⟨s.heap, s.result.connections⟩ (objectEntries connections)
  { heap := merged.heap, result := { s.result with connections := merged.connections } }

/-- `outputs.some(...)` -/
def hasAnyConnections (h : Heap) (outputs : Ref) : Bool :=
  (h.outputs.read outputs).any fun output =>
    output.any fun connections => !(h.lists.read connections).isEmpty

def applyRemoveConnectionOperation (sourceNode targetNode connectionType : String)
    (sourceOutputIndex targetInputIndex : ℕ) : State :=
  match s.result.connections.get? sourceNode with
  | none => s
  | some object =>
    match (s.heap.objects.read object).get? connectionType with
    | none => s
    | some connectionTypeOutputs =>
      match s.heap.output connectionTypeOutputs sourceOutputIndex with
      | none => s
      | some outputConnections =>
        let filteredConnections := (s.heap.lists.read outputConnections).filter
          (· ≠ ⟨targetNode, connectionType, targetInputIndex⟩)
        let h := s.heap.setOutput connectionTypeOutputs sourceOutputIndex filteredConnections
        if filteredConnections = [] ∧ hasAnyConnections h connectionTypeOutputs = false then
          let nodeConnections := (h.objects.read object).erase connectionType
          { heap := { h with objects := h.objects.write object nodeConnections }
            result := { s.result with
              connections :=
                if nodeConnections.size = 0 then s.result.connections.erase sourceNode
                else s.result.connections } }
        else { s with heap := h }

def applySetNameOperation (name : String) : State := { s with result := { s.result with name } }

/-- `operationHandlers[operation.type]` -/
def step : WorkflowOperation Ref Ref → State
  | .clear => s.applyClearOperation
  | .removeNode nodeIds => s.applyRemoveNodeOperation nodeIds
  | .addNodes nodes => s.applyAddNodesOperation nodes
  | .updateNode nodeId updates => s.applyUpdateNodeOperation nodeId updates
  | .setConnections connections => s.applySetConnectionsOperation connections
  | .mergeConnections connections => s.applyMergeConnectionsOperation connections
  | .removeConnection sourceNode targetNode connectionType sourceOutputIndex targetInputIndex =>
    s.applyRemoveConnectionOperation sourceNode targetNode connectionType sourceOutputIndex
      targetInputIndex
  | .setName name => s.applySetNameOperation name

end State

/-- The heap after, and the workflow that is returned. -/
def applyOperations (h : Heap) (workflow : SimpleWorkflow Ref Ref)
    (operations : List (WorkflowOperation Ref Ref)) : State :=
  Runs.run State.step ⟨h, workflow⟩ operations

end OperationsProcessor

end N8n
