import Mathlib.Data.Int.Notation
import N8n.Values

/-!
# Workflows

The nodes and connections of a workflow, and the walks over its connections that the engine uses.
A walk carries fuel: each call deepens the list of nodes it has checked, so the number of nodes that
have connections is enough.
-/

namespace N8n

/-! ## Nodes -/

inductive OnError
  | stopWorkflow | continueRegularOutput | continueErrorOutput
  deriving DecidableEq, Repr

/-- `INode`. Its `rewireOutputLogTo`, which the engine writes, is part of the engine's state. -/
structure Node where
  name : String
  type : String
  typeVersion : ℕ := 1
  position : ℤ × ℤ := (0, 0)
  disabled : Option Bool := none
  alwaysOutputData : Bool := false
  retryOnFail : Bool := false
  maxTries : Option ℕ := none
  continueOnFail : Bool := false
  onError : Option OnError := none
  deriving DecidableEq, Repr

/-- The inputs a node needs data on: so many of them, or these. -/
inductive RequiredInputs
  | count (count : ℕ)
  | indexes (indexes : List ℕ)
  deriving DecidableEq, Repr

/-- `requiredInputs` of a node type may be an expression over the node's parameters. -/
inductive RequiredInputsSpec
  | value (requiredInputs : RequiredInputs)
  | expression (text : String)
  deriving DecidableEq, Repr

/-- What the engine reads of a node type's description. -/
structure NodeType where
  /-- The length of `inputs`. -/
  inputs : ℕ := 1
  requiredInputs : Option RequiredInputsSpec := none
  /-- The number of outputs of type `main`. -/
  mainOutputs : ℕ := 1
  deriving DecidableEq, Repr

/-! ## Connections -/

/-- `IConnection` -/
structure Connection where
  node : String
  type : NodeConnectionType
  index : ℕ
  deriving DecidableEq, Repr

/-- `INodeConnections`: by type and index, the connections of a node. -/
abbrev NodeConnections := Dict NodeConnectionType (List (Option (List Connection)))

/-- `IConnections` -/
abbrev Connections := Dict String NodeConnections

namespace Connections

/-- The connections of a type that a node has, if it has any. -/
def ofType (connections : Connections) (nodeName : String) (type : NodeConnectionType) :
    Option (List (Option (List Connection))) :=
  (connections.get? nodeName).bind (·.get? type)

end Connections

/-- All connections of an array of lists of them, in order. -/
def flatConnections (array : List (Option (List Connection))) : List Connection :=
  array.flatMap (·.getD [])

/-- Enters one connection under its destination. -/
def addDestination (sourceNode : String) (type : NodeConnectionType) (outputIndex : ℕ)
    (byDestination : Connections) (connection : Connection) : Connections :=
  let ofNode := (byDestination.get? connection.node).getD .empty
  let inputs := (ofNode.get? connection.type).getD []
  let inputs := inputs ++ List.replicate (connection.index + 1 - inputs.length) (some [])
  let inputs := inputs.modify connection.index
    (Option.map (· ++ [{ node := sourceNode, type, index := outputIndex }]))
  byDestination.set connection.node (ofNode.set connection.type inputs)

def mapConnectionsByDestination (connections : Connections) : Connections :=
  (objectKeys connections.keys).foldl (fun byDestination sourceNode =>
    ((connections.get? sourceNode).getD .empty).entries.foldl (fun byDestination entry =>
      entry.2.zipIdx.foldl (fun byDestination output =>
        (output.1.getD []).foldl (addDestination sourceNode entry.1 output.2) byDestination)
        byDestination)
      byDestination)
    .empty

/-- The nodes reached from a node along the connections of a type, the furthest first. -/
def getConnectedNodes (connections : Connections) (connectionType : NodeConnectionType) :
    ℕ → String → List String → List String
  | 0, _, _ => []
  | fuel + 1, nodeName, checkedNodes =>
    match connections.ofType nodeName connectionType with
    | none => []
    | some connectionsByIndex =>
      if nodeName ∈ checkedNodes then []
      else
        let checkedNodes := checkedNodes ++ [nodeName]
        (flatConnections connectionsByIndex).foldl (fun returnNodes connection =>
          if connection.node ∈ checkedNodes then returnNodes
          else
            let addNodes := getConnectedNodes connections connectionType fuel connection.node
              checkedNodes
            -- a node found before moves to the front
            addNodes.foldr (fun parentNodeName returnNodes =>
              parentNodeName :: returnNodes.erase parentNodeName) (connection.node :: returnNodes))
          []

/-! ## Workflows -/

inductive ExecutionOrder
  | v0 | v1
  deriving DecidableEq, Repr

/-- `evaluateRequiredInputs` is the expression evaluator, applied to the `requiredInputs` of a
node. -/
structure Workflow where
  nodes : Dict String Node
  connectionsBySourceNode : Connections
  executionOrder : Option ExecutionOrder := some .v1
  nodeType : Node → NodeType := fun _ => {}
  evaluateRequiredInputs : Node → String → Option RequiredInputs := fun _ _ => none

namespace Workflow

variable (w : Workflow)

def isLegacyExecutionOrder : Bool := w.executionOrder ≠ some .v1

def connectionsByDestinationNode : Connections :=
  mapConnectionsByDestination w.connectionsBySourceNode

/-- `workflow.nodes[nodeName]`, which the engine takes for granted. -/
def node (nodeName : String) : Node :=
  (w.nodes.get? nodeName).getD { name := nodeName, type := "" }

def numberOfInputs (nodeName : String) : ℕ :=
  ((w.connectionsByDestinationNode.ofType nodeName .main).getD []).length

def getParentNodes (nodeName : String) : List String :=
  getConnectedNodes w.connectionsByDestinationNode .main
    (w.connectionsByDestinationNode.keys.length + 1) nodeName []

/-- The topmost enabled nodes above a node, with the nodes that were checked on the way. -/
def getHighestNodeFrom : ℕ → String → Option ℕ → List String → List String × List String
  | 0, _, _, checkedNodes => ([], checkedNodes)
  | fuel + 1, nodeName, nodeConnectionIndex, checkedNodes =>
    let currentHighest := if (w.node nodeName).disabled = some false then [nodeName] else []
    match w.connectionsByDestinationNode.ofType nodeName .main with
    | none => (currentHighest, checkedNodes)
    | some inputs =>
      if nodeName ∈ checkedNodes then (currentHighest, checkedNodes)
      else
        let inputs := match nodeConnectionIndex with
          | none => inputs
          | some index => [inputs.getD index none]
        (flatConnections inputs).foldl (fun (returnNodes, checkedNodes) connection =>
          if connection.node ∈ checkedNodes ∨ (w.nodes.get? connection.node).isNone then
            (returnNodes, checkedNodes)
          else
            let (addNodes, checkedNodes) :=
              getHighestNodeFrom fuel connection.node none checkedNodes
            let addNodes :=
              if addNodes = [] ∧ (w.node connection.node).disabled ≠ some true then
                [connection.node]
              else addNodes
            (addNodes.foldl (fun nodes name => if name ∈ nodes then nodes else nodes ++ [name])
              returnNodes, checkedNodes))
          ([], checkedNodes ++ [nodeName])

def getHighestNode (nodeName : String) (nodeConnectionIndex : ℕ) : List String :=
  (w.getHighestNodeFrom (w.connectionsByDestinationNode.keys.length + 1) nodeName
    (some nodeConnectionIndex) []).1

end Workflow

end N8n
