import N8n.DirectedGraph
import N8n.Library.Elimination
import N8n.WorkflowExecute

/-!
# What a disabled node lets through

A full execution runs a disabled node like any other, and `handleDisabledNode` hands on what has
come in. A partial execution has no disabled nodes: `filterDisabledNodes` has joined what was
connected through them.
-/

namespace N8n

/-- The first main input comes out of the first output. -/
def handleDisabledNode (inputData : TaskDataConnections) : Option (List Slot) :=
  match inputData.get? .main with
  | some (input :: _) => if input = .null then none else some [input]
  | _ => none

namespace Workflow

variable (w : Workflow)

/-- Each node is under its own name, as `setNodes` puts it. -/
def Named : Prop := ∀ nodeName node, w.nodes.get? nodeName = some node → node.name = nodeName

/-- The main connections of one output. -/
def connectionsAt (nodeName : String) (outputIndex : ℕ) : List Connection :=
  (((w.connectionsBySourceNode.ofType nodeName .main).getD []).getD outputIndex none).getD []

def Disabled (nodeName : String) : Prop :=
  ∃ node, w.nodes.get? nodeName = some node ∧ node.disabled = some true

def Edge (fromNode : String) (outputIndex inputIndex : ℕ) (toNode : String) : Prop :=
  ∃ connection ∈ w.connectionsAt fromNode outputIndex,
    connection.node = toNode ∧ connection.index = inputIndex

end Workflow

/-- What a node is run with when items have come in at one input. -/
def receivedAt (inputIndex : ℕ) (items : List Item) : TaskDataConnections :=
  Dict.empty.set .main (List.replicate inputIndex .null ++ [.items items])

/-- A full execution delivers the items that a node emits on an output to an input of another: over
a connection, or over one of a disabled node that has received them and hands them on. -/
inductive Receives (w : Workflow) (items : List Item) (fromNode : String) (outputIndex : ℕ) :
    String → ℕ → Prop
  | emitted {toNode inputIndex} : w.Edge fromNode outputIndex inputIndex toNode →
      Receives w items fromNode outputIndex toNode inputIndex
  | handedOn {node k o toNode inputIndex} : Receives w items fromNode outputIndex node k →
      w.Disabled node →
      slotAt ((handleDisabledNode (receivedAt k items)).getD []) o = .items items →
      w.Edge node o inputIndex toNode →
      Receives w items fromNode outputIndex toNode inputIndex

/-- The filtered graph connects two enabled nodes exactly where a full execution delivers. -/
def RoutesAlike (w : Workflow) (filteredGraph : DirectedGraph) : Prop :=
  ∀ u v : Node, w.nodes.get? u.name = some u → w.nodes.get? v.name = some v →
    u.disabled ≠ some true → v.disabled ≠ some true →
    ∀ (outputIndex inputIndex : ℕ) (items : List Item), items ≠ [] →
      ({ fromNode := u, toNode := v, type := .main, outputIndex, inputIndex } ∈
          filteredGraph.values ↔
        Receives w items u.name outputIndex v.name inputIndex)

/-- Where there is a route through disabled nodes, there is one that comes into each of them at its
first input and leaves it at its first output. -/
def StraightRoutes (w : Workflow) : Prop :=
  ∀ u v : Node, w.nodes.get? u.name = some u → w.nodes.get? v.name = some v →
    u.disabled ≠ some true → v.disabled ≠ some true → ∀ outputIndex inputIndex : ℕ,
      Elimination.Through w.Edge w.Disabled (fun _ _ => True) u.name outputIndex inputIndex v.name →
      Elimination.Through w.Edge w.Disabled (fun k o => k = 0 ∧ o = 0) u.name outputIndex
        inputIndex v.name

/-! ## Keys -/

/-- The connection as the graph has it. -/
structure HasConnection (w : Workflow) (c : GraphConnection) : Prop where
  fromNode : w.nodes.get? c.fromNode.name = some c.fromNode
  toNode : w.nodes.get? c.toNode.name = some c.toNode
  connected : ∃ outputs connections, w.connectionsBySourceNode.ofType c.fromNode.name c.type =
    some outputs ∧ outputs[c.outputIndex]? = some (some connections) ∧
    ∃ connection ∈ connections, connection.node = c.toNode.name ∧ connection.index = c.inputIndex

/-- The connections of the workflow, and those that are joined when disabled nodes go. -/
inductive JoinedConnection (w : Workflow) : GraphConnection → Prop
  | connection {c} : HasConnection w c → JoinedConnection w c
  | join {c c'} : JoinedConnection w c → JoinedConnection w c' → c.type = .main → c'.type = .main →
      c.toNode = c'.fromNode → c.toNode.disabled = some true →
      JoinedConnection w { c with toNode := c'.toNode, inputIndex := c'.inputIndex }

/-- No two of these connections have the same key. -/
def KeysDistinct (w : Workflow) : Prop :=
  ∀ c c', JoinedConnection w c → JoinedConnection w c' → makeKey c = makeKey c' → c = c'

end N8n
