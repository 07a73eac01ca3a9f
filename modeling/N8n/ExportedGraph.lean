import N8n.DirectedGraph
import N8n.WorkflowExecute

/-!
# Graphs as workflows

`toWorkflow` groups the connections of a graph by the names of their sources, by type and by output.
The groups are kept in plain objects and arrays. An object has the properties of `Object.prototype`
besides its own, and an array has no elements from its limit on.
-/

namespace N8n

/-- The properties that every object inherits. -/
def inheritedKeys : List String :=
  ["constructor", "__defineGetter__", "__defineSetter__", "hasOwnProperty", "__lookupGetter__",
    "__lookupSetter__", "isPrototypeOf", "propertyIsEnumerable", "toString", "valueOf", "__proto__",
    "toLocaleString"]

/-- To set this property sets the prototype. -/
def protoKey : String := "__proto__"

/-- An array has elements at smaller indexes only. -/
def arrayLimit : ℕ := 2 ^ 32 - 1

/-- Pushes a connection into the group of an output. A group beyond the limit becomes a property of
the array, which its entries do not show. -/
def pushToGroup (outputs : List (Option (List Connection))) (outputIndex : ℕ)
    (connection : Connection) : List (Option (List Connection)) :=
  if outputIndex < arrayLimit then
    setAt outputs outputIndex none (some ((outputs.getD outputIndex none).getD [] ++ [connection]))
  else outputs

namespace DirectedGraph

variable (g : DirectedGraph)

/-- Only the first connection of a node makes room, for its own type. An inherited property has room
for none. -/
def resultConnection (result : Connections) (connection : GraphConnection) : NodeConnections :=
  match result.get? connection.fromNode.name with
  | some resultConnection => resultConnection
  | none =>
    if connection.fromNode.name ∈ inheritedKeys then .empty
    else Dict.empty.set connection.type []

/-- One connection of the loop of `toIConnections`. -/
def addIConnection (result : Connections) (connection : GraphConnection) :
    Except String Connections :=
  match (resultConnection result connection).get? connection.type with
  | none => .error typeError
  | some outputs =>
    .ok (result.set connection.fromNode.name
      ((resultConnection result connection).set connection.type
        (pushToGroup outputs connection.outputIndex
          { node := connection.toNode.name, type := connection.type
            index := connection.inputIndex })))

def toIConnections : Except String Connections := g.values.foldlM addIConnection .empty

end DirectedGraph

namespace Workflow

/-- A node of that name becomes the prototype, and is no entry. -/
def setNode (nodes : Dict String Node) (node : Node) : Dict String Node :=
  if node.name = protoKey then nodes else nodes.set node.name node

def setNodes (nodes : List Node) : Dict String Node := nodes.foldl setNode .empty

/-- The targets of connections, in the order in which `mapConnectionsByDestination` comes to
them. -/
def targets (connections : Connections) : List String :=
  (objectKeys connections.keys).flatMap fun sourceNode =>
    ((connections.get? sourceNode).getD .empty).entries.flatMap fun entry =>
      (flatConnections entry.2).map (·.node)

/-- `setConnections`: what `mapConnectionsByDestination` builds is asked `hasOwnProperty` for each
target, and has an entry of that name once there was such a target. -/
def setConnections (connections : Connections) : Except String Connections :=
  if "hasOwnProperty" ∈ (targets connections).dropLast then .error typeError
  else .ok connections

end Workflow

/-- The workflow has the parameters besides its nodes and connections. -/
def DirectedGraph.toWorkflow (g : DirectedGraph) (parameters : Workflow) :
    Except String Workflow := do
  let connections ← g.toIConnections
  let connectionsBySourceNode ← Workflow.setConnections connections
  return { parameters with
    nodes := Workflow.setNodes (g.nodes.entries.map (·.2))
    connectionsBySourceNode }

end N8n
