import N8n.Library.Runs
import N8n.Workflow

/-!
# The two indexes of a workflow's connections

The class `Workflow` keeps the connections by their source, and beside them the index by
destination that `mapConnectionsByDestination` makes of these. The calls that write them are
`setConnections` and `renameNode`.
-/

namespace N8n

/-! ## The connections an index holds -/

/-- A connection with the place it is entered under. -/
structure Link where
  node : String
  type : NodeConnectionType
  index : ℕ
  connection : Connection
  deriving DecidableEq, Repr

/-- The same connection in the other index. -/
def Link.mirror (l : Link) : Link where
  node := l.connection.node
  type := l.connection.type
  index := l.connection.index
  connection := { node := l.node, type := l.type, index := l.index }

namespace Connections

def linksAt (node : String) (type : NodeConnectionType)
    (array : List (Option (List Connection))) : List Link :=
  array.zipIdx.flatMap fun (connections, index) =>
    (connections.getD []).map fun connection => { node, type, index, connection }

def linksOf (node : String) (ofNode : NodeConnections) : List Link :=
  ofNode.entries.flatMap fun (type, array) => linksAt node type array

def links (connections : Connections) : List Link :=
  connections.entries.flatMap fun (node, ofNode) => linksOf node ofNode

end Connections

/-! ## The edits -/

/-- The fields of the class `Workflow` that its edits of connections work on. -/
structure WorkflowIndexes where
  nodes : Dict String Node
  connectionsBySourceNode : Connections
  connectionsByDestinationNode : Connections
  deriving DecidableEq

def restrictedKeys : List String :=
  ["hasOwnProperty", "isPrototypeOf", "propertyIsEnumerable", "toLocaleString", "toString",
    "valueOf", "constructor", "prototype", "__proto__", "__defineGetter__", "__defineSetter__",
    "__lookupGetter__", "__lookupSetter__"]

def isRestricted (newName : String) : Bool :=
  (restrictedKeys.map fun key => key.toList.map Char.toLower).contains
    (newName.toList.map Char.toLower)

/-- `connectionData.node = newName`, wherever it is the current name. -/
def Connection.rename (currentName newName : String) (connectionData : Connection) : Connection :=
  if connectionData.node = currentName then { connectionData with node := newName }
  else connectionData

namespace Connections

/-- What the old name has becomes what the new name has. -/
def renameSource (connections : Connections) (currentName newName : String) : Connections :=
  match connections.get? currentName with
  | none => connections
  | some ofNode => (connections.set newName ofNode).erase currentName

def renameDestinations (connections : Connections) (currentName newName : String) : Connections :=
  connections.mapValues fun ofNode => ofNode.mapValues fun array =>
    array.map (Option.map (List.map (Connection.rename currentName newName)))

end Connections

namespace WorkflowIndexes

def setConnections (x : WorkflowIndexes) (connections : Connections) : WorkflowIndexes :=
  { x with
    connectionsBySourceNode := connections
    connectionsByDestinationNode := mapConnectionsByDestination connections }

/-- The constructor. -/
def create (nodes : Dict String Node) (connections : Connections) : WorkflowIndexes :=
  setConnections
    { nodes, connectionsBySourceNode := .empty, connectionsByDestinationNode := .empty }
    connections

/-- The nodes, with the old name's entry under the new name. -/
def renameInNodes (nodes : Dict String Node) (currentName newName : String) : Dict String Node :=
  match nodes.get? currentName with
  | none => nodes
  | some node => (nodes.set newName { node with name := newName }).erase currentName

/-- A restricted name is refused before anything is written. -/
def renameNode (x : WorkflowIndexes) (currentName newName : String) :
    Except String WorkflowIndexes :=
  if isRestricted newName then .error ("Node name \"" ++ newName ++ "\" is a restricted name.")
  else .ok { x with
    nodes := renameInNodes x.nodes currentName newName
    connectionsBySourceNode :=
      (x.connectionsBySourceNode.renameSource currentName newName).renameDestinations currentName
        newName }

end WorkflowIndexes

inductive WorkflowEdit
  | setConnections (connections : Connections)
  | renameNode (currentName newName : String)

namespace WorkflowIndexes

/-- An edit that is refused leaves the workflow as it is. -/
def step (x : WorkflowIndexes) : WorkflowEdit → WorkflowIndexes
  | .setConnections connections => x.setConnections connections
  | .renameNode currentName newName =>
    match x.renameNode currentName newName with
    | .error _ => x
    | .ok x => x

/-- The new name is another one, and no node has it. -/
def Admissible (x : WorkflowIndexes) : WorkflowEdit → Prop
  | .setConnections _ => True
  | .renameNode currentName newName => newName ≠ currentName ∧ newName ∉ x.nodes.keys

instance (x : WorkflowIndexes) : ∀ e, Decidable (x.Admissible e)
  | .setConnections _ => inferInstanceAs (Decidable True)
  | .renameNode _ _ => inferInstanceAs (Decidable (_ ∧ _))

/-- The index by destination has the connections that the index by source makes. -/
def Mirrors (x : WorkflowIndexes) : Prop :=
  ∀ l, l ∈ x.connectionsByDestinationNode.links ↔
    l ∈ (mapConnectionsByDestination x.connectionsBySourceNode).links

/-- No connection leaves or reaches the node that is renamed, and none left behind by another node
is overwritten. -/
def KeepsLinks (x : WorkflowIndexes) : WorkflowEdit → Prop
  | .setConnections _ => True
  | .renameNode currentName newName => isRestricted newName ∨
    (∀ l ∈ x.connectionsBySourceNode.links, l.node ≠ currentName ∧
      l.connection.node ≠ currentName) ∧
    (currentName ∈ x.connectionsBySourceNode.keys →
      ∀ l ∈ x.connectionsBySourceNode.links, l.node ≠ newName)

instance (x : WorkflowIndexes) : ∀ e, Decidable (x.KeepsLinks e)
  | .setConnections _ => inferInstanceAs (Decidable True)
  | .renameNode _ _ => inferInstanceAs (Decidable (_ ∨ _))

end WorkflowIndexes

end N8n
