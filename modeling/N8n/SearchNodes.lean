import N8n.ExportedGraph
import N8n.Library.Distances

/-!
# Searches over connections

`searchNodesBFS` goes level by level over the main connections of nodes. It keeps the nodes it has
come to in a plain object, which has the properties of `Object.prototype` besides its own.
-/

namespace N8n

open Relation Distances

/-- `IConnectedNode` -/
structure ConnectedNode where
  name : String
  indicies : List ℕ
  depth : ℕ
  deriving DecidableEq, Repr

namespace Connections

variable (connections : Connections)

/-- What is at the node and the type, after `hasOwnProperty` has been asked for both. -/
def ownOfType (nodeName : String) (type : NodeConnectionType) :
    Except String (Option (List (Option (List Connection)))) :=
  if "hasOwnProperty" ∈ connections.keys then .error typeError
  else .ok (connections.ofType nodeName type)

/-- The connections of a type that a node has. -/
def connectionsOf (type : NodeConnectionType) (nodeName : String) : List Connection :=
  flatConnections ((connections.ofType nodeName type).getD [])

/-- A connection of the type leads from the first node to the second. -/
def Connects (type : NodeConnectionType) (nodeName other : String) : Prop :=
  ∃ connection ∈ connections.connectionsOf type nodeName, connection.node = other

end Connections

/-! ## The search -/

/-- The elements of `returnConns` are objects of `visited`, here by their names. -/
structure NodesSearch where
  queue : List ConnectedNode
  visited : Dict String ConnectedNode := .empty
  returnConns : List String := []

namespace NodesSearch

variable (connections : Connections) (sourceNode : String)

def start : NodesSearch := { queue := [{ name := sourceNode, indicies := [], depth := 0 }] }

/-- One turn of `toAdd.forEach`. -/
def visit (depth : ℕ) (s : NodesSearch) (curr : ConnectedNode) : Except String NodesSearch :=
  match s.visited.get? curr.name with
  | some node => .ok { s with
      visited := s.visited.set curr.name
        { node with indicies := (node.indicies ++ curr.indicies).eraseDups } }
  | none =>
    -- an inherited property has no `indicies`
    if curr.name ∈ inheritedKeys then .error typeError
    else do
      let array ← connections.ownOfType curr.name .main
      return {
        queue := s.queue ++ (flatConnections (array.getD [])).map fun connection =>
          { name := connection.node, indicies := [connection.index], depth }
        visited := s.visited.set curr.name curr
        returnConns :=
          if curr.name = sourceNode then s.returnConns else s.returnConns ++ [curr.name] }

/-- One turn of the `while` loop, which counts `depth` up first. -/
def level (depth : ℕ) (s : NodesSearch) : Except String NodesSearch :=
  s.queue.foldlM (visit connections sourceNode (depth + 1)) { s with queue := [] }

/-- The `while` loop, where there is fuel for it. -/
def levels (maxDepth : ℤ) : ℕ → ℕ → NodesSearch → Option (Except String NodesSearch)
  | 0, _, _ => none
  | fuel + 1, depth, s =>
    if s.queue = [] ∨ (maxDepth ≠ -1 ∧ maxDepth < depth) then some (.ok s)
    else
      match level connections sourceNode depth s with
      | .error error => some (.error error)
      | .ok s => levels maxDepth fuel (depth + 1) s

/-- The objects of `returnConns`. -/
def found (s : NodesSearch) : List ConnectedNode := s.returnConns.filterMap s.visited.get?

end NodesSearch

def searchNodesBFS (connections : Connections) (sourceNode : String) (maxDepth : ℤ) :
    Option (Except String (List ConnectedNode)) :=
  (NodesSearch.levels connections sourceNode maxDepth (connections.keys.length + 2) 0
    (.start sourceNode)).map (·.map (·.found))

/-! ## What it is for -/

namespace Connections

variable (connections : Connections) (sourceNode : String)

/-- Main connections lead there from the source. -/
def Reached (nodeName : String) : Prop :=
  ReflTransGen (connections.Connects .main) sourceNode nodeName

/-- A connection with this index leads to the node from one that is reached. -/
def EntersAt (nodeName : String) (index : ℕ) : Prop :=
  ∃ other, connections.Reached sourceNode other ∧
    ∃ connection ∈ connections.connectionsOf .main other,
      connection.node = nodeName ∧ connection.index = index

/-- The nodes that are reached and are not the source, each once, with their distances and the
indexes at which they are entered. -/
structure Breadth (found : List ConnectedNode) : Prop where
  once : (found.map (·.name)).Nodup
  names : ∀ nodeName, nodeName ∈ found.map (·.name) ↔
    nodeName ≠ sourceNode ∧ connections.Reached sourceNode nodeName
  depth : ∀ node ∈ found, Nearest (connections.Connects .main) sourceNode node.depth node.name
  indicies : ∀ node ∈ found, node.indicies.Nodup ∧
    ∀ index, index ∈ node.indicies ↔ connections.EntersAt sourceNode node.name index

/-- No name the search comes to is one that objects inherit, nor is one of the connections the name
of the function it calls on them. -/
structure Searchable : Prop where
  own : "hasOwnProperty" ∉ connections.keys
  names : ∀ nodeName, connections.Reached sourceNode nodeName → nodeName ∉ inheritedKeys

end Connections

end N8n

/-!
## Connected nodes

`getConnectedNodes` with all of its arguments: for one connection type or several, and to a depth.
-/

namespace N8n

open Relation DepthFirst Distances

/-- `NodeConnectionType | 'ALL' | 'ALL_NON_MAIN'` -/
inductive ConnectionTypes
  | type (type : NodeConnectionType)
  | all
  | allNonMain
  deriving DecidableEq, Repr

/-- Puts nodes at the front, from where they are if they have been found before. -/
def moveToFront (addNodes returnNodes : List String) : List String :=
  addNodes.foldr (fun parentNodeName returnNodes =>
    parentNodeName :: returnNodes.erase parentNodeName) returnNodes

namespace Connections

variable (connections : Connections) (connectionType : ConnectionTypes)

/-- `types` -/
def types (nodeName : String) : List NodeConnectionType :=
  let keys := ((connections.get? nodeName).getD .empty).keys
  match connectionType with
  | .all => keys
  | .allNonMain => keys.filter (· ≠ .main)
  | .type type => [type]

/-- One call, where there is fuel for those that it makes. -/
def connectedNodes : ℕ → ℤ → String → List String → Option (List String)
  | 0, _, _, _ => none
  | fuel + 1, depth, nodeName, checkedNodesIncoming =>
    let newDepth := if depth = -1 then depth else depth - 1
    if depth = 0 then some []
    else if nodeName ∉ connections.keys then some []
    else
      (connections.types connectionType nodeName).foldlM (fun returnNodes type =>
        match connections.ofType nodeName type with
        | none => some returnNodes
        | some connectionsByIndex =>
          if nodeName ∈ checkedNodesIncoming then some returnNodes
          else
            let checkedNodes := checkedNodesIncoming ++ [nodeName]
            (flatConnections connectionsByIndex).foldlM (fun returnNodes connection =>
              if connection.node ∈ checkedNodes then some returnNodes
              else do
                let addNodes ← connectedNodes fuel newDepth connection.node checkedNodes
                return moveToFront addNodes (connection.node :: returnNodes))
              returnNodes)
        []

/-- `hasOwnProperty` of the connections is asked by each call with a depth, so by the first if by
any. -/
def getConnectedNodes (depth : ℤ) (nodeName : String) :
    Option (Except String (List String)) :=
  if depth ≠ 0 ∧ "hasOwnProperty" ∈ connections.keys then some (.error typeError)
  else
    (connections.connectedNodes connectionType (connections.keys.length + 1) depth nodeName []).map
      .ok

/-! ## What it is for -/

/-- The connections of the types that a node has, in order. -/
def connectionsOfTypes (nodeName : String) : List Connection :=
  (connections.types connectionType nodeName).flatMap fun type =>
    connections.connectionsOf type nodeName

/-- A connection of one of the types leads from the first node to the second. -/
def ConnectsOver (nodeName other : String) : Prop :=
  ∃ connection ∈ connections.connectionsOfTypes connectionType nodeName, connection.node = other

/-- The depth allows a path of so many connections. -/
def Within (depth : ℤ) (length : ℕ) : Prop := depth < 0 ∨ (length : ℤ) ≤ depth

/-- The nodes other than the start that a path within the depth leads to, without duplicates. -/
structure Connected (depth : ℤ) (nodeName : String) (found : List String) : Prop where
  nodup : found.Nodup
  mem : ∀ other, other ∈ found ↔ other ≠ nodeName ∧ ∃ length, Within depth length ∧
    Steps (connections.ConnectsOver connectionType) nodeName length other

/-- The targets of the connections of a node, it itself left out. -/
def targetsOf (nodeName : String) : List String :=
  ((connections.connectionsOfTypes connectionType nodeName).map (·.node)).filter (· ≠ nodeName)

/-- The first target is the second, or leads to it within the rest of the depth and not over the
node. -/
def Covers (depth : ℤ) (nodeName target other : String) : Prop :=
  ∃ length, Within depth (length + 1) ∧
    Steps (Avoiding (connections.ConnectsOver connectionType) [nodeName]) target length other

end Connections

end N8n
