import N8n.DirectedGraph
import N8n.Library.DepthFirst
import N8n.RecreateNodeExecutionStack

/-!
# What a partial execution runs

A partial execution runs the nodes between the trigger and the destination that have no data to
start from. What leads to a node, and where it leads to, is searched depth first in the graph.
-/

namespace N8n

namespace DirectedGraph

variable (g : DirectedGraph)

/-- `Array.from(this.nodes.values())` -/
def nodeList : List Node := g.nodes.entries.map (·.2)

def hasNode (nodeName : String) : Bool := (g.nodes.get? nodeName).isSome

/-! ## Children and parents -/

/-- The sources and the targets that the connections have. -/
def directChildren (node : Node) : Except String (List Node) := do
  return (← g.getDirectChildConnections node).map (·.toNode)

/-- The nodes that are marked on the way. -/
def getChildrenRecursive (depth : ℕ) (node : Node) (children : List Node) :
    Except String (List Node) :=
  DepthFirst.visit g.directChildren id depth node children

/-- No way goes deeper than there are nodes. -/
def getChildren (node : Node) : Except String (List Node) :=
  g.getChildrenRecursive (g.nodeList.length + 1) node []

/-- The connections that are marked on the way. -/
def getParentConnectionsRecursive (depth : ℕ) (node : Node) (connections : List GraphConnection) :
    Except String (List GraphConnection) :=
  DepthFirst.visit g.getDirectParentConnections (·.fromNode) depth node connections

/-- No way goes deeper than there are connections. -/
def getParentConnections (node : Node) : Except String (List GraphConnection) :=
  g.getParentConnectionsRecursive (g.values.length + 1) node []

end DirectedGraph

/-! ## The part between trigger and destination -/

namespace DirectedGraph

/-- `newGraph.addNodes(connection.from, connection.to)`, and the connection. -/
def keepConnection (newGraph : DirectedGraph) (connection : GraphConnection) :
    Except String DirectedGraph :=
  (newGraph.addNodes [connection.fromNode, connection.toNode]).addConnection connection

/-- `currentBranch` are the connections from `current` to the destination, the last one first. The
first argument bounds how many more there may be. -/
def findSubgraphRecursive (graph : DirectedGraph) (destinationNode trigger : Node) :
    ℕ → Node → DirectedGraph → List GraphConnection → Except String DirectedGraph
  | 0, _, newGraph, _ => .ok newGraph
  | depth + 1, current, newGraph, currentBranch =>
    if current = trigger then currentBranch.foldlM keepConnection (newGraph.addNode trigger)
    else do
      let parentConnections ← graph.getDirectParentConnections current
      if parentConnections = [] then return newGraph
      else if current = destinationNode ∧ destinationNode ∈ currentBranch.map (·.toNode) then
        return newGraph
      else if current ∈ currentBranch.map (·.toNode) then
        currentBranch.foldlM keepConnection newGraph
      else
        parentConnections.foldlM (fun newGraph parentConnection =>
          if parentConnection.type ≠ .main then .ok newGraph
          else findSubgraphRecursive graph destinationNode trigger depth parentConnection.fromNode
            newGraph (currentBranch ++ [parentConnection])) newGraph

/-- What is connected to a node, over any connections, by a connection other than a main one. -/
def keepSubNodes (graph subgraph : DirectedGraph) (node : Node) : Except String DirectedGraph := do
  let parentConnections ← graph.getParentConnections node
  (parentConnections.filter (·.type ≠ .main)).foldlM keepConnection subgraph

/-- No branch is longer than there are nodes, but for the connection that closes it. -/
def findSubgraph (graph : DirectedGraph) (destination trigger : Node) :
    Except String DirectedGraph := do
  let subgraph ← findSubgraphRecursive graph destination trigger (graph.nodeList.length + 1)
    destination .empty []
  subgraph.nodeList.foldlM (keepSubNodes graph) subgraph

end DirectedGraph

/-! ## Strongly connected components -/

/-- What `getStronglyConnectedComponents` keeps. The stack has its top first. -/
structure LowLinks where
  id : ℕ := 0
  visited : List Node := []
  ids : Dict Node ℕ := .empty
  lowLinkValues : Dict Node ℕ := .empty
  stack : List Node := []
  stronglyConnectedComponents : List (List Node) := []

namespace LowLinks

/-- A node that is new. -/
def visit (node : Node) (s : LowLinks) : LowLinks :=
  { s with
    id := s.id + 1
    visited := s.visited ++ [node]
    ids := s.ids.set node s.id
    lowLinkValues := s.lowLinkValues.set node s.id
    stack := node :: s.stack }

/-- If the child is on the stack, the node takes the lower value of the two. -/
def takeLowest (node child : Node) (s : LowLinks) : Except String LowLinks :=
  if child ∈ s.stack then
    match s.lowLinkValues.get? child, s.lowLinkValues.get? node with
    | some childLowLinkValue, some ownLowLinkValue =>
      .ok { s with
        lowLinkValues := s.lowLinkValues.set node (min childLowLinkValue ownLowLinkValue) }
    | _, _ => .error assertionError
  else .ok s

/-- What `while (next && lowLinkValues.get(next) === ownId)` goes over. -/
def hasLowLink (s : LowLinks) (ownId : ℕ) (next : Node) : Bool :=
  s.lowLinkValues.get? next = some ownId

/-- If the node has its own number, the top of the stack with that number is a component. -/
def popComponent (node : Node) (s : LowLinks) : Except String LowLinks :=
  match s.ids.get? node, s.lowLinkValues.get? node with
  | some ownId, some ownLowLinkValue =>
    if ownId = ownLowLinkValue then
      let scc := s.stack.takeWhile (s.hasLowLink ownId)
      .ok { s with
        stack := s.stack.dropWhile (s.hasLowLink ownId)
        stronglyConnectedComponents :=
          if scc = [] then s.stronglyConnectedComponents
          else s.stronglyConnectedComponents ++ [scc] }
    else .ok s
  | _, _ => .error assertionError

end LowLinks

namespace DirectedGraph

variable (g : DirectedGraph)

/-- The first argument bounds the depth. -/
def followNode : ℕ → Node → LowLinks → Except String LowLinks
  | 0, _, s => .ok s
  | depth + 1, node, s =>
    if node ∈ s.visited then .ok s
    else do
      let directChildren ← g.directChildren node
      let s ← directChildren.foldlM (fun s child => do
        let s ← followNode depth child s
        s.takeLowest node child) (s.visit node)
      s.popComponent node

/-- No way goes deeper than there are nodes. -/
def getStronglyConnectedComponents : Except String (List (List Node)) := do
  let s ← g.nodeList.foldlM (fun s node => g.followNode (g.nodeList.length + 1) node s) {}
  return s.stronglyConnectedComponents

/-! ## Cycles -/

/-- `if (found) return found` -/
def unlessFound (search : List Node → Except String (Option Node × List Node)) :
    Option Node × List Node → Except String (Option Node × List Node)
  | (some found, seen) => .ok (some found, seen)
  | (none, seen) => search seen

/-- The node that is found, with the nodes that have been seen. The first argument bounds the
depth. -/
def depthFirstSearchRecursive (fn : Node → Bool) :
    ℕ → Node → List Node → Except String (Option Node × List Node)
  | 0, _, seen => .ok (none, seen)
  | depth + 1, node, seen =>
    if node ∈ seen then .ok (none, seen)
    else if fn node then .ok (some node, seen ++ [node])
    else do
      let childConnections ← g.getDirectChildConnections node
      childConnections.foldlM (fun result childConnection =>
        unlessFound (depthFirstSearchRecursive fn depth childConnection.toNode) result)
        (none, seen ++ [node])

/-- No way goes deeper than there are nodes. -/
def depthFirstSearch (node : Node) (fn : Node → Bool) : Except String (Option Node) := do
  return (← g.depthFirstSearchRecursive fn (g.nodeList.length + 1) node []).1

end DirectedGraph

/-- One turn of the loop over the cycles: a start node that is in the cycle is replaced. -/
def handleCycle (graph : DirectedGraph) (trigger startNode : Node) (newStartNodes cycle : List Node) :
    Except String (List Node) :=
  if startNode ∈ cycle then do
    match ← graph.depthFirstSearch trigger (· ∈ cycle) with
    | some firstNode => return (newStartNodes.filter (· ≠ startNode)).insert firstNode
    | none => .error assertionError
  else .ok newStartNodes

/-- Components of one node are cycles here as well. -/
def handleCycles (graph : DirectedGraph) (startNodes : List Node) (trigger : Node) :
    Except String (List Node) := do
  let components ← graph.getStronglyConnectedComponents
  let cycles := components.filter (·.length ≥ 1)
  if cycles = [] then return startNodes
  else startNodes.foldlM (fun newStartNodes startNode =>
    cycles.foldlM (handleCycle graph trigger startNode) newStartNodes) startNodes

/-! ## Run data that are stale -/

/-- The run data without those of a node and of what is connected towards it, but for main
connections. -/
def cleanNode (graph : DirectedGraph) (newRunData : Dict String (List TaskData)) (node : Node) :
    Except String (Dict String (List TaskData)) := do
  let subNodeConnections ← graph.getParentConnections node
  return (subNodeConnections.filter (·.type ≠ .main)).foldl
    (fun newRunData subNodeConnection => newRunData.erase subNodeConnection.fromNode.name)
    (newRunData.erase node.name)

/-- A node and its children. -/
def cleanNodes (graph : DirectedGraph) (newRunData : Dict String (List TaskData))
    (nodeToClean : Node) : Except String (Dict String (List TaskData)) := do
  let children ← graph.getChildren nodeToClean
  (nodeToClean :: children).foldlM (cleanNode graph) (newRunData.erase nodeToClean.name)

/-- Run data of nodes that are not in the graph are removed as well. -/
def cleanRunData (runData : Dict String (List TaskData)) (graph : DirectedGraph)
    (nodesToClean : List Node) : Except String (Dict String (List TaskData)) := do
  let newRunData ← nodesToClean.foldlM (cleanNodes graph) runData
  return newRunData.filterKeys graph.hasNode

/-! ## Start nodes -/

section StartNodes

variable (graph : DirectedGraph) (destination : Node) (runData : Dict String (List TaskData))
  (pinData : Dict String (List Item))

/-- It has neither pinned data nor run data. -/
def isDirty (node : Node) : Bool :=
  (pinData.get? node.name).isNone && (runData.get? node.name).isNone

/-- `getIncomingData` of the last run, at -1. -/
def getLastIncomingData (nodeName : String) (connectionType : NodeConnectionType)
    (outputIndex : ℕ) : Except String Slot :=
  getIncomingData runData nodeName (getRunIndexLength runData nodeName - 1) connectionType
    outputIndex

def splitInBatches : String := "n8n-nodes-base.splitInBatches"

/-- A loop node that had no items on its first output in its last run. -/
def isOpenLoop (node : Node) : Except String Bool :=
  if node.type = splitInBatches then do
    match ← getLastIncomingData runData node.name .main 0 with
    | .items (_ :: _) => return false
    | _ => return true
  else .ok false

/-- The connection's source has items on the output in some run, or it is pinned. -/
def isFollowed (connection : GraphConnection) : Except String Bool := do
  let nodeRunData ← getIncomingDataFromAnyRun runData connection.fromNode.name connection.type
    connection.outputIndex
  return nodeRunData.isSome || (pinData.get? connection.fromNode.name).isSome

/-- The start nodes found so far, with those beyond `current`. The nodes on the way there are seen;
the first argument bounds how many more there may be. -/
def findStartNodesRecursive : ℕ → Node → List Node → List Node → Except String (List Node)
  | 0, _, startNodes, _ => .ok startNodes
  | depth + 1, current, startNodes, seen =>
    if isDirty runData pinData current then .ok (startNodes.insert current)
    else if current = destination then .ok (startNodes.insert current)
    else do
      if ← isOpenLoop runData current then return startNodes.insert current
      else if current ∈ seen then return startNodes
      else
        let outGoingConnections ← graph.getDirectChildConnections current
        outGoingConnections.foldlM (fun startNodes outGoingConnection => do
          if ← isFollowed runData pinData outGoingConnection then
            findStartNodesRecursive depth outGoingConnection.toNode startNodes (seen ++ [current])
          else return startNodes) startNodes

/-- No way is longer than there are nodes, but for the node that closes it. -/
def findStartNodes (trigger : Node) : Except String (List Node) :=
  findStartNodesRecursive graph destination runData pinData (graph.nodeList.length + 1) trigger [] []

end StartNodes

end N8n
