import N8n.Workflow

/-!
# The graph of a partial execution

`DirectedGraph` lists the nodes of a workflow and its connections, each under a key made of its
parts. Partial executions take the disabled nodes out of it with `filterDisabledNodes`.
-/

namespace N8n

def NodeConnectionType.text : NodeConnectionType → String
  | .aiAgent => "ai_agent"
  | .aiChain => "ai_chain"
  | .aiDocument => "ai_document"
  | .aiEmbedding => "ai_embedding"
  | .aiLanguageModel => "ai_languageModel"
  | .aiMemory => "ai_memory"
  | .aiOutputParser => "ai_outputParser"
  | .aiRetriever => "ai_retriever"
  | .aiReranker => "ai_reranker"
  | .aiTextSplitter => "ai_textSplitter"
  | .aiTool => "ai_tool"
  | .aiVectorStore => "ai_vectorStore"
  | .main => "main"

structure GraphConnection where
  fromNode : Node
  toNode : Node
  type : NodeConnectionType
  outputIndex : ℕ
  inputIndex : ℕ
  deriving DecidableEq

/-- Joined by hyphens, which a name may contain as well. -/
def makeKey (connection : GraphConnection) : String :=
  connection.fromNode.name ++ "-" ++ connection.type.text ++ "-" ++
    toString connection.outputIndex ++ "-" ++ toString connection.inputIndex ++ "-" ++
    connection.toNode.name

/-- Each connection is under its own key. -/
structure DirectedGraph where
  nodes : Dict String Node := .empty
  connections : Dict String GraphConnection := .empty
  keyed : ∀ key connection, connections.get? key = some connection → key = makeKey connection := by
    intro _ _ h; cases h
  deriving DecidableEq

def assertionError : String := "AssertionError"

namespace DirectedGraph

def empty : DirectedGraph := {}

variable (g : DirectedGraph)

/-- The node itself is in the graph, not another one of its name. -/
def contains (node : Node) : Bool := g.nodes.get? node.name = some node

def values : List GraphConnection := g.connections.entries.map (·.2)

/-- `getConnections({ to: node })` -/
def getConnections (node : Node) : List GraphConnection := g.values.filter (·.toNode = node)

def getDirectParentConnections (node : Node) : Except String (List GraphConnection) :=
  if g.contains node then .ok (g.values.filter (·.toNode = node)) else .error assertionError

def getDirectChildConnections (node : Node) : Except String (List GraphConnection) :=
  if g.contains node then .ok (g.values.filter (·.fromNode = node)) else .error assertionError

def addNode (node : Node) : DirectedGraph := { g with nodes := g.nodes.set node.name node }

def addNodes (nodes : List Node) : DirectedGraph := nodes.foldl addNode g

def setConnection (connection : GraphConnection) : DirectedGraph where
  nodes := g.nodes
  connections := g.connections.set (makeKey connection) connection
  keyed := by
    intro key connection' h
    rw [Dict.get?_set] at h
    split_ifs at h with hkey
    · rw [hkey, Option.some.inj h]
    · exact g.keyed key connection' h

def addConnection (connection : GraphConnection) : Except String DirectedGraph :=
  if g.contains connection.fromNode ∧ g.contains connection.toNode then
    .ok (g.setConnection connection)
  else .error assertionError

def addConnections (connections : List GraphConnection) : Except String DirectedGraph :=
  connections.foldlM addConnection g

/-! ## Out of a workflow -/

/-- The connections of one output. The type a connection is written with is not looked at. -/
def connectionsFrom (w : Workflow) (fromNode : Node) (type : NodeConnectionType)
    (outputIndex : ℕ) (connections : List Connection) : Except String (List GraphConnection) :=
  connections.mapM fun connection =>
    match w.nodes.get? connection.node with
    | none => .error assertionError
    | some toNode =>
      .ok { fromNode, toNode, type, outputIndex, inputIndex := connection.index }

/-- The connections of a node. -/
def nodeConnections (w : Workflow) (fromNodeName : String) :
    Except String (List GraphConnection) :=
  match w.nodes.get? fromNodeName with
  | none => .error assertionError
  | some fromNode => do
    let ofNode := (w.connectionsBySourceNode.get? fromNodeName).getD .empty
    let connections ← ofNode.entries.mapM fun (type, outputs) =>
      outputs.zipIdx.mapM fun (connections, outputIndex) =>
        connectionsFrom w fromNode type outputIndex (connections.getD [])
    return connections.flatten.flatten

def fromWorkflow (w : Workflow) : Except String DirectedGraph := do
  let connections ← (objectKeys w.connectionsBySourceNode.keys).mapM (nodeConnections w)
  (addNodes {} ((objectKeys w.nodes.keys).map w.node)).addConnections connections.flatten

/-! ## Disabled nodes -/

def clone : Except String DirectedGraph :=
  (addNodes {} (g.nodes.entries.map (·.2))).addConnections g.values

/-- Each connection into the node is joined with each connection out of it, but for those that are
skipped. -/
def newConnections (skipConnection : GraphConnection → Bool)
    (incoming outgoing : List GraphConnection) : List GraphConnection :=
  (incoming.filter (!skipConnection ·)).flatMap fun incomingConnection =>
    (outgoing.filter (!skipConnection ·)).map fun outgoingConnection =>
      { incomingConnection with
        toNode := outgoingConnection.toNode
        inputIndex := outgoingConnection.inputIndex }

/-- The graph without the connections of a node. -/
def dropConnections (node : Node) : DirectedGraph where
  nodes := g.nodes
  connections := g.connections.filter fun connection =>
    connection.toNode ≠ node ∧ connection.fromNode ≠ node
  keyed := fun key connection h => g.keyed key connection
    (Dict.mem_entries.1 (List.mem_of_mem_filter (Dict.mem_entries.2 h)))

/-- `removeNode` with `reconnectConnections`. -/
def removeNode (node : Node) (skipConnection : GraphConnection → Bool) :
    Except String DirectedGraph := do
  let incoming ← g.getDirectParentConnections node
  let outgoing ← g.getDirectChildConnections node
  let joined := (newConnections skipConnection incoming outgoing).foldl setConnection
    (g.dropConnections node)
  return { joined with nodes := joined.nodes.erase node.name }

/-- One node of the loop of `filterDisabledNodes`. -/
def filterNode (filteredGraph : DirectedGraph) (node : Node) : Except String DirectedGraph :=
  if node.disabled = some true then filteredGraph.removeNode node (·.type ≠ .main)
  else .ok filteredGraph

def filterDisabledNodes : Except String DirectedGraph := do
  let filteredGraph ← g.clone
  (filteredGraph.nodes.entries.map (·.2)).foldlM filterNode filteredGraph

end DirectedGraph

end N8n
