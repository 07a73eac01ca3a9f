import N8n.Library.Topmost
import N8n.ProcessRunExecutionData

/-!
# The nodes above a node

Which nodes lead to a node over main connections, and which of them are the highest.
-/

namespace N8n

open Relation Traversal

namespace Workflow

variable (w : Workflow)

/-- `getHighestNode` of all inputs. -/
def highestNodes (nodeName : String) : List String :=
  (w.getHighestNodeFrom (w.connectionsByDestinationNode.keys.length + 1) nodeName none []).1

/-- The nodes of the workflow that these connections come from. -/
def existing (connections : List Connection) : List String :=
  (connections.map (·.node)).filter fun nodeName => (w.nodes.get? nodeName).isSome

/-- The nodes with a main connection to the node. -/
def mainParents (nodeName : String) : List String :=
  w.existing (flatConnections ((w.connectionsByDestinationNode.ofType nodeName .main).getD []))

/-- The nodes with a connection to this input of the node. -/
def parentsAt (nodeName : String) (connectionIndex : ℕ) : List String :=
  w.existing ((((w.connectionsByDestinationNode.ofType nodeName .main).getD []).getD connectionIndex
    none).getD [])

def isEnabled (nodeName : String) : Bool := (w.node nodeName).disabled ≠ some true

/-- No main connection leads to the node. -/
def isSource (nodeName : String) : Bool :=
  (w.connectionsByDestinationNode.ofType nodeName .main).isNone

/-- The second node leads to the first. -/
def Above : String → String → Prop := TransGen fun a b => b ∈ w.mainParents a

def Acyclic : Prop := ∀ nodeName, ¬ w.Above nodeName nodeName

/-- An enabled node above the other, with no enabled node above it. -/
structure Highest (nodeName highest : String) : Prop where
  above : w.Above nodeName highest
  enabled : w.isEnabled highest
  last : ∀ node, w.isEnabled node → ¬ w.Above highest node

/-- The nodes with inputs in the order in which a depth-first traversal up from the node enters
them. -/
def entered (nodeName : String) : Order String :=
  walk (Topmost.inner w.mainParents w.isSource) (plain String)
    (w.connectionsByDestinationNode.keys.length + 2) nodeName {}

/-- The traversal from a node up comes to an enabled node over nodes it has not entered before. -/
def FindsEnabled (nodeName above : String) : Prop :=
  ∃ node, w.isEnabled node ∧ TransGen (fun a b => b ∈ w.mainParents a ∧
    (w.entered nodeName).num above < (w.entered nodeName).num b) above node

/-- An enabled node leads to this input of the node. -/
def EnabledAbove (nodeName : String) (connectionIndex : ℕ) : Prop :=
  ∃ node, w.isEnabled node ∧ ∃ parent ∈ w.parentsAt nodeName connectionIndex,
    parent = node ∨ w.Above parent node

/-- An enabled node leads to this input and to each one before, and not over the node itself. -/
def Checked (nodeName : String) (connectionIndex : ℕ) : Prop :=
  ∀ i ≤ connectionIndex, ∃ node, w.isEnabled node ∧
    Topmost.From w.mainParents (w.parentsAt nodeName i) [nodeName] node

end Workflow

namespace ExecuteData

variable (executionData : ExecuteData)

/-- There is a list of items at the input. -/
def HasList (connectionIndex : ℕ) : Prop :=
  ∃ items, slotAt executionData.main connectionIndex = .items items

/-- There is no data at all, or the input is `null`, or it comes after the first that is not there. -/
def Lacks (connectionIndex : ℕ) : Prop :=
  executionData.data.get? .main = none ∨ executionData.main.length < connectionIndex ∨
    slotAt executionData.main connectionIndex = .null

end ExecuteData

namespace WorkflowExecute

/-- An entry that may run has a list on each input that enabled nodes lead to. Another one is put at
the end of the stack, and that is all. -/
def AdmitsComplete (w : Workflow) (s : WorkflowExecute) (executionNode : Node)
    (executionData : ExecuteData) : Prop :=
  ((s.ensureInputData w executionNode executionData).2 = true →
    ∀ i < w.numberOfInputs executionNode.name, w.EnabledAbove executionNode.name i →
      executionData.HasList i) ∧
  ((s.ensureInputData w executionNode executionData).2 = false →
    (s.ensureInputData w executionNode executionData).1 =
      { s with nodeExecutionStack := s.nodeExecutionStack ++ [executionData] })

end WorkflowExecute

end N8n
