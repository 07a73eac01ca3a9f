import N8n.Library.Runs
import N8n.ProcessRunExecutionData

/-!
# Waiting nodes that could run

What the scan of the waiting nodes would release, and the turns of the loop that leave such an entry
behind when they empty the stack.
-/

namespace N8n

namespace WorkflowExecute

variable (w : Workflow) (s : WorkflowExecute)

/-- The waiting entries of a node, by run index. -/
def entriesOf (nodeName : String) : List (ℕ × WaitingEntry) :=
  ((s.waitingExecution.get? nodeName).getD .empty).entries

/-- The scan itself would release the entry. It gets to an entry of a node only if the entries that
come before have data on the required inputs, too. -/
structure Releasable (nodeName : String) (entry : ℕ × WaitingEntry) : Prop where
  existing : (w.nodes.get? nodeName).isSome
  notAllRequired : w.allInputsRequired (w.node nodeName) = false
  required : entry ∈ (scanOrder ((s.waitingExecution.get? nodeName).getD .empty)).takeWhile
    fun entry => hasRequiredInputs (w.requiredInputs (w.node nodeName)) entry.2.main
  ancestors : ∀ parentNode ∈ w.getParentNodes nodeName, parentNode ∉ s.waitingExecution.keys
  items : hasItems entry.2.main

instance (nodeName : String) (entry : ℕ × WaitingEntry) :
    Decidable (s.Releasable w nodeName entry) :=
  decidable_of_iff (_ ∧ _ ∧ _ ∧ _ ∧ _)
    ⟨fun ⟨h₁, h₂, h₃, h₄, h₅⟩ => ⟨h₁, h₂, h₃, h₄, h₅⟩,
      fun ⟨h₁, h₂, h₃, h₄, h₅⟩ => ⟨h₁, h₂, h₃, h₄, h₅⟩⟩

def ReleasesNothing : Prop :=
  ∀ nodeName ∈ s.waitingExecution.keys, ∀ entry ∈ s.entriesOf nodeName,
    ¬ s.Releasable w nodeName entry

instance : Decidable (s.ReleasesNothing w) :=
  inferInstanceAs (Decidable (∀ nodeName ∈ s.waitingExecution.keys, _))

/-- The entry on the stack, when there is only one. -/
def lastEntry : Option ExecuteData :=
  match s.nodeExecutionStack with
  | [executionData] => some executionData
  | _ => none

end WorkflowExecute

namespace Attempt

/-- The node returns `null` or `undefined`, and that is what it comes to. -/
def ReturnsNoData (executionData : ExecuteData) (a : Attempt) : Prop :=
  a.result = .response none ∧ executionData.node.alwaysOutputData = false

instance (executionData : ExecuteData) (a : Attempt) : Decidable (a.ReturnsNoData executionData) :=
  inferInstanceAs (Decidable (_ ∧ _))

def isRequest (a : Attempt) : Bool :=
  match a.result with
  | .request _ => true
  | _ => false

end Attempt

/-- The node is not executed, or a call of it returns no data, or a request although there is no
parent to resume it: then nothing goes on the stack and the waiting nodes are not looked at. -/
def EndsBranch (s : WorkflowExecute) (executionData : ExecuteData) (t : Turn) : Prop :=
  s.isFilteredOut executionData.node.name ∨
    ∃ k < executionData.node.maxCalls, (t.attempt k).ReturnsNoData executionData ∨
      (t.attempt k).isRequest ∧ prepareRequestingNodeForResuming executionData = none

instance (s : WorkflowExecute) (executionData : ExecuteData) (t : Turn) :
    Decidable (EndsBranch s executionData t) :=
  inferInstanceAs (Decidable (_ ∨ _))

namespace Execution

variable (w : Workflow)

/-- The loop has not been left before the stack was empty, and no one waits for the execution or
for a destination node: then no entry is left that the scan would release. -/
def NothingAbandoned (x : Execution) : Prop :=
  x.left = false → x.state.nodeExecutionStack = [] → x.state.waitTill = false →
    x.state.destinationNode = none → x.state.ReleasesNothing w

instance (x : Execution) : Decidable (x.NothingAbandoned w) :=
  inferInstanceAs (Decidable (_ → _))

/-- The last entry of the stack does not end its branch while another node could run. And it does
not go to wait, which a requesting node with several inputs does. -/
def KeepsScanning (x : Execution) (t : Turn) : Prop :=
  ∀ executionData ∈ x.state.lastEntry,
    (EndsBranch x.state executionData t → x.state.ReleasesNothing w) ∧
      ∀ k < executionData.node.maxCalls, (t.attempt k).isRequest →
        (prepareRequestingNodeForResuming executionData).isSome →
          w.numberOfInputs executionData.node.name ≤ 1

instance (x : Execution) (t : Turn) : Decidable (x.KeepsScanning w t) :=
  inferInstanceAs (Decidable (∀ executionData ∈ x.state.lastEntry, _))

end Execution

end N8n
