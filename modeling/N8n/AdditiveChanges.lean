import N8n.Library.Doubles
import N8n.NodeReferences
import N8n.WorkflowDiff

/-!
# Additive changes

The rule `mergeAdditiveChanges` asks if a change to a workflow has only added to it. What a merge
drops is to be there in the version that the merged diff ends at.
-/

namespace N8n

open Doubles

/-! ## Nodes -/

/-- A parameter's value. An object or an array is known by its reference. -/
inductive StoredValue
  | string (value : CodeUnits)
  | number (value : Number)
  | boolean (value : Bool)
  | null
  | undefined
  | object (reference : ℕ)
  deriving DecidableEq

namespace StoredValue

/-- `===` -/
def strictEquals : StoredValue → StoredValue → Bool
  | .string value, .string value' => value = value'
  | .number value, .number value' => value.same value' && value ≠ .nan
  | .boolean value, .boolean value' => value = value'
  | .null, .null => true
  | .undefined, .undefined => true
  | .object reference, .object reference' => reference = reference'
  | _, _ => false

/-- Strings must only be contained in the new string. -/
def isKept : StoredValue → StoredValue → Bool
  | .string left, .string right => left <:+: right
  | left, right => left.strictEquals right

end StoredValue

/-- What `compareNodes` picks of a node. -/
structure PickedNode (τ : Type) where
  name : String
  /-- `type`, `typeVersion`, `webhookId` and `credentials` -/
  others : τ
  parameters : Dict String StoredValue
  deriving DecidableEq

variable {τ β : Type}

abbrev ParameterNode (τ : Type) := DiffableNode (PickedNode τ)

/-- `{ ...node, parameters: {} }` -/
def ParameterNode.withoutParameters (node : ParameterNode τ) : ParameterNode τ :=
  { node with fields := { node.fields with parameters := .empty } }

/-- The function of the library that compares what is picked. Nothing is picked of `undefined`. -/
abbrev IsEqual (τ : Type) := Option (PickedNode τ) → Option (PickedNode τ) → Bool

variable (isEqual : IsEqual τ)

def compareNodes : CompareNodes (PickedNode τ) := fun base target =>
  isEqual (base.map (·.fields)) (target.map (·.fields))

def nodeIsAdditive (prevNode nextNode : ParameterNode τ) : Bool :=
  let prevParams := prevNode.fields.parameters
  let nextParams := nextNode.fields.parameters
  if !compareNodes isEqual (some prevNode.withoutParameters) (some nextNode.withoutParameters) then
    false
  else if prevParams.keys.any fun x => (nextParams.get? x).isNone then false
  else prevParams.entries.all fun e => e.2.isKept ((nextParams.get? e.1).getD .undefined)

/-! ## The rule -/

inductive RuleError
  /-- `invariant broken` -/
  | invariantBroken
  deriving DecidableEq

/-- The loop over the diffs of the nodes. -/
def additiveLoop (nodes : List (ParameterNode τ)) :
    List (NodeDiff (PickedNode τ)) → Except RuleError Bool
  | [] => .ok true
  | d :: diffs =>
    if d.status = .deleted then .ok false
    else if d.status = .added then additiveLoop nodes diffs
    else
      match nodes.find? fun x => x.fields.name = d.node.fields.name with
      | none => .error .invariantBroken
      | some nextNode =>
        if d.status = .modified && !nodeIsAdditive isEqual d.node nextNode then .ok false
        else additiveLoop nodes diffs

def mergeAdditiveChanges : DiffRule (PickedNode τ) β RuleError := fun _prev next diff =>
  additiveLoop isEqual next.fromWorkflow.nodes (diff.entries.map Prod.snd)

/-! ## What is not to be lost -/

/-- The id is of a node that was added or modified. -/
def WorkflowDiff.Changes {α : Type} (diff : WorkflowDiff α) (id : String) : Prop :=
  ∃ d, diff.get? id = some d ∧ (d.status = .added ∨ d.status = .modified)

/-- What the node holds is there under its id. -/
def ContainsData (nodes : List (ParameterNode τ)) (node : ParameterNode τ) : Prop :=
  ∃ node' ∈ nodes, node'.id = node.id ∧ nodeIsAdditive isEqual node node' = true

/-- The nodes of the version that were added or modified there are contained in the other one. -/
def ChangesContained (kept previous version : IWorkflowBase (PickedNode τ) β) : Prop :=
  ∀ node ∈ version.nodes,
    (compareWorkflowsNodes (compareNodes isEqual) previous.nodes version.nodes).Changes node.id →
      ContainsData isEqual kept.nodes node

/-- The versions that a diff has grouped are contained in the one that it ends at. -/
def KeepsData (d : GroupedWorkflowHistory (PickedNode τ) β) : Prop :=
  (d.fromWorkflow :: d.groupedWorkflows).IsChain (ChangesContained isEqual d.toWorkflow)

/-- Grouping does not throw, and it drops no version that cannot be recovered. -/
def QuickMergesKeep (workflows : List (IWorkflowBase (PickedNode τ) β)) : Prop :=
  ∃ diffs, groupWorkflows (compareNodes isEqual) [mergeAdditiveChanges isEqual] workflows =
    .ok diffs ∧ ∀ d ∈ diffs, KeepsData isEqual d

end N8n
