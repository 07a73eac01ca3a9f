import N8n.Library.Dict
import N8n.Library.Fallible

/-!
# Diffs of a workflow's history

The versions of a workflow are compared node by node, by the ids of the nodes, and the diffs of
consecutive versions are merged where a rule asks for it.
-/

namespace N8n

/-- A node with whatever else a comparison reads of it. -/
structure DiffableNode (α : Type) where
  id : String
  fields : α
  deriving DecidableEq

inductive NodeDiffStatus
  | eq | modified | added | deleted
  deriving DecidableEq, Repr

structure NodeDiff (α : Type) where
  status : NodeDiffStatus
  node : DiffableNode α
  deriving DecidableEq

abbrev WorkflowDiff (α : Type) := Dict String (NodeDiff α)

variable {α β ε : Type}

/-! ## Comparing -/

/-- The last node of each id. -/
def nodesById (nodes : List (DiffableNode α)) : Dict String (DiffableNode α) :=
  nodes.foldl (fun acc node => acc.set node.id node) .empty

/-- How a node of the base is found in the target. -/
def baseStatus (nodesEqual : Option (DiffableNode α) → Option (DiffableNode α) → Bool)
    (baseNodes targetNodes : Dict String (DiffableNode α)) (id : String) : NodeDiffStatus :=
  if targetNodes.get? id = none then .deleted
  else if nodesEqual (baseNodes.get? id) (targetNodes.get? id) = false then .modified
  else .eq

def compareWorkflowsNodes (nodesEqual : Option (DiffableNode α) → Option (DiffableNode α) → Bool)
    (base target : List (DiffableNode α)) : WorkflowDiff α :=
  let baseNodes := nodesById base
  let targetNodes := nodesById target
  let diff := baseNodes.entries.foldl
    (fun diff e => diff.set e.1 { status := baseStatus nodesEqual baseNodes targetNodes e.1
                                  node := e.2 }) .empty
  targetNodes.entries.foldl
    (fun diff e => if baseNodes.get? e.1 = none then diff.set e.1 { status := .added, node := e.2 }
      else diff) diff

/-! ## Merging -/

inductive MergedStatus
  | status (status : NodeDiffStatus)
  | undone
  | invariantBroken
  deriving DecidableEq, Repr

def mergeNodeDiff : NodeDiffStatus → NodeDiffStatus → MergedStatus
  | .added, .added => .invariantBroken
  | .added, .deleted => .undone
  | .added, _ => .status .added
  | .deleted, .added => .status .modified
  | .deleted, _ => .invariantBroken
  | .eq, .added => .invariantBroken
  | .eq, next => .status next
  | .modified, .added => .invariantBroken
  | .modified, .deleted => .status .deleted
  | .modified, _ => .status .modified

inductive GroupError (ε : Type)
  /-- `invariant broken` -/
  | invariantBroken
  /-- A property of `undefined` is read. -/
  | undefined
  /-- A rule has thrown. -/
  | rule (error : ε)
  deriving DecidableEq

structure WorkflowChangeSet (α : Type) where
  nodes : WorkflowDiff α := .empty
  deriving DecidableEq

namespace WorkflowChangeSet

/-- What the entry of an id becomes. -/
def mergeEntry (existing : Option (NodeDiff α)) (diff : NodeDiff α) :
    Except (GroupError ε) (Option (NodeDiff α)) :=
  match existing with
  | some existing =>
    match mergeNodeDiff existing.status diff.status with
    | .invariantBroken => .error .invariantBroken
    | .undone => .ok none
    | .status status => .ok (some { diff with status })
  | none => .ok (some { diff with status := .added })

def mergeNext (s wcs : WorkflowChangeSet α) : Except (GroupError ε) (WorkflowChangeSet α) := do
  let nodes ← wcs.nodes.entries.foldlM (fun nodes e =>
    (mergeEntry (nodes.get? e.1) e.2).map (nodes.put e.1)) s.nodes
  return { nodes }

end WorkflowChangeSet

/-! ## Grouping -/

/-- A version of a workflow: its nodes and everything else. -/
structure IWorkflowBase (α β : Type) where
  nodes : List (DiffableNode α)
  fields : β
  deriving DecidableEq

structure GroupedWorkflowHistory (α β : Type) where
  workflowChangeSet : WorkflowChangeSet α := {}
  groupedWorkflows : List (IWorkflowBase α β) := []
  fromWorkflow : IWorkflowBase α β
  toWorkflow : IWorkflowBase α β
  deriving DecidableEq

abbrev DiffRule (α β ε : Type) :=
  GroupedWorkflowHistory α β → GroupedWorkflowHistory α β → WorkflowDiff α → Except ε Bool

/-- The function that compares two nodes. -/
abbrev CompareNodes (α : Type) := Option (DiffableNode α) → Option (DiffableNode α) → Bool

variable (compareNodes : CompareNodes α) (rules : List (DiffRule α β ε))

def compareWorkflows (previous next : IWorkflowBase α β) : GroupedWorkflowHistory α β where
  workflowChangeSet := { nodes := compareWorkflowsNodes compareNodes previous.nodes next.nodes }
  fromWorkflow := previous
  toWorkflow := next

/-- The diff goes on to where `right` ends. -/
def GroupedWorkflowHistory.mergeRight (prev right : GroupedWorkflowHistory α β) :
    Except (GroupError ε) (GroupedWorkflowHistory α β) := do
  let workflowChangeSet ← prev.workflowChangeSet.mergeNext right.workflowChangeSet
  return { prev with
    workflowChangeSet
    groupedWorkflows := prev.groupedWorkflows ++ prev.toWorkflow :: right.groupedWorkflows
    toWorkflow := right.toWorkflow }

namespace GroupWorkflows

/-- Some rule says that the two diffs are to be merged; the rules after it are not asked. -/
def shouldMerge (prev next : GroupedWorkflowHistory α β) : Except (GroupError ε) Bool :=
  let diff := compareWorkflowsNodes compareNodes prev.fromWorkflow.nodes next.toWorkflow.nodes
  let asked : Except ε Bool := rules.anyM fun rule => rule prev next diff
  asked.mapError .rule

/-- The last diff is taken off the list and merged into the one before the index. -/
def popInto (i : ℕ) (diffs : List (GroupedWorkflowHistory α β)) :
    Except (GroupError ε) (List (GroupedWorkflowHistory α β)) :=
  match diffs.getLast?, diffs.dropLast[i - 1]? with
  | none, _ => .error .invariantBroken
  | some _, none => .error .undefined
  | some right, some prev => do
    let merged ← prev.mergeRight right
    return diffs.dropLast.set (i - 1) merged

/-- The body of the loop at an index. -/
def mergeAt (i : ℕ) (diffs : List (GroupedWorkflowHistory α β)) :
    Except (GroupError ε) (List (GroupedWorkflowHistory α β)) :=
  match diffs[i - 1]?, diffs[i]? with
  | some prev, some next => do
    if ← shouldMerge compareNodes rules prev next then popInto i diffs else return diffs
  | _, _ => .error .undefined

/-- From the index down to 1. -/
def pass : ℕ → List (GroupedWorkflowHistory α β) →
    Except (GroupError ε) (List (GroupedWorkflowHistory α β))
  | 0, diffs => .ok diffs
  | i + 1, diffs => do
    let diffs ← mergeAt compareNodes rules (i + 1) diffs
    pass i diffs

variable {compareNodes rules}

theorem popInto_length {i : ℕ} {diffs diffs' : List (GroupedWorkflowHistory α β)}
    (h : popInto (ε := ε) i diffs = .ok diffs') : diffs'.length + 1 = diffs.length := by
  unfold popInto at h
  cases hlast : diffs.getLast? with
  | none =>
    rw [hlast] at h
    cases h
  | some right =>
    have hne : 0 < diffs.length := by
      rw [List.length_pos_iff]
      rintro rfl
      cases hlast
    rw [hlast] at h
    cases hprev : diffs.dropLast[i - 1]? with
    | none =>
      rw [hprev] at h
      cases h
    | some prev =>
      rw [hprev] at h
      obtain ⟨merged, -, h⟩ := Fallible.bind_eq_ok.1 h
      rw [← Except.ok.inj h, List.length_set, List.length_dropLast]
      omega

theorem mergeAt_length {i : ℕ} {diffs diffs' : List (GroupedWorkflowHistory α β)}
    (h : mergeAt compareNodes rules i diffs = .ok diffs') : diffs'.length ≤ diffs.length := by
  unfold mergeAt at h
  split at h
  · obtain ⟨merge, -, h⟩ := Fallible.bind_eq_ok.1 h
    cases merge with
    | true => exact Nat.le_of_lt (Nat.le_of_eq (popInto_length h))
    | false => exact Nat.le_of_eq (congrArg List.length (Except.ok.inj h)).symm
  · cases h

theorem pass_length : ∀ {i : ℕ} {diffs diffs' : List (GroupedWorkflowHistory α β)},
    pass compareNodes rules i diffs = .ok diffs' → diffs'.length ≤ diffs.length
  | 0, _, _, h => Nat.le_of_eq (congrArg List.length (Except.ok.inj h)).symm
  | i + 1, _, _, h => by
    obtain ⟨_, hmerge, h⟩ := Fallible.bind_eq_ok.1 h
    exact Nat.le_trans (pass_length h) (mergeAt_length hmerge)

variable (compareNodes rules)

/-- The passes, until one has merged nothing. -/
def groupLoop (diffs : List (GroupedWorkflowHistory α β)) :
    Except (GroupError ε) (List (GroupedWorkflowHistory α β)) :=
  match _h : pass compareNodes rules (diffs.length - 1) diffs with
  | .error e => .error e
  | .ok merged =>
    if _hlength : merged.length = diffs.length then .ok merged else groupLoop merged
termination_by diffs.length
decreasing_by
  have hle := pass_length _h
  omega

/-- The diffs of consecutive versions. -/
def compareAll : List (IWorkflowBase α β) → List (GroupedWorkflowHistory α β)
  | previous :: next :: workflows =>
    compareWorkflows compareNodes previous next :: compareAll (next :: workflows)
  | _ => []

end GroupWorkflows

open GroupWorkflows in
def groupWorkflows (workflows : List (IWorkflowBase α β)) :
    Except (GroupError ε) (List (GroupedWorkflowHistory α β)) :=
  match workflows with
  | [] => .ok []
  | [workflow] => .ok [{ fromWorkflow := workflow, toWorkflow := workflow }]
  | workflows => groupLoop compareNodes rules (compareAll compareNodes workflows)

end N8n
