import N8n.Workflow
import Mathlib.Data.Finset.Card

/-!
# Selections that can be extracted

A selection of nodes can become a sub-workflow if it is entered at one root and left from one leaf,
and if there is a path between the two. A set is a list in the order in which it was filled.
-/

namespace N8n

namespace GraphUtils

abbrev IConnectionAdjacencyList := Dict String (List Connection)

inductive ExtractableErrorResult
  /-- `Multiple Input Nodes` -/
  | multipleInputNodes (nodes : List String)
  /-- `Multiple Output Nodes` -/
  | multipleOutputNodes (nodes : List String)
  /-- `Input Edge To Non-Root Node` -/
  | inputEdgeToNonRootNode (node : String)
  /-- `Output Edge From Non-Leaf Node` -/
  | outputEdgeFromNonLeafNode (node : String)
  /-- `No Continuous Path From Root To Leaf In Selection` -/
  | noContinuousPathFromRootToLeaf (start last : String)
  deriving DecidableEq, Repr

structure ExtractableSubgraphData where
  start : Option String
  «end» : Option String
  deriving DecidableEq, Repr

/-! ## Sets -/

section Sets

variable {α : Type} [DecidableEq α]

def intersection (a b : List α) : List α := a.filter (· ∈ b)

def union (a b : List α) : List α := (a ++ b).eraseDups

def difference (minuend subtrahend : List α) : List α := minuend.filter (· ∉ subtrahend)

end Sets

section Edges

variable (graphIds : List String) (adjacencyList : IConnectionAdjacencyList)

/-- `adjacencyList.get(nodeId) ?? []` -/
def connectionsOf (nodeId : String) : List Connection := (adjacencyList.get? nodeId).getD []

def getInputEdges : List (String × Connection) :=
  adjacencyList.entries.flatMap fun e =>
    if e.1 ∈ graphIds then [] else (e.2.filter (·.node ∈ graphIds)).map fun c => (e.1, c)

def getOutputEdges : List (String × Connection) :=
  adjacencyList.entries.flatMap fun e =>
    if e.1 ∈ graphIds then (e.2.filter (·.node ∉ graphIds)).map fun c => (e.1, c) else []

/-- The other nodes that the node has main connections to. -/
def mainSuccessors (nodeId : String) : List String :=
  (((connectionsOf adjacencyList nodeId).filter fun x => x.type = .main && x.node ≠ nodeId).map
    (·.node)).eraseDups

def getRootNodes : List String :=
  difference graphIds
    (graphIds.foldl (fun innerNodes nodeId =>
      union innerNodes (mainSuccessors adjacencyList nodeId)) [])

def getLeafNodes : List String :=
  graphIds.filter fun nodeId =>
    (intersection (mainSuccessors adjacencyList nodeId) graphIds).length = 0

end Edges

/-! ## The search for a path -/

section Search

variable (adjacencyList : IConnectionAdjacencyList)

/-- What the search goes on to from a node. -/
def mainNodes (nodeId : String) : List String :=
  (((connectionsOf adjacencyList nodeId).filter (·.type = .main)).map (·.node)).eraseDups

/-- Every node that a connection leads to. -/
def targets : Finset String :=
  (adjacencyList.entries.flatMap fun e => e.2.map (·.node)).toFinset

theorem mainNodes_subset_targets (nodeId : String) :
    ∀ x ∈ mainNodes adjacencyList nodeId, x ∈ targets adjacencyList := by
  intro x hx
  simp only [mainNodes, List.mem_eraseDups, List.mem_map, List.mem_filter, connectionsOf] at hx
  obtain ⟨c, ⟨hc, -⟩, rfl⟩ := hx
  cases hget : adjacencyList.get? nodeId with
  | none => simp [hget] at hc
  | some cs =>
    rw [hget] at hc
    simp only [targets, List.mem_toFinset, List.mem_flatMap, List.mem_map]
    exact ⟨(nodeId, cs), Dict.mem_entries.2 hget, c, hc, rfl⟩

/-- What the search may still come to. -/
def unseen (seen paths : List String) : Finset String :=
  (paths.toFinset ∪ targets adjacencyList).filter (· ∉ seen)

/-- Besides, how many nodes have been put on the stack more than once. -/
def remaining (seen paths : List String) : ℕ × ℕ :=
  ((unseen adjacencyList seen paths).card, paths.countP (· ∈ seen))

theorem unseen_subset {seen seen' new : List String} (paths : List String) (next : String)
    (hseen : ∀ x ∈ seen, x ∈ seen') (hnew : ∀ x ∈ new, x ∈ targets adjacencyList) :
    unseen adjacencyList seen' (paths ++ new) ⊆ unseen adjacencyList seen (paths ++ [next]) := by
  intro x hx
  simp only [unseen, List.toFinset_append, Finset.mem_filter, Finset.mem_union,
    List.mem_toFinset] at hx ⊢
  refine ⟨?_, fun h => hx.2 (hseen x h)⟩
  rcases hx.1 with (hx | hx) | hx
  · exact .inl (.inl hx)
  · exact .inr (hnew x hx)
  · exact .inr hx

theorem remaining_of_mem {seen paths new : List String} {next : String} (hseen : next ∈ seen)
    (hnew : ∀ x ∈ new, x ∈ targets adjacencyList) (hunseen : ∀ x ∈ new, x ∉ seen) :
    Prod.Lex (· < ·) (· < ·) (remaining adjacencyList seen (paths ++ new))
      (remaining adjacencyList seen (paths ++ [next])) := by
  have hcard := Finset.card_le_card (unseen_subset adjacencyList paths next
    (fun x (hx : x ∈ seen) => hx) hnew)
  have hcount : (paths ++ new).countP (· ∈ seen) < (paths ++ [next]).countP (· ∈ seen) := by
    have hzero : new.countP (· ∈ seen) = 0 := by
      rw [List.countP_eq_zero]
      exact fun x hx => by simpa using hunseen x hx
    simp [List.countP_append, hzero, hseen]
  exact Prod.lex_def.2 (hcard.lt_or_eq.imp id fun heq => ⟨heq, hcount⟩)

theorem remaining_of_notMem {seen paths new : List String} {next : String} (hseen : next ∉ seen)
    (hnew : ∀ x ∈ new, x ∈ targets adjacencyList) :
    Prod.Lex (· < ·) (· < ·) (remaining adjacencyList (seen ++ [next]) (paths ++ new))
      (remaining adjacencyList seen (paths ++ [next])) := by
  have hsubset := unseen_subset adjacencyList paths next
    (fun x (hx : x ∈ seen) => List.mem_append_left [next] hx) hnew
  have hnext : next ∈ unseen adjacencyList seen (paths ++ [next]) := by
    simp [unseen, hseen]
  have hnext' : next ∉ unseen adjacencyList (seen ++ [next]) (paths ++ new) := by
    simp [unseen]
  exact Prod.lex_def.2 (.inl (Finset.card_lt_card
    ((Finset.ssubset_iff_of_subset hsubset).2 ⟨next, hnext, hnext'⟩)))

/-- The loop of `hasPath`. -/
def hasPathFrom («end» : String) (seen paths : List String) : Bool :=
  match _h : paths.getLast? with
  | none => false
  | some next =>
    if next = «end» then true
    else
      let seen' := if next ∈ seen then seen else seen ++ [next]
      hasPathFrom «end» seen'
        (paths.dropLast ++ difference (mainNodes adjacencyList next) seen')
termination_by remaining adjacencyList seen paths
decreasing_by
  obtain ⟨paths, rfl⟩ := List.getLast?_eq_some_iff.1 _h
  rw [List.dropLast_concat]
  have hnew : ∀ seen, ∀ x ∈ difference (mainNodes adjacencyList next) seen,
      x ∈ targets adjacencyList := fun seen x hx =>
    mainNodes_subset_targets adjacencyList next x (List.mem_of_mem_filter hx)
  split_ifs with hseen
  · refine remaining_of_mem adjacencyList hseen (hnew seen) fun x hx => ?_
    simpa using List.of_mem_filter hx
  · exact remaining_of_notMem adjacencyList hseen (hnew _)

def hasPath (start «end» : String) : Bool := hasPathFrom adjacencyList «end» [] [start]

end Search

section Selection

variable (graphIds : List String) (adjacencyList : IConnectionAdjacencyList)

def inputNodes : List String :=
  (((getInputEdges graphIds adjacencyList).filter (·.2.type = .main)).map (·.2.node)).eraseDups

def outputNodes : List String :=
  (((getOutputEdges graphIds adjacencyList).filter (·.2.type = .main)).map (·.1)).eraseDups

/-- One node that is entered or left stands in for the roots or the leaves where a loop leaves
none. -/
def orOnly (nodes entered : List String) : List String :=
  if nodes.length = 0 ∧ entered.length = 1 then entered else nodes

def parseExtractableSubgraphSelection :
    Except (List ExtractableErrorResult) ExtractableSubgraphData :=
  let inputNodes := inputNodes graphIds adjacencyList
  let rootNodes := orOnly (getRootNodes graphIds adjacencyList) inputNodes
  let rootInputNodes := intersection rootNodes inputNodes
  let outputNodes := outputNodes graphIds adjacencyList
  let leafNodes := orOnly (getLeafNodes graphIds adjacencyList) outputNodes
  let leafOutputNodes := intersection leafNodes outputNodes
  let errors :=
    (difference inputNodes rootNodes).map .inputEdgeToNonRootNode ++
      (if 1 < rootInputNodes.length then [.multipleInputNodes rootInputNodes] else []) ++
      (difference outputNodes leafNodes).map .outputEdgeFromNonLeafNode ++
      (if 1 < leafOutputNodes.length then [.multipleOutputNodes leafOutputNodes] else []) ++
      match rootInputNodes.head?, leafOutputNodes.head? with
      | some start, some «end» =>
        if start ≠ "" ∧ «end» ≠ "" ∧ hasPath adjacencyList start «end» = false then
          [.noContinuousPathFromRootToLeaf start «end»] else []
      | _, _ => []
  if errors = [] then .ok { start := rootInputNodes.head?, «end» := leafOutputNodes.head? }
  else .error errors

end Selection

end GraphUtils

end N8n
