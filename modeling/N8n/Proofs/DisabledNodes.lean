import Mathlib
import N8n.DisabledNodes
import N8n.Proofs.ExportedGraph
import N8n.Library.Fallible

/-!
# Disabled nodes in partial and in full executions

To remove a disabled node is to eliminate it from the main connections, so the filtered graph
connects two nodes where there is any route between them through disabled nodes. A full execution
follows only the routes that come into each disabled node at its first input, and leave it at its
first output.
-/

namespace N8n

open Elimination Fallible

variable {w : Workflow}

theorem KeysDistinct.hasConnection (h : KeysDistinct w) :
    DirectedGraph.DistinctKeys (HasConnection w) := fun c c' hc hc' =>
  h c c' (.connection hc) (.connection hc')

namespace DirectedGraph

variable {g : DirectedGraph}

/-! ## What the connections of the workflow are -/

theorem ends_of_joinedConnection {c : GraphConnection} (h : JoinedConnection w c) :
    w.nodes.get? c.fromNode.name = some c.fromNode ∧
      w.nodes.get? c.toNode.name = some c.toNode := by
  induction h with
  | connection hc => exact ⟨hc.fromNode, hc.toNode⟩
  | join _ _ _ _ _ _ ih ih' => exact ⟨ih.1, ih'.2⟩

theorem joinable_joinedConnection (hw : w.Named) (hkeys : KeysDistinct w) :
    Joinable w.nodes.get? (JoinedConnection w) :=
  ⟨hw, fun _ => ends_of_joinedConnection, fun _ _ => .join, hkeys⟩

theorem edge_fromWorkflow (hw : w.Named) (hkeys : KeysDistinct w) (hg : fromWorkflow w = .ok g)
    (u : String) (o i : ℕ) (v : String) : g.Edge u o i v ↔ w.Edge u o i v := by
  have hvalues := (fromWorkflow_spec hw hkeys.hasConnection hg).2
  constructor
  · rintro ⟨c, hc, hmain, rfl, rfl, rfl, rfl⟩
    obtain ⟨outputs, connections, hofType, hat, connection, hmem, hnode, hindex⟩ :=
      ((hvalues c).1 hc).connected
    rw [hmain] at hofType
    exact ⟨connection, Connections.has_iff.2 ⟨outputs, connections, hofType, hat, hmem⟩, hnode,
      hindex⟩
  · rintro ⟨connection, hconnection, rfl, rfl⟩
    obtain ⟨css, hcss, -⟩ := bind_eq_ok.1 hg
    obtain ⟨c, hc, htype, hfrom, houtput, hinput, hto⟩ := hasConnection_of_has hw hcss hconnection
    exact ⟨c, (hvalues c).2 hc, htype, hfrom, houtput, hinput, hto⟩

end DirectedGraph

open DirectedGraph

/-! ## What a full execution delivers -/

/-- A disabled node hands on what has come in at its first input, at its first output. -/
theorem slotAt_handleDisabledNode (k o : ℕ) {items : List Item} :
    slotAt ((handleDisabledNode (receivedAt k items)).getD []) o = .items items ↔
      k = 0 ∧ o = 0 := by
  cases k with
  | zero => cases o <;> simp [handleDisabledNode, receivedAt, slotAt]
  | succ k => simp [handleDisabledNode, receivedAt, slotAt, List.replicate_succ]

variable {items : List Item}

/-- What a disabled node receives and hands on is received by all it reaches. -/
theorem Receives.before {u d v : String} {o k o' i : ℕ} (hedge : w.Edge u o k d)
    (hd : w.Disabled d)
    (hslot : slotAt ((handleDisabledNode (receivedAt k items)).getD []) o' = .items items)
    (h : Receives w items d o' v i) : Receives w items u o v i := by
  induction h with
  | emitted he => exact .handedOn (.emitted hedge) hd hslot he
  | handedOn _ hd' hslot' he ih => exact .handedOn ih hd' hslot' he

/-- The paths that a full execution follows. -/
theorem receives_iff {u v : String} {o i : ℕ} :
    Receives w items u o v i ↔
      Through w.Edge w.Disabled (fun k o => k = 0 ∧ o = 0) u o i v := by
  constructor
  · intro h
    induction h with
    | emitted he => exact .direct he
    | handedOn _ hd hslot he ih =>
      exact ih.trans hd ((slotAt_handleDisabledNode _ _).1 hslot) (.direct he)
  · intro h
    induction h with
    | direct he => exact .emitted he
    | via he hd hstraight _ ih =>
      exact ih.before he hd ((slotAt_handleDisabledNode _ _).2 hstraight)

/-! ## The two executions -/

variable {g : DirectedGraph}

/-- A filtered graph has the connection of each route between enabled nodes. -/
theorem filterDisabledNodes_spec (hw : w.Named) (hkeys : KeysDistinct w)
    (hg : fromWorkflow w = .ok g) :
    ∃ g', g.filterDisabledNodes = .ok g' ∧ Reduced (JoinedConnection w) g' ∧ ∀ u o i v,
      ¬ w.Disabled u → ¬ w.Disabled v → (g'.Edge u o i v ↔
        Through w.Edge w.Disabled (fun _ _ => True) u o i v) := by
  obtain ⟨hnodes, hvalues⟩ := fromWorkflow_spec hw hkeys.hasConnection hg
  have hJ := joinable_joinedConnection hw hkeys
  obtain ⟨copy, hnodes', hvalues', g', hg', -, hfiltered⟩ := filterDisabledNodes_filtered hJ hnodes
    fun c hc => .connection ((hvalues c).1 hc)
  have hcopyEdge : ∀ u o i v, copy.Edge u o i v ↔ w.Edge u o i v := by
    intro u o i v
    rw [← edge_fromWorkflow hw hkeys hg]
    simp only [DirectedGraph.Edge, hvalues']
  have hD := disabledIn_iff hw hnodes'
  refine ⟨g', hg', hfiltered.reduced, fun u o i v hu hv => ?_⟩
  rw [hfiltered.edge u o i v (fun h => hu ((hD u).1 h)) fun h => hv ((hD v).1 h)]
  exact through_congr hcopyEdge hD

/-- Names without hyphens leave the parts of a key apart. -/
theorem keysDistinct_of_no_hyphen
    (hnames : ∀ nodeName, (w.nodes.get? nodeName).isSome → '-' ∉ nodeName.toList) :
    KeysDistinct w := distinctKeys_of_no_hyphen (fun _ => ends_of_joinedConnection) hnames

/-- Where all connections are of first inputs and outputs, all routes are straight. -/
theorem straightRoutes_of_first (h : ∀ u o i v, w.Edge u o i v → o = 0 ∧ i = 0) :
    StraightRoutes w := by
  have hroute : ∀ {u o i v}, Through w.Edge w.Disabled (fun _ _ => True) u o i v →
      o = 0 ∧ Through w.Edge w.Disabled (fun k o => k = 0 ∧ o = 0) u o i v := by
    intro u o i v hpath
    induction hpath with
    | direct he => exact ⟨(h _ _ _ _ he).1, .direct he⟩
    | via he hd _ _ ih => exact ⟨(h _ _ _ _ he).1, .via he hd ⟨(h _ _ _ _ he).2, ih.1⟩ ih.2⟩
  exact fun _ _ _ _ _ _ _ _ hpath => (hroute hpath).2

/-! ### A disabled IF node -/

/-- A disabled IF node between two others. -/
def ifWorkflow (ifOutputs : List (Option (List Connection))) : Workflow where
  nodes := ((Dict.empty.set "Trigger" { name := "Trigger", type := "trigger" }).set "If"
    { name := "If", type := "if", disabled := some true }).set "Set" { name := "Set", type := "set" }
  connectionsBySourceNode := (Dict.empty.set "Trigger"
    (Dict.empty.set .main [some [{ node := "If", type := .main, index := 0 }]])).set "If"
    (Dict.empty.set .main ifOutputs)

def toSet : Connection := { node := "Set", type := .main, index := 0 }

theorem ifWorkflow_nodes {ifOutputs : List (Option (List Connection))} {nodeName : String}
    {node : Node} (h : (ifWorkflow ifOutputs).nodes.get? nodeName = some node) :
    node.name = nodeName ∧ '-' ∉ nodeName.toList := by
  simp only [ifWorkflow, Dict.get?_set, Dict.get?_empty] at h
  split_ifs at h with hset hif htrigger
  · exact ⟨by rw [← Option.some.inj h, hset], by rw [hset]; decide⟩
  · exact ⟨by rw [← Option.some.inj h, hif], by rw [hif]; decide⟩
  · exact ⟨by rw [← Option.some.inj h, htrigger], by rw [htrigger]; decide⟩

end N8n
