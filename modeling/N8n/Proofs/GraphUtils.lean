import N8n.GraphUtils
import N8n.Library.Fallible
import Mathlib.Logic.Relation
import Mathlib.Data.List.Chain

/-!
# Extracted selections have one entry and one exit

The search tells whether there is a path of main connections. Taken up to where it first comes to
the end, such a path does not leave the selection, since the end is the only node that it could be
left from.
-/

namespace N8n

namespace GraphUtils

variable {graphIds : List String} {adjacencyList : IConnectionAdjacencyList}

/-- There is a main connection between the nodes. -/
def MainEdge (adjacencyList : IConnectionAdjacencyList) (a b : String) : Prop :=
  ∃ c ∈ connectionsOf adjacencyList a, c.type = .main ∧ c.node = b

/-! ## The search -/

theorem mem_mainNodes {a b : String} :
    b ∈ mainNodes adjacencyList a ↔ MainEdge adjacencyList a b := by
  simp only [mainNodes, List.mem_eraseDups, List.mem_map, List.mem_filter, decide_eq_true_eq,
    MainEdge, and_assoc]

theorem mem_difference {α : Type} [DecidableEq α] {x : α} {a b : List α} :
    x ∈ difference a b ↔ x ∈ a ∧ x ∉ b := by
  simp [difference]

theorem mem_intersection {α : Type} [DecidableEq α] {x : α} {a b : List α} :
    x ∈ intersection a b ↔ x ∈ a ∧ x ∈ b := by
  simp [intersection]

/-- What has been seen leads nowhere else. -/
structure Closed (adjacencyList : IConnectionAdjacencyList) («end» : String)
    (seen paths : List String) : Prop where
  notEnd : «end» ∉ seen
  closed : ∀ a ∈ seen, ∀ b, MainEdge adjacencyList a b → b ∈ seen ∨ b ∈ paths

theorem Closed.not_reaches {«end» a : String} {seen : List String}
    (h : Closed adjacencyList «end» seen []) (ha : a ∈ seen) :
    ¬ Relation.ReflTransGen (MainEdge adjacencyList) a «end» := by
  intro hreach
  have hseen : ∀ b, Relation.ReflTransGen (MainEdge adjacencyList) a b → b ∈ seen := by
    intro b hb
    induction hb with
    | refl => exact ha
    | tail _ hedge ih => exact (h.closed _ ih _ hedge).resolve_right List.not_mem_nil
  exact h.notEnd (hseen _ hreach)

theorem hasPathFrom_iff {«end» : String} {seen paths : List String}
    (h : Closed adjacencyList «end» seen paths) :
    hasPathFrom adjacencyList «end» seen paths ↔
      ∃ a, (a ∈ seen ∨ a ∈ paths) ∧ Relation.ReflTransGen (MainEdge adjacencyList) a «end» := by
  fun_induction hasPathFrom adjacencyList «end» seen paths with
  | case1 seen paths hlast =>
    obtain rfl := List.getLast?_eq_none_iff.1 hlast
    simp only [Bool.false_eq_true, List.not_mem_nil, or_false, false_iff, not_exists, not_and]
    exact fun a ha => h.not_reaches ha
  | case2 seen paths hlast =>
    exact iff_of_true rfl ⟨_, .inr (List.mem_of_getLast? hlast), .refl⟩
  | case3 seen paths next hlast hne seen' ih =>
    obtain ⟨paths, rfl⟩ := List.getLast?_eq_some_iff.1 hlast
    have hseen' : ∀ x, x ∈ seen' ↔ x ∈ seen ∨ x = next := by
      intro x
      simp only [seen']
      split_ifs with hseen
      · exact ⟨.inl, fun hx => hx.elim id fun hx => hx ▸ hseen⟩
      · simp
    rw [List.dropLast_concat] at ih ⊢
    have hclosed : Closed adjacencyList «end» seen'
        (paths ++ difference (mainNodes adjacencyList next) seen') := by
      refine ⟨fun hend => ?_, fun a ha b hedge => ?_⟩
      · rcases (hseen' _).1 hend with hend | hend
        · exact h.notEnd hend
        · exact hne hend.symm
      · by_cases hb : b ∈ seen'
        · exact .inl hb
        refine .inr (List.mem_append.2 ?_)
        rcases (hseen' a).1 ha with ha | rfl
        · rcases h.closed a ha b hedge with hb' | hb'
          · exact absurd ((hseen' b).2 (.inl hb')) hb
          · rcases List.mem_append.1 hb' with hb' | hb'
            · exact .inl hb'
            · exact absurd ((hseen' b).2 (.inr (List.mem_singleton.1 hb'))) hb
        · exact .inr (mem_difference.2 ⟨mem_mainNodes.2 hedge, hb⟩)
    rw [ih hclosed]
    constructor
    · rintro ⟨a, ha, hreach⟩
      rcases ha with ha | ha
      · rcases (hseen' a).1 ha with ha | rfl
        · exact ⟨a, .inl ha, hreach⟩
        · exact ⟨a, .inr (by simp), hreach⟩
      · rcases List.mem_append.1 ha with ha | ha
        · exact ⟨a, .inr (List.mem_append_left _ ha), hreach⟩
        · have hedge := mem_mainNodes.1 (mem_difference.1 ha).1
          exact ⟨next, .inr (by simp), hreach.head hedge⟩
    · rintro ⟨a, ha, hreach⟩
      rcases ha with ha | ha
      · exact ⟨a, .inl ((hseen' a).2 (.inl ha)), hreach⟩
      · rcases List.mem_append.1 ha with ha | ha
        · exact ⟨a, .inr (List.mem_append_left _ ha), hreach⟩
        · exact ⟨a, .inl ((hseen' a).2 (.inr (List.mem_singleton.1 ha))), hreach⟩

theorem hasPath_iff {start «end» : String} : hasPath adjacencyList start «end» ↔
    Relation.ReflTransGen (MainEdge adjacencyList) start «end» := by
  rw [hasPath, hasPathFrom_iff ⟨List.not_mem_nil, fun _ h => absurd h List.not_mem_nil⟩]
  simp

/-! ## Entries and exits -/

/-- The connection is one of the adjacency list. -/
def IsEdge (adjacencyList : IConnectionAdjacencyList) («from» : String) (c : Connection) : Prop :=
  c ∈ connectionsOf adjacencyList «from»

theorem isEdge_iff {«from» : String} {c : Connection} : IsEdge adjacencyList «from» c ↔
    ∃ cs, («from», cs) ∈ adjacencyList.entries ∧ c ∈ cs := by
  unfold IsEdge connectionsOf
  cases hget : adjacencyList.get? «from» with
  | none => simp [Dict.mem_entries, hget]
  | some cs => simp [Dict.mem_entries, hget]

theorem mem_inputNodes {node : String} : node ∈ inputNodes graphIds adjacencyList ↔
    ∃ «from» c, IsEdge adjacencyList «from» c ∧ c.type = .main ∧ «from» ∉ graphIds ∧
      node ∈ graphIds ∧ c.node = node := by
  simp only [inputNodes, getInputEdges, List.mem_eraseDups, List.mem_map, List.mem_filter,
    List.mem_flatMap, isEdge_iff]
  constructor
  · rintro ⟨⟨«from», c⟩, ⟨⟨⟨k, cs⟩, hentry, he⟩, htype⟩, rfl⟩
    split_ifs at he with hfrom
    · cases he
    simp only [List.mem_map, List.mem_filter, Prod.mk.injEq] at he
    obtain ⟨c, ⟨hc, hnode⟩, rfl, rfl⟩ := he
    exact ⟨k, c, ⟨cs, hentry, hc⟩, by simpa using htype, hfrom, by simpa using hnode, rfl⟩
  · rintro ⟨«from», c, ⟨cs, hentry, hc⟩, htype, hfrom, hnode, rfl⟩
    refine ⟨(«from», c), ⟨⟨(«from», cs), hentry, ?_⟩, by simpa using htype⟩, rfl⟩
    rw [if_neg hfrom]
    exact List.mem_map.2 ⟨c, List.mem_filter.2 ⟨hc, by simpa using hnode⟩, rfl⟩

theorem mem_outputNodes {node : String} : node ∈ outputNodes graphIds adjacencyList ↔
    ∃ c, IsEdge adjacencyList node c ∧ c.type = .main ∧ node ∈ graphIds ∧ c.node ∉ graphIds := by
  simp only [outputNodes, getOutputEdges, List.mem_eraseDups, List.mem_map, List.mem_filter,
    List.mem_flatMap, isEdge_iff]
  constructor
  · rintro ⟨⟨«from», c⟩, ⟨⟨⟨k, cs⟩, hentry, he⟩, htype⟩, rfl⟩
    split_ifs at he with hfrom
    · simp only [List.mem_map, List.mem_filter, Prod.mk.injEq] at he
      obtain ⟨c, ⟨hc, hnode⟩, rfl, rfl⟩ := he
      exact ⟨c, ⟨cs, hentry, hc⟩, by simpa using htype, hfrom, by simpa using hnode⟩
    · cases he
  · rintro ⟨c, ⟨cs, hentry, hc⟩, htype, hfrom, hnode⟩
    refine ⟨(node, c), ⟨⟨(node, cs), hentry, ?_⟩, by simpa using htype⟩, rfl⟩
    rw [if_pos hfrom]
    exact List.mem_map.2 ⟨c, List.mem_filter.2 ⟨hc, by simpa using hnode⟩, rfl⟩

/-- The one end of the connections, when there is no error. -/
theorem eq_head?_of_subset {nodes candidates : List String} {node : String}
    (hdifference : difference nodes candidates = [])
    (hone : ¬ 1 < (intersection candidates nodes).length) (hnode : node ∈ nodes) :
    (intersection candidates nodes).head? = some node := by
  have hcandidate : node ∈ candidates := by
    by_contra hno
    exact List.ne_nil_of_mem (mem_difference.2 ⟨hnode, hno⟩) hdifference
  have hmem := mem_intersection.2 ⟨hcandidate, hnode⟩
  match hlist : intersection candidates nodes, hmem with
  | [x], hmem => rw [List.mem_singleton.1 hmem]; rfl
  | _ :: _ :: _, _ => rw [hlist] at hone; simp at hone

/-- What a selection without errors has passed. -/
theorem parse_eq_ok {data : ExtractableSubgraphData}
    (h : parseExtractableSubgraphSelection graphIds adjacencyList = .ok data) :
    ∃ rootNodes leafNodes,
      (difference (inputNodes graphIds adjacencyList) rootNodes = [] ∧
        ¬ 1 < (intersection rootNodes (inputNodes graphIds adjacencyList)).length ∧
        data.start = (intersection rootNodes (inputNodes graphIds adjacencyList)).head?) ∧
      (difference (outputNodes graphIds adjacencyList) leafNodes = [] ∧
        ¬ 1 < (intersection leafNodes (outputNodes graphIds adjacencyList)).length ∧
        data.end = (intersection leafNodes (outputNodes graphIds adjacencyList)).head?) ∧
      ∀ start «end», data.start = some start → data.end = some «end» → start ≠ "" → «end» ≠ "" →
        hasPath adjacencyList start «end» := by
  unfold parseExtractableSubgraphSelection at h
  simp only at h
  generalize orOnly (getRootNodes graphIds adjacencyList) _ = rootNodes at h
  generalize orOnly (getLeafNodes graphIds adjacencyList) _ = leafNodes at h
  simp only [List.append_eq_nil_iff, List.map_eq_nil_iff] at h
  obtain ⟨⟨⟨⟨⟨hinput, hone⟩, houtput⟩, hone'⟩, hpath⟩, rfl⟩ := Fallible.ite_eq_ok.1 h
  refine ⟨rootNodes, leafNodes, ⟨hinput, fun hlt => ?_, rfl⟩, ⟨houtput, fun hlt => ?_, rfl⟩,
    fun start «end» hstart hend hs he => ?_⟩
  · rw [if_pos hlt] at hone
    cases hone
  · rw [if_pos hlt] at hone'
    cases hone'
  · by_contra hno
    dsimp only at hstart hend
    rw [hstart, hend] at hpath
    simp only [if_pos (⟨hs, he, by simpa using hno⟩ : start ≠ "" ∧ «end» ≠ "" ∧ _)] at hpath
    cases hpath

/-- A path that can be left only from its end does not leave the selection before. -/
theorem exists_selected_path {start «end» : String}
    (hexit : ∀ a b, MainEdge adjacencyList a b → a ∈ graphIds → b ∉ graphIds → a = «end»)
    (hpath : Relation.ReflTransGen (MainEdge adjacencyList) start «end»)
    (hstart : start ∈ graphIds) :
    ∃ path : List String, path.head? = some start ∧ path.getLast? = some «end» ∧
      path.IsChain (MainEdge adjacencyList) ∧ ∀ node ∈ path, node ∈ graphIds := by
  induction hpath using Relation.ReflTransGen.head_induction_on with
  | refl => exact ⟨[«end»], rfl, rfl, .singleton _, by simpa using hstart⟩
  | @head a b hedge _ ih =>
    by_cases ha : a = «end»
    · subst ha
      exact ⟨[a], rfl, rfl, .singleton _, by simpa using hstart⟩
    have hb : b ∈ graphIds := by
      by_contra hb
      exact ha (hexit a b hedge hstart hb)
    obtain ⟨path, hhead, hlast, hchain, hmem⟩ := ih hb
    cases path with
    | nil => cases hhead
    | cons x path =>
      obtain rfl : x = b := Option.some.inj hhead
      exact ⟨a :: x :: path, rfl, hlast, .cons_cons hedge hchain,
        fun node hnode => (List.mem_cons.1 hnode).elim (fun h => h ▸ hstart) (hmem node)⟩

theorem extractable {data : ExtractableSubgraphData}
    (h : parseExtractableSubgraphSelection graphIds adjacencyList = .ok data) :
    (∀ «from» c, IsEdge adjacencyList «from» c → c.type = .main → «from» ∉ graphIds →
        c.node ∈ graphIds → data.start = some c.node) ∧
      (∀ «from» c, IsEdge adjacencyList «from» c → c.type = .main → «from» ∈ graphIds →
        c.node ∉ graphIds → data.end = some «from») ∧
      (∀ start «end», data.start = some start → data.end = some «end» → start ≠ "" → «end» ≠ "" →
        ∃ path : List String, path.head? = some start ∧ path.getLast? = some «end» ∧
          path.IsChain (MainEdge adjacencyList) ∧ ∀ node ∈ path, node ∈ graphIds) ∧
      ∀ start «end», hasPath adjacencyList start «end» ↔
        Relation.ReflTransGen (MainEdge adjacencyList) start «end» := by
  obtain ⟨rootNodes, leafNodes, ⟨hinput, hone, hstart⟩, ⟨houtput, hone', hend⟩, hpath⟩ :=
    parse_eq_ok h
  have hexit : ∀ «from» c, IsEdge adjacencyList «from» c → c.type = .main → «from» ∈ graphIds →
      c.node ∉ graphIds → data.end = some «from» := fun «from» c hedge htype hfrom hto =>
    hend.trans (eq_head?_of_subset houtput hone' (mem_outputNodes.2 ⟨c, hedge, htype, hfrom, hto⟩))
  refine ⟨fun «from» c hedge htype hfrom hto => ?_, hexit, fun start «end» hs he hs' he' => ?_,
    fun _ _ => hasPath_iff⟩
  · exact hstart.trans (eq_head?_of_subset hinput hone
      (mem_inputNodes.2 ⟨«from», c, hedge, htype, hfrom, hto, rfl⟩))
  · refine exists_selected_path ?_ (hasPath_iff.1 (hpath start «end» hs he hs' he')) ?_
    · rintro a b ⟨c, hc, htype, rfl⟩ ha hb
      exact Option.some.inj ((hexit a c hc htype ha hb).symm.trans he)
    · have hmem := List.mem_of_head? (hstart.symm.trans hs)
      obtain ⟨_, _, _, _, _, hmem, _⟩ := mem_inputNodes.1 (mem_intersection.1 hmem).2
      exact hmem

/-! ## Two selections -/

def connection (node : String) (type : NodeConnectionType) : Connection :=
  { node, type, index := 0 }

def withTool : IConnectionAdjacencyList :=
  ((Dict.empty.set "Trigger" [connection "Set" .main]).set "Set" [connection "Agent" .main]).set
    "Tool" [connection "Agent" .aiTool]

theorem extractable_withTool :
    parseExtractableSubgraphSelection ["Set", "Agent"] withTool =
        .ok { start := some "Set", «end» := none } ∧
      ∀ «from» c, IsEdge withTool «from» c → c.type = .main → «from» ∉ ["Set", "Agent"] →
        c.node ∈ ["Set", "Agent"] → some "Set" = some c.node :=
  have h : parseExtractableSubgraphSelection ["Set", "Agent"] withTool =
    .ok { start := some "Set", «end» := none } := by decide
  ⟨h, (extractable h).1⟩

def namedEmpty : IConnectionAdjacencyList :=
  (Dict.empty.set "Trigger" [connection "" .main]).set "Set" [connection "Reply" .main]

/-- A tool enters past the start, and an empty name is taken for none. -/
theorem not_extractable :
    (parseExtractableSubgraphSelection ["Set", "Agent"] withTool =
        .ok { start := some "Set", «end» := none } ∧
      IsEdge withTool "Tool" (connection "Agent" .aiTool) ∧ "Tool" ∉ ["Set", "Agent"] ∧
      (connection "Agent" .aiTool).node ≠ "Set") ∧
    parseExtractableSubgraphSelection ["", "Set"] namedEmpty =
        .ok { start := some "", «end» := some "Set" } ∧
      ¬ Relation.ReflTransGen (MainEdge namedEmpty) "" "Set" := by
  refine ⟨⟨by decide, ?_, by decide, by decide⟩, by decide, fun h => ?_⟩
  · unfold IsEdge
    decide
  · rcases h.cases_head with heq | ⟨_, ⟨c, hc, -⟩, -⟩
    · exact absurd heq (by decide)
    · rw [show connectionsOf namedEmpty "" = [] by decide] at hc
      cases hc

end GraphUtils

end N8n
