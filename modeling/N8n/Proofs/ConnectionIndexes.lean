import Mathlib.Tactic
import N8n.ConnectionIndexes

/-!
# The index by destination mirrors that by source

Entering a connection under its destination adds its mirror image and nothing else, so the map has
each connection as often as it is written. `renameNode` rewrites the index by source only: the two
agree after it only if it has changed no connection.
-/

namespace N8n

theorem Link.mirror_mirror (l : Link) : l.mirror.mirror = l := rfl

theorem Link.mirror_injective : Function.Injective Link.mirror :=
  fun l l' h => by rw [← l.mirror_mirror, h, l'.mirror_mirror]

theorem objectKeys_perm (keys : List String) : (objectKeys keys).Perm keys :=
  ((List.perm_insertionSort _ _).append_right _).trans (List.filter_append_perm isArrayIndex keys)

namespace Connections

/-! ## What an index holds -/

theorem mem_linksAt {node : String} {type : NodeConnectionType}
    {array : List (Option (List Connection))} {l : Link} :
    l ∈ linksAt node type array ↔ l.node = node ∧ l.type = type ∧
      ∃ conns, array[l.index]? = some (some conns) ∧ l.connection ∈ conns := by
  simp only [linksAt, List.mem_flatMap, List.mem_map, Prod.exists, List.mem_zipIdx_iff_getElem?]
  constructor
  · rintro ⟨conns, index, hget, conn, hconn, rfl⟩
    cases conns with
    | none => simp at hconn
    | some conns => exact ⟨rfl, rfl, conns, hget, hconn⟩
  · rintro ⟨rfl, rfl, conns, hget, hconn⟩
    exact ⟨some conns, l.index, hget, l.connection, hconn, rfl⟩

theorem mem_links {c : Connections} {l : Link} :
    l ∈ c.links ↔ ∃ array conns, c.ofType l.node l.type = some array ∧
      array[l.index]? = some (some conns) ∧ l.connection ∈ conns := by
  simp only [links, linksOf, List.mem_flatMap, Prod.exists, Dict.mem_entries, mem_linksAt, ofType,
    Option.bind_eq_some_iff]
  constructor
  · rintro ⟨node, ofNode, hnode, type, array, htype, rfl, rfl, conns, hget, hconn⟩
    exact ⟨array, conns, ⟨ofNode, hnode, htype⟩, hget, hconn⟩
  · rintro ⟨array, conns, ⟨ofNode, hnode, htype⟩, hget, hconn⟩
    exact ⟨l.node, ofNode, hnode, l.type, array, htype, rfl, rfl, conns, hget, hconn⟩

/-! ## Entering a connection -/

/-- No input has `null` for its connections. -/
def Full (c : Connections) : Prop :=
  ∀ node type array, c.ofType node type = some array → none ∉ array

/-- An array with a connection added at an index that is there. -/
theorem flatMap_zipIdx_modify (node : String) (type : NodeConnectionType) (x : Connection) :
    ∀ (array : List (Option (List Connection))) (i start : ℕ) (conns : List Connection),
    array[i]? = some (some conns) →
    (((array.modify i (Option.map (· ++ [x]))).zipIdx start).flatMap fun (connections, index) =>
        (connections.getD []).map fun connection => Link.mk node type index connection).Perm
      (Link.mk node type (start + i) x :: (array.zipIdx start).flatMap fun (connections, index) =>
        (connections.getD []).map fun connection => Link.mk node type index connection)
  | [], _, _, _, h => by simp at h
  | first :: array, 0, start, conns, h => by
    obtain rfl : first = some conns := by simpa using h
    simp only [List.modify_zero_cons, List.zipIdx_cons, List.flatMap_cons, Option.map_some,
      Option.getD_some, List.map_append, List.map_cons, List.map_nil, Nat.add_zero]
    exact (List.perm_append_singleton _ _).append_right _
  | first :: array, i + 1, start, conns, h => by
    have ih := flatMap_zipIdx_modify node type x array i (start + 1) conns (by simpa using h)
    simp only [List.modify_succ_cons, List.zipIdx_cons, List.flatMap_cons]
    rw [show start + (i + 1) = start + 1 + i by omega]
    exact (ih.append_left _).trans List.perm_middle

theorem linksAt_modify (node : String) (type : NodeConnectionType) (x : Connection)
    {array : List (Option (List Connection))} {i : ℕ} (hi : i < array.length)
    (hnone : none ∉ array) :
    (linksAt node type (array.modify i (Option.map (· ++ [x])))).Perm
      (Link.mk node type i x :: linksAt node type array) := by
  obtain ⟨conns, hconns⟩ : ∃ conns, array[i] = some conns :=
    Option.ne_none_iff_exists'.1 fun h => hnone (h ▸ List.getElem_mem hi)
  have h := flatMap_zipIdx_modify node type x array i 0 conns
    (by rw [List.getElem?_eq_getElem hi, hconns])
  rwa [Nat.zero_add] at h

theorem linksAt_append_empty (node : String) (type : NodeConnectionType)
    (array : List (Option (List Connection))) (n : ℕ) :
    linksAt node type (array ++ List.replicate n (some [])) = linksAt node type array := by
  unfold linksAt
  rw [List.zipIdx_append, List.flatMap_append]
  refine List.append_right_eq_self.2 (List.flatMap_eq_nil_iff.2 fun entry hentry => ?_)
  obtain ⟨conns, index⟩ := entry
  obtain rfl := List.eq_of_mem_replicate (List.fst_mem_of_mem_zipIdx hentry)
  rfl

theorem ofType_set (c : Connections) (nodeName : String) (ofNode : NodeConnections)
    (node : String) (type : NodeConnectionType) :
    ofType (c.set nodeName ofNode) node type =
      if node = nodeName then ofNode.get? type else c.ofType node type := by
  unfold ofType
  rw [Dict.get?_set]
  split_ifs <;> rfl

/-- The inputs a connection is entered among: they reach up to its index. -/
theorem addDestination_inputs {c : Connections} (hc : c.Full) (connection : Connection) :
    let inputs := (((c.get? connection.node).getD .empty).get? connection.type).getD []
    let inputs' := inputs ++ List.replicate (connection.index + 1 - inputs.length) (some [])
    connection.index < inputs'.length ∧ none ∉ inputs' := by
  intro inputs inputs'
  refine ⟨by simp only [inputs', List.length_append, List.length_replicate]; omega, fun hmem => ?_⟩
  rcases List.mem_append.1 hmem with hmem | hmem
  · cases hnode : c.get? connection.node with
    | none => simp [inputs, hnode] at hmem
    | some ofNode =>
      cases htype : ofNode.get? connection.type with
      | none => simp [inputs, hnode, htype] at hmem
      | some array =>
        refine hc connection.node connection.type array (by simp [ofType, hnode, htype]) ?_
        simpa [inputs, hnode, htype] using hmem
  · cases List.eq_of_mem_replicate hmem

theorem addDestination_full {c : Connections} (hc : c.Full) (l : Link) :
    (addDestination l.node l.type l.index c l.connection).Full := by
  intro node type array harray hnone
  obtain ⟨-, hinputs⟩ := addDestination_inputs hc l.connection
  unfold addDestination at harray
  simp only [ofType_set] at harray
  split_ifs at harray with hnode
  · rw [Dict.get?_set] at harray
    split_ifs at harray with htype
    · obtain rfl := Option.some.inj harray
      obtain ⟨i, hi⟩ := List.mem_iff_getElem?.1 hnone
      rw [List.getElem?_modify] at hi
      obtain ⟨conns, hconns, hmap⟩ := Option.map_eq_some_iff.1 hi
      split_ifs at hmap
      · obtain rfl := Option.map_eq_none_iff.1 hmap
        exact hinputs (List.mem_of_getElem? hconns)
      · exact hinputs (List.mem_of_getElem? (hmap ▸ hconns))
    · cases hget : c.get? l.connection.node with
      | none => simp [hget] at harray
      | some ofNode => exact hc node type array (by simpa [ofType, hnode, hget] using harray) hnone
  · exact hc node type array harray hnone

/-- The connection is in it once more, seen from its destination. -/
theorem addDestination_links {c : Connections} (hc : c.Full) (l : Link) :
    (addDestination l.node l.type l.index c l.connection).links.Perm (l.mirror :: c.links) := by
  obtain ⟨hindex, hnone⟩ := addDestination_inputs hc l.connection
  have hentered := linksAt_modify l.connection.node l.connection.type
    { node := l.node, type := l.type, index := l.index } hindex hnone
  rw [linksAt_append_empty] at hentered
  exact Dict.flatMap_set_perm _ c [l.mirror] Dict.empty rfl
    (Dict.flatMap_set_perm _ _ [l.mirror] [] rfl hentered)

/-! ## The whole map -/

theorem foldl_addDestination : ∀ (ls : List Link) {c : Connections}, c.Full →
    (ls.foldl (fun c l => addDestination l.node l.type l.index c l.connection) c).Full ∧
      (ls.foldl (fun c l => addDestination l.node l.type l.index c l.connection) c).links.Perm
        (ls.map Link.mirror ++ c.links)
  | [], c, hc => ⟨hc, .refl _⟩
  | l :: ls, c, hc => by
    obtain ⟨hfull, hperm⟩ := foldl_addDestination ls (addDestination_full hc l)
    refine ⟨hfull, hperm.trans ?_⟩
    exact ((addDestination_links hc l).append_left _).trans List.perm_middle

/-- The connections in the order in which they are entered. -/
def ordered (c : Connections) : List Link :=
  (objectKeys c.keys).flatMap fun node => linksOf node ((c.get? node).getD .empty)

theorem ordered_perm (c : Connections) : c.ordered.Perm c.links := by
  refine ((objectKeys_perm c.keys).flatMap_right _).trans (.of_eq ?_)
  unfold Dict.keys links
  rw [List.flatMap_map]
  refine List.flatMap_congr fun entry hentry => ?_
  rw [Dict.mem_entries.1 hentry]
  rfl

theorem mapConnectionsByDestination_eq (c : Connections) :
    mapConnectionsByDestination c =
      c.ordered.foldl (fun c l => addDestination l.node l.type l.index c l.connection) .empty := by
  unfold mapConnectionsByDestination ordered linksOf linksAt
  simp only [List.foldl_flatMap, List.foldl_map]

theorem mapConnectionsByDestination_links (c : Connections) :
    (mapConnectionsByDestination c).links.Perm (c.links.map Link.mirror) := by
  have hfull : Full .empty := fun _ _ _ h => by cases h
  rw [mapConnectionsByDestination_eq]
  refine (foldl_addDestination c.ordered hfull).2.trans ?_
  rw [show links .empty = [] from rfl, List.append_nil]
  exact c.ordered_perm.map _

theorem count_mirror (c : Connections) (l : Link) :
    (mapConnectionsByDestination c).links.count l.mirror = c.links.count l := by
  rw [(mapConnectionsByDestination_links c).count_eq]
  exact List.count_map_of_injective _ _ Link.mirror_injective _

/-! ## Renaming -/

theorem get?_renameSource (currentName newName : String) (c : Connections) (node : String) :
    (c.renameSource currentName newName).get? node =
      if node = currentName then none
      else if node = newName ∧ currentName ∈ c.keys then c.get? currentName
      else c.get? node := by
  unfold renameSource
  cases hcurrent : c.get? currentName with
  | none =>
    have hkeys : currentName ∉ c.keys := by simp [Dict.mem_keys, hcurrent]
    split_ifs with h₁ h₂
    · rw [h₁, hcurrent]
    · exact absurd h₂.2 hkeys
    · rfl
  | some ofNode =>
    have hkeys : currentName ∈ c.keys := Dict.mem_keys.2 (by simp [hcurrent])
    simp only [Dict.get?_erase, Dict.get?_set, hkeys, and_true]

theorem mem_links_renameSource {currentName newName : String} {c : Connections} {l : Link} :
    l ∈ (c.renameSource currentName newName).links ↔ l.node ≠ currentName ∧
      if l.node = newName ∧ currentName ∈ c.keys then { l with node := currentName } ∈ c.links
      else l ∈ c.links := by
  simp only [mem_links, ofType, get?_renameSource]
  split_ifs with h₁ h₂ <;> simp [h₁]

theorem linksAt_map (f : Connection → Connection) (node : String) (type : NodeConnectionType)
    (array : List (Option (List Connection))) :
    linksAt node type (array.map (Option.map (List.map f))) =
      (linksAt node type array).map fun l => { l with connection := f l.connection } := by
  unfold linksAt
  rw [List.zipIdx_map, List.flatMap_map, List.map_flatMap]
  refine List.flatMap_congr fun entry _ => ?_
  obtain ⟨conns, index⟩ := entry
  cases conns <;> simp

theorem links_renameDestinations (currentName newName : String) (c : Connections) :
    (c.renameDestinations currentName newName).links =
      c.links.map fun l => { l with connection := l.connection.rename currentName newName } := by
  unfold links linksOf renameDestinations Dict.mapValues
  simp only [List.flatMap_map, List.map_flatMap, linksAt_map]

def rename (c : Connections) (currentName newName : String) : Connections :=
  (c.renameSource currentName newName).renameDestinations currentName newName

theorem mem_links_rename {currentName newName : String} {c : Connections} {l : Link} :
    l ∈ (c.rename currentName newName).links ↔
      ∃ l₀ ∈ (c.renameSource currentName newName).links,
        { l₀ with connection := l₀.connection.rename currentName newName } = l := by
  rw [rename, links_renameDestinations, List.mem_map]

/-- Neither end of a connection has the old name. -/
theorem ne_of_mem_links_rename {currentName newName : String} (hne : newName ≠ currentName)
    {c : Connections} {l : Link} (h : l ∈ (c.rename currentName newName).links) :
    l.node ≠ currentName ∧ l.connection.node ≠ currentName := by
  obtain ⟨l₀, hl₀, rfl⟩ := mem_links_rename.1 h
  refine ⟨(mem_links_renameSource.1 hl₀).1, ?_⟩
  unfold Connection.rename
  split_ifs with hnode
  · exact hne
  · exact hnode

section Rename

variable {currentName newName : String} {c : Connections}

/-- Where no connection has the old name, those that are left are those that were there, but for
the connections that are overwritten. -/
theorem mem_links_rename_iff
    (hname : ∀ l ∈ c.links, l.node ≠ currentName ∧ l.connection.node ≠ currentName) {l : Link} :
    l ∈ (c.rename currentName newName).links ↔
      l ∈ c.links ∧ ¬ (l.node = newName ∧ currentName ∈ c.keys) := by
  have hsame : ∀ l ∈ c.links,
      { l with connection := l.connection.rename currentName newName } = l := by
    intro l hl
    rw [Connection.rename, if_neg (hname l hl).2]
  rw [mem_links_rename]
  constructor
  · rintro ⟨l₀, hl₀, rfl⟩
    obtain ⟨-, hl₀⟩ := mem_links_renameSource.1 hl₀
    split_ifs at hl₀ with hnew
    · exact absurd rfl (hname _ hl₀).1
    · rw [hsame l₀ hl₀]
      exact ⟨hl₀, hnew⟩
  · rintro ⟨hl, hnew⟩
    refine ⟨l, mem_links_renameSource.2 ⟨(hname l hl).1, ?_⟩, hsame l hl⟩
    rwa [if_neg hnew]

theorem links_rename_iff (hne : newName ≠ currentName) :
    (∀ l, l ∈ (c.rename currentName newName).links ↔ l ∈ c.links) ↔
      (∀ l ∈ c.links, l.node ≠ currentName ∧ l.connection.node ≠ currentName) ∧
        (currentName ∈ c.keys → ∀ l ∈ c.links, l.node ≠ newName) := by
  constructor
  · intro h
    have hname : ∀ l ∈ c.links, l.node ≠ currentName ∧ l.connection.node ≠ currentName :=
      fun l hl => ne_of_mem_links_rename hne ((h l).2 hl)
    exact ⟨hname, fun hkey l hl hnew =>
      ((mem_links_rename_iff hname).1 ((h l).2 hl)).2 ⟨hnew, hkey⟩⟩
  · rintro ⟨hname, hover⟩ l
    rw [mem_links_rename_iff hname]
    exact ⟨And.left, fun hl => ⟨hl, fun hnew => hover hnew.2 l hl hnew.1⟩⟩

end Rename

theorem mem_mapConnectionsByDestination {c : Connections} {l : Link} :
    l ∈ (mapConnectionsByDestination c).links ↔ l.mirror ∈ c.links := by
  rw [(mapConnectionsByDestination_links c).mem_iff, List.mem_map]
  exact ⟨fun ⟨l', hl', heq⟩ => heq ▸ hl', fun h => ⟨l.mirror, h, rfl⟩⟩

end Connections

namespace WorkflowIndexes

open Connections

theorem setConnections_mirrors (x : WorkflowIndexes) (connections : Connections) :
    (x.setConnections connections).Mirrors :=
  fun _ => Iff.rfl

/-- A rename keeps the two indexes in step exactly when it changes no connection. -/
theorem step_mirrors_iff {x : WorkflowIndexes} {e : WorkflowEdit} (hx : x.Mirrors)
    (he : x.Admissible e) : (x.step e).Mirrors ↔ x.KeepsLinks e := by
  cases e with
  | setConnections connections =>
    exact ⟨fun _ => trivial, fun _ => setConnections_mirrors x connections⟩
  | renameNode currentName newName =>
    by_cases hrestricted : isRestricted newName = true
    · simp only [step, renameNode, hrestricted, KeepsLinks, if_true, true_or, iff_true]
      exact hx
    · have hmirrors : (x.step (.renameNode currentName newName)).Mirrors ↔
          ∀ l, l ∈ (x.connectionsBySourceNode.rename currentName newName).links ↔
            l ∈ x.connectionsBySourceNode.links := by
        simp only [step, renameNode, hrestricted, Mirrors, mem_mapConnectionsByDestination]
        refine ⟨fun h l => ?_, fun h l => ?_⟩
        · have hl := (h l.mirror).symm.trans ((hx l.mirror).trans mem_mapConnectionsByDestination)
          exact hl
        · exact (hx l).trans (mem_mapConnectionsByDestination.trans (h l.mirror).symm)
      rw [hmirrors, links_rename_iff he.1]
      simp [KeepsLinks, hrestricted]

def chainNodes : Dict String Node :=
  (Dict.empty.set "Trigger" { name := "Trigger", type := "trigger" }).set "Set"
    { name := "Set", type := "set" }

def chainConnections : Connections :=
  Dict.empty.set "Trigger" (Dict.empty.set .main [some [{ node := "Set", type := .main, index := 0 }]])

end WorkflowIndexes

end N8n
