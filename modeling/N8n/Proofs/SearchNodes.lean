import N8n.SearchNodes

/-!
# What a search by levels finds

A level of the search takes up the nodes that are as far from the source as it is deep, and merges
the indexes of the others. So after a level all that is nearer has been found, with the indexes of
the connections of what was found in the levels before the last.
-/

namespace N8n

open Relation Distances

theorem nodup_eraseDups {α : Type*} [DecidableEq α] : ∀ l : List α, l.eraseDups.Nodup
  | [] => List.nodup_nil
  | a :: l => by
    rw [List.eraseDups_cons, List.nodup_cons]
    refine ⟨fun hmem => ?_, nodup_eraseDups _⟩
    rw [List.mem_eraseDups, List.mem_filter] at hmem
    simp at hmem
  termination_by l => l.length
  decreasing_by exact Nat.lt_succ_of_le (List.length_filter_le _ _)

/-- Only a node with an entry has connections. -/
theorem Connections.mem_keys_of_mem {connections : Connections} {type : NodeConnectionType}
    {nodeName : String} {connection : Connection}
    (h : connection ∈ connections.connectionsOf type nodeName) : nodeName ∈ connections.keys := by
  rw [Dict.mem_keys]
  unfold connectionsOf ofType at h
  cases hentry : connections.get? nodeName with
  | none => simp [hentry, flatConnections] at h
  | some entry => rfl

namespace NodesSearch

variable {connections : Connections} {sourceNode : String} {s t u : NodesSearch}

/-! ## One node -/

/-- The node has been found at this depth. -/
def DepthAt (s : NodesSearch) (nodeName : String) (depth : ℕ) : Prop :=
  ∃ node, s.visited.get? nodeName = some node ∧ node.depth = depth

/-- The node has been found to be entered at this index. -/
def IndexAt (s : NodesSearch) (nodeName : String) (index : ℕ) : Prop :=
  ∃ node, s.visited.get? nodeName = some node ∧ index ∈ node.indicies

theorem get?_eq_none_iff {nodeName : String} :
    s.visited.get? nodeName = none ↔ ¬ ∃ depth, s.DepthAt nodeName depth := by
  unfold DepthAt
  cases h : s.visited.get? nodeName with
  | none => simp
  | some node => simp

/-- What the search may have found. -/
structure Sound (connections : Connections) (sourceNode : String) (s : NodesSearch) : Prop where
  names : ∀ nodeName node, s.visited.get? nodeName = some node →
    node.name = nodeName ∧ node.indicies.Nodup
  returned : s.returnConns = s.visited.keys.filter (· ≠ sourceNode)
  own : ∀ nodeName ∈ s.visited.keys,
    "hasOwnProperty" ∉ connections.keys ∧ nodeName ∉ inheritedKeys

/-- The entries of a queue at this depth. -/
def Queued (depth : ℕ) (node : ConnectedNode) : Prop :=
  node.depth = depth ∧ node.indicies.Nodup

/-- The entries have been gone through, and nothing else has happened. -/
structure Merged (connections : Connections) (depth : ℕ) (s : NodesSearch)
    (currs : List ConnectedNode) (t : NodesSearch) : Prop where
  depths : ∀ nodeName d, t.DepthAt nodeName d ↔ s.DepthAt nodeName d ∨
    (s.visited.get? nodeName = none ∧ d = depth ∧ nodeName ∈ currs.map (·.name))
  indexes : ∀ nodeName index, t.IndexAt nodeName index ↔ s.IndexAt nodeName index ∨
    ∃ curr ∈ currs, curr.name = nodeName ∧ index ∈ curr.indicies
  queue : ∀ node, node ∈ t.queue ↔ node ∈ s.queue ∨
    ∃ nodeName ∈ currs.map (·.name), s.visited.get? nodeName = none ∧
      ∃ connection ∈ connections.connectionsOf .main nodeName,
        node = { name := connection.node, indicies := [connection.index], depth := depth + 1 }

theorem Merged.refl (connections : Connections) (depth : ℕ) (s : NodesSearch) :
    Merged connections depth s [] s := ⟨by simp, by simp, by simp⟩

theorem Merged.get?_eq_none {depth : ℕ} {currs : List ConnectedNode}
    (h : Merged connections depth s currs t) (nodeName : String) :
    t.visited.get? nodeName = none ↔
      s.visited.get? nodeName = none ∧ nodeName ∉ currs.map (·.name) := by
  simp only [get?_eq_none_iff, h.depths]
  constructor
  · intro hnot
    refine ⟨fun ⟨d, hd⟩ => hnot ⟨d, .inl hd⟩, fun hmem => ?_⟩
    by_cases hs : ∃ d, s.DepthAt nodeName d
    · obtain ⟨d, hd⟩ := hs
      exact hnot ⟨d, .inl hd⟩
    · exact hnot ⟨depth, .inr ⟨hs, rfl, hmem⟩⟩
  · rintro ⟨hs, hmem⟩ ⟨d, hd | ⟨-, -, hcurr⟩⟩
    · exact hs ⟨d, hd⟩
    · exact hmem hcurr

theorem Merged.trans {depth : ℕ} {currs rest : List ConnectedNode}
    (h : Merged connections depth s currs t) (h' : Merged connections depth t rest u) :
    Merged connections depth s (currs ++ rest) u where
  depths nodeName d := by
    rw [h'.depths, h.depths, h.get?_eq_none, List.map_append, List.mem_append]
    tauto
  indexes nodeName index := by
    rw [h'.indexes, h.indexes, or_assoc]
    refine or_congr_right ?_
    simp only [List.mem_append, or_and_right, exists_or]
  queue node := by
    rw [h'.queue, h.queue, or_assoc]
    refine or_congr_right ?_
    simp only [h.get?_eq_none, List.map_append, List.mem_append]
    constructor
    · rintro (⟨nodeName, hmem, hrest⟩ | ⟨nodeName, hmem, ⟨hnone, -⟩, hrest⟩)
      · exact ⟨nodeName, .inl hmem, hrest⟩
      · exact ⟨nodeName, .inr hmem, hnone, hrest⟩
    · rintro ⟨nodeName, hmem, hnone, hrest⟩
      by_cases hcurr : nodeName ∈ currs.map (·.name)
      · exact .inl ⟨nodeName, hcurr, hnone, hrest⟩
      · exact .inr ⟨nodeName, hmem.resolve_left hcurr, ⟨hnone, hcurr⟩, hrest⟩

/-- An entry of a node that has been found adds its indexes. -/
theorem merged_of_some {depth : ℕ} {curr node : ConnectedNode}
    (h : s.visited.get? curr.name = some node) : Merged connections depth s [curr] { s with
      visited := s.visited.set curr.name
        { node with indicies := (node.indicies ++ curr.indicies).eraseDups } } where
  depths nodeName d := by
    simp only [DepthAt, Dict.get?_set]
    split_ifs with heq
    · simp [heq, h]
    · simp [heq]
  indexes nodeName index := by
    simp only [IndexAt, Dict.get?_set]
    split_ifs with heq
    · simp [heq, h]
    · simp [Ne.symm heq]
  queue other := by
    refine ⟨.inl, ?_⟩
    rintro (hmem | ⟨nodeName, hmem, hnone, -⟩)
    · exact hmem
    · rw [List.map_singleton, List.mem_singleton] at hmem
      rw [hmem, h] at hnone
      exact absurd hnone (Option.some_ne_none node)

/-- An entry of a node that has not been found is kept, and its connections are queued. -/
theorem merged_of_none {depth : ℕ} {curr : ConnectedNode} {returnConns : List String}
    (h : s.visited.get? curr.name = none) (hdepth : curr.depth = depth) :
    Merged connections depth s [curr]
      { queue := s.queue ++ (connections.connectionsOf .main curr.name).map fun connection =>
          { name := connection.node, indicies := [connection.index], depth := depth + 1 }
        visited := s.visited.set curr.name curr
        returnConns } where
  depths nodeName d := by
    simp only [DepthAt, Dict.get?_set]
    split_ifs with heq
    · simp [heq, h, hdepth, eq_comm]
    · simp [heq]
  indexes nodeName index := by
    simp only [IndexAt, Dict.get?_set]
    split_ifs with heq
    · simp [heq, h]
    · simp [Ne.symm heq]
  queue node := by
    rw [List.mem_append, List.mem_map]
    refine or_congr_right ?_
    simp [h, eq_comm]

theorem visit_merged {depth : ℕ} {curr : ConnectedNode} (hs : Sound connections sourceNode s)
    (hcurr : Queued depth curr) (h : visit connections sourceNode (depth + 1) s curr = .ok t) :
    Sound connections sourceNode t ∧ Merged connections depth s [curr] t := by
  unfold visit at h
  split at h
  · rename_i node hnode
    obtain rfl := Except.ok.inj h
    refine ⟨⟨fun nodeName other hother => ?_, ?_, ?_⟩, merged_of_some hnode⟩
    · simp only [Dict.get?_set] at hother
      split_ifs at hother with heq
      · obtain rfl := Option.some.inj hother
        exact ⟨heq ▸ (hs.names _ _ hnode).1, nodup_eraseDups _⟩
      · exact hs.names nodeName other hother
    · rw [Dict.keys_set_of_get? hnode]
      exact hs.returned
    · rw [Dict.keys_set_of_get? hnode]
      exact hs.own
  · rename_i hnone
    by_cases hinherited : curr.name ∈ inheritedKeys
    · rw [if_pos hinherited] at h
      cases h
    rw [if_neg hinherited] at h
    by_cases hown : "hasOwnProperty" ∈ connections.keys
    · rw [Connections.ownOfType, if_pos hown] at h
      cases h
    rw [Connections.ownOfType, if_neg hown] at h
    obtain rfl := Except.ok.inj h
    have hkeys : (s.visited.set curr.name curr).keys = s.visited.keys ++ [curr.name] := by
      rw [Dict.keys_set, if_neg]
      rw [Dict.mem_keys, hnone]
      exact Bool.false_ne_true
    refine ⟨⟨fun nodeName other hother => ?_, ?_, ?_⟩, merged_of_none hnone hcurr.1⟩
    · simp only [Dict.get?_set] at hother
      split_ifs at hother with heq
      · obtain rfl := Option.some.inj hother
        exact ⟨heq.symm, hcurr.2⟩
      · exact hs.names nodeName other hother
    · simp only [hkeys, List.filter_append, hs.returned]
      split_ifs with heq <;> simp [heq]
    · rw [hkeys]
      intro nodeName hmem
      rcases List.mem_append.1 hmem with hmem | hmem
      · exact hs.own nodeName hmem
      · exact List.mem_singleton.1 hmem ▸ ⟨hown, hinherited⟩

theorem foldlM_visit_merged {depth : ℕ} : ∀ {currs : List ConnectedNode} {s : NodesSearch},
    Sound connections sourceNode s → (∀ curr ∈ currs, Queued depth curr) →
      currs.foldlM (visit connections sourceNode (depth + 1)) s = .ok t →
      Sound connections sourceNode t ∧ Merged connections depth s currs t
  | [], s, hs, _, h => Except.ok.inj h ▸ ⟨hs, .refl connections depth s⟩
  | curr :: currs, s, hs, hcurrs, h => by
    rw [List.foldlM_cons] at h
    cases hvisit : visit connections sourceNode (depth + 1) s curr with
    | error e =>
      rw [hvisit] at h
      cases h
    | ok middle =>
      rw [hvisit] at h
      obtain ⟨hmiddle, hmerged⟩ := visit_merged hs (hcurrs curr List.mem_cons_self) hvisit
      obtain ⟨ht, hrest⟩ := foldlM_visit_merged hmiddle
        (fun c hc => hcurrs c (List.mem_cons_of_mem _ hc)) h
      exact ⟨ht, hmerged.trans hrest⟩

theorem visit_ok {depth : ℕ} {curr : ConnectedNode} (hown : "hasOwnProperty" ∉ connections.keys)
    (hcurr : curr.name ∉ inheritedKeys) (s : NodesSearch) :
    ∃ t, visit connections sourceNode depth s curr = .ok t := by
  unfold visit
  split
  · exact ⟨_, rfl⟩
  · rw [if_neg hcurr, Connections.ownOfType, if_neg hown]
    exact ⟨_, rfl⟩

theorem foldlM_visit_ok {depth : ℕ} (hown : "hasOwnProperty" ∉ connections.keys) :
    ∀ {currs : List ConnectedNode}, (∀ curr ∈ currs, curr.name ∉ inheritedKeys) →
      ∀ s, ∃ t, currs.foldlM (visit connections sourceNode depth) s = .ok t
  | [], _, s => ⟨s, rfl⟩
  | curr :: currs, hcurrs, s => by
    obtain ⟨t, ht⟩ := @visit_ok connections sourceNode depth curr hown
      (hcurrs curr List.mem_cons_self) s
    rw [List.foldlM_cons, ht]
    exact foldlM_visit_ok hown (fun c hc => hcurrs c (List.mem_cons_of_mem _ hc)) t

/-! ## Levels -/

/-- An entry of this depth: the source's, or one for a connection of a node that is nearer by
one. -/
def Waiting (connections : Connections) (sourceNode : String) : ℕ → ConnectedNode → Prop
  | 0, node => node = { name := sourceNode, indicies := [], depth := 0 }
  | depth + 1, node => ∃ nodeName,
      Nearest (connections.Connects .main) sourceNode depth nodeName ∧
      ∃ connection ∈ connections.connectionsOf .main nodeName,
        node = { name := connection.node, indicies := [connection.index], depth := depth + 1 }

/-- What the search has found before the level of this depth. -/
structure AtLevel (connections : Connections) (sourceNode : String) (depth : ℕ)
    (s : NodesSearch) : Prop where
  sound : Sound connections sourceNode s
  depths : ∀ nodeName d, s.DepthAt nodeName d ↔
    d < depth ∧ Nearest (connections.Connects .main) sourceNode d nodeName
  indexes : ∀ nodeName index, s.IndexAt nodeName index ↔ ∃ other d, d + 1 < depth ∧
    Nearest (connections.Connects .main) sourceNode d other ∧
    ∃ connection ∈ connections.connectionsOf .main other,
      connection.node = nodeName ∧ connection.index = index
  queue : ∀ node, node ∈ s.queue ↔ Waiting connections sourceNode depth node

theorem atLevel_start : AtLevel connections sourceNode 0 (.start sourceNode) where
  sound := ⟨fun _ _ h => absurd h (Option.some_ne_none _).symm, rfl,
    fun _ h => absurd h List.not_mem_nil⟩
  depths nodeName d := by simp [DepthAt, start]
  indexes nodeName index := by simp [IndexAt, start]
  queue node := by simp [start, Waiting]

theorem Waiting.queued : ∀ {depth : ℕ} {node : ConnectedNode},
    Waiting connections sourceNode depth node → Queued depth node
  | 0, _, h => by
    obtain rfl := h
    exact ⟨rfl, List.nodup_nil⟩
  | depth + 1, _, ⟨_, _, connection, _, h⟩ => by
    obtain rfl := h
    exact ⟨rfl, List.nodup_singleton _⟩

namespace AtLevel

variable {depth : ℕ}

theorem get?_eq_none (h : AtLevel connections sourceNode depth s) (nodeName : String) :
    s.visited.get? nodeName = none ↔
      ¬ ∃ d < depth, Nearest (connections.Connects .main) sourceNode d nodeName := by
  rw [get?_eq_none_iff]
  simp only [h.depths]

/-- The nodes of the queue that have not been found are those at its depth. -/
theorem nearest_iff (h : AtLevel connections sourceNode depth s) (nodeName : String) :
    Nearest (connections.Connects .main) sourceNode depth nodeName ↔
      s.visited.get? nodeName = none ∧ nodeName ∈ s.queue.map (·.name) := by
  rw [h.get?_eq_none, List.mem_map]
  simp only [h.queue]
  cases depth with
  | zero =>
    rw [nearest_zero]
    constructor
    · rintro rfl
      exact ⟨fun ⟨d, hd, _⟩ => absurd hd (Nat.not_lt_zero d), _, rfl, rfl⟩
    · rintro ⟨-, _, rfl, hname⟩
      exact hname.symm
  | succ depth =>
    rw [nearest_succ, and_comm]
    simp only [Nat.lt_succ_iff]
    refine and_congr_right fun _ => ?_
    constructor
    · rintro ⟨other, hother, connection, hconnection, hnode⟩
      exact ⟨_, ⟨other, hother, connection, hconnection, rfl⟩, hnode⟩
    · rintro ⟨_, ⟨other, hother, connection, hconnection, rfl⟩, hnode⟩
      exact ⟨other, hother, connection, hconnection, hnode⟩

theorem level (h : AtLevel connections sourceNode depth s)
    (hlevel : NodesSearch.level connections sourceNode depth s = .ok t) :
    AtLevel connections sourceNode (depth + 1) t := by
  have hsound : Sound connections sourceNode { s with queue := [] } :=
    ⟨h.sound.names, h.sound.returned, h.sound.own⟩
  obtain ⟨ht, hmerged⟩ := foldlM_visit_merged hsound
    (fun curr hcurr => ((h.queue curr).1 hcurr).queued) hlevel
  refine ⟨ht, fun nodeName d => ?_, fun nodeName index => ?_, fun node => ?_⟩
  · have hold : DepthAt { s with queue := [] } nodeName d ↔
        d < depth ∧ Nearest (connections.Connects .main) sourceNode d nodeName :=
      h.depths nodeName d
    rw [hmerged.depths, hold, and_left_comm, ← h.nearest_iff, Nat.lt_succ_iff_lt_or_eq,
      or_and_right]
    refine or_congr_right (and_congr_right fun heq => ?_)
    rw [heq]
  · have hold : IndexAt { s with queue := [] } nodeName index ↔ s.IndexAt nodeName index := Iff.rfl
    rw [hmerged.indexes, hold, h.indexes]
    simp only [h.queue]
    constructor
    · rintro (⟨other, d, hd, hother⟩ | ⟨curr, hcurr, rfl, hindex⟩)
      · exact ⟨other, d, Nat.lt_succ_of_lt hd, hother⟩
      · cases depth with
        | zero =>
          obtain rfl := hcurr
          exact absurd hindex List.not_mem_nil
        | succ depth =>
          obtain ⟨other, hother, connection, hconnection, rfl⟩ := hcurr
          exact ⟨other, depth, Nat.lt_succ_self _, hother, connection, hconnection, rfl,
            (List.mem_singleton.1 hindex).symm⟩
    · rintro ⟨other, d, hd, hother, connection, hconnection, hnode, hindex⟩
      rcases Nat.lt_succ_iff_lt_or_eq.1 hd with hd | rfl
      · exact .inl ⟨other, d, hd, hother, connection, hconnection, hnode, hindex⟩
      · exact .inr ⟨_, ⟨other, hother, connection, hconnection, rfl⟩, hnode,
          List.mem_singleton.2 hindex.symm⟩
  · rw [hmerged.queue]
    simp only [List.not_mem_nil, false_or]
    constructor
    · rintro ⟨nodeName, hmem, hnone, hconnection⟩
      exact ⟨nodeName, (h.nearest_iff nodeName).2 ⟨hnone, hmem⟩, hconnection⟩
    · rintro ⟨nodeName, hnear, hconnection⟩
      obtain ⟨hnone, hmem⟩ := (h.nearest_iff nodeName).1 hnear
      exact ⟨nodeName, hmem, hnone, hconnection⟩

/-- Something waits at so many levels only, as a node with connections belongs to each. -/
theorem le_length (h : AtLevel connections sourceNode depth s) (hne : s.queue ≠ []) :
    depth ≤ connections.keys.length := by
  obtain ⟨node, hnode⟩ := List.exists_mem_of_ne_nil _ hne
  rw [h.queue] at hnode
  cases depth with
  | zero => exact Nat.zero_le _
  | succ depth =>
    obtain ⟨nodeName, hnear, connection, hconnection, -⟩ := hnode
    refine hnear.succ_le_length ⟨connection, hconnection, rfl⟩ ?_
    rintro a b ⟨c, hc, -⟩
    exact Connections.mem_keys_of_mem hc

end AtLevel

/-! ## The loop -/

/-- The loop without a limit ends before some level, with an empty queue. -/
theorem levels_found : ∀ {fuel depth : ℕ} {s : NodesSearch},
    AtLevel connections sourceNode depth s →
      levels connections sourceNode (-1) fuel depth s = some (.ok t) →
      ∃ depth', AtLevel connections sourceNode depth' t ∧ t.queue = []
  | 0, _, _, _, h => absurd h.symm (Option.some_ne_none _)
  | fuel + 1, depth, s, hs, h => by
    unfold levels at h
    split_ifs at h with hend
    · obtain rfl := Except.ok.inj (Option.some.inj h)
      exact ⟨depth, hs, hend.resolve_right fun hlimit => hlimit.1 rfl⟩
    · cases hlevel : level connections sourceNode depth s with
      | error e => simp [hlevel] at h
      | ok s' =>
        rw [hlevel] at h
        exact levels_found (hs.level hlevel) h

/-- Each level that is gone through has an entry in the connections of its own. -/
theorem levels_isSome (maxDepth : ℤ) : ∀ {fuel depth : ℕ} {s : NodesSearch},
    AtLevel connections sourceNode depth s → depth ≤ connections.keys.length + 1 →
      fuel + depth = connections.keys.length + 2 →
      (levels connections sourceNode maxDepth fuel depth s).isSome
  | 0, depth, _, _, hle, hfuel => by omega
  | fuel + 1, depth, s, hs, hle, hfuel => by
    unfold levels
    split_ifs with hend
    · rfl
    · cases hlevel : level connections sourceNode depth s with
      | error e => rfl
      | ok s' =>
        have hdepth := hs.le_length fun hnil => hend (.inl hnil)
        exact levels_isSome maxDepth (hs.level hlevel) (by omega) (by omega)

/-- After the last level all that connections lead to has been found. -/
theorem AtLevel.exists_nearest_iff {depth : ℕ} (h : AtLevel connections sourceNode depth t)
    (hnil : t.queue = []) (nodeName : String) :
    connections.Reached sourceNode nodeName ↔
      ∃ d < depth, Nearest (connections.Connects .main) sourceNode d nodeName := by
  refine ⟨fun hreached => ?_, fun ⟨d, _, hnear⟩ => hnear.steps.reaches⟩
  obtain ⟨n, hn⟩ := exists_steps hreached
  cases depth with
  | zero =>
    have hmem := (h.queue _).2 rfl
    rw [hnil] at hmem
    exact absurd hmem List.not_mem_nil
  | succ depth =>
    obtain ⟨d, hd, hnear⟩ := hn.nearest_le_of_last fun a b ha ⟨connection, hconnection, _⟩ => by
      have hmem := (h.queue _).2 ⟨a, ha, connection, hconnection, rfl⟩
      rw [hnil] at hmem
      exact absurd hmem List.not_mem_nil
    exact ⟨d, Nat.lt_succ_of_le hd, hnear⟩

theorem AtLevel.mem_keys {depth : ℕ} (h : AtLevel connections sourceNode depth t)
    (hnil : t.queue = []) (nodeName : String) :
    nodeName ∈ t.visited.keys ↔ connections.Reached sourceNode nodeName := by
  rw [h.exists_nearest_iff hnil, Dict.mem_keys, Option.isSome_iff_ne_none, ne_eq, h.get?_eq_none,
    not_not]

theorem map_name_filterMap (hs : Sound connections sourceNode s) : ∀ {names : List String},
    (∀ nodeName ∈ names, nodeName ∈ s.visited.keys) →
      (names.filterMap s.visited.get?).map (·.name) = names
  | [], _ => rfl
  | nodeName :: names, h => by
    obtain ⟨node, hnode⟩ := Option.isSome_iff_exists.1
      (Dict.mem_keys.1 (h nodeName List.mem_cons_self))
    rw [List.filterMap_cons_some hnode, List.map_cons, (hs.names nodeName node hnode).1,
      map_name_filterMap hs fun n hn => h n (List.mem_cons_of_mem _ hn)]

theorem AtLevel.breadth {depth : ℕ} (h : AtLevel connections sourceNode depth t)
    (hnil : t.queue = []) : connections.Breadth sourceNode t.found := by
  have hreturned : ∀ nodeName, nodeName ∈ t.returnConns ↔
      nodeName ≠ sourceNode ∧ connections.Reached sourceNode nodeName := fun nodeName => by
    rw [h.sound.returned, List.mem_filter, h.mem_keys hnil, decide_eq_true_eq, and_comm]
  have hnames : t.found.map (·.name) = t.returnConns :=
    map_name_filterMap h.sound fun nodeName hmem =>
      (h.mem_keys hnil nodeName).2 ((hreturned nodeName).1 hmem).2
  have hget : ∀ node ∈ t.found, t.visited.get? node.name = some node := fun node hmem => by
    obtain ⟨nodeName, -, hnode⟩ := List.mem_filterMap.1 hmem
    rwa [(h.sound.names nodeName node hnode).1]
  refine ⟨?_, fun nodeName => by rw [hnames, hreturned], fun node hmem => ?_, fun node hmem => ?_⟩
  · rw [hnames, h.sound.returned]
    exact t.visited.nodup.filter _
  · exact ((h.depths node.name node.depth).1 ⟨node, hget node hmem, rfl⟩).2
  · refine ⟨(h.sound.names _ node (hget node hmem)).2, fun index => ?_⟩
    have hindex : index ∈ node.indicies ↔ t.IndexAt node.name index := by
      simp [IndexAt, hget node hmem]
    rw [hindex, h.indexes]
    constructor
    · rintro ⟨other, d, -, hnear, hconnection⟩
      exact ⟨other, hnear.steps.reaches, hconnection⟩
    · rintro ⟨other, hreached, connection, hconnection, hnode⟩
      obtain ⟨d, hd, hnear⟩ := (h.exists_nearest_iff hnil other).1 hreached
      refine ⟨other, d, lt_of_le_of_ne (Nat.succ_le_of_lt hd) fun heq => ?_, hnear, connection,
        hconnection, hnode⟩
      have hwaits := (h.queue { name := connection.node, indicies := [connection.index], depth }).2
      rw [hnil] at hwaits
      subst heq
      exact absurd (hwaits ⟨other, hnear, connection, hconnection, rfl⟩) List.not_mem_nil

theorem Waiting.reached : ∀ {depth : ℕ} {node : ConnectedNode},
    Waiting connections sourceNode depth node → connections.Reached sourceNode node.name
  | 0, _, h => by
    obtain rfl := h
    exact .refl
  | depth + 1, _, ⟨_, hnear, connection, hconnection, h⟩ => by
    obtain rfl := h
    exact hnear.steps.reaches.tail ⟨connection, hconnection, rfl⟩

theorem levels_ok (hsearchable : connections.Searchable sourceNode) :
    ∀ {fuel depth : ℕ} {s : NodesSearch}, AtLevel connections sourceNode depth s →
      ∀ e, levels connections sourceNode (-1) fuel depth s ≠ some (.error e)
  | 0, _, _, _, _ => (Option.some_ne_none _).symm
  | fuel + 1, depth, s, hs, e => by
    obtain ⟨s', hs'⟩ : ∃ s', level connections sourceNode depth s = .ok s' :=
      foldlM_visit_ok hsearchable.own (fun curr hcurr =>
        hsearchable.names curr.name ((hs.queue curr).1 hcurr).reached) _
    unfold levels
    split_ifs
    · simp
    · rw [hs']
      exact levels_ok hsearchable (hs.level hs') e

end NodesSearch

open NodesSearch

/-- The search ends, whatever its limit. -/
theorem searchNodesBFS_isSome (connections : Connections) (sourceNode : String) (maxDepth : ℤ) :
    (searchNodesBFS connections sourceNode maxDepth).isSome := by
  rw [searchNodesBFS, Option.isSome_map]
  exact levels_isSome maxDepth atLevel_start (Nat.zero_le _) rfl

/-- Without a limit the search returns what main connections lead to, with distances and indexes,
exactly when it comes to no name that objects inherit. -/
theorem searchNodesBFS_breadth_iff (connections : Connections) (sourceNode : String) :
    (∃ found, searchNodesBFS connections sourceNode (-1) = some (.ok found) ∧
      connections.Breadth sourceNode found) ↔ connections.Searchable sourceNode := by
  constructor
  · rintro ⟨found, hfound, -⟩
    obtain ⟨result, hresult, hmap⟩ := Option.map_eq_some_iff.1 hfound
    cases result with
    | error e => exact absurd hmap (by simp [Except.map])
    | ok t =>
      obtain ⟨depth, ht, hnil⟩ := levels_found atLevel_start hresult
      have hown := fun nodeName hreached =>
        ht.sound.own nodeName ((ht.mem_keys hnil nodeName).2 hreached)
      exact ⟨(hown sourceNode .refl).1, fun nodeName hreached => (hown nodeName hreached).2⟩
  · intro hsearchable
    obtain ⟨result, hresult⟩ := Option.isSome_iff_exists.1
      (@levels_isSome connections sourceNode (-1) _ _ _ atLevel_start (Nat.zero_le _) rfl)
    cases result with
    | error e => exact absurd hresult (levels_ok hsearchable atLevel_start e)
    | ok t =>
      obtain ⟨depth, ht, hnil⟩ := levels_found atLevel_start hresult
      exact ⟨t.found, by rw [searchNodesBFS, hresult]; rfl, ht.breadth hnil⟩

/-- A node below another that is named like a property of objects. -/
def belowConstructor : Connections :=
  Dict.empty.set "End"
    (Dict.empty.set .main [some [{ node := "constructor", type := .main, index := 0 }]])

theorem belowConstructor_not_breadth : ¬ ∃ found,
    searchNodesBFS belowConstructor "End" (-1) = some (.ok found) ∧
      belowConstructor.Breadth "End" found := by
  rintro ⟨found, hfound, -⟩
  have herror : searchNodesBFS belowConstructor "End" (-1) = some (.error typeError) := by decide
  rw [herror] at hfound
  cases hfound

end N8n

/-!
# Which nodes are connected

A call finds what paths over unchecked nodes lead to. It finds a node twice where a connection of
its own leads to one that was found before, as only what is found further on is taken from its
place.
-/

namespace N8n

open Relation DepthFirst Distances

/-! ## Found nodes at the front -/

theorem mem_moveToFront {node : String} {returnNodes : List String} : ∀ {addNodes : List String},
    node ∈ moveToFront addNodes returnNodes ↔ node ∈ addNodes ∨ node ∈ returnNodes
  | [] => by simp [moveToFront]
  | parentNodeName :: addNodes => by
    have ih := @mem_moveToFront node returnNodes addNodes
    unfold moveToFront at ih ⊢
    rw [List.foldr_cons, List.mem_cons, List.mem_cons, or_assoc, ← ih]
    by_cases heq : node = parentNodeName
    · simp [heq]
    · rw [List.mem_erase_of_ne heq]

theorem nodup_cons_erase {node : String} {nodes : List String} :
    (node :: nodes.erase node).Nodup ↔ nodes.Nodup := by
  by_cases hmem : node ∈ nodes
  · exact (List.perm_cons_erase hmem).nodup_iff.symm
  · rw [List.erase_of_not_mem hmem, List.nodup_cons]
    exact and_iff_right hmem

theorem nodup_moveToFront {returnNodes : List String} : ∀ {addNodes : List String},
    (moveToFront addNodes returnNodes).Nodup ↔ returnNodes.Nodup
  | [] => Iff.rfl
  | _ :: addNodes => by
    rw [← @nodup_moveToFront returnNodes addNodes]
    exact nodup_cons_erase

/-! ## The loop over the connections -/

section Loop

variable (checkedNodes : List String) (add : String → List String)

/-- One turn of the loop, where this is what the calls return. -/
def addConnected (returnNodes : List String) (connection : Connection) : List String :=
  if connection.node ∈ checkedNodes then returnNodes
  else moveToFront (add connection.node) (connection.node :: returnNodes)

variable {checkedNodes add}

theorem mem_foldl_addConnected {node : String} : ∀ {array : List Connection}
    {returnNodes : List String}, node ∈ array.foldl (addConnected checkedNodes add) returnNodes ↔
      node ∈ returnNodes ∨ ∃ connection ∈ array, connection.node ∉ checkedNodes ∧
        (node = connection.node ∨ node ∈ add connection.node)
  | [], _ => by simp
  | connection :: array, returnNodes => by
    rw [List.foldl_cons, mem_foldl_addConnected, List.exists_mem_cons_iff, ← or_assoc]
    refine or_congr_left ?_
    unfold addConnected
    split_ifs with hchecked
    · simp [hchecked]
    · rw [mem_moveToFront, List.mem_cons]
      tauto

theorem nodup_foldl_addConnected : ∀ {array : List Connection} {returnNodes : List String},
    (array.foldl (addConnected checkedNodes add) returnNodes).Nodup ↔
      returnNodes.Nodup ∧
      (∀ node ∈ (array.map (·.node)).filter (· ∉ checkedNodes), node ∉ returnNodes) ∧
      ((array.map (·.node)).filter (· ∉ checkedNodes)).Pairwise fun node other =>
        other ≠ node ∧ other ∉ add node
  | [], _ => by simp
  | connection :: array, returnNodes => by
    rw [List.foldl_cons, nodup_foldl_addConnected, List.map_cons]
    unfold addConnected
    split_ifs with hchecked
    · rw [List.filter_cons_of_neg (by simpa using hchecked)]
    · rw [List.filter_cons_of_pos (by simpa using hchecked), nodup_moveToFront, List.nodup_cons,
        List.forall_mem_cons, List.pairwise_cons]
      simp only [mem_moveToFront, List.mem_cons, not_or]
      constructor
      · rintro ⟨⟨hnot, hnodup⟩, hnew, hpairwise⟩
        exact ⟨hnodup, ⟨hnot, fun node hnode => (hnew node hnode).2.2⟩,
          fun node hnode => ⟨(hnew node hnode).2.1, (hnew node hnode).1⟩, hpairwise⟩
      · rintro ⟨hnodup, ⟨hnot, hnew⟩, hlater, hpairwise⟩
        exact ⟨⟨hnot, hnodup⟩, fun node hnode =>
          ⟨(hlater node hnode).2, (hlater node hnode).1, hnew node hnode⟩, hpairwise⟩

end Loop

namespace Connections

variable {connections : Connections} {connectionType : ConnectionTypes} {depth : ℤ}
  {nodeName : String} {checkedNodes : List String}

/-! ## A call -/

theorem connectionsOfTypes_eq_nil (h : nodeName ∉ connections.keys) :
    connections.connectionsOfTypes connectionType nodeName = [] := by
  refine List.eq_nil_iff_forall_not_mem.2 fun connection hmem => h ?_
  obtain ⟨type, -, hconnection⟩ := List.mem_flatMap.1 hmem
  exact mem_keys_of_mem hconnection

/-- A loop over lists in turn is one over all that they hold. -/
theorem foldlM_flatMap {α β σ : Type} {f : α → List β} {step : σ → β → Option σ} :
    ∀ (as : List α) (s : σ),
      as.foldlM (fun s a => (f a).foldlM step s) s = (as.flatMap f).foldlM step s
  | [], _ => rfl
  | a :: as, s => by
    rw [List.foldlM_cons, List.flatMap_cons, List.foldlM_append]
    cases (f a).foldlM step s with
    | none => rfl
    | some s' => exact foldlM_flatMap as s'

theorem foldlM_skip {α σ : Type} : ∀ (as : List α) (s : σ),
    as.foldlM (fun s _ => some s) s = some s
  | [], _ => rfl
  | _ :: as, s => foldlM_skip as s

/-- The depth of the calls that a call makes. -/
def nextDepth (depth : ℤ) : ℤ := if depth = -1 then depth else depth - 1

/-- A call goes through the connections of all types, unless it is too deep or the node has been
checked. -/
theorem connectedNodes_succ (fuel : ℕ) :
    connections.connectedNodes connectionType (fuel + 1) depth nodeName checkedNodes =
      if depth = 0 ∨ nodeName ∈ checkedNodes then some []
      else (connections.connectionsOfTypes connectionType nodeName).foldlM
        (fun returnNodes connection =>
          if connection.node ∈ checkedNodes ++ [nodeName] then some returnNodes
          else do
            let addNodes ← connections.connectedNodes connectionType fuel (nextDepth depth)
              connection.node (checkedNodes ++ [nodeName])
            return moveToFront addNodes (connection.node :: returnNodes)) [] := by
  rw [connectedNodes]
  by_cases hdepth : depth = 0
  · rw [if_pos hdepth, if_pos (.inl hdepth)]
  rw [if_neg hdepth]
  by_cases hkeys : nodeName ∈ connections.keys
  · rw [if_neg (not_not_intro hkeys)]
    by_cases hchecked : nodeName ∈ checkedNodes
    · rw [if_pos (show depth = 0 ∨ nodeName ∈ checkedNodes from .inr hchecked)]
      convert foldlM_skip (connections.types connectionType nodeName) ([] : List String) using 2
      funext returnNodes type
      cases connections.ofType nodeName type with
      | none => rfl
      | some connectionsByIndex => exact if_pos hchecked
    · rw [if_neg (not_or.2 ⟨hdepth, hchecked⟩), connectionsOfTypes, ← foldlM_flatMap]
      congr 1
      funext returnNodes type
      unfold connectionsOf
      cases connections.ofType nodeName type with
      | none => rfl
      | some connectionsByIndex => exact if_neg hchecked
  · rw [if_pos hkeys, connectionsOfTypes_eq_nil hkeys]
    split_ifs <;> rfl

/-- The checked nodes leave enough fuel for all nodes that are not checked. -/
structure Fueled (connections : Connections) (fuel : ℕ) (checkedNodes : List String) : Prop where
  nodup : checkedNodes.Nodup
  keys : checkedNodes ⊆ connections.keys
  enough : connections.keys.length < fuel + checkedNodes.length

theorem Fueled.ne_zero {fuel : ℕ} (h : Fueled connections fuel checkedNodes) : fuel ≠ 0 := by
  rintro rfl
  have hle := (h.nodup.subperm h.keys).length_le
  have hlt := h.enough
  omega

theorem Fueled.next {fuel : ℕ} (h : Fueled connections (fuel + 1) checkedNodes)
    (hkeys : nodeName ∈ connections.keys) (hnot : nodeName ∉ checkedNodes) :
    Fueled connections fuel (checkedNodes ++ [nodeName]) where
  nodup := by
    rw [List.nodup_append_comm, List.singleton_append, List.nodup_cons]
    exact ⟨hnot, h.nodup⟩
  keys := List.append_subset.2 ⟨h.keys, List.cons_subset.2 ⟨hkeys, List.nil_subset _⟩⟩
  enough := by
    have hlt := h.enough
    rw [List.length_append, List.length_singleton]
    omega

theorem foldlM_addConnected (call : String → Option (List String)) : ∀ {array : List Connection},
    (∀ connection ∈ array, (call connection.node).isSome) → ∀ returnNodes,
      array.foldlM (fun returnNodes connection =>
        if connection.node ∈ checkedNodes then some returnNodes
        else do
          let addNodes ← call connection.node
          return moveToFront addNodes (connection.node :: returnNodes)) returnNodes =
      some (array.foldl (addConnected checkedNodes fun node => (call node).getD []) returnNodes)
  | [], _, _ => rfl
  | connection :: array, h, returnNodes => by
    obtain ⟨addNodes, hcall⟩ := Option.isSome_iff_exists.1 (h connection List.mem_cons_self)
    have hrest := @foldlM_addConnected call array fun c hc => h c (List.mem_cons_of_mem _ hc)
    rw [List.foldlM_cons, List.foldl_cons]
    unfold addConnected
    by_cases hchecked : connection.node ∈ checkedNodes
    · rw [if_pos hchecked, if_pos hchecked]
      exact hrest returnNodes
    · rw [if_neg hchecked, if_neg hchecked]
      beta_reduce
      rw [hcall]
      exact hrest (moveToFront addNodes (connection.node :: returnNodes))

/-- What a call finds, and that it ends. -/
theorem connectedNodes_eq : ∀ {fuel : ℕ} {depth : ℤ} {nodeName : String}
    {checkedNodes : List String}, Fueled connections (fuel + 1) checkedNodes →
      connections.connectedNodes connectionType (fuel + 1) depth nodeName checkedNodes =
        some (if depth = 0 ∨ nodeName ∈ checkedNodes then []
          else (connections.connectionsOfTypes connectionType nodeName).foldl
            (addConnected (checkedNodes ++ [nodeName]) fun node =>
              (connections.connectedNodes connectionType fuel (nextDepth depth) node
                (checkedNodes ++ [nodeName])).getD []) [])
  | fuel, depth, nodeName, checkedNodes, hfuel => by
    rw [connectedNodes_succ]
    split_ifs with hend
    · rfl
    · refine foldlM_addConnected (fun node => connections.connectedNodes connectionType fuel
        (nextDepth depth) node (checkedNodes ++ [nodeName])) (fun connection hconnection => ?_) []
      obtain ⟨type, -, hmem⟩ := List.mem_flatMap.1 hconnection
      have hnext := hfuel.next (mem_keys_of_mem hmem) (not_or.1 hend).2
      obtain ⟨fuel, rfl⟩ := Nat.exists_eq_succ_of_ne_zero hnext.ne_zero
      rw [connectedNodes_eq hnext]
      rfl

/-! ## What a call finds -/

theorem within_nextDepth {length : ℕ} (hdepth : depth ≠ 0) :
    Within (nextDepth depth) length ↔ Within depth (length + 1) := by
  unfold Within nextDepth
  split_ifs <;> omega

/-- A call finds what paths within its depth over unchecked nodes lead to, other than its node. -/
theorem mem_connectedNodes {other : String} : ∀ {fuel : ℕ} {depth : ℤ} {nodeName : String}
    {checkedNodes : List String}, Fueled connections fuel checkedNodes →
      (other ∈ (connections.connectedNodes connectionType fuel depth nodeName checkedNodes).getD []
        ↔ other ∉ checkedNodes ∧ other ≠ nodeName ∧ ∃ length, Within depth length ∧
          Steps (Avoiding (connections.ConnectsOver connectionType) checkedNodes) nodeName length
            other)
  | 0, _, _, _, hfuel => absurd rfl hfuel.ne_zero
  | fuel + 1, depth, nodeName, checkedNodes, hfuel => by
    rw [connectedNodes_eq hfuel, Option.getD_some]
    split_ifs with hend
    · refine iff_of_false List.not_mem_nil ?_
      rintro ⟨-, hne, length, hwithin, hsteps⟩
      obtain ⟨hnot, c, m, -, hle, -⟩ := hsteps.exists_avoiding hne
      rcases hend with rfl | hchecked
      · unfold Within at hwithin
        omega
      · exact hnot hchecked
    · obtain ⟨hdepth, hchecked⟩ := not_or.1 hend
      have hnext : ∀ connection ∈ connections.connectionsOfTypes connectionType nodeName,
          Fueled connections fuel (checkedNodes ++ [nodeName]) := fun connection hconnection => by
        obtain ⟨type, -, hmem⟩ := List.mem_flatMap.1 hconnection
        exact hfuel.next (mem_keys_of_mem hmem) hchecked
      rw [mem_foldl_addConnected]
      constructor
      · rintro (hnil | ⟨connection, hconnection, hnot, rfl | hmem⟩)
        · exact absurd hnil List.not_mem_nil
        · rw [List.mem_append, List.mem_singleton, not_or] at hnot
          refine ⟨hnot.1, hnot.2, 1, by unfold Within; omega, ?_⟩
          exact Steps.refl.tail ⟨⟨connection, hconnection, rfl⟩, hchecked⟩
        · obtain ⟨hother, -, length, hwithin, hsteps⟩ :=
            (mem_connectedNodes (hnext connection hconnection)).1 hmem
          rw [List.mem_append, List.mem_singleton, not_or] at hother
          exact ⟨hother.1, hother.2, length + 1, (within_nextDepth hdepth).1 hwithin,
            hsteps.weaken.head ⟨⟨connection, hconnection, rfl⟩, hchecked⟩⟩
      · rintro ⟨hother, hne, length, hwithin, hsteps⟩
        obtain ⟨-, _, m, ⟨connection, hconnection, rfl⟩, hle, hrest⟩ := hsteps.exists_avoiding hne
        have hnot : other ∉ checkedNodes ++ [nodeName] := by simp [hother, hne]
        have hnode : connection.node ∉ checkedNodes ++ [nodeName] := by
          rcases hrest.eq_or_not_mem with rfl | hmem
          · obtain _ | _ := hrest
            exact hnot
          · exact hmem
        have hrestWithin : Within (nextDepth depth) m := by
          rw [within_nextDepth hdepth]
          unfold Within at hwithin ⊢
          omega
        refine .inr ⟨connection, hconnection, hnode, ?_⟩
        by_cases heq : other = connection.node
        · exact .inl heq
        · exact .inr ((mem_connectedNodes (hnext connection hconnection)).2
            ⟨hnot, heq, m, hrestWithin, hrest⟩)

/-! ## The first call -/

theorem fueled_nil : Fueled connections (connections.keys.length + 1) [] :=
  ⟨List.nodup_nil, List.nil_subset _, Nat.lt_succ_self _⟩

/-- What the first call returns has no duplicates exactly when no connection of the node leads to
what an earlier one leads to. -/
theorem nodup_connectedNodes :
    ((connections.connectedNodes connectionType (connections.keys.length + 1) depth nodeName
      []).getD []).Nodup ↔
      (connections.targetsOf connectionType nodeName).Pairwise fun target other =>
        ¬ connections.Covers connectionType depth nodeName target other := by
  rw [connectedNodes_eq fueled_nil, Option.getD_some]
  split_ifs with hend
  · obtain rfl := hend.resolve_right List.not_mem_nil
    refine iff_of_true List.nodup_nil (List.pairwise_of_forall fun target other => ?_)
    rintro ⟨length, hwithin, -⟩
    unfold Within at hwithin
    omega
  · obtain ⟨hdepth, -⟩ := not_or.1 hend
    have htargets : ((connections.connectionsOfTypes connectionType nodeName).map
        (·.node)).filter (· ∉ ([] ++ [nodeName] : List String)) =
          connections.targetsOf connectionType nodeName :=
      List.filter_congr fun node _ => by simp
    rw [nodup_foldl_addConnected, htargets]
    refine (and_iff_right List.nodup_nil).trans ?_
    refine (and_iff_right fun _ _ => List.not_mem_nil).trans ?_
    refine List.Pairwise.iff_of_mem fun {target other} htarget hother => ?_
    rw [← not_or, not_iff_not]
    obtain ⟨hmem, hne⟩ := List.mem_filter.1 hother
    obtain ⟨connection, hconnection, -⟩ := List.mem_map.1 (List.mem_filter.1 htarget).1
    obtain ⟨type, -, hmem'⟩ := List.mem_flatMap.1 hconnection
    have hfuel : Fueled connections connections.keys.length ([] ++ [nodeName]) :=
      fueled_nil.next (mem_keys_of_mem hmem') List.not_mem_nil
    rw [mem_connectedNodes hfuel]
    simp only [within_nextDepth hdepth, List.nil_append, List.mem_singleton]
    constructor
    · rintro (rfl | ⟨-, -, length, hwithin, hsteps⟩)
      · refine ⟨0, ?_, .refl⟩
        unfold Within
        omega
      · exact ⟨length, hwithin, hsteps⟩
    · rintro ⟨length, hwithin, hsteps⟩
      by_cases heq : other = target
      · exact .inl heq
      · exact .inr ⟨by simpa using hne, heq, length, hwithin, hsteps⟩

/-- The walk of one type without a depth makes the same calls. -/
theorem getConnectedNodes_eq {type : NodeConnectionType} : ∀ {fuel : ℕ} {nodeName : String}
    {checkedNodes : List String}, Fueled connections fuel checkedNodes →
      N8n.getConnectedNodes connections type fuel nodeName checkedNodes =
        (connections.connectedNodes (.type type) fuel (-1) nodeName checkedNodes).getD []
  | 0, _, _, hfuel => absurd rfl hfuel.ne_zero
  | fuel + 1, nodeName, checkedNodes, hfuel => by
    have hof : connections.connectionsOfTypes (.type type) nodeName =
        connections.connectionsOf type nodeName := List.flatMap_singleton _ _
    rw [connectedNodes_eq hfuel, Option.getD_some, hof, N8n.getConnectedNodes]
    cases htype : connections.ofType nodeName type with
    | none => split_ifs <;> simp [connectionsOf, htype, flatConnections]
    | some connectionsByIndex =>
      have hlist : connections.connectionsOf type nodeName =
          flatConnections connectionsByIndex := by
        rw [connectionsOf, htype, Option.getD_some]
      by_cases hchecked : nodeName ∈ checkedNodes
      · rw [if_pos (show (-1 : ℤ) = 0 ∨ nodeName ∈ checkedNodes from .inr hchecked)]
        exact if_pos hchecked
      · rw [if_neg (show ¬ ((-1 : ℤ) = 0 ∨ nodeName ∈ checkedNodes) by simp [hchecked]), hlist]
        refine (if_neg hchecked).trans (List.foldl_ext _ _ _ fun returnNodes connection hmem => ?_)
        have hnext := hfuel.next (mem_keys_of_mem (hlist ▸ hmem)) hchecked
        rw [addConnected, getConnectedNodes_eq hnext]
        rfl

end Connections

open Connections

/-- The nodes within the depth are returned, each once, exactly when the connections can be asked
for their own properties and no connection of the node leads to what an earlier one leads to. -/
theorem getConnectedNodes_connected_iff (connections : Connections)
    (connectionType : ConnectionTypes) (depth : ℤ) (nodeName : String) :
    (∃ found, connections.getConnectedNodes connectionType depth nodeName = some (.ok found) ∧
      connections.Connected connectionType depth nodeName found) ↔
    (depth = 0 ∨ "hasOwnProperty" ∉ connections.keys) ∧
      (connections.targetsOf connectionType nodeName).Pairwise fun target other =>
        ¬ connections.Covers connectionType depth nodeName target other := by
  have hmem := fun other => @mem_connectedNodes connections connectionType other _ depth nodeName _
    fueled_nil
  obtain ⟨found, hfound⟩ : ∃ found, connections.connectedNodes connectionType
      (connections.keys.length + 1) depth nodeName [] = some found := ⟨_, connectedNodes_eq fueled_nil⟩
  rw [← nodup_connectedNodes, Connections.getConnectedNodes, hfound, Option.getD_some,
    Option.map_some]
  rw [hfound, Option.getD_some, avoiding_nil] at hmem
  by_cases hown : depth ≠ 0 ∧ "hasOwnProperty" ∈ connections.keys
  · rw [if_pos hown]
    refine iff_of_false ?_ fun h => ?_
    · rintro ⟨_, herror, -⟩
      cases herror
    · exact h.1.elim hown.1 fun hnot => hnot hown.2
  · rw [if_neg hown, and_iff_right (by tauto)]
    constructor
    · rintro ⟨other, hother, hconnected⟩
      obtain rfl := Except.ok.inj (Option.some.inj hother)
      exact hconnected.nodup
    · intro hnodup
      exact ⟨found, rfl, hnodup, fun other => by simpa using hmem other⟩

/-- A node with a connection from each of its outputs to one other node. -/
def twoOutputs : Connections :=
  Dict.empty.set "If" (Dict.empty.set .main
    [some [{ node := "Merge", type := .main, index := 0 }],
      some [{ node := "Merge", type := .main, index := 1 }]])

theorem twoOutputs_not_connected : ¬ ∃ found,
    twoOutputs.getConnectedNodes (.type .main) (-1) "If" = some (.ok found) ∧
      twoOutputs.Connected (.type .main) (-1) "If" found := by
  rintro ⟨found, hfound, hconnected⟩
  have htwice : twoOutputs.getConnectedNodes (.type .main) (-1) "If" =
      some (.ok ["Merge", "Merge"]) := by decide
  rw [htwice] at hfound
  obtain rfl := Except.ok.inj (Option.some.inj hfound)
  exact absurd hconnected.nodup (by decide)

end N8n
