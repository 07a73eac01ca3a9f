import Mathlib.Data.List.Chain
import Mathlib.Data.List.Induction
import N8n.WorkflowDiff

/-!
# Net diffs

Change sets that are merged along a history say of each node what has become of it from the first
version to the last. What carries over a merge is that the version where two change sets meet is
the target of one and the base of the other.
-/

namespace N8n

variable {α β ε : Type}

/-! ## Versions -/

/-- Some node of the version has the id. -/
def HasId (nodes : List (DiffableNode α)) (id : String) : Prop := ∃ node ∈ nodes, node.id = id

/-- The nodes of the id are equal in the two versions. -/
def Unchanged (compareNodes : CompareNodes α) (id : String) (base target : List (DiffableNode α)) :
    Prop :=
  ∃ node ∈ base, ∃ node' ∈ target, node.id = id ∧ node'.id = id ∧
    compareNodes (some node) (some node') = true

theorem get?_nodesById (nodes : List (DiffableNode α)) (id : String) :
    (nodesById nodes).get? id = nodes.reverse.find? fun node => node.id = id := by
  induction nodes using List.reverseRecOn with
  | nil => rfl
  | append_singleton nodes node ih =>
    unfold nodesById at ih ⊢
    rw [List.foldl_append, List.foldl_cons, List.foldl_nil, Dict.get?_set, ih, List.reverse_append,
      List.reverse_singleton, List.singleton_append, List.find?_cons]
    by_cases h : node.id = id <;> simp [h, Ne.symm]

theorem get?_nodesById_eq_none {nodes : List (DiffableNode α)} {id : String} :
    (nodesById nodes).get? id = none ↔ ¬ HasId nodes id := by
  rw [get?_nodesById, List.find?_eq_none]
  simp [HasId]

theorem mem_of_get?_nodesById {nodes : List (DiffableNode α)} {id : String}
    {node : DiffableNode α} (h : (nodesById nodes).get? id = some node) :
    node ∈ nodes ∧ node.id = id := by
  rw [get?_nodesById] at h
  exact ⟨List.mem_reverse.1 (List.mem_of_find?_eq_some h), by simpa using List.find?_some h⟩

/-! ## Comparing two versions -/

/-- The entry of an id comes from where the id is. -/
theorem get?_compare (compareNodes : CompareNodes α) (base target : List (DiffableNode α))
    (id : String) : (compareWorkflowsNodes compareNodes base target).get? id =
      match (nodesById base).get? id, (nodesById target).get? id with
      | some node, _ =>
        some ⟨baseStatus compareNodes (nodesById base) (nodesById target) id, node⟩
      | none, some node => some ⟨.added, node⟩
      | none, none => none := by
  have hbase := Dict.get?_foldl_entries (k := id) (d := (Dict.empty : WorkflowDiff α))
    (f := fun diff e => diff.set e.1
      ⟨baseStatus compareNodes (nodesById base) (nodesById target) e.1, e.2⟩)
    (g := fun e _ => some ⟨baseStatus compareNodes (nodesById base) (nodesById target) e.1, e.2⟩)
    (fun d e k => Dict.get?_set d e.1 k _) (nodesById base).nodup
  unfold compareWorkflowsNodes
  dsimp only
  rw [Dict.get?_foldl_entries (g := fun e old => if (nodesById base).get? e.1 = none then
    some ⟨.added, e.2⟩ else old) ?_ (nodesById target).nodup, hbase]
  · change ((nodesById target).get? id).elim (((nodesById base).get? id).elim _ _) _ = _
    cases hfrom : (nodesById base).get? id with
    | none =>
      cases (nodesById target).get? id with
      | none => rfl
      | some node => exact if_pos hfrom
    | some node =>
      cases (nodesById target).get? id with
      | none => rfl
      | some node' =>
        refine (if_neg (by rw [hfrom]; exact Option.some_ne_none _)).trans ?_
        change ((nodesById base).get? id).elim _ _ = _
        rw [hfrom]
        rfl
  · intro d e k
    split_ifs with hnone hkey hkey
    · rw [hkey, Dict.get?_set_self]
    · rw [Dict.get?_set_of_ne d hkey]
    · rfl
    · rfl

/-! ## Diffs along a history -/

/-- The status of an id. -/
def WorkflowDiff.status (diff : WorkflowDiff α) (id : String) : Option NodeDiffStatus :=
  (diff.get? id).map (·.status)

/-- What has become of an id from the first version to the last. -/
structure NetStatus (compareNodes : CompareNodes α) (history : List (List (DiffableNode α)))
    (id : String) (status : Option NodeDiffStatus) : Prop where
  added : ¬ HasId (history.headD []) id → HasId (history.getLastD []) id → status = some .added
  deleted : HasId (history.headD []) id → ¬ HasId (history.getLastD []) id →
    status = some .deleted
  absent : ¬ HasId (history.headD []) id → ¬ HasId (history.getLastD []) id → status = none
  kept : HasId (history.headD []) id → HasId (history.getLastD []) id →
    status = some .modified ∨
      (status = some .eq ∧ history.IsChain (Unchanged compareNodes id))

def NetDiff (compareNodes : CompareNodes α) (history : List (List (DiffableNode α)))
    (diff : WorkflowDiff α) : Prop :=
  ∀ id, NetStatus compareNodes history id (diff.status id)

variable {compareNodes : CompareNodes α} {history history' : List (List (DiffableNode α))}

theorem baseStatus_eq {base target : List (DiffableNode α)} {id : String}
    {node : DiffableNode α} (hbase : (nodesById base).get? id = some node)
    (h : baseStatus compareNodes (nodesById base) (nodesById target) id = .eq) :
    Unchanged compareNodes id base target := by
  unfold baseStatus at h
  split_ifs at h with hnone hequal
  obtain ⟨node', hnode'⟩ := Option.ne_none_iff_exists'.1 hnone
  rw [hbase, hnode', Bool.not_eq_false] at hequal
  obtain ⟨hmem, hid⟩ := mem_of_get?_nodesById hbase
  obtain ⟨hmem', hid'⟩ := mem_of_get?_nodesById hnode'
  exact ⟨node, hmem, node', hmem', hid, hid', hequal⟩

theorem exists_of_hasId {nodes : List (DiffableNode α)} {id : String} (h : HasId nodes id) :
    ∃ node, (nodesById nodes).get? id = some node :=
  Option.ne_none_iff_exists'.1 fun hnone => get?_nodesById_eq_none.1 hnone h

theorem netDiff_compare (compareNodes : CompareNodes α) (base target : List (DiffableNode α)) :
    NetDiff compareNodes [base, target] (compareWorkflowsNodes compareNodes base target) := by
  intro id
  unfold WorkflowDiff.status
  rw [get?_compare]
  constructor
  · intro (hbase : ¬ HasId base id) (htarget : HasId target id)
    obtain ⟨node, hnode⟩ := exists_of_hasId htarget
    rw [get?_nodesById_eq_none.2 hbase, hnode]
    rfl
  · intro (hbase : HasId base id) (htarget : ¬ HasId target id)
    obtain ⟨node, hnode⟩ := exists_of_hasId hbase
    rw [hnode]
    exact congrArg some (if_pos (get?_nodesById_eq_none.2 htarget))
  · intro (hbase : ¬ HasId base id) (htarget : ¬ HasId target id)
    rw [get?_nodesById_eq_none.2 hbase, get?_nodesById_eq_none.2 htarget]
    rfl
  · intro (hbase : HasId base id) (htarget : HasId target id)
    obtain ⟨node, hnode⟩ := exists_of_hasId hbase
    have hfound : (nodesById target).get? id ≠ none :=
      fun hnone => get?_nodesById_eq_none.1 hnone htarget
    rw [hnode]
    change some (baseStatus _ _ _ _) = _ ∨ (some (baseStatus _ _ _ _) = _ ∧ _)
    by_cases hequal : baseStatus compareNodes (nodesById base) (nodesById target) id = .eq
    · exact .inr ⟨congrArg some hequal, List.isChain_pair.2 (baseStatus_eq hnode hequal)⟩
    · refine .inl (congrArg some ?_)
      unfold baseStatus at hequal ⊢
      rw [if_neg hfound] at hequal ⊢
      exact if_pos (by_contra fun hnot => hequal (if_neg hnot))

/-! ## Merging -/

/-- Each entry of the change set that is merged decides what becomes of its id. -/
theorem mergeNext_eq_ok {s wcs : WorkflowChangeSet α} {r : String → Option (NodeDiff α)}
    (hsome : ∀ id diff, wcs.nodes.get? id = some diff →
      WorkflowChangeSet.mergeEntry (ε := ε) (s.nodes.get? id) diff = .ok (r id))
    (hnone : ∀ id, wcs.nodes.get? id = none → r id = s.nodes.get? id) :
    ∃ merged, s.mergeNext (ε := ε) wcs = .ok merged ∧ ∀ id, merged.nodes.get? id = r id := by
  obtain ⟨nodes, hnodes, hget⟩ := Dict.foldlM_put wcs.nodes.nodup fun e he =>
    hsome e.1 e.2 (Dict.mem_entries.1 he)
  refine ⟨⟨nodes⟩, ?_, fun id => ?_⟩
  · unfold WorkflowChangeSet.mergeNext
    rw [hnodes]
    rfl
  · refine (hget id).trans ?_
    split_ifs with hmem
    · rfl
    · exact (hnone id (Option.not_isSome_iff_eq_none.1 fun hsome =>
        hmem (Dict.mem_keys.2 hsome))).symm

theorem headD_append_cons (history history' : List (List (DiffableNode α)))
    (b : List (DiffableNode α)) :
    (history ++ b :: history').headD [] = (history ++ [b]).headD [] := by
  cases history <;> rfl

theorem getLastD_append_cons (history history' : List (List (DiffableNode α)))
    (b : List (DiffableNode α)) :
    (history ++ b :: history').getLastD [] = (b :: history').getLastD [] := by
  rw [List.getLastD_eq_getLast?, List.getLastD_eq_getLast?, List.getLast?_append_cons]

/-- The entry of an id that is there, merged with one of the next change set. -/
theorem mergeEntry_of_status {existing : Option (NodeDiff α)} {diff : NodeDiff α}
    {status status' : NodeDiffStatus} (h : existing.map (·.status) = some status)
    (hmerge : mergeNodeDiff status diff.status = .status status') :
    WorkflowChangeSet.mergeEntry (ε := ε) existing diff =
      .ok (some { diff with status := status' }) := by
  obtain ⟨existing, rfl, rfl⟩ := Option.map_eq_some_iff.1 h
  unfold WorkflowChangeSet.mergeEntry
  dsimp only
  rw [hmerge]

theorem NetStatus.of_added {id : String} (hfirst : ¬ HasId (history.headD []) id)
    (hlast : HasId (history.getLastD []) id) :
    NetStatus compareNodes history id (some .added) :=
  ⟨fun _ _ => rfl, fun h => absurd h hfirst, fun _ h => absurd hlast h, fun h => absurd h hfirst⟩

theorem NetStatus.of_deleted {id : String} (hfirst : HasId (history.headD []) id)
    (hlast : ¬ HasId (history.getLastD []) id) :
    NetStatus compareNodes history id (some .deleted) :=
  ⟨fun h => absurd hfirst h, fun _ _ => rfl, fun h => absurd hfirst h, fun _ h => absurd h hlast⟩

theorem NetStatus.of_absent {id : String} (hfirst : ¬ HasId (history.headD []) id)
    (hlast : ¬ HasId (history.getLastD []) id) : NetStatus compareNodes history id none :=
  ⟨fun _ h => absurd h hlast, fun h => absurd h hfirst, fun _ _ => rfl, fun h => absurd h hfirst⟩

theorem NetStatus.of_kept {id : String} {status : Option NodeDiffStatus}
    (hfirst : HasId (history.headD []) id) (hlast : HasId (history.getLastD []) id)
    (h : status = some .modified ∨
      (status = some .eq ∧ history.IsChain (Unchanged compareNodes id))) :
    NetStatus compareNodes history id status :=
  ⟨fun h => absurd hfirst h, fun _ h => absurd hlast h, fun h => absurd hfirst h, fun _ _ => h⟩

/-- What has become of an id over both parts of a history. -/
theorem exists_merged {b : List (DiffableNode α)} {existing next : Option (NodeDiff α)}
    {id : String} (hs : NetStatus compareNodes (history ++ [b]) id (existing.map (·.status)))
    (ht : NetStatus compareNodes (b :: history') id (next.map (·.status))) :
    ∃ out : Option (NodeDiff α),
      (∀ diff, next = some diff →
        WorkflowChangeSet.mergeEntry (ε := ε) existing diff = .ok out) ∧
      (next = none → out = existing) ∧
      NetStatus compareNodes (history ++ b :: history') id (out.map (·.status)) := by
  have hmid : (history ++ [b]).getLastD [] = b := getLastD_append_cons history [] b
  obtain ⟨sadded, sdeleted, sabsent, skept⟩ := hs
  obtain ⟨tadded, tdeleted, tabsent, tkept⟩ := ht
  rw [hmid, ← headD_append_cons history history'] at sadded sdeleted sabsent skept
  rw [List.headD_cons, ← getLastD_append_cons history] at tadded tdeleted tabsent tkept
  cases next with
  | none =>
    have hlast : ¬ HasId ((history ++ b :: history').getLastD []) id := fun h => by
      by_cases hb : HasId b id
      · rcases tkept hb h with h | ⟨h, -⟩ <;> cases h
      · cases tadded hb h
    have hb : ¬ HasId b id := fun hb => by cases tdeleted hb hlast
    refine ⟨existing, fun _ h => (by cases h), fun _ => rfl, ?_⟩
    by_cases hfirst : HasId ((history ++ b :: history').headD []) id
    · exact sdeleted hfirst hb ▸ .of_deleted hfirst hlast
    · exact sabsent hfirst hb ▸ .of_absent hfirst hlast
  | some diff =>
    -- the entry is merged, and it is not left out
    have hout (out : Option (NodeDiff α))
        (h : WorkflowChangeSet.mergeEntry (ε := ε) existing diff = .ok out)
        (hnet : NetStatus compareNodes (history ++ b :: history') id (out.map (·.status))) :
        ∃ out : Option (NodeDiff α),
          (∀ d, some diff = some d →
            WorkflowChangeSet.mergeEntry (ε := ε) existing d = .ok out) ∧
          (some diff = none → out = existing) ∧
          NetStatus compareNodes (history ++ b :: history') id (out.map (·.status)) :=
      ⟨out, fun _ hd => Option.some.inj hd ▸ h, fun hnone => (by cases hnone), hnet⟩
    have hmerge {status status' : NodeDiffStatus} (hs : existing.map (·.status) = some status)
        {next : NodeDiffStatus} (hnext : some diff.status = some next)
        (h : mergeNodeDiff status next = .status status') :
        WorkflowChangeSet.mergeEntry (ε := ε) existing diff =
          .ok (some { diff with status := status' }) :=
      mergeEntry_of_status hs (Option.some.inj hnext ▸ h)
    by_cases hb : HasId b id
    · by_cases hfirst : HasId ((history ++ b :: history').headD []) id <;>
        by_cases hlast : HasId ((history ++ b :: history').getLastD []) id
      · rcases skept hfirst hb with hs | ⟨hs, hchain⟩
        · rcases tkept hb hlast with ht | ⟨ht, -⟩ <;>
            exact hout _ (hmerge hs ht rfl) (.of_kept hfirst hlast (.inl rfl))
        · rcases tkept hb hlast with ht | ⟨ht, hchain'⟩
          · exact hout _ (hmerge hs ht rfl) (.of_kept hfirst hlast (.inl rfl))
          · exact hout _ (hmerge hs ht rfl) (.of_kept hfirst hlast
              (.inr ⟨rfl, List.isChain_split.2 ⟨hchain, hchain'⟩⟩))
      · rcases skept hfirst hb with hs | ⟨hs, -⟩ <;>
          exact hout _ (hmerge hs (tdeleted hb hlast) rfl) (.of_deleted hfirst hlast)
      · rcases tkept hb hlast with ht | ⟨ht, -⟩ <;>
          exact hout _ (hmerge (sadded hfirst hb) ht rfl) (.of_added hfirst hlast)
      · obtain ⟨existing', rfl, hstatus⟩ := Option.map_eq_some_iff.1 (sadded hfirst hb)
        have hdeleted : diff.status = .deleted := Option.some.inj (tdeleted hb hlast)
        refine hout none ?_ (.of_absent hfirst hlast)
        unfold WorkflowChangeSet.mergeEntry
        dsimp only
        rw [hstatus, hdeleted]
        rfl
    · have hlast : HasId ((history ++ b :: history').getLastD []) id :=
        by_contra fun hlast => by cases tabsent hb hlast
      by_cases hfirst : HasId ((history ++ b :: history').headD []) id
      · exact hout _ (hmerge (sdeleted hfirst hb) (tadded hb hlast) rfl)
          (.of_kept hfirst hlast (.inl rfl))
      · obtain rfl := Option.map_eq_none_iff.1 (sabsent hfirst hb)
        exact hout _ rfl (.of_added hfirst hlast)

/-- Diffs that meet are merged without an error. -/
theorem NetDiff.mergeNext {b : List (DiffableNode α)} {s wcs : WorkflowChangeSet α}
    (hs : NetDiff compareNodes (history ++ [b]) s.nodes)
    (ht : NetDiff compareNodes (b :: history') wcs.nodes) :
    ∃ merged, s.mergeNext (ε := ε) wcs = .ok merged ∧
      NetDiff compareNodes (history ++ b :: history') merged.nodes := by
  choose r hsome hnone hnet using fun id => exists_merged (ε := ε) (hs id) (ht id)
  obtain ⟨merged, hmerged, hget⟩ := mergeNext_eq_ok hsome hnone
  refine ⟨merged, hmerged, fun id => ?_⟩
  rw [WorkflowDiff.status, hget]
  exact hnet id

/-! ## Histories -/

/-- The change sets of the steps from a version on, merged into one. -/
def mergeSteps (compareNodes : CompareNodes α) (s : WorkflowChangeSet α)
    (base : List (DiffableNode α)) :
    List (List (DiffableNode α)) → Except (GroupError ε) (WorkflowChangeSet α)
  | [] => .ok s
  | target :: history => do
    let s ← s.mergeNext { nodes := compareWorkflowsNodes compareNodes base target }
    mergeSteps compareNodes s target history

theorem NetDiff.mergeSteps : ∀ {steps history : List (List (DiffableNode α))}
    {base : List (DiffableNode α)} {s : WorkflowChangeSet α},
    NetDiff compareNodes (history ++ [base]) s.nodes →
      ∃ merged, N8n.mergeSteps (ε := ε) compareNodes s base steps = .ok merged ∧
        NetDiff compareNodes (history ++ base :: steps) merged.nodes
  | [], _, _, s, hs => ⟨s, rfl, hs⟩
  | target :: steps, history, base, s, hs => by
    have hstep : NetDiff compareNodes [base, target]
        (WorkflowChangeSet.mk (compareWorkflowsNodes compareNodes base target)).nodes :=
      netDiff_compare compareNodes base target
    obtain ⟨next, hnext, hnet⟩ := hs.mergeNext (ε := ε) hstep
    rw [List.append_cons history base [target]] at hnet
    obtain ⟨merged, hmerged, hnet⟩ := NetDiff.mergeSteps hnet
    refine ⟨merged, ?_, ?_⟩
    · rw [N8n.mergeSteps, hnext]
      exact hmerged
    · rwa [List.append_cons history base]

/-- The change sets of the steps of a history are merged without an error, to its net diff. -/
theorem netDiff_history (compareNodes : CompareNodes α) (first second : List (DiffableNode α))
    (steps : List (List (DiffableNode α))) :
    ∃ merged, mergeSteps (ε := ε) compareNodes
        { nodes := compareWorkflowsNodes compareNodes first second } second steps = .ok merged ∧
      NetDiff compareNodes (first :: second :: steps) merged.nodes := by
  have hfirst : NetDiff compareNodes ([first] ++ [second])
      (WorkflowChangeSet.mk (compareWorkflowsNodes compareNodes first second)).nodes :=
    netDiff_compare compareNodes first second
  exact hfirst.mergeSteps

end N8n

/-!
# Groups of a workflow's history

A merge appends the versions of the diff it takes off the list to those of the diff before the
index. As long as every diff that is taken off is the one at the index, the diffs stay a chain along
the history. Once it is another, two versions have come together that do not follow one another,
and no later merge parts them.
-/

namespace N8n

variable {α β ε : Type}

namespace GroupedWorkflowHistory

/-- The versions after the one that the diff starts from. -/
def versions (d : GroupedWorkflowHistory α β) : List (IWorkflowBase α β) :=
  d.groupedWorkflows ++ [d.toWorkflow]

end GroupedWorkflowHistory

/-- The versions of the diffs, each version where one diff ends and the next begins read once. -/
def readOff : List (GroupedWorkflowHistory α β) → List (IWorkflowBase α β)
  | [] => []
  | d :: diffs => d.fromWorkflow :: (d :: diffs).flatMap (·.versions)

/-- The diffs chain from the first version to the last, and read off are the history. -/
structure Chains (workflows : List (IWorkflowBase α β))
    (diffs : List (GroupedWorkflowHistory α β)) : Prop where
  first : diffs.head?.map (·.fromWorkflow) = workflows.head?
  links : diffs.IsChain fun d d' => d.toWorkflow = d'.fromWorkflow
  last : diffs.getLast?.map (·.toWorkflow) = workflows.getLast?
  all : readOff diffs = workflows

/-- The diffs are groups of the history. One version has a diff to itself. -/
def Groups (workflows : List (IWorkflowBase α β)) (diffs : List (GroupedWorkflowHistory α β)) :
    Prop :=
  match workflows with
  | [workflow] => diffs = [{ fromWorkflow := workflow, toWorkflow := workflow }]
  | workflows => Chains workflows diffs

namespace GroupWorkflows

variable (compareNodes : CompareNodes α) (rules : List (DiffRule α β ε))

/-- Where the loops come by: how many diffs there were before the pass, the index, the diffs. -/
inductive Reaches (start : List (GroupedWorkflowHistory α β)) :
    ℕ → ℕ → List (GroupedWorkflowHistory α β) → Prop
  | start : Reaches start start.length (start.length - 1) start
  | step {length i : ℕ} {diffs diffs' : List (GroupedWorkflowHistory α β)} :
    Reaches start length (i + 1) diffs → mergeAt compareNodes rules (i + 1) diffs = .ok diffs' →
      Reaches start length i diffs'
  | again {length : ℕ} {diffs : List (GroupedWorkflowHistory α β)} :
    Reaches start length 0 diffs → diffs.length ≠ length →
      Reaches start diffs.length (diffs.length - 1) diffs

/-- Diffs that are merged at the index are the last two. -/
def MergesLast (i : ℕ) (diffs : List (GroupedWorkflowHistory α β)) : Prop :=
  ∀ prev next, diffs[i - 1]? = some prev → diffs[i]? = some next →
    shouldMerge compareNodes rules prev next = .ok true → i + 1 = diffs.length

/-- Wherever two diffs are merged in the course of the loops, they are the last two. -/
def AlwaysMergesLast (workflows : List (IWorkflowBase α β)) : Prop :=
  ∀ length i diffs, Reaches compareNodes rules (compareAll compareNodes workflows) length i diffs →
    0 < i → MergesLast compareNodes rules i diffs

variable {compareNodes rules}

/-! ## One merge -/

theorem mergeRight_eq_ok {prev right merged : GroupedWorkflowHistory α β}
    (h : prev.mergeRight (ε := ε) right = .ok merged) :
    merged.fromWorkflow = prev.fromWorkflow ∧ merged.toWorkflow = right.toWorkflow ∧
      merged.versions = prev.versions ++ right.versions ∧
      prev.workflowChangeSet.mergeNext (ε := ε) right.workflowChangeSet =
        .ok merged.workflowChangeSet := by
  obtain ⟨workflowChangeSet, hmerge, h⟩ := Fallible.bind_eq_ok.1 h
  obtain rfl := Except.ok.inj h
  exact ⟨rfl, rfl, by simp [GroupedWorkflowHistory.versions], hmerge⟩

theorem popInto_append {i : ℕ} {l : List (GroupedWorkflowHistory α β)}
    {right prev : GroupedWorkflowHistory α β} (hprev : l[i - 1]? = some prev) :
    popInto (ε := ε) i (l ++ [right]) =
      (prev.mergeRight right).map fun merged => l.set (i - 1) merged := by
  unfold popInto
  rw [List.getLast?_concat, List.dropLast_concat, hprev]
  dsimp only
  cases prev.mergeRight (ε := ε) right <;> rfl

/-- The body of the loop leaves the diffs, or merges the last into the one before the index. -/
theorem mergeAt_cases {i : ℕ} {diffs diffs' : List (GroupedWorkflowHistory α β)}
    (h : mergeAt compareNodes rules i diffs = .ok diffs') :
    diffs' = diffs ∨ ∃ l right prev next merged, diffs = l ++ [right] ∧ l[i - 1]? = some prev ∧
      diffs[i]? = some next ∧ shouldMerge compareNodes rules prev next = .ok true ∧
      prev.mergeRight (ε := ε) right = .ok merged ∧ diffs' = l.set (i - 1) merged := by
  unfold mergeAt at h
  split at h
  · rename_i prev next hprev hnext
    obtain ⟨merge, hmerge, hpop⟩ := Fallible.bind_eq_ok.1 h
    cases merge with
    | false => exact .inl (Except.ok.inj hpop).symm
    | true =>
      obtain ⟨l, right, rfl⟩ := (List.eq_nil_or_concat' diffs).resolve_left (by
        rintro rfl
        cases hnext)
      change popInto i (l ++ [right]) = _ at hpop
      obtain ⟨prev', hprev'⟩ : ∃ prev', l[i - 1]? = some prev' := by
        refine Option.ne_none_iff_exists'.1 fun hnone => ?_
        unfold popInto at hpop
        rw [List.getLast?_concat, List.dropLast_concat, hnone] at hpop
        cases hpop
      rw [popInto_append hprev'] at hpop
      rw [List.getElem?_append_left (List.getElem?_eq_some_iff.1 hprev').1, hprev'] at hprev
      obtain rfl := Option.some.inj hprev
      cases hmerged : prev'.mergeRight (ε := ε) right with
      | error e =>
        rw [hmerged] at hpop
        cases hpop
      | ok merged =>
        rw [hmerged] at hpop
        exact .inr ⟨l, right, prev', next, merged, rfl, hprev', hnext, hmerge, hmerged,
          (Except.ok.inj hpop).symm⟩
  · cases h

theorem mergeAt_of_ask {i : ℕ} {diffs : List (GroupedWorkflowHistory α β)}
    {prev next : GroupedWorkflowHistory α β} (hprev : diffs[i - 1]? = some prev)
    (hnext : diffs[i]? = some next) (hask : shouldMerge compareNodes rules prev next = .ok true) :
    mergeAt compareNodes rules i diffs = popInto i diffs := by
  unfold mergeAt
  rw [hprev, hnext]
  dsimp only
  rw [hask]
  rfl

/-- Why the body of the loop fails, at an index of the list. -/
theorem mergeAt_error {i : ℕ} {diffs : List (GroupedWorkflowHistory α β)} {e : GroupError ε}
    (hi : 0 < i) (hlt : i < diffs.length) (h : mergeAt compareNodes rules i diffs = .error e) :
    (∃ error, e = .rule error) ∨ ∃ l right prev next, diffs = l ++ [right] ∧
      l[i - 1]? = some prev ∧ diffs[i]? = some next ∧
      shouldMerge compareNodes rules prev next = .ok true ∧
      prev.mergeRight (ε := ε) right = .error e := by
  obtain ⟨l, right, rfl⟩ := (List.eq_nil_or_concat' diffs).resolve_left (by
    rintro rfl
    exact absurd hlt (Nat.not_lt_zero i))
  rw [List.length_append, List.length_singleton] at hlt
  obtain ⟨prev, hprev⟩ : ∃ prev, l[i - 1]? = some prev :=
    ⟨_, List.getElem?_eq_getElem (by omega)⟩
  obtain ⟨next, hnext⟩ : ∃ next, (l ++ [right])[i]? = some next :=
    ⟨_, List.getElem?_eq_getElem (by rw [List.length_append]; exact hlt)⟩
  have hprev' : (l ++ [right])[i - 1]? = some prev := by
    rw [List.getElem?_append_left (by omega), hprev]
  unfold mergeAt at h
  rw [hprev', hnext] at h
  dsimp only at h
  cases hask : shouldMerge compareNodes rules prev next with
  | error e' =>
    left
    rw [hask] at h
    obtain rfl := Except.error.inj h
    obtain ⟨error, -, rfl⟩ := Fallible.mapError_eq_error.1 hask
    exact ⟨error, rfl⟩
  | ok merge =>
    rw [hask] at h
    cases merge with
    | false => cases h
    | true =>
      change popInto i (l ++ [right]) = _ at h
      rw [popInto_append hprev] at h
      cases hmerged : prev.mergeRight (ε := ε) right with
      | error e' =>
        rw [hmerged] at h
        obtain rfl := Except.error.inj h
        exact .inr ⟨l, right, prev, next, rfl, hprev, hnext, hask, hmerged⟩
      | ok merged =>
        rw [hmerged] at h
        cases h

theorem mergeAt_length_ge {i : ℕ} {diffs diffs' : List (GroupedWorkflowHistory α β)}
    (h : mergeAt compareNodes rules i diffs = .ok diffs') : diffs.length ≤ diffs'.length + 1 := by
  rcases mergeAt_cases h with rfl | ⟨l, right, prev, next, merged, rfl, -, -, -, -, rfl⟩
  · exact Nat.le_succ _
  · rw [List.length_append, List.length_singleton, List.length_set]

theorem index_lt {start diffs : List (GroupedWorkflowHistory α β)} {length i : ℕ}
    (h : Reaches compareNodes rules start length i diffs) : 0 < i → i < diffs.length := by
  induction h with
  | start => omega
  | step _ hmerge ih =>
    have hle := mergeAt_length_ge hmerge
    omega
  | again => omega

/-! ## Chains -/

theorem readOff_concat : ∀ (l : List (GroupedWorkflowHistory α β)) (d : GroupedWorkflowHistory α β),
    l ≠ [] → readOff (l ++ [d]) = readOff l ++ d.versions
  | first :: l, d, _ => by
    simp [readOff]

theorem chains_iff {workflows : List (IWorkflowBase α β)}
    {diffs : List (GroupedWorkflowHistory α β)} (hne : diffs ≠ []) :
    Chains workflows diffs ↔ diffs.IsChain (fun d d' => d.toWorkflow = d'.fromWorkflow) ∧
      readOff diffs = workflows := by
  refine ⟨fun h => ⟨h.links, h.all⟩, fun ⟨hlinks, hall⟩ => ⟨?_, hlinks, ?_, hall⟩⟩
  · cases diffs with
    | nil => exact absurd rfl hne
    | cons d diffs => rw [← hall]; rfl
  · obtain ⟨l, d, rfl⟩ := (List.eq_nil_or_concat' diffs).resolve_left hne
    rw [← hall, List.getLast?_concat]
    rcases l with _ | ⟨first, l⟩
    · have hone : readOff ([] ++ [d]) =
          d.fromWorkflow :: d.groupedWorkflows ++ [d.toWorkflow] := by
        simp [readOff, GroupedWorkflowHistory.versions]
      rw [hone, List.getLast?_concat]
      rfl
    · rw [readOff_concat _ _ (List.cons_ne_nil _ _), GroupedWorkflowHistory.versions,
        ← List.append_assoc, List.getLast?_concat]
      rfl

/-- The diffs are a chain along the history, and each has the net diff of its versions. -/
structure Sound (compareNodes : CompareNodes α) (workflows : List (IWorkflowBase α β))
    (diffs : List (GroupedWorkflowHistory α β)) : Prop where
  nonempty : diffs ≠ []
  links : diffs.IsChain fun d d' => d.toWorkflow = d'.fromWorkflow
  all : readOff diffs = workflows
  net : ∀ d ∈ diffs, NetDiff compareNodes
    (d.fromWorkflow.nodes :: d.versions.map (·.nodes)) d.workflowChangeSet.nodes

theorem compareAll_sound (compareNodes : CompareNodes α) :
    ∀ (previous next : IWorkflowBase α β) (workflows : List (IWorkflowBase α β)),
      Sound compareNodes (previous :: next :: workflows)
        (compareAll compareNodes (previous :: next :: workflows))
  | previous, next, [] => by
    refine ⟨List.cons_ne_nil _ _, List.isChain_singleton _, rfl, fun d hd => ?_⟩
    obtain rfl := List.mem_singleton.1 hd
    exact netDiff_compare compareNodes previous.nodes next.nodes
  | previous, next, third :: workflows => by
    obtain ⟨-, hlinks, hall, hnet⟩ := compareAll_sound compareNodes next third workflows
    refine ⟨List.cons_ne_nil _ _, List.isChain_cons_cons.2 ⟨rfl, hlinks⟩, ?_, fun d hd => ?_⟩
    · exact congrArg (previous :: ·) hall
    · rcases List.mem_cons.1 hd with rfl | hd
      · exact netDiff_compare compareNodes previous.nodes next.nodes
      · exact hnet d hd

/-- Two diffs that meet are merged without an error. -/
theorem mergeRight_sound {prev right : GroupedWorkflowHistory α β}
    (hmeet : prev.toWorkflow = right.fromWorkflow)
    (hprev : NetDiff compareNodes (prev.fromWorkflow.nodes :: prev.versions.map (·.nodes))
      prev.workflowChangeSet.nodes)
    (hright : NetDiff compareNodes (right.fromWorkflow.nodes :: right.versions.map (·.nodes))
      right.workflowChangeSet.nodes) :
    ∃ merged, prev.mergeRight (ε := ε) right = .ok merged ∧
      NetDiff compareNodes (merged.fromWorkflow.nodes :: merged.versions.map (·.nodes))
        merged.workflowChangeSet.nodes := by
  have hsplit : prev.fromWorkflow.nodes :: prev.versions.map (·.nodes) =
      (prev.fromWorkflow.nodes :: prev.groupedWorkflows.map (·.nodes)) ++
        [right.fromWorkflow.nodes] := by
    simp [GroupedWorkflowHistory.versions, hmeet]
  rw [hsplit] at hprev
  obtain ⟨workflowChangeSet, hmerge, hnet⟩ := hprev.mergeNext (ε := ε) hright
  have hmerged : prev.mergeRight (ε := ε) right = .ok { prev with
      workflowChangeSet
      groupedWorkflows := prev.groupedWorkflows ++ prev.toWorkflow :: right.groupedWorkflows
      toWorkflow := right.toWorkflow } := by
    unfold GroupedWorkflowHistory.mergeRight
    rw [hmerge]
    rfl
  refine ⟨_, hmerged, ?_⟩
  convert hnet using 1
  simp [GroupedWorkflowHistory.versions, hmeet]

variable {workflows : List (IWorkflowBase α β)} {i : ℕ}

/-- The last two diffs are merged without an error, and stay a chain. -/
theorem Sound.merge {l : List (GroupedWorkflowHistory α β)}
    {prev right : GroupedWorkflowHistory α β}
    (h : Sound compareNodes workflows (l ++ [prev] ++ [right])) :
    ∃ merged, prev.mergeRight (ε := ε) right = .ok merged ∧
      Sound compareNodes workflows (l ++ [merged]) := by
  obtain ⟨-, hlinks, hall, hnet⟩ := h
  rw [List.append_assoc] at hlinks hnet
  have hmeet : prev.toWorkflow = right.fromWorkflow :=
    (List.isChain_cons_cons.1 (List.isChain_append.1 hlinks).2.1).1
  obtain ⟨merged, hmerged, hmergedNet⟩ := mergeRight_sound (ε := ε) hmeet
    (hnet prev (by simp)) (hnet right (by simp))
  obtain ⟨hfrom, hto, hversions, -⟩ := mergeRight_eq_ok hmerged
  refine ⟨merged, hmerged, by simp, ?_, ?_, fun d hd => ?_⟩
  · rw [List.isChain_append] at hlinks ⊢
    refine ⟨hlinks.1, List.isChain_singleton _, fun d hd d' hd' => ?_⟩
    obtain rfl := Option.some.inj hd'
    rw [hfrom]
    exact hlinks.2.2 d hd prev rfl
  · rw [← hall]
    rcases l with _ | ⟨first, l⟩
    · simp [readOff, hfrom, hversions]
    · simp [readOff, hversions]
  · rcases List.mem_append.1 hd with hd | hd
    · exact hnet d (List.mem_append_left _ hd)
    · exact List.mem_singleton.1 hd ▸ hmergedNet

/-- Where diffs that are merged are the last two, the body of the loop fails with a rule only, and
the diffs stay a chain. -/
theorem Sound.mergeAt {diffs : List (GroupedWorkflowHistory α β)}
    (h : Sound compareNodes workflows diffs) (hi : 0 < i) (hlt : i < diffs.length)
    (hlast : MergesLast compareNodes rules i diffs) :
    (∀ diffs', mergeAt compareNodes rules i diffs = .ok diffs' →
      Sound compareNodes workflows diffs') ∧
    ∀ e, mergeAt compareNodes rules i diffs = .error e → ∃ error, e = .rule error := by
  -- the two diffs at the end
  have hend : ∀ {l : List (GroupedWorkflowHistory α β)} {right prev next},
      diffs = l ++ [right] → l[i - 1]? = some prev → diffs[i]? = some next →
      shouldMerge compareNodes rules prev next = .ok true → ∃ l', l = l' ++ [prev] ∧
        i - 1 = l'.length := by
    intro l right prev next hdiffs hprev hnext hask
    have hprev' : diffs[i - 1]? = some prev := by
      rw [hdiffs, List.getElem?_append_left (List.getElem?_eq_some_iff.1 hprev).1, hprev]
    have hlength := hlast prev next hprev' hnext hask
    rw [hdiffs, List.length_append, List.length_singleton] at hlength
    obtain ⟨l', last, rfl⟩ := (List.eq_nil_or_concat' l).resolve_left (by
      rintro rfl
      cases hprev)
    rw [List.length_append, List.length_singleton] at hlength
    have hindex : i - 1 = l'.length := by omega
    rw [hindex, List.getElem?_concat_length] at hprev
    exact ⟨l', by rw [Option.some.inj hprev], hindex⟩
  refine ⟨fun diffs' hmerge => ?_, fun e hmerge => ?_⟩
  · rcases mergeAt_cases hmerge with
      rfl | ⟨l, right, prev, next, merged, hdiffs, hprev, hnext, hask, hmerged, rfl⟩
    · exact h
    · obtain ⟨l', rfl, hindex⟩ := hend hdiffs hprev hnext hask
      rw [hdiffs] at h
      obtain ⟨merged', hmerged', hsound⟩ := h.merge (ε := ε)
      rw [hmerged] at hmerged'
      obtain rfl := Except.ok.inj hmerged'
      rwa [hindex, List.set_append_right _ _ le_rfl, Nat.sub_self]
  · rcases mergeAt_error hi hlt hmerge with
      hrule | ⟨l, right, prev, next, hdiffs, hprev, hnext, hask, hmerged⟩
    · exact hrule
    · obtain ⟨l', rfl, -⟩ := hend hdiffs hprev hnext hask
      rw [hdiffs] at h
      obtain ⟨merged, hmerged', -⟩ := h.merge (ε := ε)
      rw [hmerged] at hmerged'
      cases hmerged'

/-! ## Runs of the loops -/

theorem reaches_pass {start : List (GroupedWorkflowHistory α β)} {length : ℕ} :
    ∀ {i : ℕ} {diffs : List (GroupedWorkflowHistory α β)},
      Reaches compareNodes rules start length i diffs →
        (∃ result, pass compareNodes rules i diffs = .ok result ∧
          Reaches compareNodes rules start length 0 result) ∨
        ∃ e i' diffs', pass compareNodes rules i diffs = .error e ∧
          Reaches compareNodes rules start length (i' + 1) diffs' ∧
            GroupWorkflows.mergeAt compareNodes rules (i' + 1) diffs' = .error e
  | 0, diffs, h => .inl ⟨diffs, rfl, h⟩
  | i + 1, diffs, h => by
    rw [pass]
    cases hmerge : GroupWorkflows.mergeAt compareNodes rules (i + 1) diffs with
    | error e => exact .inr ⟨e, i, diffs, rfl, h, hmerge⟩
    | ok diffs' => exact reaches_pass (h.step hmerge)

/-- The loops come to an end, at diffs they have come by, or fail where they have come by. -/
theorem reaches_groupLoop {start diffs : List (GroupedWorkflowHistory α β)}
    (h : Reaches compareNodes rules start diffs.length (diffs.length - 1) diffs) :
    (∃ result length, groupLoop compareNodes rules diffs = .ok result ∧
      Reaches compareNodes rules start length 0 result) ∨
    ∃ e length i diffs', groupLoop compareNodes rules diffs = .error e ∧
      Reaches compareNodes rules start length (i + 1) diffs' ∧
        GroupWorkflows.mergeAt compareNodes rules (i + 1) diffs' = .error e := by
  fun_induction groupLoop compareNodes rules diffs with
  | case1 diffs e hpass =>
    rcases reaches_pass h with ⟨result, hok, -⟩ | ⟨e', i, diffs', herror, hreach, hmerge⟩
    · rw [hok] at hpass
      cases hpass
    · rw [hpass] at herror
      obtain rfl := Except.error.inj herror
      exact .inr ⟨e, _, i, diffs', rfl, hreach, hmerge⟩
  | case2 diffs merged hpass hlength =>
    rcases reaches_pass h with ⟨result, hok, hreach⟩ | ⟨e, i, diffs', herror, -⟩
    · rw [hpass] at hok
      obtain rfl := Except.ok.inj hok
      exact .inl ⟨merged, _, rfl, hreach⟩
    · rw [hpass] at herror
      cases herror
  | case3 diffs merged hpass hlength ih =>
    rcases reaches_pass h with ⟨result, hok, hreach⟩ | ⟨e, i, diffs', herror, -⟩
    · rw [hpass] at hok
      obtain rfl := Except.ok.inj hok
      exact ih (hreach.again hlength)
    · rw [hpass] at herror
      cases herror

/-- The rest of the loops. -/
def finish (compareNodes : CompareNodes α) (rules : List (DiffRule α β ε)) (length i : ℕ)
    (diffs : List (GroupedWorkflowHistory α β)) :
    Except (GroupError ε) (List (GroupedWorkflowHistory α β)) := do
  let merged ← pass compareNodes rules i diffs
  if merged.length = length then return merged else groupLoop compareNodes rules merged

theorem groupLoop_eq_finish (diffs : List (GroupedWorkflowHistory α β)) :
    groupLoop compareNodes rules diffs =
      finish compareNodes rules diffs.length (diffs.length - 1) diffs := by
  rw [groupLoop, finish]
  split
  · rename_i e hpass
    rw [hpass]
    rfl
  · rename_i merged hpass
    rw [hpass]
    rfl

theorem groupLoop_eq {start diffs : List (GroupedWorkflowHistory α β)} {length i : ℕ}
    (h : Reaches compareNodes rules start length i diffs) :
    groupLoop compareNodes rules start = finish compareNodes rules length i diffs := by
  induction h with
  | start => exact groupLoop_eq_finish start
  | step _ hmerge ih =>
    rw [ih, finish, pass, hmerge]
    rfl
  | again _ hne ih =>
    rw [ih, finish, pass, ← groupLoop_eq_finish]
    exact if_neg hne

/-- What the body of the loop keeps, the rest of the loops keeps. -/
theorem pass_keeps {P : List (GroupedWorkflowHistory α β) → Prop}
    (hstep : ∀ i diffs diffs', P diffs →
      GroupWorkflows.mergeAt compareNodes rules i diffs = .ok diffs' → P diffs') :
    ∀ {i : ℕ} {diffs diffs' : List (GroupedWorkflowHistory α β)}, P diffs →
      pass compareNodes rules i diffs = .ok diffs' → P diffs'
  | 0, _, _, h, hpass => Except.ok.inj hpass ▸ h
  | i + 1, diffs, _, h, hpass => by
    obtain ⟨diffs', hmerge, hpass⟩ := Fallible.bind_eq_ok.1 hpass
    exact pass_keeps hstep (hstep (i + 1) diffs diffs' h hmerge) hpass

theorem groupLoop_keeps {P : List (GroupedWorkflowHistory α β) → Prop}
    (hstep : ∀ i diffs diffs', P diffs →
      GroupWorkflows.mergeAt compareNodes rules i diffs = .ok diffs' → P diffs')
    {diffs result : List (GroupedWorkflowHistory α β)} (h : P diffs)
    (hresult : groupLoop compareNodes rules diffs = .ok result) : P result := by
  fun_induction groupLoop compareNodes rules diffs with
  | case1 diffs e hpass => cases hresult
  | case2 diffs merged hpass hlength => exact Except.ok.inj hresult ▸ pass_keeps hstep h hpass
  | case3 diffs merged hpass hlength ih => exact ih (pass_keeps hstep h hpass) hresult

theorem finish_keeps {P : List (GroupedWorkflowHistory α β) → Prop}
    (hstep : ∀ i diffs diffs', P diffs →
      GroupWorkflows.mergeAt compareNodes rules i diffs = .ok diffs' → P diffs')
    {length i : ℕ} {diffs result : List (GroupedWorkflowHistory α β)} (h : P diffs)
    (hresult : finish compareNodes rules length i diffs = .ok result) : P result := by
  obtain ⟨merged, hpass, hresult⟩ := Fallible.bind_eq_ok.1 hresult
  have hmerged := pass_keeps hstep h hpass
  split_ifs at hresult with hlength
  · exact Except.ok.inj hresult ▸ hmerged
  · exact groupLoop_keeps hstep hmerged hresult

/-! ## Versions out of order -/

/-- Two versions are next to one another in a diff that are not in the history. -/
def Disordered (history : List (IWorkflowBase α β)) (diffs : List (GroupedWorkflowHistory α β)) :
    Prop :=
  ∃ d ∈ diffs, ∃ v v', [v, v'] <:+: d.versions ∧ ¬ [v, v'] <:+: history

theorem Disordered.mergeAt {history : List (IWorkflowBase α β)}
    {diffs diffs' : List (GroupedWorkflowHistory α β)} (h : Disordered history diffs)
    (hmerge : GroupWorkflows.mergeAt compareNodes rules i diffs = .ok diffs') :
    Disordered history diffs' := by
  rcases mergeAt_cases hmerge with
    rfl | ⟨l, right, prev, next, merged, rfl, hprev, -, -, hmerged, rfl⟩
  · exact h
  · obtain ⟨d, hd, v, v', hadjacent, hnot⟩ := h
    obtain ⟨-, -, hversions, -⟩ := mergeRight_eq_ok hmerged
    have hset : merged ∈ l.set (i - 1) merged :=
      List.mem_set (List.getElem?_eq_some_iff.1 hprev).1 merged
    have hgrown : ∀ {part}, part <:+: merged.versions → [v, v'] <:+: part →
        Disordered history (l.set (i - 1) merged) := fun hpart hin =>
      ⟨merged, hset, v, v', hin.trans hpart, hnot⟩
    rw [hversions] at hgrown
    rcases List.mem_append.1 hd with hd | hd
    · obtain ⟨j, hj⟩ := List.mem_iff_getElem?.1 hd
      by_cases hindex : j = i - 1
      · rw [hindex, hprev] at hj
        obtain rfl := Option.some.inj hj
        exact hgrown (List.prefix_append _ _).isInfix hadjacent
      · refine ⟨d, List.mem_iff_getElem?.2 ⟨j, ?_⟩, v, v', hadjacent, hnot⟩
        rw [List.getElem?_set_ne (Ne.symm hindex), hj]
    · rw [List.mem_singleton.1 hd] at hadjacent
      exact hgrown (List.suffix_append _ _).isInfix hadjacent

/-- A version of a list without repetitions is next to one other only. -/
theorem adjacent_unique {v a b : IWorkflowBase α β} : ∀ {l : List (IWorkflowBase α β)}, l.Nodup →
    [v, a] <:+: l → [v, b] <:+: l → a = b
  | [], _, h, _ => by simp at h
  | x :: l, hnodup, ha, hb => by
    rw [List.nodup_cons] at hnodup
    have hhead : ∀ {c}, [v, c] <:+: l → v ≠ x := fun hc heq =>
      hnodup.1 (heq ▸ hc.subset List.mem_cons_self)
    rcases List.infix_cons_iff.1 ha with ha | ha <;> rcases List.infix_cons_iff.1 hb with hb | hb
    · rw [List.cons_prefix_cons] at ha hb
      obtain ⟨t, rfl⟩ := ha.2
      exact (List.cons_prefix_cons.1 hb.2).1.symm
    · exact absurd (List.cons_prefix_cons.1 ha).1 (hhead hb)
    · exact absurd (List.cons_prefix_cons.1 hb).1 (hhead ha)
    · exact adjacent_unique hnodup.2 ha hb

theorem split_at {γ : Type} {a b : γ} : ∀ {i : ℕ} {l : List γ}, l[i]? = some a →
    l[i + 1]? = some b → ∃ l₁ l₂, l = l₁ ++ a :: b :: l₂
  | 0, x :: y :: l, ha, hb => by
    obtain rfl := Option.some.inj ha
    obtain rfl := Option.some.inj hb
    exact ⟨[], l, rfl⟩
  | i + 1, x :: l, ha, hb => by
    obtain ⟨l₁, l₂, rfl⟩ := split_at (i := i) (l := l) ha hb
    exact ⟨x :: l₁, l₂, rfl⟩

theorem tail_readOff : ∀ diffs : List (GroupedWorkflowHistory α β),
    (readOff diffs).tail = diffs.flatMap (·.versions)
  | [] => rfl
  | _ :: _ => rfl

theorem versions_ne_nil (d : GroupedWorkflowHistory α β) : d.versions ≠ [] := by
  simp [GroupedWorkflowHistory.versions]

/-- If the diffs that are merged are not the last two, their versions come together with others. -/
theorem Sound.disordered {diffs diffs' : List (GroupedWorkflowHistory α β)}
    (h : Sound compareNodes workflows diffs) (hnodup : workflows.Nodup) (hi : 0 < i)
    (hwrong : ¬ MergesLast compareNodes rules i diffs)
    (hmerge : GroupWorkflows.mergeAt compareNodes rules i diffs = .ok diffs') :
    Disordered workflows.tail diffs' := by
  unfold MergesLast at hwrong
  push Not at hwrong
  obtain ⟨prev, next, hprev, hnext, hask, hlength⟩ := hwrong
  obtain ⟨l, right, rfl⟩ := (List.eq_nil_or_concat' diffs).resolve_left h.nonempty
  obtain ⟨k, rfl⟩ : ∃ k, i = k + 1 := ⟨i - 1, by omega⟩
  rw [List.length_append, List.length_singleton] at hlength
  have hlt : k + 1 < l.length := by
    have hin := (List.getElem?_eq_some_iff.1 hnext).1
    rw [List.length_append, List.length_singleton] at hin
    omega
  rw [mergeAt_of_ask hprev hnext hask] at hmerge
  rw [Nat.add_sub_cancel, List.getElem?_append_left (by omega)] at hprev
  rw [List.getElem?_append_left hlt] at hnext
  rw [popInto_append hprev, Nat.add_sub_cancel] at hmerge
  cases hmerged : prev.mergeRight (ε := ε) right with
  | error e =>
    rw [hmerged] at hmerge
    cases hmerge
  | ok merged =>
    rw [hmerged] at hmerge
    obtain rfl := Except.ok.inj hmerge
    obtain ⟨-, -, hversions, -⟩ := mergeRight_eq_ok hmerged
    obtain ⟨l₁, l₂, rfl⟩ := split_at hprev hnext
    obtain ⟨b, nextVersions, hb⟩ := List.exists_cons_of_ne_nil (versions_ne_nil next)
    obtain ⟨y, rightVersions, hy⟩ := List.exists_cons_of_ne_nil (versions_ne_nil right)
    have htail : workflows.tail = l₁.flatMap (·.versions) ++ prev.versions ++ next.versions ++
        l₂.flatMap (·.versions) ++ right.versions := by
      rw [← h.all, tail_readOff]
      simp
    have hsplit : prev.versions = prev.groupedWorkflows ++ [prev.toWorkflow] := rfl
    have hnodup' := htail ▸ hnodup.sublist (List.tail_sublist workflows)
    refine ⟨merged, List.mem_set (List.getElem?_eq_some_iff.1 hprev).1 merged, prev.toWorkflow, y,
      ?_, fun hadjacent => ?_⟩
    · rw [hversions, hy]
      exact ⟨prev.groupedWorkflows, rightVersions, by simp [GroupedWorkflowHistory.versions]⟩
    · rw [htail] at hadjacent
      have hnextAdjacent : [prev.toWorkflow, b] <:+: l₁.flatMap (·.versions) ++ prev.versions ++
          next.versions ++ l₂.flatMap (·.versions) ++ right.versions :=
        ⟨l₁.flatMap (·.versions) ++ prev.groupedWorkflows,
          nextVersions ++ (l₂.flatMap (·.versions) ++ right.versions), by
            rw [hb, hsplit]
            simp only [List.append_assoc, List.cons_append, List.nil_append]⟩
      have heq := adjacent_unique hnodup' hadjacent hnextAdjacent
      refine List.disjoint_of_nodup_append hnodup' (a := b) ?_ ?_
      · simp [hb]
      · rw [hy, heq]
        exact List.mem_cons_self

/-! ## The groups of a history -/

theorem disordered_groups {result : List (GroupedWorkflowHistory α β)}
    (h : Disordered workflows.tail result) : readOff result ≠ workflows := by
  intro hall
  obtain ⟨d, hd, v, v', hadjacent, hnot⟩ := h
  obtain ⟨l₁, l₂, rfl⟩ := List.append_of_mem hd
  refine hnot (hadjacent.trans ?_)
  rw [← hall, tail_readOff]
  exact ⟨l₁.flatMap (·.versions), l₂.flatMap (·.versions), by simp⟩

theorem Reaches.sound {start diffs : List (GroupedWorkflowHistory α β)} {length i : ℕ}
    (h : Reaches compareNodes rules start length i diffs)
    (hstart : Sound compareNodes workflows start)
    (hlast : ∀ length i diffs, Reaches compareNodes rules start length i diffs → 0 < i →
      MergesLast compareNodes rules i diffs) : Sound compareNodes workflows diffs := by
  induction h with
  | start => exact hstart
  | step h hmerge ih =>
    exact (ih.mergeAt (Nat.succ_pos _) (index_lt h (Nat.succ_pos _))
      (hlast _ _ _ h (Nat.succ_pos _))).1 _ hmerge
  | again _ _ ih => exact ih

/-- The diffs on the way are a chain along the history, or there are versions out of order. -/
theorem Reaches.sound_or_disordered {start diffs : List (GroupedWorkflowHistory α β)}
    {length i : ℕ} (h : Reaches compareNodes rules start length i diffs)
    (hstart : Sound compareNodes workflows start) (hnodup : workflows.Nodup) :
    Sound compareNodes workflows diffs ∨ Disordered workflows.tail diffs := by
  induction h with
  | start => exact .inl hstart
  | @step length i diffs diffs' h hmerge ih =>
    rcases ih with hsound | hdisordered
    · by_cases hlast : MergesLast compareNodes rules (i + 1) diffs
      · exact .inl ((hsound.mergeAt (Nat.succ_pos _) (index_lt h (Nat.succ_pos _)) hlast).1 _
          hmerge)
      · exact .inr (hsound.disordered hnodup (Nat.succ_pos _) hlast hmerge)
    · exact .inr (hdisordered.mergeAt hmerge)
  | again _ _ ih => exact ih

theorem reaches_nil {diffs : List (GroupedWorkflowHistory α β)} {length i : ℕ}
    (h : Reaches compareNodes rules [] length i diffs) : i = 0 ∧ diffs = [] := by
  induction h with
  | start => exact ⟨rfl, rfl⟩
  | step _ _ ih => exact absurd ih.1 (Nat.succ_ne_zero _)
  | again _ _ ih =>
    rw [ih.2]
    exact ⟨rfl, rfl⟩

/-- The groups of a history of at least two versions. -/
theorem groupLoop_sound {start : List (GroupedWorkflowHistory α β)}
    (hstart : Sound compareNodes workflows start)
    (hlast : ∀ length i diffs, Reaches compareNodes rules start length i diffs → 0 < i →
      MergesLast compareNodes rules i diffs) :
    match groupLoop compareNodes rules start with
    | .ok diffs => Chains workflows diffs
    | .error e => ∃ error, e = .rule error := by
  have hbegin : Reaches compareNodes rules start start.length (start.length - 1) start := .start
  rcases reaches_groupLoop hbegin with
    ⟨result, length, hresult, hreach⟩ | ⟨e, length, i, diffs, hresult, hreach, hmerge⟩
  · rw [hresult]
    have hsound := hreach.sound hstart hlast
    exact (chains_iff hsound.nonempty).2 ⟨hsound.links, hsound.all⟩
  · rw [hresult]
    exact ((hreach.sound hstart hlast).mergeAt (Nat.succ_pos _) (index_lt hreach (Nat.succ_pos _))
      (hlast _ _ _ hreach (Nat.succ_pos _))).2 e hmerge

theorem mergesLast_of_chains {start result : List (GroupedWorkflowHistory α β)}
    (hstart : Sound compareNodes workflows start) (hnodup : workflows.Nodup)
    (hresult : groupLoop compareNodes rules start = .ok result)
    (hall : readOff result = workflows) {length i : ℕ}
    {diffs : List (GroupedWorkflowHistory α β)}
    (h : Reaches compareNodes rules start length i diffs) (hi : 0 < i) :
    MergesLast compareNodes rules i diffs := by
  -- disorder is there at the end
  have hordered : ∀ {length i : ℕ} {diffs : List (GroupedWorkflowHistory α β)},
      Reaches compareNodes rules start length i diffs →
        ¬ Disordered workflows.tail diffs := by
    intro length i diffs hreach hdisordered
    rw [groupLoop_eq hreach] at hresult
    exact disordered_groups
      (finish_keeps (fun _ _ _ h hmerge => h.mergeAt hmerge) hdisordered hresult) hall
  by_contra hwrong
  obtain ⟨k, rfl⟩ : ∃ k, i = k + 1 := ⟨i - 1, by omega⟩
  have hsound := (h.sound_or_disordered hstart hnodup).resolve_right (hordered h)
  rw [groupLoop_eq h, finish, pass] at hresult
  obtain ⟨merged, hpass, -⟩ := Fallible.bind_eq_ok.1 hresult
  obtain ⟨diffs', hmerge, -⟩ := Fallible.bind_eq_ok.1 hpass
  exact hordered (h.step hmerge) (hsound.disordered hnodup hi hwrong hmerge)

end GroupWorkflows

open GroupWorkflows

variable (compareNodes : CompareNodes α) (rules : List (DiffRule α β ε))

/-- Where only the last two diffs are ever merged, the groups of a history are returned unless a
rule throws; and for a history of different versions, only there. -/
theorem groups_iff (workflows : List (IWorkflowBase α β)) :
    (AlwaysMergesLast compareNodes rules workflows →
      match groupWorkflows compareNodes rules workflows with
      | .ok diffs => Groups workflows diffs
      | .error e => ∃ error, e = .rule error) ∧
    (workflows.Nodup → ∀ diffs, groupWorkflows compareNodes rules workflows = .ok diffs →
      Groups workflows diffs → AlwaysMergesLast compareNodes rules workflows) := by
  rcases workflows with _ | ⟨previous, _ | ⟨next, workflows⟩⟩
  · refine ⟨fun _ => ⟨rfl, .nil, rfl, rfl⟩, fun _ _ _ _ length i diffs hreach hi => ?_⟩
    exact absurd (reaches_nil hreach).1 hi.ne'
  · refine ⟨fun _ => rfl, fun _ _ _ _ length i diffs hreach hi => ?_⟩
    exact absurd (reaches_nil hreach).1 hi.ne'
  · have hstart := compareAll_sound compareNodes previous next workflows
    refine ⟨groupLoop_sound hstart, fun hnodup diffs hresult hgroups length i diffs' hreach hi => ?_⟩
    exact mergesLast_of_chains hstart hnodup hresult hgroups.all hreach hi

/-- Four versions without nodes. -/
def fourVersions : List (IWorkflowBase Unit ℕ) := [⟨[], 0⟩, ⟨[], 1⟩, ⟨[], 2⟩, ⟨[], 3⟩]

/-- Merge what follows the first version. -/
def mergesFirst : DiffRule Unit ℕ Unit := fun prev _ _ => .ok (prev.fromWorkflow.fields = 0)

/-- The first two diffs are merged, and the third is taken off. -/
theorem last_version_moved : ∃ diffs,
    groupWorkflows (fun _ _ => true) [mergesFirst] fourVersions = .ok diffs ∧
      ¬ Groups fourVersions diffs := by
  let d : GroupedWorkflowHistory Unit ℕ := ⟨{}, [⟨[], 1⟩], ⟨[], 0⟩, ⟨[], 3⟩⟩
  let d' : GroupedWorkflowHistory Unit ℕ := ⟨{}, [], ⟨[], 1⟩, ⟨[], 2⟩⟩
  let merged : GroupedWorkflowHistory Unit ℕ := ⟨{}, [⟨[], 1⟩, ⟨[], 3⟩], ⟨[], 0⟩, ⟨[], 2⟩⟩
  have hfirst : pass (fun _ _ => true) [mergesFirst] 2 (compareAll (fun _ _ => true) fourVersions) =
      .ok [d, d'] := rfl
  have hsecond : pass (fun _ _ => true) [mergesFirst] 1 [d, d'] = .ok [merged] := rfl
  have hresult : groupWorkflows (fun _ _ => true) [mergesFirst] fourVersions = .ok [merged] := by
    change groupLoop _ _ (compareAll _ fourVersions) = _
    rw [groupLoop_eq_finish, finish]
    change (pass _ _ 2 _ >>= _) = _
    rw [hfirst]
    change groupLoop _ _ [d, d'] = _
    rw [groupLoop_eq_finish, finish]
    change (pass _ _ 1 _ >>= _) = _
    rw [hsecond]
    change groupLoop _ _ [merged] = _
    rw [groupLoop_eq_finish]
    rfl
  refine ⟨_, hresult, fun hgroups => ?_⟩
  have hall : readOff [merged] = fourVersions := Chains.all hgroups
  exact absurd hall (by decide)

end N8n
