import Mathlib
import N8n.Proofs.WaitingNodes

/-!
# The order in which waiting runs are released

A scan takes the first run index of a node, in the order of strings: with runs 2 and 10 outstanding,
run 10 comes first. Whatever scans release for a node is the beginning of its entries in this order.
-/

namespace N8n

open WorkflowExecute (mem_scanOrder)

/-! ## The entries of a node in the order of the scan -/

/-- The first key is at most the second, as strings. -/
def KeyLE (a b : ℕ × WaitingEntry) : Prop := toString a.1 ≤ toString b.1

theorem pairwise_scanOrder {waiting : IndexMap WaitingEntry} :
    (scanOrder waiting).Pairwise KeyLE := by
  have htotal : Std.Total fun a b : ℕ × WaitingEntry => toString a.1 ≤ toString b.1 :=
    ⟨fun _ _ => le_total _ _⟩
  have htrans : IsTrans (ℕ × WaitingEntry) fun a b => toString a.1 ≤ toString b.1 :=
    ⟨fun _ _ _ => le_trans⟩
  exact List.pairwise_insertionSort (fun a b : ℕ × WaitingEntry => toString a.1 ≤ toString b.1) _

theorem eq_of_mem_entries {waiting : IndexMap WaitingEntry} {a b : ℕ × WaitingEntry}
    (ha : a ∈ waiting.entries) (hb : b ∈ waiting.entries) (h : a.1 = b.1) : a = b := by
  have hnodup : (waiting.entries.map Prod.fst).Nodup := waiting.sorted.imp Nat.ne_of_lt
  exact List.inj_on_of_nodup_map hnodup ha hb h

theorem nodup_scanOrder {waiting : IndexMap WaitingEntry} :
    ((scanOrder waiting).map Prod.fst).Nodup := by
  have hperm : (scanOrder waiting).Perm waiting.entries := List.perm_insertionSort _ _
  exact (hperm.map _).nodup_iff.2 (waiting.sorted.imp Nat.ne_of_lt)

/-- What is taken out does not change the order of the others. -/
theorem scanOrder_erase {waiting : IndexMap WaitingEntry} {first : ℕ × WaitingEntry}
    {later : List (ℕ × WaitingEntry)} (h : scanOrder waiting = first :: later) :
    scanOrder (waiting.erase first.1) = later := by
  have hperm (m : IndexMap WaitingEntry) : (scanOrder m).Perm m.entries :=
    List.perm_insertionSort _ _
  have hnodup := @nodup_scanOrder waiting
  have hsorted := @pairwise_scanOrder waiting
  have hentries := (hperm waiting).filter fun e => decide (e.1 ≠ first.1)
  rw [h] at hnodup hsorted hentries
  obtain ⟨hfirst, -⟩ := List.nodup_cons.1 hnodup
  have hfilter : (first :: later).filter (fun e => decide (e.1 ≠ first.1)) = later := by
    rw [List.filter_cons_of_neg (by simp), List.filter_eq_self]
    intro e he
    refine decide_eq_true fun heq => hfirst ?_
    exact heq ▸ List.mem_map_of_mem he
  rw [hfilter] at hentries
  refine ((hperm _).trans hentries.symm).eq_of_pairwise (fun a b ha hb hab hba => ?_)
    pairwise_scanOrder (List.pairwise_cons.1 hsorted).2
  have hb' : b ∈ waiting.entries := mem_scanOrder.1 (h ▸ List.mem_cons_of_mem _ hb)
  exact eq_of_mem_entries (IndexMap.mem_entries_of_erase (mem_scanOrder.1 ha)) hb'
    (Nat.repr_injective (le_antisymm hab hba))

/-- The run indexes of the entries with items. -/
def withItems (entries : List (ℕ × WaitingEntry)) : List ℕ :=
  (entries.filter fun entry => hasItems entry.2.main).map (·.1)

/-- The order of the keys is the order of the run indexes. -/
def InOrder (entries : List (ℕ × WaitingEntry)) : Prop :=
  ∀ i ∈ withItems entries, ∀ j ∈ withItems entries, i < j → toString i ≤ toString j

instance (entries : List (ℕ × WaitingEntry)) : Decidable (InOrder entries) :=
  inferInstanceAs (Decidable (∀ i ∈ withItems entries, _))

theorem pairwise_withItems_iff {waiting : IndexMap WaitingEntry} :
    (withItems (scanOrder waiting)).Pairwise (· < ·) ↔ InOrder waiting.entries := by
  have hmem : ∀ i, i ∈ withItems waiting.entries ↔ i ∈ withItems (scanOrder waiting) := by
    simp [withItems, mem_scanOrder]
  have hnodup : (withItems (scanOrder waiting)).Nodup :=
    nodup_scanOrder.sublist (List.filter_sublist.map _)
  have hkeys : (withItems (scanOrder waiting)).Pairwise fun i j => toString i ≤ toString j :=
    List.pairwise_map.2 (pairwise_scanOrder.sublist List.filter_sublist)
  unfold InOrder
  simp only [hmem]
  generalize withItems (scanOrder waiting) = released at hnodup hkeys
  constructor
  · intro hlt i hi j hj hij
    -- the smaller one of two comes first
    have hboth := (hlt.and hkeys).imp (S := fun i j => i < j → toString i ≤ toString j)
      fun h _ => h.2
    refine hboth.forall_of_forall_of_flip (fun _ _ h => absurd h (lt_irrefl _)) ?_ hi hj hij
    exact hlt.imp fun h h' => absurd h' (lt_asymm h)
  · intro horder
    refine (List.pairwise_iff_forall_sublist.2 fun {i j} hsub => ?_)
    have hi : i ∈ released := hsub.subset List.mem_cons_self
    have hj : j ∈ released := hsub.subset (List.mem_cons_of_mem _ List.mem_cons_self)
    have hne : i ≠ j := (List.pairwise_pair.1 (hnodup.sublist hsub))
    have hle := List.pairwise_pair.1 (hkeys.sublist hsub)
    refine lt_of_le_of_ne (not_lt.1 fun hlt => hne ?_) hne
    exact Nat.repr_injective (le_antisymm hle (horder j hj i hi hlt))

/-! ## What a scan releases -/

/-- A node is not above itself. -/
theorem not_mem_of_getConnectedNodes {connections : Connections}
    {connectionType : NodeConnectionType} {node : String} :
    ∀ (fuel : ℕ) (nodeName : String) (checkedNodes : List String),
      node ∈ getConnectedNodes connections connectionType fuel nodeName checkedNodes →
      node ∉ checkedNodes ∧ node ≠ nodeName
  | 0, _, _, h => absurd h List.not_mem_nil
  | fuel + 1, nodeName, checkedNodes, h => by
    unfold getConnectedNodes at h
    split at h
    · exact absurd h List.not_mem_nil
    · rename_i connectionsByIndex hofType
      split_ifs at h with hchecked
      · exact absurd h List.not_mem_nil
      · have hnot {node : String} : node ∉ checkedNodes ++ [nodeName] →
            node ∉ checkedNodes ∧ node ≠ nodeName := by simp
        refine hnot ?_
        revert h
        refine List.foldlRecOn (motive := fun returnNodes => node ∈ returnNodes →
          node ∉ checkedNodes ++ [nodeName]) (flatConnections connectionsByIndex) _
          (fun h => absurd h List.not_mem_nil) fun returnNodes hreturn connection _ => ?_
        split_ifs with hmem
        · exact hreturn
        · refine List.foldrRecOn (motive := fun returnNodes => node ∈ returnNodes →
            node ∉ checkedNodes ++ [nodeName]) _ _ (fun h => ?_)
            fun later hlater parent hparent => ?_
          · rcases List.mem_cons.1 h with rfl | h
            · exact hmem
            · exact hreturn h
          · intro h
            rcases List.mem_cons.1 h with rfl | h
            · exact (not_mem_of_getConnectedNodes fuel _ _ hparent).1
            · exact hlater (List.mem_of_mem_erase h)

namespace WorkflowExecute

/-- The entries that a node waits with, in the order of the scan. -/
def outstanding (s : WorkflowExecute) (nodeName : String) : List (ℕ × WaitingEntry) :=
  scanOrder ((s.waitingExecution.get? nodeName).getD .empty)

variable (w : Workflow)

/-- The node and the run index of the entry that a scan puts on the stack. -/
def releasedEntry : ℕ → WorkflowExecute → Option (String × ℕ × WaitingEntry)
  | 0, _ => none
  | fuel + 1, s =>
    let waitingNodes := objectKeys s.waitingExecution.keys
    match waitingNodes.findSome? (s.waitingCandidate w waitingNodes) with
    | some (.entry nodeName firstRunIndex entry) =>
      if .undefined ∈ entry.main then none
      else if hasItems entry.main then some (nodeName, firstRunIndex, entry)
      else releasedEntry fuel (s.removeWaiting nodeName firstRunIndex)
    | _ => none

variable {w}

theorem outstanding_removeWaiting_of_ne {s : WorkflowExecute} {nodeName other : String}
    (hne : nodeName ≠ other) (runIndex : ℕ) :
    (s.removeWaiting other runIndex).outstanding nodeName = s.outstanding nodeName := by
  unfold outstanding removeWaiting
  dsimp only
  split_ifs
  · rw [Dict.get?_erase_of_ne _ hne]
  · rw [Dict.get?_set_of_ne _ hne]

theorem outstanding_removeWaiting {s : WorkflowExecute} {nodeName : String}
    {first : ℕ × WaitingEntry} {later : List (ℕ × WaitingEntry)}
    (h : s.outstanding nodeName = first :: later) :
    (s.removeWaiting nodeName first.1).outstanding nodeName = later := by
  unfold outstanding removeWaiting
  dsimp only
  rw [← scanOrder_erase h]
  split_ifs with hsize
  · rw [Dict.get?_erase, if_pos rfl, Option.getD_none]
    exact congrArg scanOrder (IndexMap.ext (List.eq_nil_of_length_eq_zero hsize).symm)
  · rw [Dict.get?_set, if_pos rfl, Option.getD_some]

/-- The first entry of the node is taken. -/
theorem outstanding_of_waitingCandidate {s : WorkflowExecute} {waitingNodes : List String}
    {nodeName nodeName' : String} {runIndex : ℕ} {entry : WaitingEntry}
    (h : s.waitingCandidate w waitingNodes nodeName = some (.entry nodeName' runIndex entry)) :
    nodeName' = nodeName ∧ ∃ later, s.outstanding nodeName = (runIndex, entry) :: later := by
  refine ⟨(mem_of_waitingCandidate h).1, ?_⟩
  unfold waitingCandidate at h
  split at h
  · cases h
  · split_ifs at h
    split at h
    · cases h
    · rename_i first hfirst
      split_ifs at h
      simp only [Option.some.injEq, Candidate.entry.injEq] at h
      obtain ⟨-, rfl, rfl⟩ := h
      exact ⟨_, List.eq_cons_of_mem_head? hfirst⟩

/-- The run index that is released for the node, if any. -/
def releasedFor (w : Workflow) (nodeName : String) (fuel : ℕ) (s : WorkflowExecute) : List ℕ :=
  ((releasedEntry w fuel s).filter (·.1 = nodeName)).toList.map (·.2.1)

/-- Entries are taken from the beginning. -/
theorem scanWaiting_outstanding (nodeName : String) : ∀ (fuel : ℕ) (s : WorkflowExecute),
    (scanWaiting w fuel s).error = none →
    ∃ taken, s.outstanding nodeName =
        taken ++ (scanWaiting w fuel s).state.outstanding nodeName ∧
      withItems taken = releasedFor w nodeName fuel s
  | 0, _, _ => ⟨[], rfl, rfl⟩
  | fuel + 1, s, herror => by
    unfold scanWaiting at herror ⊢
    unfold releasedFor releasedEntry
    dsimp only at herror ⊢
    cases hfound : (objectKeys s.waitingExecution.keys).findSome?
        (s.waitingCandidate w (objectKeys s.waitingExecution.keys)) with
    | none => exact ⟨[], rfl, rfl⟩
    | some candidate =>
      obtain ⟨other, -, hcandidate⟩ := List.exists_of_findSome?_eq_some hfound
      cases candidate with
      | throws => simp [hfound] at herror
      | entry other' runIndex entry =>
        obtain ⟨rfl, later, hfirst⟩ := outstanding_of_waitingCandidate hcandidate
        simp only [hfound] at herror ⊢
        split_ifs at herror ⊢ with hundefined hitems
        · by_cases hname : other' = nodeName
          · subst hname
            refine ⟨[(runIndex, entry)], ?_, ?_⟩
            · rw [hfirst, @outstanding_removeWaiting (s.pushWaiting w other' entry) _ _ _ hfirst]
              rfl
            · simp [withItems, hitems, Option.filter]
          · refine ⟨[], ?_, ?_⟩
            · rw [outstanding_removeWaiting_of_ne (Ne.symm hname)]
              rfl
            · simp [withItems, hname, Option.filter]
        · obtain ⟨taken, htaken, hreleased⟩ :=
            scanWaiting_outstanding nodeName fuel (s.removeWaiting other' runIndex) herror
          by_cases hname : other' = nodeName
          · subst hname
            refine ⟨(runIndex, entry) :: taken, ?_, ?_⟩
            · rw [hfirst, List.cons_append, ← htaken, outstanding_removeWaiting hfirst]
            · have hnone : withItems ((runIndex, entry) :: taken) = withItems taken := by
                simp [withItems, hitems]
              exact hnone.trans hreleased
          · rw [outstanding_removeWaiting_of_ne (Ne.symm hname)] at htaken
            exact ⟨taken, htaken, hreleased⟩

/-! ## Scans one after the other -/

/-- The scan of the waiting nodes when the stack is empty. -/
def scan (w : Workflow) (s : WorkflowExecute) : Outcome := scanWaiting w (s.waitingCount + 1) s

/-- The run indexes that scans release for a node, one scan after the other: each in any state in
which the node waits with the entries that the one before has left. -/
inductive ScanRun (w : Workflow) (nodeName : String) :
    Option (IndexMap WaitingEntry) → List ℕ → Prop
  | done (waiting) : ScanRun w nodeName waiting []
  | scan {s : WorkflowExecute} {released : List ℕ} : (scan w s).error = none →
      ScanRun w nodeName ((scan w s).state.waitingExecution.get? nodeName) released →
      ScanRun w nodeName (s.waitingExecution.get? nodeName)
        (releasedFor w nodeName (s.waitingCount + 1) s ++ released)

theorem ScanRun.withItems_eq {nodeName : String} {waiting : Option (IndexMap WaitingEntry)}
    {released : List ℕ} (h : ScanRun w nodeName waiting released) :
    ∃ later, withItems (scanOrder (waiting.getD .empty)) = released ++ later := by
  induction h with
  | done waiting => exact ⟨_, rfl⟩
  | @scan s released herror hrun ih =>
    obtain ⟨taken, htaken, hreleased⟩ := scanWaiting_outstanding nodeName _ s herror
    obtain ⟨later, hlater⟩ := ih
    refine ⟨later, ?_⟩
    have hsplit : withItems (s.outstanding nodeName) = withItems taken ++
        withItems ((WorkflowExecute.scan w s).state.outstanding nodeName) := by
      rw [htaken]
      simp [withItems, WorkflowExecute.scan]
    rw [← hreleased, List.append_assoc, ← hlater]
    exact hsplit

/-! ### When nothing else waits -/

/-- No other node waits. -/
def OnlyWaits (nodeName : String) (s : WorkflowExecute) : Prop :=
  ∀ other, (s.waitingExecution.get? other).isSome → other = nodeName

theorem OnlyWaits.removeWaiting {nodeName : String} {s : WorkflowExecute}
    (h : OnlyWaits nodeName s) (runIndex : ℕ) :
    OnlyWaits nodeName (s.removeWaiting nodeName runIndex) := by
  intro other hother
  by_contra hne
  unfold WorkflowExecute.removeWaiting at hother
  dsimp only at hother
  split_ifs at hother
  · rw [Dict.get?_erase_of_ne _ hne] at hother
    exact hne (h other hother)
  · rw [Dict.get?_set_of_ne _ hne] at hother
    exact hne (h other hother)

theorem findSome?_of_forall_eq {α β : Type*} {a : α} {f : α → Option β} :
    ∀ {l : List α}, a ∈ l → (∀ x ∈ l, x = a) → l.findSome? f = f a
  | [], h, _ => absurd h List.not_mem_nil
  | x :: l, _, h => by
    obtain rfl := h x List.mem_cons_self
    rw [List.findSome?_cons]
    cases hx : f x with
    | some b => rfl
    | none =>
      refine List.findSome?_eq_none_iff.2 fun y hy => ?_
      rw [h y (List.mem_cons_of_mem _ hy), hx]

/-- The entries can run: the scan does not pass the node over, and their inputs are lists or
`null`. -/
structure CanRun (w : Workflow) (nodeName : String) (entries : List (ℕ × WaitingEntry)) :
    Prop where
  typed : ∀ entry ∈ entries, .undefined ∉ entry.2.main
  required : ∀ entry ∈ entries,
    hasRequiredInputs (w.requiredInputs (w.node nodeName)) entry.2.main

theorem CanRun.tail {nodeName : String} {first : ℕ × WaitingEntry}
    {later : List (ℕ × WaitingEntry)} (h : CanRun w nodeName (first :: later)) :
    CanRun w nodeName later :=
  ⟨fun entry he => h.typed entry (List.mem_cons_of_mem first he),
    fun entry he => h.required entry (List.mem_cons_of_mem first he)⟩

/-- The node is taken up by the scan. -/
structure Scanned (w : Workflow) (nodeName : String) : Prop where
  existing : (w.nodes.get? nodeName).isSome
  notAllRequired : w.allInputsRequired (w.node nodeName) = false

theorem findSome?_waitingCandidate {s : WorkflowExecute} {nodeName : String}
    {first : ℕ × WaitingEntry} {later : List (ℕ × WaitingEntry)} (hnode : Scanned w nodeName)
    (honly : OnlyWaits nodeName s) (hcan : CanRun w nodeName (first :: later))
    (h : s.outstanding nodeName = first :: later) :
    (objectKeys s.waitingExecution.keys).findSome?
        (s.waitingCandidate w (objectKeys s.waitingExecution.keys)) =
      some (.entry nodeName first.1 first.2) := by
  have hkey : ∀ other ∈ objectKeys s.waitingExecution.keys, other = nodeName := fun other hother =>
    honly other (Dict.mem_keys.1 (mem_objectKeys.1 hother))
  have hwaits : nodeName ∈ objectKeys s.waitingExecution.keys := by
    rw [mem_objectKeys, Dict.mem_keys]
    cases hget : s.waitingExecution.get? nodeName with
    | some waiting => rfl
    | none =>
      unfold outstanding at h
      rw [hget] at h
      cases h
  rw [findSome?_of_forall_eq hwaits hkey]
  obtain ⟨node, hget⟩ := Option.isSome_iff_exists.1 hnode.existing
  have hw : w.node nodeName = node := by simp [Workflow.node, hget]
  have hrequired := hcan.required first List.mem_cons_self
  have hall := hnode.notAllRequired
  rw [hw] at hrequired hall
  have hparents : ((w.getParentNodes nodeName).any
      (· ∈ objectKeys s.waitingExecution.keys)) = false := by
    simp only [List.any_eq_false, decide_eq_true_eq]
    exact fun parent hparent hmem =>
      (not_mem_of_getConnectedNodes _ _ _ hparent).2 (hkey parent hmem)
  unfold outstanding at h
  unfold waitingCandidate
  simp only [hget, hall, hparents, h, hrequired, Bool.false_eq_true, if_false, if_true,
    List.head?_cons]

/-- A scan goes on to an entry with items. -/
theorem scanWaiting_releases {nodeName : String} (hnode : Scanned w nodeName) :
    ∀ (fuel : ℕ) (s : WorkflowExecute), OnlyWaits nodeName s →
      CanRun w nodeName (s.outstanding nodeName) → (s.outstanding nodeName).length < fuel →
      withItems (s.outstanding nodeName) ≠ [] →
      (scanWaiting w fuel s).error = none ∧ OnlyWaits nodeName (scanWaiting w fuel s).state ∧
        releasedFor w nodeName fuel s ≠ []
  | 0, _, _, _, hfuel, _ => absurd hfuel (Nat.not_lt_zero _)
  | fuel + 1, s, honly, hcan, hfuel, hne => by
    cases hfirst : s.outstanding nodeName with
    | nil =>
      rw [hfirst] at hne
      exact absurd rfl hne
    | cons first later =>
      rw [hfirst] at hcan hfuel hne
      have hfound := findSome?_waitingCandidate hnode honly hcan hfirst
      unfold releasedFor scanWaiting releasedEntry
      simp only [hfound, if_neg (hcan.typed first List.mem_cons_self)]
      split_ifs with hitems
      · refine ⟨rfl, OnlyWaits.removeWaiting (s := s.pushWaiting w nodeName first.2) honly first.1,
          ?_⟩
        simp [Option.filter]
      · have hlater := outstanding_removeWaiting hfirst
        have hnone : withItems (first :: later) = withItems later := by
          simp [withItems, hitems]
        refine scanWaiting_releases hnode fuel _ (honly.removeWaiting first.1) ?_ ?_ ?_
        · rw [hlater]
          exact hcan.tail
        · rw [hlater]
          exact Nat.lt_of_succ_lt_succ hfuel
        · rw [hlater, ← hnone]
          exact hne

theorem length_outstanding_lt (s : WorkflowExecute) (nodeName : String) :
    (s.outstanding nodeName).length < s.waitingCount + 1 := by
  unfold outstanding scanOrder waitingCount
  rw [List.length_insertionSort]
  cases hget : s.waitingExecution.get? nodeName with
  | none => exact Nat.succ_pos _
  | some waiting =>
    have hmem := List.mem_map_of_mem (f := fun entry => entry.2.size) (Dict.mem_entries.2 hget)
    exact Nat.lt_succ_of_le (List.single_le_sum (fun _ _ => Nat.zero_le _) _ hmem)

/-- All entries with items are released in the end. -/
theorem exists_scanRun {nodeName : String} (hnode : Scanned w nodeName) :
    ∀ (n : ℕ) (s : WorkflowExecute), (s.outstanding nodeName).length ≤ n → OnlyWaits nodeName s →
      CanRun w nodeName (s.outstanding nodeName) →
      ScanRun w nodeName (s.waitingExecution.get? nodeName) (withItems (s.outstanding nodeName))
  | n, s, hn, honly, hcan => by
    by_cases hne : withItems (s.outstanding nodeName) = []
    · rw [hne]
      exact .done _
    · obtain ⟨herror, honly', hreleases⟩ := scanWaiting_releases hnode (s.waitingCount + 1) s honly
        hcan (length_outstanding_lt s nodeName) hne
      obtain ⟨taken, htaken, hreleased⟩ := scanWaiting_outstanding nodeName _ s herror
      have htakenNe : taken ≠ [] := by
        rintro rfl
        exact hreleases hreleased.symm
      have hpos := List.length_pos_of_ne_nil htakenNe
      have hlength := congrArg List.length htaken
      rw [List.length_append] at hlength
      cases n with
      | zero => omega
      | succ n =>
        have hrun := exists_scanRun hnode n (scanWaiting w (s.waitingCount + 1) s).state (by omega)
          honly' ?_
        · have hsplit : withItems (s.outstanding nodeName) = withItems taken ++
              withItems ((scanWaiting w (s.waitingCount + 1) s).state.outstanding nodeName) := by
            rw [htaken]
            simp [withItems]
          rw [hsplit, hreleased]
          exact .scan herror hrun
        · rw [htaken] at hcan
          exact ⟨fun e he => hcan.typed e (List.mem_append_right taken he),
            fun e he => hcan.required e (List.mem_append_right taken he)⟩

theorem scanRun_of_scanned {nodeName : String} (hnode : Scanned w nodeName)
    {waiting : IndexMap WaitingEntry} (hcan : CanRun w nodeName waiting.entries) :
    ScanRun w nodeName (some waiting) (withItems (scanOrder waiting)) := by
  let s : WorkflowExecute :=
    { nodeExecutionStack := [], waitingExecution := Dict.empty.set nodeName waiting }
  have hget : s.waitingExecution.get? nodeName = some waiting := by
    rw [Dict.get?_set, if_pos rfl]
  have houtstanding : s.outstanding nodeName = scanOrder waiting := by
    unfold outstanding
    rw [hget, Option.getD_some]
  have honly : OnlyWaits nodeName s := fun other hother => by
    by_contra hne
    rw [Dict.get?_set_of_ne _ hne] at hother
    cases hother
  have hcan' : CanRun w nodeName (s.outstanding nodeName) := by
    rw [houtstanding]
    exact ⟨fun e he => hcan.typed e (mem_scanOrder.1 he),
      fun e he => hcan.required e (mem_scanOrder.1 he)⟩
  have hrun := exists_scanRun hnode _ s le_rfl honly hcan'
  rwa [hget, houtstanding] at hrun

/-! ### Nodes that are passed over -/

theorem scanned_of_releasedEntry {released : String × ℕ × WaitingEntry} :
    ∀ (fuel : ℕ) (s : WorkflowExecute), releasedEntry w fuel s = some released →
      Scanned w released.1
  | 0, _, h => by cases h
  | fuel + 1, s, h => by
    unfold releasedEntry at h
    dsimp only at h
    cases hfound : (objectKeys s.waitingExecution.keys).findSome?
        (s.waitingCandidate w (objectKeys s.waitingExecution.keys)) with
    | none => simp [hfound] at h
    | some candidate =>
      obtain ⟨other, -, hcandidate⟩ := List.exists_of_findSome?_eq_some hfound
      cases candidate with
      | throws => simp [hfound] at h
      | entry other' runIndex entry =>
        obtain ⟨rfl, -⟩ := outstanding_of_waitingCandidate hcandidate
        simp only [hfound] at h
        split_ifs at h
        · obtain rfl := Option.some.inj h
          unfold waitingCandidate at hcandidate
          split at hcandidate
          · cases hcandidate
          · rename_i node hget
            have hw : w.node other' = node := by simp [Workflow.node, hget]
            split_ifs at hcandidate with hall
            exact ⟨by simp [hget], by simpa [hw] using hall⟩
        · exact scanned_of_releasedEntry fuel _ h

theorem ScanRun.eq_nil {nodeName : String} (hnode : ¬ Scanned w nodeName)
    {waiting : Option (IndexMap WaitingEntry)} {released : List ℕ}
    (h : ScanRun w nodeName waiting released) : released = [] := by
  induction h with
  | done waiting => rfl
  | @scan s released _ _ ih =>
    rw [ih, List.append_nil]
    unfold releasedFor
    cases hentry : releasedEntry w (s.waitingCount + 1) s with
    | none => rfl
    | some entry =>
      have hne : entry.1 ≠ nodeName := fun heq =>
        hnode (heq ▸ scanned_of_releasedEntry _ s hentry)
      simp [Option.filter, hne]

/-! ## The order -/

/-- A merge with an item on each of its inputs. -/
def mergeEntry : WaitingEntry where
  main := [.items [{ json := .empty }], .items [{ json := .empty }]]
  source := [none, none]

theorem canRun_merge (i j : ℕ) : CanRun Execution.branches "Merge"
    ((IndexMap.empty.set i mergeEntry).set j mergeEntry).entries := by
  have hentry : ∀ e ∈ ((IndexMap.empty.set i mergeEntry).set j mergeEntry).entries,
      e.2 = mergeEntry := fun e he => by
    rcases IndexMap.mem_entries_set he with rfl | he
    · rfl
    · rcases IndexMap.mem_entries_set he with rfl | he
      · rfl
      · cases he
  refine ⟨fun e he => ?_, fun e he => ?_⟩ <;> rw [hentry e he] <;> decide

end WorkflowExecute

end N8n
