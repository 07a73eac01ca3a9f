import N8n.AdditiveChanges
import N8n.Proofs.WorkflowDiff

/-!
# What quick merges keep

The rule looks the nodes of the first version up by their names in the version that is dropped, and
compares them there. Nothing it asks is about the version that is kept. Where it finds the names and
the changes that are dropped are in the version that the merged diff ends at, they stay recoverable
over all later merges.
-/

namespace N8n

open Doubles GroupWorkflows

/-! ## Containment -/

theorem StoredValue.eq_of_strictEquals : ∀ {left right : StoredValue},
    left.strictEquals right = true → left = right
  | .string _, right, h => by
    cases right <;> simp_all [strictEquals]
  | .number value, right, h => by
    cases right with
    | number value' =>
      cases value <;> cases value' <;> simp_all [strictEquals, Number.same]
    | _ => cases h
  | .boolean _, right, h => by
    cases right <;> simp_all [strictEquals]
  | .null, right, h => by
    cases right <;> simp_all [strictEquals]
  | .undefined, right, h => by
    cases right <;> simp_all [strictEquals]
  | .object _, right, h => by
    cases right <;> simp_all [strictEquals]

/-- A value that is kept is the same, or its text is contained in another. -/
theorem StoredValue.isKept_cases : ∀ {left right : StoredValue}, left.isKept right = true →
    left = right ∨ ∃ text text', left = .string text ∧ right = .string text' ∧ text <:+: text'
  | .string text, .string text', h => .inr ⟨text, text', rfl, rfl, of_decide_eq_true h⟩
  | .string _, .number _, h => .inl (eq_of_strictEquals h)
  | .string _, .boolean _, h => .inl (eq_of_strictEquals h)
  | .string _, .null, h => .inl (eq_of_strictEquals h)
  | .string _, .undefined, h => .inl (eq_of_strictEquals h)
  | .string _, .object _, h => .inl (eq_of_strictEquals h)
  | .number _, _, h => .inl (eq_of_strictEquals h)
  | .boolean _, _, h => .inl (eq_of_strictEquals h)
  | .null, _, h => .inl (eq_of_strictEquals h)
  | .undefined, _, h => .inl (eq_of_strictEquals h)
  | .object _, _, h => .inl (eq_of_strictEquals h)

theorem StoredValue.isKept_trans {left middle right : StoredValue}
    (h : left.isKept middle = true) (h' : middle.isKept right = true) :
    left.isKept right = true := by
  rcases isKept_cases h with rfl | ⟨text, text', rfl, rfl, hpart⟩
  · exact h'
  · rcases isKept_cases h' with rfl | ⟨_, text'', heq, rfl, hpart'⟩
    · exact h
    · obtain rfl := StoredValue.string.inj heq
      exact decide_eq_true (hpart.trans hpart')

variable {τ β : Type} {isEqual : IsEqual τ}

/-- Each parameter is there and is kept. -/
theorem nodeIsAdditive_iff {prevNode nextNode : ParameterNode τ} :
    nodeIsAdditive isEqual prevNode nextNode = true ↔
      compareNodes isEqual (some prevNode.withoutParameters) (some nextNode.withoutParameters) =
        true ∧
      ∀ key left, prevNode.fields.parameters.get? key = some left →
        ∃ right, nextNode.fields.parameters.get? key = some right ∧ left.isKept right = true := by
  unfold nodeIsAdditive
  dsimp only
  split_ifs with hother hmissing
  · refine iff_of_false id fun h => ?_
    rw [h.1] at hother
    cases hother
  · refine iff_of_false id fun h => ?_
    obtain ⟨key, hkey, hnone⟩ := List.any_eq_true.1 hmissing
    obtain ⟨left, hleft⟩ := Option.isSome_iff_exists.1 (Dict.mem_keys.1 hkey)
    obtain ⟨right, hright, -⟩ := h.2 key left hleft
    rw [hright] at hnone
    cases hnone
  · have hcompare : compareNodes isEqual (some prevNode.withoutParameters)
        (some nextNode.withoutParameters) = true := by
      simpa using hother
    rw [List.all_eq_true, and_iff_right hcompare]
    refine ⟨fun h key left hleft => ?_, fun h e he => ?_⟩
    · obtain ⟨right, hright⟩ : ∃ right, nextNode.fields.parameters.get? key = some right := by
        refine Option.ne_none_iff_exists'.1 fun hnone => hmissing (List.any_eq_true.2 ⟨key, ?_, ?_⟩)
        · exact Dict.mem_keys.2 (Option.isSome_iff_exists.2 ⟨left, hleft⟩)
        · rw [hnone]
          rfl
      have hkept := h (key, left) (Dict.mem_entries.2 hleft)
      rw [hright, Option.getD_some] at hkept
      exact ⟨right, hright, hkept⟩
    · obtain ⟨right, hright, hkept⟩ := h e.1 e.2 (Dict.mem_entries.1 he)
      rw [hright, Option.getD_some]
      exact hkept

/-- What is contained in a node is in whatever that is contained in. -/
theorem nodeIsAdditive_trans
    (hequal : ∀ a b c, isEqual a b = true → isEqual b c = true → isEqual a c = true)
    {first second third : ParameterNode τ} (h : nodeIsAdditive isEqual first second = true)
    (h' : nodeIsAdditive isEqual second third = true) :
    nodeIsAdditive isEqual first third = true := by
  rw [nodeIsAdditive_iff] at h h' ⊢
  refine ⟨hequal _ _ _ h.1 h'.1, fun key left hleft => ?_⟩
  obtain ⟨middle, hmiddle, hkept⟩ := h.2 key left hleft
  obtain ⟨right, hright, hkept'⟩ := h'.2 key middle hmiddle
  exact ⟨right, hright, StoredValue.isKept_trans hkept hkept'⟩

/-! ## The rule -/

/-- The loop goes on after the diff of a node. -/
def GoesOn (isEqual : IsEqual τ) (nodes : List (ParameterNode τ))
    (d : NodeDiff (PickedNode τ)) : Prop :=
  d.status ≠ .deleted ∧ (d.status = .modified →
    ∀ nextNode, nodes.find? (fun x => x.fields.name = d.node.fields.name) = some nextNode →
      nodeIsAdditive isEqual d.node nextNode = true)

/-- Wherever the loop looks for a name, some node has it. -/
def FindsNames (isEqual : IsEqual τ) (nodes : List (ParameterNode τ))
    (diffs : List (NodeDiff (PickedNode τ))) : Prop :=
  ∀ before d after, diffs = before ++ d :: after → d.status = .eq ∨ d.status = .modified →
    (∀ d' ∈ before, GoesOn isEqual nodes d') →
      ∃ node ∈ nodes, node.fields.name = d.node.fields.name

theorem findsNames_cons {nodes : List (ParameterNode τ)} {d : NodeDiff (PickedNode τ)}
    {diffs : List (NodeDiff (PickedNode τ))} : FindsNames isEqual nodes (d :: diffs) ↔
      (d.status = .eq ∨ d.status = .modified →
        ∃ node ∈ nodes, node.fields.name = d.node.fields.name) ∧
      (GoesOn isEqual nodes d → FindsNames isEqual nodes diffs) := by
  refine ⟨fun h => ⟨fun hlooked => ?_, fun hgoes before d' after hdiffs hlooked hbefore => ?_⟩,
    fun h before d' after hdiffs hlooked hbefore => ?_⟩
  · exact h [] d diffs rfl hlooked fun d' hd' => absurd hd' (List.not_mem_nil)
  · refine h (d :: before) d' after (by rw [hdiffs]; rfl) hlooked fun d'' hd'' => ?_
    rcases List.mem_cons.1 hd'' with rfl | hd''
    · exact hgoes
    · exact hbefore d'' hd''
  · rcases before with _ | ⟨first, before⟩
    · obtain ⟨rfl, rfl⟩ := List.cons.inj hdiffs
      exact h.1 hlooked
    · obtain ⟨rfl, rfl⟩ := List.cons.inj hdiffs
      exact h.2 (hbefore d List.mem_cons_self) before d' after rfl hlooked
        fun d'' hd'' => hbefore d'' (List.mem_cons_of_mem _ hd'')

/-- The rule throws unless it finds the names. -/
theorem additiveLoop_eq_ok {nodes : List (ParameterNode τ)} :
    ∀ {diffs : List (NodeDiff (PickedNode τ))},
      (∃ merge, additiveLoop isEqual nodes diffs = .ok merge) ↔ FindsNames isEqual nodes diffs
  | [] => by
    refine iff_of_true ⟨true, rfl⟩ fun before d after hdiffs => ?_
    simp at hdiffs
  | d :: diffs => by
    have ih : _ ↔ FindsNames isEqual nodes diffs := additiveLoop_eq_ok
    rw [findsNames_cons, ← ih, additiveLoop]
    by_cases hdeleted : d.status = .deleted
    · rw [if_pos hdeleted]
      refine iff_of_true ⟨false, rfl⟩ ⟨fun hlooked => ?_, fun hgoes => absurd hdeleted hgoes.1⟩
      rw [hdeleted] at hlooked
      rcases hlooked with h | h <;> cases h
    rw [if_neg hdeleted]
    by_cases hadded : d.status = .added
    · have hgoes : GoesOn isEqual nodes d := ⟨hdeleted, fun h => by rw [hadded] at h; cases h⟩
      rw [if_pos hadded, forall_prop_of_true hgoes]
      refine (and_iff_right fun hlooked => ?_).symm
      rw [hadded] at hlooked
      rcases hlooked with h | h <;> cases h
    rw [if_neg hadded]
    have hlooked : d.status = .eq ∨ d.status = .modified := by
      cases hstatus : d.status <;> simp_all
    rw [forall_prop_of_true hlooked]
    cases hfind : nodes.find? fun x => x.fields.name = d.node.fields.name with
    | none =>
      refine iff_of_false (fun ⟨_, h⟩ => by cases h) fun ⟨⟨node, hnode, hname⟩, _⟩ => ?_
      exact List.find?_eq_none.1 hfind node hnode (decide_eq_true hname)
    | some nextNode =>
      have hname : ∃ node ∈ nodes, node.fields.name = d.node.fields.name :=
        ⟨nextNode, List.mem_of_find?_eq_some hfind, by simpa using List.find?_some hfind⟩
      rw [and_iff_right hname]
      dsimp only
      by_cases hstop : (d.status = .modified && !nodeIsAdditive isEqual d.node nextNode) = true
      · rw [if_pos hstop]
        simp only [Bool.and_eq_true, decide_eq_true_eq, Bool.not_eq_eq_eq_not,
          Bool.not_true] at hstop
        refine iff_of_true ⟨false, rfl⟩ fun hgoes => ?_
        have hadditive := hgoes.2 hstop.1 nextNode hfind
        rw [hstop.2] at hadditive
        cases hadditive
      · rw [if_neg hstop]
        have hgoes : GoesOn isEqual nodes d := by
          refine ⟨hdeleted, fun hmodified node hnode => ?_⟩
          obtain rfl := Option.some.inj (hfind.symm.trans hnode)
          simpa [hmodified] using hstop
        rw [forall_prop_of_true hgoes]

/-! ## What change sets tell -/

section

variable {α ε : Type} {same : CompareNodes α} {history history' : List (List (DiffableNode α))}

/-- Each entry of a merged change set comes from those of the two. -/
theorem NetDiff.get?_mergeNext {b : List (DiffableNode α)} {s wcs merged : WorkflowChangeSet α}
    (hs : NetDiff same (history ++ [b]) s.nodes) (ht : NetDiff same (b :: history') wcs.nodes)
    (h : s.mergeNext (ε := ε) wcs = .ok merged) (id : String) :
    (∀ diff, wcs.nodes.get? id = some diff →
      WorkflowChangeSet.mergeEntry (ε := ε) (s.nodes.get? id) diff = .ok (merged.nodes.get? id)) ∧
    (wcs.nodes.get? id = none → merged.nodes.get? id = s.nodes.get? id) := by
  choose r hsome hnone hnet using fun id => exists_merged (ε := ε) (hs id) (ht id)
  obtain ⟨merged', hmerged, hget⟩ := mergeNext_eq_ok hsome hnone
  obtain rfl := Except.ok.inj (hmerged.symm.trans h)
  rw [hget]
  exact ⟨hsome id, hnone id⟩

theorem mergeEntry_eq {existing : Option (NodeDiff α)} {diff out : NodeDiff α}
    (h : WorkflowChangeSet.mergeEntry (ε := ε) existing diff = .ok (some out))
    (hout : out.status = .eq) : existing.map (·.status) = some .eq ∧ diff.status = .eq := by
  unfold WorkflowChangeSet.mergeEntry at h
  cases existing with
  | none =>
    obtain rfl := Option.some.inj (Except.ok.inj h)
    cases hout
  | some existing =>
    dsimp only at h
    cases hstatus : existing.status <;> cases hstatus' : diff.status <;>
      rw [hstatus, hstatus'] at h <;> simp only [mergeNodeDiff] at h <;> cases h <;> cases hout
    exact ⟨congrArg some hstatus, rfl⟩

/-- What is equal after a merge was equal in both parts. -/
theorem NetDiff.status_eq_of_mergeNext {b : List (DiffableNode α)}
    {s wcs merged : WorkflowChangeSet α} (hs : NetDiff same (history ++ [b]) s.nodes)
    (ht : NetDiff same (b :: history') wcs.nodes) (h : s.mergeNext (ε := ε) wcs = .ok merged)
    {id : String} (heq : merged.nodes.status id = some .eq) :
    s.nodes.status id = some .eq ∧ wcs.nodes.status id = some .eq := by
  obtain ⟨hsome, hnone⟩ := hs.get?_mergeNext ht h id
  obtain ⟨out, hget, hout⟩ := Option.map_eq_some_iff.1 heq
  cases hnext : wcs.nodes.get? id with
  | none =>
    -- an id without an entry is not in the version between, and there would be no equal node
    have hexisting : s.nodes.status id = some .eq := by
      rw [WorkflowDiff.status, ← hnone hnext]
      exact heq
    have hmid : (history ++ [b]).getLastD [] = b := getLastD_append_cons history [] b
    have hb : HasId b id := by
      by_contra hb
      by_cases hfirst : HasId ((history ++ [b]).headD []) id
      · have hdeleted := (hs id).deleted hfirst (by rwa [hmid])
        rw [hexisting] at hdeleted
        cases hdeleted
      · have habsent := (hs id).absent hfirst (by rwa [hmid])
        rw [hexisting] at habsent
        cases habsent
    have hstatus : wcs.nodes.status id = none := by
      rw [WorkflowDiff.status, hnext]
      rfl
    by_cases hlast : HasId ((b :: history').getLastD []) id
    · rcases (ht id).kept hb hlast with h | ⟨h, -⟩ <;>
      · rw [hstatus] at h
        cases h
    · have hdeleted := (ht id).deleted hb hlast
      rw [hstatus] at hdeleted
      cases hdeleted
  | some diff =>
    have hentry := hsome diff hnext
    rw [hget] at hentry
    obtain ⟨hexisting, hdiff⟩ := mergeEntry_eq hentry hout
    refine ⟨hexisting, ?_⟩
    rw [WorkflowDiff.status, hnext]
    exact congrArg some hdiff

theorem WorkflowDiff.changes_iff {diff : WorkflowDiff α} {id : String} :
    diff.Changes id ↔ diff.status id = some .added ∨ diff.status id = some .modified := by
  unfold Changes status
  cases diff.get? id with
  | none => simp
  | some d => simp

end

/-! ## What a merge keeps -/

/-- The change set of a diff, and what its versions hold. -/
structure Recoverable (isEqual : IsEqual τ) (d : GroupedWorkflowHistory (PickedNode τ) β) :
    Prop where
  net : NetDiff (compareNodes isEqual) (d.fromWorkflow.nodes :: d.versions.map (·.nodes))
    d.workflowChangeSet.nodes
  equal : ∀ id, d.workflowChangeSet.nodes.status id = some .eq →
    (d.fromWorkflow.nodes :: d.versions.map (·.nodes)).IsChain fun base target =>
      (compareWorkflowsNodes (compareNodes isEqual) base target).status id = some .eq
  keeps : KeepsData isEqual d

/-- What was changed on the way and is still there is in the change set. -/
theorem Recoverable.changes {d : GroupedWorkflowHistory (PickedNode τ) β}
    (h : Recoverable isEqual d) {base target : List (ParameterNode τ)}
    {before after : List (List (ParameterNode τ))} {id : String}
    (hstep : d.fromWorkflow.nodes :: d.versions.map (·.nodes) = before ++ base :: target :: after)
    (hchanged : (compareWorkflowsNodes (compareNodes isEqual) base target).Changes id)
    (hlast : HasId d.toWorkflow.nodes id) : d.workflowChangeSet.nodes.Changes id := by
  have hto : (d.fromWorkflow.nodes :: d.versions.map (·.nodes)).getLastD [] =
      d.toWorkflow.nodes := by
    rw [GroupedWorkflowHistory.versions, List.map_append, ← List.cons_append, List.map_singleton,
      List.getLastD_eq_getLast?, List.getLast?_concat, Option.getD_some]
  rw [WorkflowDiff.changes_iff]
  by_cases hfirst : HasId d.fromWorkflow.nodes id
  · rcases (h.net id).kept hfirst (by rwa [hto]) with hmodified | ⟨heq, -⟩
    · exact .inr hmodified
    · have hequal := List.isChain_iff_forall_rel_of_append_cons_cons.1 (h.equal id heq) hstep
      rw [WorkflowDiff.changes_iff, hequal] at hchanged
      rcases hchanged with h | h <;> cases h
  · exact .inl ((h.net id).added hfirst (by rwa [hto]))

theorem recoverable_compare (isEqual : IsEqual τ)
    (previous next : IWorkflowBase (PickedNode τ) β) :
    Recoverable isEqual (compareWorkflows (compareNodes isEqual) previous next) where
  net := netDiff_compare (compareNodes isEqual) previous.nodes next.nodes
  equal _ heq := List.isChain_pair.2 heq
  keeps := List.isChain_singleton _

/-- The changes of the diff are there at the end of the one that follows. -/
def ChangesKept (isEqual : IsEqual τ) (prev next : GroupedWorkflowHistory (PickedNode τ) β) :
    Prop :=
  ∀ node ∈ next.fromWorkflow.nodes, prev.workflowChangeSet.nodes.Changes node.id →
    ContainsData isEqual next.toWorkflow.nodes node

variable {ε : Type}

/-- Up to the version that is dropped, what was changed is kept. -/
theorem Recoverable.isChain_concat
    (hequal : ∀ a b c, isEqual a b = true → isEqual b c = true → isEqual a c = true)
    {prev right : GroupedWorkflowHistory (PickedNode τ) β} (hprev : Recoverable isEqual prev)
    (hmeet : prev.toWorkflow = right.fromWorkflow) (hkept : ChangesKept isEqual prev right) :
    (prev.fromWorkflow :: prev.groupedWorkflows ++ [prev.toWorkflow]).IsChain
      (ChangesContained isEqual right.toWorkflow) := by
  rw [List.isChain_iff_forall_rel_of_append_cons_cons]
  intro previous version before after hsplit node hnode hchanged
  -- a node of the id in the version that is dropped is kept
  have hdropped : ∀ node' ∈ prev.toWorkflow.nodes, node'.id = node.id →
      ContainsData isEqual right.toWorkflow.nodes node' := by
    intro node' hnode' hid
    have hnodes : prev.fromWorkflow.nodes :: prev.versions.map (·.nodes) =
        before.map (·.nodes) ++ previous.nodes :: version.nodes :: after.map (·.nodes) := by
      have hmap := congrArg (List.map (·.nodes)) hsplit
      simpa [GroupedWorkflowHistory.versions] using hmap
    exact hkept node' (hmeet ▸ hnode')
      (hprev.changes hnodes (hid ▸ hchanged) ⟨node', hnode', rfl⟩)
  rcases List.eq_nil_or_concat' after with rfl | ⟨after, last, rfl⟩
  · have hversion : version = prev.toWorkflow := by
      have hlast := congrArg List.getLast? hsplit
      rw [List.getLast?_concat, List.getLast?_append_cons] at hlast
      exact (Option.some.inj hlast).symm
    exact hdropped node (hversion ▸ hnode) rfl
  · rw [← List.cons_append, ← List.cons_append, ← List.append_assoc] at hsplit
    have hbefore := (List.append_inj' hsplit rfl).1
    obtain ⟨node', hnode', hid, hadditive⟩ :=
      List.isChain_iff_forall_rel_of_append_cons_cons.1 hprev.keeps hbefore node hnode hchanged
    obtain ⟨node'', hnode'', hid', hadditive'⟩ := hdropped node' hnode' hid
    exact ⟨node'', hnode'', hid'.trans hid, nodeIsAdditive_trans hequal hadditive hadditive'⟩

theorem Recoverable.mergeRight
    (hequal : ∀ a b c, isEqual a b = true → isEqual b c = true → isEqual a c = true)
    {prev right merged : GroupedWorkflowHistory (PickedNode τ) β}
    (hprev : Recoverable isEqual prev) (hright : Recoverable isEqual right)
    (hmeet : prev.toWorkflow = right.fromWorkflow) (hkept : ChangesKept isEqual prev right)
    (h : prev.mergeRight (ε := ε) right = .ok merged) : Recoverable isEqual merged := by
  obtain ⟨merged', hmerged, hnet⟩ := mergeRight_sound (ε := ε) hmeet hprev.net hright.net
  obtain rfl := Except.ok.inj (hmerged.symm.trans h)
  obtain ⟨workflowChangeSet, hmerge, h⟩ := Fallible.bind_eq_ok.1 h
  obtain rfl := Except.ok.inj h
  have hhistory : prev.fromWorkflow.nodes :: prev.versions.map (·.nodes) =
      (prev.fromWorkflow.nodes :: prev.groupedWorkflows.map (·.nodes)) ++
        [right.fromWorkflow.nodes] := by
    simp [GroupedWorkflowHistory.versions, hmeet]
  refine ⟨hnet, fun id heq => ?_, ?_⟩
  · obtain ⟨heqPrev, heqRight⟩ := NetDiff.status_eq_of_mergeNext (hhistory ▸ hprev.net)
      hright.net hmerge heq
    have hchain := hprev.equal id heqPrev
    rw [hhistory] at hchain
    have hall := List.isChain_split.2 ⟨hchain, hright.equal id heqRight⟩
    simpa [GroupedWorkflowHistory.versions, hmeet] using hall
  · have hchain := hprev.isChain_concat hequal hmeet hkept
    exact List.isChain_split.2 ⟨hchain, hmeet ▸ hright.keeps⟩

/-! ## Runs -/

/-- The rule finds the names it looks for at an index. Where it has two diffs merged, they are the
last two, and what was changed in the version between them is there at the end. -/
structure SafeAt (isEqual : IsEqual τ) (i : ℕ)
    (diffs : List (GroupedWorkflowHistory (PickedNode τ) β)) : Prop where
  names : ∀ prev next, diffs[i - 1]? = some prev → diffs[i]? = some next →
    FindsNames isEqual next.fromWorkflow.nodes
      ((compareWorkflowsNodes (compareNodes isEqual) prev.fromWorkflow.nodes
        next.toWorkflow.nodes).entries.map Prod.snd)
  last : MergesLast (compareNodes isEqual) [mergeAdditiveChanges isEqual] i diffs
  kept : ∀ prev next, diffs[i - 1]? = some prev → diffs[i]? = some next →
    shouldMerge (compareNodes isEqual) [mergeAdditiveChanges isEqual] prev next = .ok true →
      ChangesKept isEqual prev next

/-- Wherever the loops come by. -/
def AlwaysSafe (isEqual : IsEqual τ) (workflows : List (IWorkflowBase (PickedNode τ) β)) : Prop :=
  ∀ length i diffs, Reaches (compareNodes isEqual) [mergeAdditiveChanges isEqual]
    (compareAll (compareNodes isEqual) workflows) length i diffs → 0 < i → SafeAt isEqual i diffs

theorem shouldMerge_single {α : Type} {same : CompareNodes α} {rule : DiffRule α β ε}
    {prev next : GroupedWorkflowHistory α β} {merge : Bool}
    (h : rule prev next (compareWorkflowsNodes same prev.fromWorkflow.nodes
      next.toWorkflow.nodes) = .ok merge) : shouldMerge same [rule] prev next = .ok merge := by
  have hasked : [rule].anyM (fun rule => rule prev next (compareWorkflowsNodes same
      prev.fromWorkflow.nodes next.toWorkflow.nodes)) = .ok merge := by
    rw [List.anyM, h]
    cases merge <;> rfl
  unfold shouldMerge
  dsimp only
  rw [hasked]
  rfl

theorem eq_concat_concat {γ : Type} {l : List γ} {i : ℕ} {a b : γ} (hi : 0 < i)
    (ha : l[i - 1]? = some a) (hb : l[i]? = some b) (hlength : i + 1 = l.length) :
    ∃ l', l = l' ++ [a] ++ [b] ∧ i = l'.length + 1 := by
  obtain ⟨l, last, rfl⟩ := (List.eq_nil_or_concat' l).resolve_left (by
    rintro rfl
    cases hb)
  rw [List.length_append, List.length_singleton] at hlength
  rw [List.getElem?_append_left (by omega)] at ha
  obtain rfl : i = l.length := by omega
  rw [List.getElem?_concat_length] at hb
  obtain rfl := Option.some.inj hb
  obtain ⟨l, before, rfl⟩ := (List.eq_nil_or_concat' l).resolve_left (by
    rintro rfl
    cases ha)
  rw [List.length_append, List.length_singleton, Nat.add_sub_cancel,
    List.getElem?_concat_length] at ha
  exact ⟨l, by rw [Option.some.inj ha], by simp⟩

variable {workflows : List (IWorkflowBase (PickedNode τ) β)}

/-- A safe step of the loop does not throw. The diffs stay a chain, and each stays recoverable. -/
theorem SafeAt.mergeAt
    (hequal : ∀ a b c, isEqual a b = true → isEqual b c = true → isEqual a c = true) {i : ℕ}
    {diffs : List (GroupedWorkflowHistory (PickedNode τ) β)} (h : SafeAt isEqual i diffs)
    (hi : 0 < i) (hlt : i < diffs.length) (hsound : Sound (compareNodes isEqual) workflows diffs)
    (hrecoverable : ∀ d ∈ diffs, Recoverable isEqual d) :
    ∃ diffs', GroupWorkflows.mergeAt (compareNodes isEqual) [mergeAdditiveChanges isEqual] i
        diffs = .ok diffs' ∧ Sound (compareNodes isEqual) workflows diffs' ∧
      ∀ d ∈ diffs', Recoverable isEqual d := by
  obtain ⟨prev, hprev⟩ : ∃ prev, diffs[i - 1]? = some prev :=
    ⟨_, List.getElem?_eq_getElem (by omega)⟩
  obtain ⟨next, hnext⟩ : ∃ next, diffs[i]? = some next := ⟨_, List.getElem?_eq_getElem hlt⟩
  obtain ⟨merge, hmerge⟩ := additiveLoop_eq_ok.2 (h.names prev next hprev hnext)
  have hask : shouldMerge (compareNodes isEqual) [mergeAdditiveChanges isEqual] prev next =
      .ok merge := shouldMerge_single hmerge
  cases merge with
  | false =>
    refine ⟨diffs, ?_, hsound, hrecoverable⟩
    unfold GroupWorkflows.mergeAt
    rw [hprev, hnext]
    dsimp only
    rw [hask]
    rfl
  | true =>
    obtain ⟨l, rfl, rfl⟩ := eq_concat_concat hi hprev hnext (h.last prev next hprev hnext hask)
    obtain ⟨merged, hmerged, hsound'⟩ := hsound.merge (ε := RuleError)
    have hprev' : (l ++ [prev])[l.length + 1 - 1]? = some prev := List.getElem?_concat_length
    refine ⟨l ++ [merged], ?_, hsound', fun d hd => ?_⟩
    · rw [mergeAt_of_ask hprev hnext hask, popInto_append hprev', hmerged]
      simp [Except.map]
    · rcases List.mem_append.1 hd with hd | hd
      · exact hrecoverable d (by simp [hd])
      · obtain rfl := List.mem_singleton.1 hd
        have hlinks := hsound.links
        rw [List.append_assoc] at hlinks
        have hmeet : prev.toWorkflow = next.fromWorkflow :=
          (List.isChain_cons_cons.1 (List.isChain_append.1 hlinks).2.1).1
        exact (hrecoverable prev (by simp)).mergeRight hequal (hrecoverable next (by simp)) hmeet
          (h.kept prev next hprev hnext hask) hmerged

theorem recoverable_compareAll (isEqual : IsEqual τ) :
    ∀ (workflows : List (IWorkflowBase (PickedNode τ) β)),
      ∀ d ∈ compareAll (compareNodes isEqual) workflows, Recoverable isEqual d
  | [], d, hd => absurd hd List.not_mem_nil
  | [_], d, hd => absurd hd List.not_mem_nil
  | previous :: next :: workflows, d, hd => by
    rcases List.mem_cons.1 hd with rfl | hd
    · exact recoverable_compare isEqual previous next
    · exact recoverable_compareAll isEqual (next :: workflows) d hd

/-- Wherever the loops come by, the diffs are a chain along the history and recoverable. -/
theorem AlwaysSafe.reaches
    (hequal : ∀ a b c, isEqual a b = true → isEqual b c = true → isEqual a c = true)
    {start diffs : List (GroupedWorkflowHistory (PickedNode τ) β)} {length i : ℕ}
    (hsafe : ∀ length i diffs, Reaches (compareNodes isEqual) [mergeAdditiveChanges isEqual]
      start length i diffs → 0 < i → SafeAt isEqual i diffs)
    (hstart : Sound (compareNodes isEqual) workflows start ∧
      ∀ d ∈ start, Recoverable isEqual d)
    (h : Reaches (compareNodes isEqual) [mergeAdditiveChanges isEqual] start length i diffs) :
    Sound (compareNodes isEqual) workflows diffs ∧ ∀ d ∈ diffs, Recoverable isEqual d := by
  induction h with
  | start => exact hstart
  | step h hmerge ih =>
    obtain ⟨diffs', hmerge', hkept⟩ := (hsafe _ _ _ h (Nat.succ_pos _)).mergeAt hequal
      (Nat.succ_pos _) (index_lt h (Nat.succ_pos _)) ih.1 ih.2
    obtain rfl := Except.ok.inj (hmerge'.symm.trans hmerge)
    exact hkept
  | again _ _ ih => exact ih

/-- What is picked is compared as it is. -/
def sameNodes : IsEqual Unit := fun base target => base = target

/-- A version with one node, by its name and its text. -/
def oneNode (name text : String) (version : ℕ) : IWorkflowBase (PickedNode Unit) ℕ where
  nodes := [⟨"1", ⟨name, (), Dict.empty.set "text" (.string (units text))⟩⟩]
  fields := version

/-- The text is written on. -/
def writtenOn : List (IWorkflowBase (PickedNode Unit) ℕ) :=
  [oneNode "Note" "a" 0, oneNode "Note" "ab" 1, oneNode "Note" "abc" 2]

/-- What is written on is taken back. -/
def takenBack : List (IWorkflowBase (PickedNode Unit) ℕ) :=
  [oneNode "Note" "a" 0, oneNode "Note" "ab" 1, oneNode "Note" "a" 2]

/-- The node gets another name. -/
def renamedNode : List (IWorkflowBase (PickedNode Unit) ℕ) :=
  [oneNode "Note" "a" 0, oneNode "Text" "a" 1, oneNode "Text" "a" 2]

end N8n
