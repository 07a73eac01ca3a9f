import Mathlib.Tactic
import N8n.ExecutionHistory
import N8n.Proofs.ConnectionIndexes
import N8n.Proofs.ReleasedEntries
import N8n.Proofs.RunRecords

/-!
# Where the data of an execution comes from

A turn writes at most one record, at the end of the runs of its node, and hands on the data of that
record under its place. So what a source names stays as it is, until the record is taken back: that
is only the record of the entry on top of the stack, which has handed on nothing.
-/

namespace N8n

variable {w : Workflow}

theorem Outcome.forEach_keeps {α : Type*} {P : WorkflowExecute → Prop}
    {f : WorkflowExecute → α → Outcome} {s : WorkflowExecute} {xs : List α} (h : P s)
    (hf : ∀ s, ∀ x ∈ xs, P s → P (f s x).state) : P (Outcome.forEach f s xs).state :=
  Outcome.forEach_rel (R := fun s s' => P s → P s') (fun _ => id) (fun _ _ _ h h' => h' ∘ h) s hf h

namespace WorkflowExecute

/-! ## What a source names -/

/-- Each node has the runs it had, and perhaps more after them. -/
def Grows (s s' : WorkflowExecute) : Prop :=
  ∀ nodeName, s.taskData nodeName <+: s'.taskData nodeName

variable {s s' s'' s₀ : WorkflowExecute}

theorem Grows.of_eq (h : s'.runData = s.runData) : s.Grows s' := fun nodeName => by
  rw [taskData, taskData, h]

theorem grows_pushTaskData (s : WorkflowExecute) (nodeName : String) (record : TaskData) :
    s.Grows (s.pushTaskData nodeName record) := fun nodeName' => by
  by_cases hname : nodeName' = nodeName
  · rw [hname, pushTaskData, taskData_set]
    exact List.prefix_append _ _
  · rw [taskData_pushTaskData_of_ne s hname]

theorem Grows.recordOf (h : s.Grows s') {source : SourceData} {record : TaskData}
    (hrecord : s.recordOf source = some record) : s'.recordOf source = some record := by
  obtain ⟨hlt, hget⟩ := List.getElem?_eq_some_iff.1 hrecord
  rw [← hget]
  exact List.prefix_iff_getElem?.1 (h source.previousNode) _ hlt

theorem Grows.outputOf (h : s.Grows s') {source : SourceData} {output : List Item}
    (houtput : s.outputOf source = some output) : s'.outputOf source = some output := by
  obtain ⟨record, hrecord, hout⟩ := Option.bind_eq_some_iff.1 houtput
  exact Option.bind_eq_some_iff.2 ⟨record, h.recordOf hrecord, hout⟩

theorem TracesBack.grows {main : List Slot} {sources : List (Option SourceData)}
    (htraces : s.TracesBack w main sources) (h : s.Grows s') : s'.TracesBack w main sources := by
  intro input source hsource
  obtain ⟨output, houtput, hover⟩ := htraces input source hsource
  exact ⟨output, h.outputOf houtput, hover⟩

/-! ## What is on its way -/

/-- All data that is on its way traces back to recorded runs. -/
structure Queued (w : Workflow) (s : WorkflowExecute) : Prop where
  stack : ∀ e ∈ s.nodeExecutionStack, s.TracesBack w e.main (e.source.getD [])
  waiting : ∀ nodeName, ∀ entry ∈ s.waitingEntries nodeName,
    s.TracesBack w entry.main entry.source

theorem Queued.grows (h : s.Queued w) (hgrows : s.Grows s')
    (hstack : s'.nodeExecutionStack = s.nodeExecutionStack)
    (hwaiting : s'.waitingExecution = s.waitingExecution) : s'.Queued w where
  stack e he := (h.stack e (hstack ▸ he)).grows hgrows
  waiting nodeName entry hentry :=
    (h.waiting nodeName entry (by rwa [waitingEntries, hwaiting] at hentry)).grows hgrows

theorem mem_enqueue {e e' : ExecuteData} (h : e' ∈ (s.enqueue w e).nodeExecutionStack) :
    e' = e ∨ e' ∈ s.nodeExecutionStack := by
  unfold enqueue at h
  split_ifs at h <;> simpa [or_comm] using h

theorem Queued.enqueue (h : s.Queued w) {e : ExecuteData}
    (he : s.TracesBack w e.main (e.source.getD [])) : (s.enqueue w e).Queued w where
  stack e' he' := by
    rcases mem_enqueue he' with rfl | hmem
    · exact he
    · exact h.stack e' hmem
  waiting := h.waiting

theorem Queued.enqueueMain (h : s.Queued w) (node : Node) {main : List Slot}
    {sources : List (Option SourceData)} (hentry : s.TracesBack w main sources) :
    (s.enqueue w { node, data := Dict.empty.set .main main, source := some sources }).Queued w :=
  h.enqueue (by simpa [ExecuteData.main] using hentry)

/-- A node's entries are those of an index map, each of which traces back. -/
theorem Queued.setWaiting (h : s.Queued w) (nodeName : String) {waiting : IndexMap WaitingEntry}
    (hwaiting : ∀ entry ∈ waiting.entries, s.TracesBack w entry.2.main entry.2.source) :
    ({ s with waitingExecution := s.waitingExecution.set nodeName waiting } :
      WorkflowExecute).Queued w where
  stack := h.stack
  waiting nodeName' entry hentry := by
    by_cases hname : nodeName' = nodeName
    · subst hname
      simp only [waitingEntries, Dict.get?_set_self, Option.getD_some, List.mem_map] at hentry
      obtain ⟨indexed, hindexed, rfl⟩ := hentry
      exact hwaiting indexed hindexed
    · rw [waitingEntries, Dict.get?_set_of_ne _ hname] at hentry
      exact h.waiting nodeName' entry hentry

theorem Queued.eraseWaiting (h : s.Queued w) (nodeName : String) :
    ({ s with waitingExecution := s.waitingExecution.erase nodeName } :
      WorkflowExecute).Queued w where
  stack := h.stack
  waiting nodeName' entry hentry := by
    by_cases hname : nodeName' = nodeName
    · subst hname
      simp [waitingEntries, IndexMap.empty] at hentry
    · rw [waitingEntries, Dict.get?_erase_of_ne _ hname] at hentry
      exact h.waiting nodeName' entry hentry

theorem Queued.entries (h : s.Queued w) (nodeName : String) :
    ∀ entry ∈ ((s.waitingExecution.get? nodeName).getD .empty).entries,
      s.TracesBack w entry.2.main entry.2.source :=
  fun entry hentry => h.waiting nodeName entry.2 (List.mem_map_of_mem hentry)

/-! ## Adding a node -/

/-- The output is what the call of `addNodeToBeExecuted` hands on and names as the source. -/
structure Delivers (s : WorkflowExecute) (parentNodeName : String) (outputIndex runIndex : ℕ)
    (nodeSuccessData : List Slot) : Prop where
  output : ∃ output ∈ s.outputOf (sourceOf parentNodeName outputIndex runIndex),
    slotAt nodeSuccessData outputIndex = .items output

variable {parentNodeName : String} {outputIndex runIndex : ℕ} {nodeSuccessData : List Slot}

theorem Delivers.of_eq (h : s.Delivers parentNodeName outputIndex runIndex nodeSuccessData)
    (hrun : s'.runData = s.runData) :
    s'.Delivers parentNodeName outputIndex runIndex nodeSuccessData where
  output := by
    obtain ⟨output, houtput, hslot⟩ := h.output
    exact ⟨output, (Grows.of_eq hrun).outputOf houtput, hslot⟩

theorem handedOver_self (output : List Item) : HandedOver w output (.items output) :=
  ⟨output, rfl, .inl rfl⟩

/-- A node with one input gets the output on that input. -/
theorem Delivers.tracesBack
    (h : s.Delivers parentNodeName outputIndex runIndex nodeSuccessData) :
    s.TracesBack w [slotAt nodeSuccessData outputIndex]
      [some (sourceOf parentNodeName outputIndex runIndex)] := by
  obtain ⟨output, houtput, hslot⟩ := h.output
  intro input source hsource
  cases input with
  | zero =>
    obtain rfl : sourceOf parentNodeName outputIndex runIndex = source := by simpa using hsource
    refine ⟨output, houtput, ?_⟩
    rw [hslot]
    exact handedOver_self output
  | succ input => simp at hsource

/-- The node is made to run on one empty item, in the legacy order. -/
theorem Delivers.tracesBack_forced
    (h : s.Delivers parentNodeName outputIndex runIndex nodeSuccessData)
    (hlegacy : w.isLegacyExecutionOrder = true) :
    s.TracesBack w [.items [{ json := .empty }]]
      [some (sourceOf parentNodeName outputIndex runIndex)] := by
  obtain ⟨output, houtput, -⟩ := h.output
  intro input source hsource
  cases input with
  | zero =>
    obtain rfl : sourceOf parentNodeName outputIndex runIndex = source := by simpa using hsource
    exact ⟨output, houtput, _, rfl, .inr ⟨hlegacy, rfl⟩⟩
  | succ input => simp at hsource

/-- An entry that waits, with the output written to an input. -/
theorem Delivers.tracesBack_setAt
    (h : s.Delivers parentNodeName outputIndex runIndex nodeSuccessData) {entry : WaitingEntry}
    (hentry : s.TracesBack w entry.main entry.source) (index : ℕ) :
    s.TracesBack w (setAt entry.main index .hole (slotAt nodeSuccessData outputIndex))
      (setAt entry.source index none (some (sourceOf parentNodeName outputIndex runIndex))) := by
  obtain ⟨output, houtput, hslot⟩ := h.output
  intro input source hsource
  rw [hslot, slotAt_setAt]
  have hget := @getD_setAt (Option SourceData) none entry.source index input
    (some (sourceOf parentNodeName outputIndex runIndex))
  rw [List.getD_eq_getElem?_getD, hsource, Option.getD_some] at hget
  split_ifs at hget ⊢ with hinput
  · obtain rfl := Option.some.inj hget
    exact ⟨output, houtput, handedOver_self output⟩
  · refine hentry input source ?_
    rw [List.getD_eq_getElem?_getD] at hget
    cases hold : entry.source[input]? with
    | none => simp [hold] at hget
    | some old => simpa [hold] using hget.symm

theorem tracesBack_prepareWaiting (numberOfConnections : ℕ) :
    s.TracesBack w (prepareWaitingToExecution numberOfConnections).main
      (prepareWaitingToExecution numberOfConnections).source := by
  intro input source hsource
  simp only [prepareWaitingToExecution, List.getElem?_replicate] at hsource
  split_ifs at hsource
  simp at hsource

theorem tracesBack_waitingEntryFor {waiting : IndexMap WaitingEntry}
    (h : ∀ entry ∈ waiting.entries, s.TracesBack w entry.2.main entry.2.source)
    (inputIndex numberOfConnections : ℕ) :
    s.TracesBack w (waitingEntryFor waiting inputIndex numberOfConnections).2.main
      (waitingEntryFor waiting inputIndex numberOfConnections).2.source := by
  unfold waitingEntryFor
  split
  · rename_i entry hfound
    exact h entry (List.mem_of_find?_eq_some hfound)
  · exact tracesBack_prepareWaiting numberOfConnections

/-- What is on its way traces back, and the output is recorded. -/
structure Ready (w : Workflow) (s : WorkflowExecute) (parentNodeName : String)
    (outputIndex runIndex : ℕ) (nodeSuccessData : List Slot) : Prop where
  queued : s.Queued w
  delivers : s.Delivers parentNodeName outputIndex runIndex nodeSuccessData

theorem forceParent_queued (hlegacy : w.isLegacyExecutionOrder = true)
    (h : s.Ready w parentNodeName outputIndex runIndex nodeSuccessData)
    (checkOutputNodes executionStackNodes : List String) (inputNode : String) :
    (s.forceParent w checkOutputNodes executionStackNodes inputNode outputIndex parentNodeName
      nodeSuccessData runIndex).state.Ready w parentNodeName outputIndex runIndex
        nodeSuccessData := by
  unfold forceParent
  simp only []
  split
  · exact h
  · split_ifs
    · exact h
    · exact h
    · split
      · exact h
      · exact h
      · exact ⟨h.queued.enqueueMain _ (h.delivers.tracesBack_forced hlegacy), h.delivers.of_eq rfl⟩

theorem addMissingParent_queued
    (h : s.Ready w parentNodeName outputIndex runIndex nodeSuccessData)
    (checkOutputNodes : List String) (inputData : Connection) :
    (addMissingParent w checkOutputNodes outputIndex parentNodeName nodeSuccessData runIndex s
      inputData).state.Ready w parentNodeName outputIndex runIndex nodeSuccessData := by
  have hnext : (if inputData.node ∈ s.nodeExecutionStack.map (·.node.name) then { state := s }
      else if (s.runData.get? inputData.node).isSome then { state := s }
      else if !w.isLegacyExecutionOrder then { state := s }
      else s.forceParent w checkOutputNodes (s.nodeExecutionStack.map (·.node.name))
        inputData.node outputIndex parentNodeName nodeSuccessData runIndex :
        Outcome).state.Ready w parentNodeName outputIndex runIndex nodeSuccessData := by
    split_ifs with _ _ hlegacy
    · exact h
    · exact h
    · exact h
    · exact forceParent_queued (by simpa using hlegacy) h _ _ _
  unfold addMissingParent
  simp only []
  split
  · exact h
  · split
    · split
      · exact h
      · split
        · exact h
        · exact h
        · exact hnext
    · exact hnext

theorem addMissingParents_queued
    (h : s.Ready w parentNodeName outputIndex runIndex nodeSuccessData) (nodeName : String) :
    (s.addMissingParents w nodeName outputIndex parentNodeName nodeSuccessData
      runIndex).state.Ready w parentNodeName outputIndex runIndex nodeSuccessData := by
  unfold addMissingParents
  split
  · exact h
  · exact Outcome.forEach_keeps
      (P := fun s => s.Ready w parentNodeName outputIndex runIndex nodeSuccessData) h
      fun s inputData _ hs => addMissingParent_queued hs _ inputData

theorem addToWaiting_queued
    (h : s.Ready w parentNodeName outputIndex runIndex nodeSuccessData)
    (connectionData : Connection) :
    (s.addToWaiting w connectionData outputIndex parentNodeName nodeSuccessData
      runIndex).state.Ready w parentNodeName outputIndex runIndex nodeSuccessData := by
  have hentries := h.queued.entries connectionData.node
  have hentry := h.delivers.tracesBack_setAt
    (tracesBack_waitingEntryFor hentries connectionData.index
      (w.numberOfInputs connectionData.node)) connectionData.index
  have hset : ∀ indexed ∈ (((s.waitingExecution.get? connectionData.node).getD .empty).set
      (waitingEntryFor ((s.waitingExecution.get? connectionData.node).getD .empty)
        connectionData.index (w.numberOfInputs connectionData.node)).1
      { main := setAt (waitingEntryFor ((s.waitingExecution.get? connectionData.node).getD .empty)
          connectionData.index (w.numberOfInputs connectionData.node)).2.main connectionData.index
          .hole (slotAt nodeSuccessData outputIndex)
        source := setAt (waitingEntryFor
          ((s.waitingExecution.get? connectionData.node).getD .empty) connectionData.index
          (w.numberOfInputs connectionData.node)).2.source connectionData.index none
          (some (sourceOf parentNodeName outputIndex runIndex)) }).entries,
      s.TracesBack w indexed.2.main indexed.2.source := by
    intro indexed hindexed
    rcases IndexMap.mem_entries_set hindexed with heq | hmem
    · rw [heq]
      exact hentry
    · exact hentries indexed hmem
  unfold addToWaiting
  simp only []
  split
  · refine ⟨?_, h.delivers.of_eq rfl⟩
    have hpushed := (h.queued.setWaiting connectionData.node hset).enqueueMain
      (w.node connectionData.node) hentry
    split
    · exact hpushed.eraseWaiting _
    · exact hpushed.setWaiting _ fun indexed hindexed =>
        hset indexed (IndexMap.mem_entries_of_erase hindexed)
  · split
    · exact ⟨h.queued.setWaiting _ hset, h.delivers.of_eq rfl⟩
    · exact addMissingParents_queued ⟨h.queued.setWaiting _ hset, h.delivers.of_eq rfl⟩ _

/-- An output leads to an input that the destination knows of. -/
theorem lt_numberOfInputs (hmain : w.MainToMain) {nodeName : String} {output : ℕ × Connection}
    (h : output ∈ outgoing w nodeName) : output.2.index < w.numberOfInputs output.2.node := by
  simp only [outgoing, List.mem_flatMap, List.mem_map, Prod.exists,
    List.mem_zipIdx_iff_getElem?] at h
  obtain ⟨connections, outputIndex, hget, connection, hconnection, rfl⟩ := h
  cases hof : w.connectionsBySourceNode.ofType nodeName .main with
  | none => simp [hof] at hget
  | some array =>
    rw [hof, Option.getD_some] at hget
    cases connections with
    | none => simp at hconnection
    | some connections =>
      obtain ⟨ofNode, hnode, hofNode⟩ := Option.bind_eq_some_iff.1 hof
      have htype : connection.type = .main := by
        refine hmain (nodeName, ofNode) (Dict.mem_entries.2 hnode) connection ?_
        rw [hofNode, Option.getD_some, flatConnections]
        exact List.mem_flatMap.2 ⟨some connections, List.mem_of_getElem? hget, hconnection⟩
      have hlink : Link.mk nodeName .main outputIndex connection ∈
          w.connectionsBySourceNode.links :=
        Connections.mem_links.2 ⟨array, connections, hof, hget, hconnection⟩
      have hmirror := Connections.mem_mapConnectionsByDestination.2
        ((Link.mirror_mirror _).symm ▸ hlink : (Link.mk nodeName .main outputIndex
          connection).mirror.mirror ∈ w.connectionsBySourceNode.links)
      obtain ⟨inputs, _, hinputs, hinput, -⟩ := Connections.mem_links.1 hmirror
      simp only [Link.mirror] at hinputs hinput
      rw [htype] at hinputs
      rw [Workflow.numberOfInputs, Workflow.connectionsByDestinationNode, hinputs,
        Option.getD_some]
      exact (List.getElem?_eq_some_iff.1 hinput).1

theorem addNodeToBeExecuted_queued (hmain : w.MainToMain) {nodeName : String}
    {output : ℕ × Connection} (houtput : output ∈ outgoing w nodeName)
    (h : s.Ready w parentNodeName outputIndex runIndex nodeSuccessData) :
    (s.addNodeToBeExecuted w output.2 outputIndex parentNodeName nodeSuccessData runIndex none
      none).state.Ready w parentNodeName outputIndex runIndex nodeSuccessData := by
  unfold addNodeToBeExecuted
  split_ifs with hinputs
  · exact addToWaiting_queued h _
  · have hlt := lt_numberOfInputs hmain houtput
    have hindex : output.2.index = 0 := by omega
    refine ⟨h.queued.enqueue ?_, h.delivers.of_eq rfl⟩
    simpa [ExecuteData.main, hindex] using h.delivers.tracesBack

/-- A record has this data on its main outputs. -/
def Recorded (s : WorkflowExecute) (nodeName : String) (runIndex : ℕ)
    (nodeSuccessData : List Slot) : Prop :=
  ∃ record ∈ (s.taskData nodeName)[runIndex]?,
    record.data.bind (·.get? .main) = some nodeSuccessData

theorem Recorded.delivers {nodeName : String}
    (h : s.Recorded nodeName runIndex nodeSuccessData) {output : ℕ × Connection}
    (hreceives : receives w nodeSuccessData output = true) :
    s.Delivers nodeName output.1 runIndex nodeSuccessData where
  output := by
    obtain ⟨record, hrecord, hdata⟩ := h
    unfold receives at hreceives
    cases hslot : slotAt nodeSuccessData output.1 with
    | items data =>
      refine ⟨data, ?_, rfl⟩
      simp only [outputOf, recordOf, sourceOf, orUndefined_getD, Option.mem_def]
      rw [Option.mem_def.1 hrecord, Option.bind_some, TaskData.output, hdata, Option.getD_some,
        hslot]
    | hole => simp [hslot] at hreceives
    | undefined => simp [hslot] at hreceives
    | null => simp [hslot] at hreceives

theorem addNodes_queued (hmain : w.MainToMain) {nodeName : String} (h : s.Queued w)
    (hrecorded : s.Recorded nodeName runIndex nodeSuccessData) :
    (s.addNodes w nodeName nodeSuccessData runIndex).state.Queued w := by
  have hadd : ∀ (s' : WorkflowExecute) (output : ℕ × Connection),
      output ∈ outgoing w nodeName → receives w nodeSuccessData output = true →
      s'.Queued w ∧ s'.runData = s.runData →
      (s'.addNodeToBeExecuted w output.2 output.1 nodeName nodeSuccessData runIndex none
        none).state.Queued w ∧
      (s'.addNodeToBeExecuted w output.2 output.1 nodeName nodeSuccessData runIndex none
        none).state.runData = s.runData := by
    rintro s' output houtput hreceives ⟨hs', hrun⟩
    exact ⟨(addNodeToBeExecuted_queued hmain houtput
        ⟨hs', (hrecorded.delivers hreceives).of_eq hrun⟩).queued,
      (addNodeToBeExecuted_adds (p := fun _ => True) (fun _ _ => trivial) _ _ _ _ _
        _).runData.trans hrun⟩
  unfold addNodes
  simp only []
  split_ifs
  · refine (Outcome.forEach_keeps (P := fun s' => s'.Queued w ∧ s'.runData = s.runData)
      ⟨h, rfl⟩ fun s' output hmem hs' => ?_).1
    split_ifs with _ hreceives
    · exact hs'
    · exact hadd s' output hmem hreceives hs'
    · exact hs'
  · exact h
  · refine (Outcome.forEach_keeps (P := fun s' => s'.Queued w ∧ s'.runData = s.runData)
      ⟨h, rfl⟩ fun s' output hmem hs' => ?_).1
    obtain ⟨houtput, hreceives⟩ := List.mem_filter.1 ((List.perm_insertionSort _ _).mem_iff.1 hmem)
    exact hadd s' output houtput hreceives hs'

/-! ## The scan -/

theorem Queued.removeWaiting (h : s.Queued w) (nodeName : String) (runIndex : ℕ) :
    (s.removeWaiting nodeName runIndex).Queued w := by
  unfold WorkflowExecute.removeWaiting
  simp only []
  split
  · exact h.eraseWaiting _
  · exact h.setWaiting _ fun indexed hindexed =>
      h.entries nodeName indexed (IndexMap.mem_entries_of_erase hindexed)

/-- Empty lists are put on inputs without data, which have no source. -/
theorem Queued.pushWaiting (h : s.Queued w) (nodeName : String) {entry : WaitingEntry}
    (hentry : s.TracesBack w entry.main entry.source) :
    (s.pushWaiting w nodeName entry).Queued w where
  stack e he := by
    rcases List.mem_append.1 he with hmem | hmem
    · exact h.stack e hmem
    · obtain rfl := List.mem_singleton.1 hmem
      intro input source hsource
      obtain ⟨output, houtput, items, hslot, hitems⟩ := hentry input source hsource
      refine ⟨output, houtput, items, ?_, hitems⟩
      have hget : entry.main[input]? = some (.items items) := by
        unfold slotAt at hslot
        split at hslot
        · cases hslot
        · cases hslot
        · rw [← hslot]
          assumption
      simp only [ExecuteData.main, Dict.get?_set_self, Option.getD_some, slotAt]
      rw [List.getElem?_append_left (by
        rw [List.length_map]
        exact (List.getElem?_eq_some_iff.1 hget).1), List.getElem?_map, hget]
      rfl
  waiting := h.waiting

theorem scanWaiting_queued : ∀ (fuel : ℕ) (s : WorkflowExecute), s.Queued w →
    (scanWaiting w fuel s).state.Queued w
  | 0, _, h => h
  | fuel + 1, s, h => by
    unfold scanWaiting
    simp only []
    cases hfound : (objectKeys s.waitingExecution.keys).findSome?
        (s.waitingCandidate w (objectKeys s.waitingExecution.keys)) with
    | none => exact h
    | some candidate =>
      obtain ⟨nodeName, -, hcandidate⟩ := List.exists_of_findSome?_eq_some hfound
      cases candidate with
      | throws => exact h
      | entry nodeName' runIndex entry =>
        obtain ⟨rfl, hmem⟩ := mem_of_waitingCandidate hcandidate
        simp only []
        split_ifs
        · exact h
        · exact (h.pushWaiting nodeName' (h.entries nodeName' _ hmem)).removeWaiting _ _
        · exact scanWaiting_queued fuel _ (h.removeWaiting _ _)

theorem handOn_queued (hmain : w.MainToMain) {nodeName : String} (h : s.Queued w)
    (hrecorded : s.Recorded nodeName runIndex nodeSuccessData) :
    (s.handOn w nodeName nodeSuccessData runIndex).state.Queued w := by
  have hadded := addNodes_queued hmain h hrecorded
  unfold handOn Outcome.ends Outcome.andThen
  simp only []
  split_ifs
  · exact hadded
  · exact scanWaiting_queued _ _ hadded
  · exact hadded

/-! ## What handing on leaves alone -/

/-- The state apart from its queues. -/
def withoutQueues (s : WorkflowExecute) : WorkflowExecute :=
  { s with nodeExecutionStack := [], waitingExecution := .empty }

/-- Only the queues differ, and the entries that are new on the stack are for the next run of their
nodes. -/
structure Enqueues (s s' : WorkflowExecute) : Prop where
  rest : s'.withoutQueues = s.withoutQueues
  added : ∀ e ∈ s'.nodeExecutionStack, e ∈ s.nodeExecutionStack ∨ e.runIndex = none

theorem Enqueues.refl (s : WorkflowExecute) : s.Enqueues s := ⟨rfl, fun _ => .inl⟩

theorem Enqueues.trans (h : s.Enqueues s') (h' : s'.Enqueues s'') : s.Enqueues s'' where
  rest := h'.rest.trans h.rest
  added e he := (h'.added e he).elim (h.added e) .inr

theorem Enqueues.runData (h : s.Enqueues s') : s'.runData = s.runData :=
  show s'.withoutQueues.runData = s.withoutQueues.runData by rw [h.rest]

theorem Enqueues.taskData (h : s.Enqueues s') (nodeName : String) :
    s'.taskData nodeName = s.taskData nodeName := by
  rw [WorkflowExecute.taskData, h.runData]
  rfl

theorem Enqueues.rewire (h : s.Enqueues s') : s'.rewireOutputLogTo = s.rewireOutputLogTo :=
  show s'.withoutQueues.rewireOutputLogTo = s.withoutQueues.rewireOutputLogTo by rw [h.rest]

theorem Enqueues.index (h : s.Enqueues s') :
    s'.currentNodeExecutionIndex = s.currentNodeExecutionIndex :=
  show s'.withoutQueues.currentNodeExecutionIndex = s.withoutQueues.currentNodeExecutionIndex by
    rw [h.rest]

theorem Enqueues.filter (h : s.Enqueues s') : s'.runNodeFilter = s.runNodeFilter :=
  show s'.withoutQueues.runNodeFilter = s.withoutQueues.runNodeFilter by rw [h.rest]

theorem enqueues_enqueue (s : WorkflowExecute) {e : ExecuteData} (hrun : e.runIndex = none) :
    s.Enqueues (s.enqueue w e) where
  rest := rfl
  added _ hadded := (mem_enqueue hadded).elim (fun heq => .inr (heq ▸ hrun)) .inl

theorem enqueues_setWaiting (s : WorkflowExecute)
    (waitingExecution : Dict String (IndexMap WaitingEntry)) :
    s.Enqueues { s with waitingExecution } := ⟨rfl, fun _ => .inl⟩

theorem forceParent_enqueues (s : WorkflowExecute)
    (checkOutputNodes executionStackNodes : List String) (inputNode : String) (outputIndex : ℕ) (parentNodeName : String) (nodeSuccessData : List Slot)
    (runIndex : ℕ) : s.Enqueues (s.forceParent w checkOutputNodes executionStackNodes inputNode
      outputIndex parentNodeName nodeSuccessData runIndex).state := by
  unfold forceParent
  simp only []
  split
  · exact .refl s
  · split_ifs
    · exact .refl s
    · exact .refl s
    · split
      · exact .refl s
      · exact .refl s
      · exact enqueues_enqueue s rfl

theorem addMissingParent_enqueues (s : WorkflowExecute) (checkOutputNodes : List String)
    (outputIndex : ℕ) (parentNodeName : String) (nodeSuccessData : List Slot) (runIndex : ℕ)
    (inputData : Connection) : s.Enqueues (addMissingParent w checkOutputNodes outputIndex
      parentNodeName nodeSuccessData runIndex s inputData).state := by
  have hnext : s.Enqueues (if inputData.node ∈ s.nodeExecutionStack.map (·.node.name) then
        { state := s }
      else if (s.runData.get? inputData.node).isSome then { state := s }
      else if !w.isLegacyExecutionOrder then { state := s }
      else s.forceParent w checkOutputNodes (s.nodeExecutionStack.map (·.node.name))
        inputData.node outputIndex parentNodeName nodeSuccessData runIndex : Outcome).state := by
    split_ifs
    · exact .refl s
    · exact .refl s
    · exact .refl s
    · exact forceParent_enqueues s _ _ _ _ _ _ _
  unfold addMissingParent
  simp only []
  split
  · exact .refl s
  · split
    · split
      · exact .refl s
      · split
        · exact .refl s
        · exact .refl s
        · exact hnext
    · exact hnext

theorem addMissingParents_enqueues (s : WorkflowExecute) (nodeName : String) (outputIndex : ℕ)
    (parentNodeName : String) (nodeSuccessData : List Slot) (runIndex : ℕ) :
    s.Enqueues (s.addMissingParents w nodeName outputIndex parentNodeName nodeSuccessData
      runIndex).state := by
  unfold addMissingParents
  split
  · exact .refl s
  · exact Outcome.forEach_rel Enqueues.refl (fun _ _ _ => Enqueues.trans) s
      fun s inputData _ => addMissingParent_enqueues s _ _ _ _ _ inputData

theorem addNodeToBeExecuted_enqueues (s : WorkflowExecute) (connectionData : Connection)
    (outputIndex : ℕ) (parentNodeName : String) (nodeSuccessData : List Slot) (runIndex : ℕ) :
    s.Enqueues (s.addNodeToBeExecuted w connectionData outputIndex parentNodeName nodeSuccessData
      runIndex none none).state := by
  unfold addNodeToBeExecuted
  split_ifs
  · unfold addToWaiting
    simp only []
    split
    · exact ((enqueues_setWaiting s _).trans (enqueues_enqueue (w := w) _ rfl)).trans
        (enqueues_setWaiting _ _)
    · split
      · exact enqueues_setWaiting s _
      · exact (enqueues_setWaiting s _).trans (addMissingParents_enqueues _ _ _ _ _ _)
  · exact enqueues_enqueue s rfl

theorem addNodes_enqueues (s : WorkflowExecute) (nodeName : String) (nodeSuccessData : List Slot)
    (runIndex : ℕ) : s.Enqueues (s.addNodes w nodeName nodeSuccessData runIndex).state := by
  unfold addNodes
  simp only []
  split_ifs
  · refine Outcome.forEach_rel Enqueues.refl (fun _ _ _ => Enqueues.trans) s
      fun s output _ => ?_
    split_ifs
    · exact .refl s
    · exact addNodeToBeExecuted_enqueues s _ _ _ _ _
    · exact .refl s
  · exact .refl s
  · exact Outcome.forEach_rel Enqueues.refl (fun _ _ _ => Enqueues.trans) s
      fun s output _ => addNodeToBeExecuted_enqueues s _ _ _ _ _

theorem enqueues_pushWaiting (s : WorkflowExecute) (nodeName : String) (entry : WaitingEntry) :
    s.Enqueues (s.pushWaiting w nodeName entry) where
  rest := rfl
  added e he := (List.mem_append.1 he).imp_right fun hmem => by rw [List.mem_singleton.1 hmem]

theorem scanWaiting_enqueues : ∀ (fuel : ℕ) (s : WorkflowExecute),
    s.Enqueues (scanWaiting w fuel s).state
  | 0, s => .refl s
  | fuel + 1, s => by
    have hremove : ∀ (s : WorkflowExecute) nodeName runIndex,
        s.Enqueues (s.removeWaiting nodeName runIndex) := fun s _ _ => enqueues_setWaiting s _
    unfold scanWaiting
    simp only []
    split
    · exact .refl s
    · exact .refl s
    · split_ifs
      · exact .refl s
      · exact (enqueues_pushWaiting s _ _).trans (hremove _ _ _)
      · exact (hremove s _ _).trans (scanWaiting_enqueues fuel _)

theorem handOn_enqueues (s : WorkflowExecute) (nodeName : String) (nodeSuccessData : List Slot)
    (runIndex : ℕ) : s.Enqueues (s.handOn w nodeName nodeSuccessData runIndex).state := by
  have hadded := addNodes_enqueues (w := w) s nodeName nodeSuccessData runIndex
  unfold handOn Outcome.ends Outcome.andThen
  simp only []
  split_ifs
  · exact hadded
  · exact hadded.trans (scanWaiting_enqueues _ _)
  · exact hadded

/-! ## The entry that is taken from the stack -/

theorem pairInputs_getElem? {isToolExecution : Bool} {inputs paired : List Slot}
    (h : pairInputs isToolExecution inputs = some paired) (input : ℕ) {items : List Item}
    (hget : inputs[input]? = some (.items items)) :
    ∃ items', paired[input]? = some (.items items') ∧
      items'.map Item.unpaired = items.map Item.unpaired := by
  unfold pairInputs at h
  split_ifs at h
  obtain rfl := Option.some.inj h
  refine ⟨items.zipIdx.map fun entry => entry.1.atInput isToolExecution input entry.2, ?_, ?_⟩
  · rw [List.getElem?_map, List.getElem?_zipIdx, hget]
    simp
  · rw [List.map_map]
    conv_rhs => rw [← List.zipIdx_map_fst (i := 0) (l := items), List.map_map]
    exact List.map_congr_left fun _ _ => rfl

theorem get?_foldlM_pairInputs {isToolExecution : Bool} :
    ∀ {entries : List (NodeConnectionType × List Slot)} {data data' : TaskDataConnections},
      (entries.map Prod.fst).Nodup →
      entries.foldlM (fun data entry =>
        (pairInputs isToolExecution entry.2).map (data.set entry.1)) data = some data' →
      (∀ type, type ∉ entries.map Prod.fst → data'.get? type = data.get? type) ∧
        ∀ entry ∈ entries, ∃ paired, pairInputs isToolExecution entry.2 = some paired ∧
          data'.get? entry.1 = some paired
  | [], data, data', _, h => by
    obtain rfl := Option.some.inj h
    exact ⟨fun _ _ => rfl, fun _ hmem => absurd hmem List.not_mem_nil⟩
  | (type, inputs) :: entries, data, data', hnodup, h => by
    rw [List.foldlM_cons] at h
    obtain ⟨_, hfirst, hrest⟩ := Option.bind_eq_some_iff.1 h
    obtain ⟨paired, hpaired, rfl⟩ := Option.map_eq_some_iff.1 hfirst
    rw [List.map_cons, List.nodup_cons] at hnodup
    obtain ⟨hothers, hentries⟩ := get?_foldlM_pairInputs hnodup.2 hrest
    refine ⟨fun type' htype' => ?_, fun entry hentry => ?_⟩
    · rw [List.map_cons, List.mem_cons, not_or] at htype'
      rw [hothers type' htype'.2, Dict.get?_set_of_ne _ htype'.1]
    · rcases List.mem_cons.1 hentry with rfl | hmem
      · exact ⟨paired, hpaired, by rw [hothers _ hnodup.1, Dict.get?_set_self]⟩
      · exact hentries entry hmem

/-- The data of the entry with the places of its items still traces back. -/
theorem TracesBack.paired {executionData : ExecuteData} {sources : List (Option SourceData)}
    (h : s.TracesBack w executionData.main sources) {data : TaskDataConnections}
    (hdata : newTaskDataConnections executionData = some data) :
    s.TracesBack w ({ executionData with data } : ExecuteData).main sources := by
  obtain ⟨hothers, hentries⟩ := get?_foldlM_pairInputs executionData.data.nodup hdata
  intro input source hsource
  obtain ⟨output, houtput, items, hslot, hitems⟩ := h input source hsource
  cases hmain : executionData.data.get? .main with
  | none => simp [ExecuteData.main, hmain, slotAt] at hslot
  | some inputs =>
    obtain ⟨paired, hpaired, hget⟩ := hentries (.main, inputs) (Dict.mem_entries.2 hmain)
    have hinput : inputs[input]? = some (.items items) := by
      simp only [ExecuteData.main, hmain, Option.getD_some, slotAt] at hslot
      split at hslot
      · cases hslot
      · cases hslot
      · rw [← hslot]
        assumption
    obtain ⟨items', hitems', hunpaired⟩ := pairInputs_getElem? hpaired input hinput
    refine ⟨output, houtput, items', ?_, hunpaired ▸ hitems⟩
    simp only [ExecuteData.main, hget, Option.getD_some, slotAt, hitems']

/-! ## A turn without requests -/

/-- The runs, the queues and the index are those of `s`. -/
structure Same (s s' : WorkflowExecute) : Prop where
  taskData : ∀ nodeName, s'.taskData nodeName = s.taskData nodeName
  stack : s'.nodeExecutionStack = s.nodeExecutionStack
  waiting : s'.waitingExecution = s.waitingExecution
  rewire : s'.rewireOutputLogTo = s.rewireOutputLogTo
  index : s'.currentNodeExecutionIndex = s.currentNodeExecutionIndex
  filter : s'.runNodeFilter = s.runNodeFilter

theorem Same.refl (s : WorkflowExecute) : s.Same s := ⟨fun _ => rfl, rfl, rfl, rfl, rfl, rfl⟩

theorem Same.trans (h : s.Same s') (h' : s'.Same s'') : s.Same s'' where
  taskData nodeName := (h'.taskData nodeName).trans (h.taskData nodeName)
  stack := h'.stack.trans h.stack
  waiting := h'.waiting.trans h.waiting
  rewire := h'.rewire.trans h.rewire
  index := h'.index.trans h.index
  filter := h'.filter.trans h.filter

theorem Same.grows (h : s.Same s') : s.Grows s' := fun nodeName => by rw [h.taskData nodeName]

theorem same_openTaskData (s : WorkflowExecute) (nodeName : String) :
    s.Same (s.openTaskData nodeName) where
  taskData nodeName' := by
    unfold openTaskData
    by_cases hname : nodeName' = nodeName
    · rw [hname, taskData_set]
    · rw [taskData, Dict.get?_set_of_ne _ hname, taskData]
  stack := rfl
  waiting := rfl
  rewire := rfl
  index := rfl
  filter := rfl

theorem same_keeps {t : Turn} (ht : t.NoRequests) (executionData : ExecuteData)
    (runIndex maxCalls : ℕ) (s : WorkflowExecute) :
    Keeps w t runIndex executionData maxCalls s.Same where
  waits _ _ h := h.trans ⟨fun _ => rfl, rfl, rfl, rfl, rfl, rfl⟩
  ran _ h := h.trans ⟨fun _ => rfl, rfl, rfl, rfl, rfl, rfl⟩
  request _ k _ request hresult _ := absurd hresult (ht k request)

/-- The record of a run: where its data comes from, and what it hands on. -/
structure RecordOf (record : TaskData) (executionIndex : ℕ) (executionData : ExecuteData) :
    Prop where
  index : record.executionIndex = executionIndex
  source : record.source = executionData.source.getD []

/-- How a turn that writes the record of its entry ends. -/
inductive Ends (w : Workflow) (s : WorkflowExecute) (runIndex : ℕ) (executionData : ExecuteData) :
    TurnResult → Prop
  /-- The entry is back on top of the stack. -/
  | held (ending : TurnEnd) : Ends w s runIndex executionData
      ⟨{ s with nodeExecutionStack := executionData :: s.nodeExecutionStack }, ending⟩
  | destination : Ends w s runIndex executionData ⟨s, .destination⟩
  | handedOn (nodeSuccessData : List Slot)
      (recorded : s.rewireOutputLogTo = .empty →
        s.Recorded executionData.node.name runIndex nodeSuccessData) :
      Ends w s runIndex executionData
        (s.handOn w executionData.node.name nodeSuccessData runIndex)

theorem recorded_pushTaskData (s : WorkflowExecute) (nodeName : String) {record : TaskData}
    {nodeSuccessData : List Slot}
    (hdata : record.data.bind (·.get? .main) = some nodeSuccessData) :
    (s.pushTaskData nodeName record).Recorded nodeName (s.taskData nodeName).length
      nodeSuccessData := by
  refine ⟨record, ?_, hdata⟩
  rw [pushTaskData, taskData_set]
  simp

theorem source_withData (s : WorkflowExecute) (nodeName : String) (runIndex : ℕ)
    (nodeSuccessData : List Slot) (record : TaskData) :
    (s.withData nodeName runIndex nodeSuccessData record).source = record.source := by
  unfold withData
  split <;> rfl

theorem finishNode_ends (executionData : ExecuteData)
    (nodeSuccessData : Option (List Slot)) (taskData : TaskData) :
    s.finishNode w executionData (s.taskData executionData.node.name).length nodeSuccessData
        taskData = ⟨s, .threw typeError⟩ ∨
      ∃ record, record.executionIndex = taskData.executionIndex ∧
        record.source = taskData.source ∧
        Ends w (s.pushTaskData executionData.node.name record)
          (s.taskData executionData.node.name).length executionData
          (s.finishNode w executionData (s.taskData executionData.node.name).length
            nodeSuccessData taskData) := by
  unfold finishNode
  simp only []
  cases houtputs : nodeSuccessData.bind mergeErrors with
  | none => exact .inl rfl
  | some outputs =>
    right
    have hwrite : ∀ record, s.writeTaskData executionData.node.name
        (s.taskData executionData.node.name).length record =
        s.pushTaskData executionData.node.name record := fun record => by
      rw [writeTaskData, List.getElem?_eq_none le_rfl]
    refine ⟨s.withData executionData.node.name (s.taskData executionData.node.name).length outputs
        taskData, executionIndex_withData s _ _ outputs taskData,
      source_withData s _ _ outputs taskData, ?_⟩
    simp only [hwrite]
    split_ifs
    · exact .held .waiting
    · exact .destination
    · refine .handedOn outputs fun hrewire => recorded_pushTaskData s _ ?_
      rw [withData, show s.rewireOutputLogTo = .empty from hrewire]
      simp

theorem recordRun_ends {executionData : ExecuteData}
    (executionIndex : ℕ) {tries : Tries} (htries : s.Same tries.state) :
    ∃ s', s.Same s' ∧ (recordRun w executionIndex (s.taskData executionData.node.name).length
        executionData tries = ⟨s', .threw typeError⟩ ∨
      ∃ record, RecordOf record executionIndex executionData ∧
        Ends w (s'.pushTaskData executionData.node.name record)
          (s.taskData executionData.node.name).length executionData
          (recordRun w executionIndex (s.taskData executionData.node.name).length executionData
            tries)) := by
  have hopen := htries.trans (same_openTaskData tries.state executionData.node.name)
  refine ⟨_, hopen, ?_⟩
  have hfinish := fun nodeSuccessData => finishNode_ends (w := w)
    (s := tries.state.openTaskData executionData.node.name) executionData nodeSuccessData
    (newTaskData executionIndex executionData tries)
  simp only [hopen.taskData] at hfinish
  unfold recordRun
  simp only []
  split_ifs
  · exact (hfinish _).imp_right fun ⟨record, hindex, hsource, hends⟩ =>
      ⟨record, ⟨hindex, hsource⟩, hends⟩
  · exact (hfinish _).imp_right fun ⟨record, hindex, hsource, hends⟩ =>
      ⟨record, ⟨hindex, hsource⟩, hends⟩
  · exact .inr ⟨newTaskData executionIndex executionData tries, ⟨rfl, rfl⟩, .held .failed⟩

/-- The entry with the places of its items. -/
def Paired (e e' : ExecuteData) : Prop :=
  ∃ data, newTaskDataConnections e = some data ∧ e' = { e with data }

/-- What a turn that takes `e` comes to, from the state `s` without the entry. -/
inductive Turned (w : Workflow) (s : WorkflowExecute) (executionIndex : ℕ) (e : ExecuteData) :
    TurnResult → Prop
  | unrecorded (s' : WorkflowExecute) (ending : TurnEnd) (same : s.Same s')
      (notFailed : ending ≠ .failed) (notWaiting : ending ≠ .waiting) :
      Turned w s executionIndex e ⟨s', ending⟩
  | deferred (s' : WorkflowExecute) (e' : ExecuteData) (same : s.Same s') (paired : Paired e e') :
      Turned w s executionIndex e
        ⟨{ s' with nodeExecutionStack := s'.nodeExecutionStack ++ [e'] }, .deferred⟩
  | recorded (s' : WorkflowExecute) (e' : ExecuteData) (record : TaskData) (r : TurnResult)
      (same : s.Same s') (allowed : s.isFilteredOut e.node.name = false) (paired : Paired e e')
      (recordOf : RecordOf record executionIndex e)
      (ends : Ends w (s'.pushTaskData e'.node.name record) (s.taskData e'.node.name).length e' r) :
      Turned w s executionIndex e r

theorem runEntry_turned {t : Turn} (ht : t.NoRequests)
    {executionData : ExecuteData} (hrun : executionData.runIndex = none) (executionIndex : ℕ) :
    Turned w s executionIndex executionData (s.runEntry w t executionIndex executionData) := by
  unfold runEntry
  cases hdata : newTaskDataConnections executionData with
  | none => exact .unrecorded s _ (.refl s) (by simp) (by simp)
  | some data =>
    simp only []
    generalize hentry : ({ executionData with data } : ExecuteData) = entry
    have hpaired : Paired executionData entry := ⟨data, hdata, hentry.symm⟩
    have hindex : s.runIndexOf entry = (s.taskData entry.node.name).length := by
      rw [runIndexOf, ← hentry, hrun]
      rfl
    split_ifs with _ hfiltered
    · exact .unrecorded s _ (.refl s) (by simp) (by simp)
    · exact .unrecorded s _ (.refl s) (by simp) (by simp)
    · unfold ensureInputData
      by_cases hinput : hasInputData w executionData.node entry = true
      · simp only [hinput, if_true]
        have houtcome := executeNode_comes (s := s)
          (same_keeps (w := w) ht entry (s.runIndexOf entry) entry.node.maxCalls s) (.refl s)
        revert houtcome
        cases s.executeNode w t (s.runIndexOf entry) entry with
        | requested tries =>
          rintro ⟨k, -, request, _, hresult, -⟩
          exact absurd hresult (ht k request)
        | noData tries =>
          rintro ⟨hsame, -⟩
          exact .unrecorded _ _ hsame (by simp) (by simp)
        | done tries =>
          intro hsame
          simp only [hindex]
          obtain ⟨s', hsame', hthrew | ⟨record, hrecord, hends⟩⟩ :=
            recordRun_ends (w := w) executionIndex hsame
          · rw [hthrew]
            exact .unrecorded s' _ hsame' (by simp) (by simp)
          · exact .recorded s' entry record _ hsame' (by simpa using hfiltered) hpaired
              ⟨hrecord.index, hrecord.source.trans (by rw [← hentry])⟩ hends
      · rw [if_neg hinput]
        exact .deferred
          { s with lastExecutionTry :=
              executionData.node.name ++ ":" ++ toString (s.runIndexOf entry) }
          entry ⟨fun _ => rfl, rfl, rfl, rfl, rfl, rfl⟩ hpaired

theorem taskData_pushTaskData_congr
    (h : ∀ nodeName, s'.taskData nodeName = s.taskData nodeName) (nodeName : String)
    (record : TaskData) (nodeName' : String) :
    (s'.pushTaskData nodeName record).taskData nodeName' =
      (s.pushTaskData nodeName record).taskData nodeName' := by
  by_cases hname : nodeName' = nodeName
  · rw [hname, pushTaskData, pushTaskData, taskData_set, taskData_set, h]
  · rw [taskData_pushTaskData_of_ne s' hname, taskData_pushTaskData_of_ne s hname, h]

/-- What a turn leaves of the runs, as it adds at most one record: that of the entry it has taken,
whose node may run. -/
structure AddsRun (s : WorkflowExecute) (executionIndex : ℕ) (e : ExecuteData)
    (s' : WorkflowExecute) : Prop where
  index : s'.currentNodeExecutionIndex = s.currentNodeExecutionIndex
  filter : s'.runNodeFilter = s.runNodeFilter
  runs : (∀ nodeName, s'.taskData nodeName = s.taskData nodeName) ∨
    s.isFilteredOut e.node.name = false ∧ ∃ record, RecordOf record executionIndex e ∧
      ∀ nodeName, s'.taskData nodeName = (s.pushTaskData e.node.name record).taskData nodeName

theorem Turned.addsRun {executionIndex : ℕ} {e : ExecuteData} {r : TurnResult}
    (hr : Turned w s executionIndex e r) : AddsRun s executionIndex e r.state := by
  cases hr with
  | unrecorded s' ending same _ _ => exact ⟨same.index, same.filter, .inl same.taskData⟩
  | deferred s' e' same _ => exact ⟨same.index, same.filter, .inl same.taskData⟩
  | recorded s' e' record r same allowed paired recordOf ends =>
    obtain ⟨data, -, rfl⟩ := paired
    have hpushed : AddsRun s executionIndex e (s'.pushTaskData e.node.name record) :=
      ⟨same.index, same.filter, .inr ⟨allowed, record, recordOf,
        taskData_pushTaskData_congr same.taskData e.node.name record⟩⟩
    cases ends with
    | held ending => exact ⟨hpushed.index, hpushed.filter, hpushed.runs⟩
    | destination => exact hpushed
    | handedOn nodeSuccessData recorded =>
      have hadds := handOn_enqueues (w := w) (s'.pushTaskData e.node.name record) e.node.name
        nodeSuccessData (s.taskData e.node.name).length
      refine ⟨hadds.index.trans hpushed.index, hadds.filter.trans hpushed.filter, ?_⟩
      exact hpushed.runs.imp (fun h nodeName => (hadds.taskData nodeName).trans (h nodeName))
        fun ⟨hallowed, record', hrecord, h⟩ => ⟨hallowed, record', hrecord, fun nodeName =>
          (hadds.taskData nodeName).trans (h nodeName)⟩

/-- All entries are for the next run of their nodes. -/
def Plain (s : WorkflowExecute) : Prop := ∀ e ∈ s.nodeExecutionStack, e.runIndex = none

theorem Plain.same (h : s.Plain) (hsame : s.Same s') : s'.Plain := fun e he =>
  h e (hsame.stack ▸ he)

theorem Plain.enqueues (h : s.Plain) (hadds : s.Enqueues s') : s'.Plain := fun e he =>
  (hadds.added e he).elim (h e) id

/-- The state of a turn that has taken the entry on top, which leaves this stack. -/
def taken (s : WorkflowExecute) (nodeExecutionStack : List ExecuteData) : WorkflowExecute :=
  { s with nodeExecutionStack, currentNodeExecutionIndex := s.currentNodeExecutionIndex + 1 }

theorem Plain.taken (h : s.Plain) {executionData : ExecuteData}
    {nodeExecutionStack : List ExecuteData}
    (hstack : s.nodeExecutionStack = executionData :: nodeExecutionStack) :
    (s.taken nodeExecutionStack).Plain := fun e he =>
  h e (hstack ▸ List.mem_cons_of_mem executionData he)

/-- A turn leaves the state as it is, or takes the entry on top of the stack. -/
theorem turn_turned (h : s.Plain) {t : Turn} (ht : t.NoRequests) {executionData : ExecuteData}
    {nodeExecutionStack : List ExecuteData}
    (hstack : s.nodeExecutionStack = executionData :: nodeExecutionStack) :
    s.turn w t executionData nodeExecutionStack = ⟨s, .canceled⟩ ∨
      Turned w (s.taken nodeExecutionStack) s.currentNodeExecutionIndex executionData
        (s.turn w t executionData nodeExecutionStack) := by
  unfold turn
  split_ifs
  · exact .inl rfl
  · refine .inr (runEntry_turned (s := s.taken nodeExecutionStack) ht ?_ _)
    exact h _ (hstack ▸ List.mem_cons_self)

theorem Plain.turned (h : s.Plain) {executionIndex : ℕ} {e : ExecuteData}
    (hrun : e.runIndex = none) {r : TurnResult} (hr : Turned w s executionIndex e r) :
    r.state.Plain := by
  have hadd : ∀ {s' : WorkflowExecute} {e'}, s'.Plain → Paired e e' →
      ∀ e'' ∈ (e' :: s'.nodeExecutionStack), e''.runIndex = none := by
    rintro s' _ hs' ⟨data, -, rfl⟩ e'' hmem
    rcases List.mem_cons.1 hmem with rfl | hmem
    · exact hrun
    · exact hs' e'' hmem
  cases hr with
  | unrecorded s' ending same _ _ => exact h.same same
  | deferred s' e' same paired =>
    refine fun e'' hmem => hadd (h.same same) paired e'' ?_
    rw [List.mem_append, List.mem_singleton] at hmem
    exact List.mem_cons.2 hmem.symm
  | recorded s' e' record r same allowed paired recordOf ends =>
    have hpushed : (s'.pushTaskData e'.node.name record).Plain := (h.same same : s'.Plain)
    cases ends with
    | held ending => exact hadd hpushed paired
    | destination => exact hpushed
    | handedOn nodeSuccessData recorded => exact hpushed.enqueues (handOn_enqueues _ _ _ _)

/-- All data on its way and all runs trace back, and nothing of a request is left. -/
structure Tracked (w : Workflow) (s : WorkflowExecute) : Prop where
  queued : s.Queued w
  records : ∀ nodeName, ∀ record ∈ s.taskData nodeName, ∀ source, some source ∈ record.source →
    (s.outputOf source).isSome
  plain : s.Plain
  rewire : s.rewireOutputLogTo = .empty

theorem Tracked.sourced (h : s.Tracked w) : s.Sourced w :=
  ⟨h.queued.stack, h.queued.waiting, h.records⟩

/-- In a state with the same runs, all that is queued has to trace back in this one. -/
theorem Tracked.of_same (h : s.Tracked w) (hdata : ∀ nodeName, s'.taskData nodeName =
    s.taskData nodeName) (hplain : s'.Plain) (hrewire : s'.rewireOutputLogTo = .empty)
    (hstack : ∀ e ∈ s'.nodeExecutionStack, s.TracesBack w e.main (e.source.getD []))
    (hwaiting : s'.waitingExecution = s.waitingExecution) : s'.Tracked w := by
  have hgrows : s.Grows s' := fun nodeName => by rw [hdata nodeName]
  refine ⟨⟨fun e he => (hstack e he).grows hgrows, fun nodeName entry hentry => ?_⟩,
    fun nodeName record hrecord source hsource => ?_, hplain, hrewire⟩
  · rw [waitingEntries, hwaiting] at hentry
    exact (h.queued.waiting nodeName entry hentry).grows hgrows
  · rw [hdata] at hrecord
    obtain ⟨output, houtput⟩ := Option.isSome_iff_exists.1 (h.records nodeName record hrecord source
      hsource)
    rw [hgrows.outputOf houtput]
    rfl

theorem Tracked.same (h : s.Tracked w) (hsame : s.Same s') : s'.Tracked w :=
  h.of_same hsame.taskData (h.plain.same hsame) (hsame.rewire.trans h.rewire)
    (fun e he => h.queued.stack e (hsame.stack ▸ he)) hsame.waiting

theorem Tracked.taken (h : s.Tracked w) {executionData : ExecuteData}
    {nodeExecutionStack : List ExecuteData}
    (hstack : s.nodeExecutionStack = executionData :: nodeExecutionStack) :
    (s.taken nodeExecutionStack).Tracked w :=
  h.of_same (fun _ => rfl) (h.plain.taken hstack) h.rewire
    (fun e he => h.queued.stack e (hstack ▸ List.mem_cons_of_mem _ he)) rfl

theorem mem_taskData_pushTaskData {nodeName nodeName' : String} {record record' : TaskData}
    (h : record' ∈ (s.pushTaskData nodeName record).taskData nodeName') :
    record' ∈ s.taskData nodeName' ∨ nodeName' = nodeName ∧ record' = record := by
  by_cases hname : nodeName' = nodeName
  · rw [hname, pushTaskData, taskData_set, List.mem_append, List.mem_singleton] at h
    exact h.imp (hname ▸ ·) (⟨hname, ·⟩)
  · rw [taskData_pushTaskData_of_ne s hname] at h
    exact .inl h

/-- The record of an entry that traces back is added. -/
theorem Tracked.push (h : s.Tracked w) (nodeName : String) (record : TaskData)
    (hrecord : ∀ source, some source ∈ record.source → (s.outputOf source).isSome) :
    (s.pushTaskData nodeName record).Tracked w := by
  have hgrows := s.grows_pushTaskData nodeName record
  refine ⟨h.queued.grows hgrows rfl rfl, fun nodeName' record' hmem source hsource => ?_,
    h.plain, h.rewire⟩
  have hsome : (s.outputOf source).isSome := by
    rcases mem_taskData_pushTaskData hmem with hold | ⟨-, rfl⟩
    · exact h.records nodeName' record' hold source hsource
    · exact hrecord source hsource
  obtain ⟨output, houtput⟩ := Option.isSome_iff_exists.1 hsome
  rw [hgrows.outputOf houtput]
  rfl

theorem TracesBack.isSome_outputOf {main : List Slot} {sources : List (Option SourceData)}
    (h : s.TracesBack w main sources) {source : SourceData} (hsource : some source ∈ sources) :
    (s.outputOf source).isSome := by
  obtain ⟨input, hinput⟩ := List.mem_iff_getElem?.1 hsource
  obtain ⟨output, houtput, -⟩ := h input source hinput
  exact Option.isSome_iff_exists.2 ⟨output, houtput⟩

/-- The record that was added last can be taken back: nothing names it. -/
def HoldsLast (w : Workflow) (s : WorkflowExecute) : Prop :=
  ∃ e rest, s.nodeExecutionStack = e :: rest ∧
    ({ s with runData := s.runData.set e.node.name (s.taskData e.node.name).dropLast } :
      WorkflowExecute).Tracked w

theorem taskData_popTaskData (s : WorkflowExecute) (nodeName : String) (record : TaskData)
    (nodeName' : String) :
    ({ s.pushTaskData nodeName record with
      runData := (s.pushTaskData nodeName record).runData.set nodeName
        ((s.pushTaskData nodeName record).taskData nodeName).dropLast } :
      WorkflowExecute).taskData nodeName' = s.taskData nodeName' := by
  by_cases hname : nodeName' = nodeName
  · rw [hname, taskData_set, pushTaskData, taskData_set, List.dropLast_concat]
  · rw [taskData, Dict.get?_set_of_ne _ hname]
    exact taskData_pushTaskData_of_ne s hname record

theorem handOn_ending (s : WorkflowExecute) (nodeName : String) (nodeSuccessData : List Slot)
    (runIndex : ℕ) : (s.handOn w nodeName nodeSuccessData runIndex).ending ≠ .failed ∧
      (s.handOn w nodeName nodeSuccessData runIndex).ending ≠ .waiting := by
  unfold handOn Outcome.ends
  simp only []
  generalize Outcome.error _ = error
  cases error <;> simp

/-- A state that differs in its queues only. -/
theorem Tracked.of_queued (h : s.Tracked w) (hqueued : s'.Queued w) (hadds : s.Enqueues s') :
    s'.Tracked w := by
  refine ⟨hqueued, fun nodeName record hrecord source hsource => ?_, h.plain.enqueues hadds,
    hadds.rewire.trans h.rewire⟩
  have hgrows : s.Grows s' := .of_eq hadds.runData
  have hold : record ∈ s.taskData nodeName := hadds.taskData nodeName ▸ hrecord
  obtain ⟨output, houtput⟩ :=
    Option.isSome_iff_exists.1 (h.records nodeName record hold source hsource)
  rw [hgrows.outputOf houtput]
  rfl

/-- What traces back before a turn traces back after it. -/
theorem Tracked.turned (hmain : w.MainToMain) (h : s.Tracked w) {executionIndex : ℕ}
    {e : ExecuteData} (he : s.TracesBack w e.main (e.source.getD [])) (hrun : e.runIndex = none)
    {r : TurnResult} (hr : Turned w s executionIndex e r) :
    r.state.Tracked w ∧ (r.ending = .failed ∨ r.ending = .waiting → r.state.HoldsLast w) := by
  have hplain := h.plain.turned hrun hr
  cases hr with
  | unrecorded s' ending same notFailed notWaiting =>
    exact ⟨h.same same, fun hending => absurd hending (not_or.2 ⟨notFailed, notWaiting⟩)⟩
  | deferred s' e' same paired =>
    obtain ⟨data, hdata, rfl⟩ := paired
    refine ⟨(h.same same).of_same (fun _ => rfl) hplain (h.same same).rewire (fun e' he' => ?_) rfl,
      by simp⟩
    rcases List.mem_append.1 he' with hmem | hmem
    · exact (h.same same).queued.stack e' hmem
    · rw [List.mem_singleton.1 hmem]
      exact (he.paired hdata).grows same.grows
  | recorded s' e' record r same allowed paired recordOf ends =>
    obtain ⟨data, hdata, rfl⟩ := paired
    have hs' := h.same same
    have he' := (he.paired hdata).grows same.grows
    have hpushed := hs'.push e.node.name record fun source hsource =>
      he'.isSome_outputOf (recordOf.source ▸ hsource)
    generalize hentry : ({ e with data } : ExecuteData) = entry at ends he'
    have hname : entry.node.name = e.node.name := hentry ▸ rfl
    have hsource : e.source = entry.source := hentry ▸ rfl
    rw [hname] at ends
    rw [hsource] at he'
    cases ends with
    | held ending =>
      refine ⟨hpushed.of_same (fun _ => rfl) hplain hpushed.rewire (fun e' hmem => ?_) rfl, fun _ =>
        ⟨entry, s'.nodeExecutionStack, rfl, ?_⟩⟩
      · rcases List.mem_cons.1 hmem with rfl | hmem
        · exact he'.grows (s'.grows_pushTaskData _ _)
        · exact hpushed.queued.stack e' hmem
      · rw [hname]
        refine hs'.of_same (taskData_popTaskData s' _ _) hplain hpushed.rewire
          (fun e' hmem => ?_) rfl
        rcases List.mem_cons.1 hmem with rfl | hmem
        · exact he'
        · exact hs'.queued.stack e' hmem
    | destination => exact ⟨hpushed, by simp⟩
    | handedOn nodeSuccessData recorded =>
      refine ⟨hpushed.of_queued (handOn_queued hmain hpushed.queued (recorded hpushed.rewire))
        (handOn_enqueues _ _ _ _), fun hending => absurd hending (not_or.2 ?_)⟩
      exact handOn_ending _ _ _ _

/-! ## Going on -/

/-- Other node objects on the stack make no difference. -/
theorem Tracked.setNodes (h : s.Tracked w) (hdata : s'.runData = s.runData)
    (hrewire : s'.rewireOutputLogTo = .empty)
    (hstack : ∀ e' ∈ s'.nodeExecutionStack, ∃ e ∈ s.nodeExecutionStack, ∃ node,
      e' = { e with node })
    (hwaiting : s'.waitingExecution = s.waitingExecution) : s'.Tracked w := by
  refine h.of_same (fun nodeName => by rw [taskData, taskData, hdata])
    (fun e' he' => ?_) hrewire (fun e' he' => ?_) hwaiting
  · obtain ⟨e, hmem, node, rfl⟩ := hstack e' he'
    exact h.plain e hmem
  · obtain ⟨e, hmem, node, rfl⟩ := hstack e' he'
    exact h.queued.stack e hmem

/-- The last record of the entry on top can be taken back. -/
theorem HoldsLast.pop (h : s.HoldsLast w) (htop : s.RanTop) :
    ∃ lastNodeExecuted, s.lastNodeExecuted = some lastNodeExecuted ∧
      ({ s with
        runData := s.runData.set lastNodeExecuted (s.taskData lastNodeExecuted).dropLast } :
        WorkflowExecute).Tracked w := by
  obtain ⟨e, rest, hstack, htracked⟩ := h
  refine ⟨e.node.name, ?_, htracked⟩
  rw [RanTop, hstack] at htop
  exact htop

theorem popTaskData_eq (s : WorkflowExecute) (nodeName : String) :
    s.popTaskData nodeName = { state := s, error := some typeError } ∨
      s.popTaskData nodeName = { state := { s with
        runData := s.runData.set nodeName (s.taskData nodeName).dropLast } } := by
  unfold popTaskData taskData
  cases s.runData.get? nodeName with
  | none => exact .inl rfl
  | some records => exact .inr rfl

theorem handleWaitingState_tracked (h : s.Tracked w)
    (hlast : s.waitTill = true → s.HoldsLast w ∧ s.RanTop) (holdsSameNode : ExecuteData → Bool) :
    (s.handleWaitingState holdsSameNode).state.Tracked w := by
  unfold handleWaitingState
  split_ifs with hwait
  · have hset : ∀ {s₁ s₂ : WorkflowExecute}, s₁.Tracked w → s₂.runData = s₁.runData →
        s₂.rewireOutputLogTo = .empty → s₂.waitingExecution = s₁.waitingExecution →
        ∀ e rest, s₁.nodeExecutionStack = e :: rest → s₂.nodeExecutionStack =
          { e with node := { e.node with disabled := some true } } :: rest.map (fun e =>
            if holdsSameNode e then { e with node := { e.node with disabled := some true } }
            else e) → s₂.Tracked w := by
      intro s₁ s₂ h₁ hdata hrewire hwaiting e rest hstack hstack'
      refine h₁.setNodes hdata hrewire (fun e' he' => ?_) hwaiting
      rw [hstack'] at he'
      rw [hstack]
      rcases List.mem_cons.1 he' with rfl | hmem
      · exact ⟨e, List.mem_cons_self, _, rfl⟩
      · obtain ⟨e₁, he₁, rfl⟩ := List.mem_map.1 hmem
        refine ⟨e₁, List.mem_cons_of_mem e he₁, ?_⟩
        split_ifs
        · exact ⟨_, rfl⟩
        · exact ⟨e₁.node, rfl⟩
    obtain ⟨hholds, htop⟩ := hlast hwait
    obtain ⟨lastNodeExecuted, hname, hpopped⟩ := hholds.pop htop
    cases hstack : s.nodeExecutionStack with
    | nil =>
      exact h.of_same (fun _ => rfl) (fun e he => by simp at he) h.rewire
        (fun e he => by simp at he) rfl
    | cons e rest =>
      simp only [hname]
      rcases popTaskData_eq _ lastNodeExecuted with heq | heq
      · rw [heq]
        exact hset h rfl h.rewire rfl e rest hstack rfl
      · rw [heq]
        exact hset hpopped rfl h.rewire rfl e rest hstack rfl
  · exact h

theorem startLoop_tracked (h : s.Tracked w)
    (hlast : s.waitTill = true → s.HoldsLast w ∧ s.RanTop) (holdsSameNode : ExecuteData → Bool) :
    (s.startLoop holdsSameNode).state.Tracked w := by
  have hstart : ({ s with
      currentNodeExecutionIndex := 0, lastExecutionTry := "", rewireOutputLogTo := .empty } :
      WorkflowExecute).Tracked w :=
    h.of_same (fun _ => rfl) h.plain rfl h.queued.stack rfl
  refine handleWaitingState_tracked hstart (fun hwait => ?_) holdsSameNode
  obtain ⟨⟨e, rest, hstack, hpopped⟩, htop⟩ := hlast hwait
  exact ⟨⟨e, rest, hstack, hpopped.of_same (fun _ => rfl) hpopped.plain rfl
    hpopped.queued.stack rfl⟩, htop⟩

/-- A retry takes a record back only if the node that ran last has failed. -/
theorem retry_eq (s : WorkflowExecute) : s.retry.state = s ∨
    s.lastFailed = true ∧ ∃ lastNodeExecuted, s.lastNodeExecuted = some lastNodeExecuted ∧
      s.retry = { state := { s with
        runData := s.runData.set lastNodeExecuted (s.taskData lastNodeExecuted).dropLast } } := by
  unfold retry lastFailed
  cases hname : s.lastNodeExecuted with
  | none => exact .inl rfl
  | some lastNodeExecuted =>
    simp only [Option.bind_some]
    split_ifs with hempty
    · exact .inl rfl
    · unfold taskData
      cases hrecords : s.runData.get? lastNodeExecuted with
      | none => exact .inl rfl
      | some records =>
        simp only [Option.getD_some]
        split_ifs with hfailed
        · refine .inr ⟨hfailed, lastNodeExecuted, rfl, ?_⟩
          simp only [popTaskData, hrecords, Option.getD_some, hname]
        · exact .inl rfl

/-- A retry starts a loop from what traces back. -/
theorem retry_tracked (h : s.Tracked w)
    (honce : s.lastFailed = true → s.waitTill = false)
    (hlast : s.lastFailed = true ∨ s.waitTill = true → s.HoldsLast w ∧ s.RanTop)
    (holdsSameNode : ExecuteData → Bool) :
    (s.retry.andThen (·.startLoop holdsSameNode)).state.Tracked w := by
  have hstart := startLoop_tracked h (fun hwait => hlast (.inr hwait)) holdsSameNode
  unfold Outcome.andThen
  rcases retry_eq s with heq | ⟨hfailed, lastNodeExecuted, hname, heq⟩
  · rw [heq]
    split_ifs
    · rw [heq]
      exact h
    · exact hstart
  · obtain ⟨hholds, htop⟩ := hlast (.inl hfailed)
    obtain ⟨lastNodeExecuted', hname', hpopped⟩ := hholds.pop htop
    obtain rfl : lastNodeExecuted' = lastNodeExecuted :=
      Option.some.inj (hname'.symm.trans hname)
    rw [heq]
    refine startLoop_tracked hpopped (fun hwait => ?_) holdsSameNode
    rw [honce hfailed] at hwait
    cases hwait

end WorkflowExecute

/-! ## Runs -/

namespace ResumableExecution

open WorkflowExecute

/-- The state traces back, and where a node has failed or waits its record can be taken back. -/
structure Tracked (w : Workflow) (x : ResumableExecution) : Prop where
  state : x.state.Tracked w
  held : x.ending = some .failed ∨ x.ending = some .waiting → x.state.HoldsLast w

theorem tracked_started {o : Outcome} (h : o.state.Tracked w) : o.started.Tracked w where
  state := h
  held hending := by
    unfold Outcome.started at hending
    cases herror : o.error <;> simp [herror] at hending

theorem turn_tracked (hmain : w.MainToMain) {s : WorkflowExecute} (h : s.Tracked w) {t : Turn}
    (ht : t.NoRequests) {executionData : ExecuteData} {nodeExecutionStack : List ExecuteData}
    (hstack : s.nodeExecutionStack = executionData :: nodeExecutionStack) :
    (s.turn w t executionData nodeExecutionStack).state.Tracked w ∧
      ((s.turn w t executionData nodeExecutionStack).ending = .failed ∨
        (s.turn w t executionData nodeExecutionStack).ending = .waiting →
        (s.turn w t executionData nodeExecutionStack).state.HoldsLast w) := by
  have hmem : executionData ∈ s.nodeExecutionStack := hstack ▸ List.mem_cons_self
  rcases turn_turned (w := w) h.plain ht hstack with heq | hturned
  · rw [heq]
    exact ⟨h, by simp⟩
  · exact (h.taken hstack).turned hmain (h.queued.stack _ hmem) (h.plain _ hmem) hturned

/-- One event keeps what traces back. -/
theorem Tracked.step (hmain : w.MainToMain) {x : ResumableExecution} {e : LoopEvent}
    (h : x.Tracked w) (he : x.TakesBackOwn e) : (x.step w e).Tracked w := by
  unfold ResumableExecution.step
  cases e with
  | turn t =>
    cases hending : x.ending with
    | some ending => exact h
    | none =>
      cases hstack : x.state.nodeExecutionStack with
      | nil => exact h
      | cons executionData nodeExecutionStack =>
        simp only []
        obtain ⟨hstate, hheld⟩ := turn_tracked hmain h.state he hstack
        refine ⟨hstate, fun hending => hheld ?_⟩
        split_ifs at hending
        · simpa using hending
        · simp at hending
  | resume holdsSameNode =>
    simp only []
    split_ifs with hwaits
    · exact tracked_started (startLoop_tracked h.state
        (fun _ => ⟨h.held (.inr hwaits), he⟩) holdsSameNode)
    · exact h
  | retry holdsSameNode =>
    simp only []
    split_ifs
    · refine tracked_started (retry_tracked h.state he.1 (fun hlast => ?_) holdsSameNode)
      obtain ⟨hending, htop⟩ := he.2 hlast
      exact ⟨h.held hending, htop⟩
    · exact h

/-- A full execution starts without a record and without sources. -/
theorem tracked_run (startNode : Node) (destinationNode : Option DestinationNode)
    (pinData : Dict String (List Item)) (triggerData : Option TaskDataConnections) :
    (run w startNode destinationNode pinData triggerData).Tracked w where
  queued :=
    { stack := fun e he => by
        obtain rfl := List.mem_singleton.1 he
        exact fun input source hsource => by simp at hsource
      waiting := fun nodeName entry hentry => by
        simp [waitingEntries, run, IndexMap.empty] at hentry }
  records nodeName record hrecord := by simp [taskData, run] at hrecord
  plain e he := by
    obtain rfl := List.mem_singleton.1 he
    rfl
  rewire := rfl

/-- The trigger goes to a node that waits, and this to `Set`. -/
def waits : Workflow where
  nodes := ((Dict.empty.set "Trigger" { name := "Trigger", type := "trigger" }).set "Wait"
    { name := "Wait", type := "wait" }).set "Set" { name := "Set", type := "set" }
  connectionsBySourceNode := (Dict.empty.set "Trigger" (Dict.empty.set .main
    [some [{ node := "Wait", type := .main, index := 0 }]])).set "Wait" (Dict.empty.set .main
    [some [{ node := "Set", type := .main, index := 0 }]])

/-- One item is returned, or an error is thrown. -/
def oneItem (waitTill : Bool) : Turn where
  attempt _ := { result := .response (some [.items [{ json := .empty }]]), waitTill }

def throws : Turn where
  attempt _ := { result := .throws "failed" }

def waitAndRetry : List LoopEvent :=
  [.turn (oneItem false), .turn (oneItem true), .resume fun _ => false, .turn (oneItem false),
    .turn throws, .retry fun _ => false, .turn (oneItem false)]

end ResumableExecution

/-! ## The order of runs -/

namespace WorkflowExecute

variable {s s' : WorkflowExecute}

theorem Ordered.same (h : s.Ordered) (hdata : ∀ nodeName, s'.taskData nodeName =
    s.taskData nodeName) (hindex : s.currentNodeExecutionIndex ≤ s'.currentNodeExecutionIndex) :
    s'.Ordered where
  below nodeName record hrecord :=
    (h.below nodeName record (hdata nodeName ▸ hrecord)).trans_le hindex
  increasing nodeName := by
    rw [hdata]
    exact h.increasing nodeName
  distinct nodeName nodeName' a ha b hb :=
    h.distinct nodeName nodeName' a (hdata nodeName ▸ ha) b (hdata nodeName' ▸ hb)
  earlier nodeName record hrecord source hsource := by
    obtain ⟨before, hbefore, hlt⟩ :=
      h.earlier nodeName record (hdata nodeName ▸ hrecord) source hsource
    exact ⟨before, by rwa [recordOf, hdata], hlt⟩

/-- The record of a run is added, whose index comes after those that are there. -/
theorem Ordered.push (h : s.Ordered) (nodeName : String) (record : TaskData)
    (hafter : ∀ nodeName, ∀ old ∈ s.taskData nodeName,
      old.executionIndex < record.executionIndex)
    (hindex : record.executionIndex < s.currentNodeExecutionIndex)
    (hsource : ∀ source, some source ∈ record.source → (s.outputOf source).isSome) :
    (s.pushTaskData nodeName record).Ordered where
  below nodeName' record' hrecord' := by
    rcases mem_taskData_pushTaskData hrecord' with hold | ⟨-, rfl⟩
    · exact h.below nodeName' record' hold
    · exact hindex
  increasing nodeName' := by
    by_cases hname : nodeName' = nodeName
    · rw [hname, pushTaskData, taskData_set, List.pairwise_append]
      refine ⟨h.increasing nodeName, List.pairwise_singleton _ _, fun a ha b hb => ?_⟩
      rw [List.mem_singleton.1 hb]
      exact hafter nodeName a ha
    · rw [taskData_pushTaskData_of_ne s hname]
      exact h.increasing nodeName'
  distinct nodeName₁ nodeName₂ a ha b hb heq := by
    rcases mem_taskData_pushTaskData ha with hold | ⟨rfl, rfl⟩ <;>
      rcases mem_taskData_pushTaskData hb with hold' | ⟨rfl, rfl⟩
    · exact h.distinct nodeName₁ nodeName₂ a hold b hold' heq
    · exact absurd heq (hafter nodeName₁ a hold).ne
    · exact absurd heq.symm (hafter nodeName₂ b hold').ne
    · rfl
  earlier nodeName' record' hrecord' source hsource' := by
    have hgrows := s.grows_pushTaskData nodeName record
    rcases mem_taskData_pushTaskData hrecord' with hold | ⟨-, rfl⟩
    · obtain ⟨before, hbefore, hlt⟩ := h.earlier nodeName' record' hold source hsource'
      exact ⟨before, hgrows.recordOf hbefore, hlt⟩
    · obtain ⟨output, houtput⟩ := Option.isSome_iff_exists.1 (hsource source hsource')
      obtain ⟨before, hbefore, -⟩ := Option.bind_eq_some_iff.1 houtput
      exact ⟨before, hgrows.recordOf hbefore,
        hafter _ before (List.mem_of_getElem? hbefore)⟩

theorem Ordered.addsRun (h : s.Ordered) {executionIndex : ℕ} (hafter : ∀ nodeName,
    ∀ old ∈ s.taskData nodeName, old.executionIndex < executionIndex)
    (hindex : executionIndex < s.currentNodeExecutionIndex) {e : ExecuteData}
    (he : s.TracesBack w e.main (e.source.getD [])) (hadds : AddsRun s executionIndex e s') :
    s'.Ordered := by
  rcases hadds.runs with hsame | ⟨-, record, recordOf, hpush⟩
  · exact h.same hsame hadds.index.ge
  · have hpushed := h.push e.node.name record (recordOf.index ▸ hafter) (recordOf.index ▸ hindex)
      fun source hsource => he.isSome_outputOf (recordOf.source ▸ hsource)
    exact hpushed.same hpush hadds.index.ge

end WorkflowExecute

namespace Execution

open WorkflowExecute

theorem step_ordered (hmain : w.MainToMain) {x : Execution}
    (h : x.state.Tracked w ∧ x.state.Ordered) {t : Turn} (ht : t.NoRequests) :
    (x.step w t).state.Tracked w ∧ (x.step w t).state.Ordered := by
  unfold step
  split_ifs
  · exact h
  · cases hstack : x.state.nodeExecutionStack with
    | nil => exact h
    | cons executionData nodeExecutionStack =>
      have hmem : executionData ∈ x.state.nodeExecutionStack := hstack ▸ List.mem_cons_self
      refine ⟨(ResumableExecution.turn_tracked hmain h.1 ht hstack).1, ?_⟩
      simp only []
      rcases turn_turned (w := w) h.1.plain ht hstack with heq | hturned
      · rw [heq]
        exact h.2
      · have htaken : (x.state.taken nodeExecutionStack).Ordered :=
          h.2.same (fun _ => rfl) (Nat.le_succ _)
        exact htaken.addsRun h.2.below (Nat.lt_succ_self _) (h.1.queued.stack _ hmem)
          hturned.addsRun

end Execution

end N8n
