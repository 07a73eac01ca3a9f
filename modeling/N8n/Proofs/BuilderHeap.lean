import N8n.OperationsProcessor

/-!
# The heap of the builder

Every reference is to an object or array that there is: an operation keeps this, and the objects and
arrays it makes are new ones.
-/

namespace N8n

namespace OperationsProcessor

namespace Heap

/-- The references within arrays and objects are to arrays that there are. -/
structure Valid (h : Heap) : Prop where
  outputs : ∀ r < h.outputs.next, ∀ a, some a ∈ h.outputs.read r → a < h.lists.next
  objects : ∀ r < h.objects.next, ∀ e ∈ (h.objects.read r).entries, e.2 < h.outputs.next

/-- `h'` has what `h` has, and perhaps new objects and arrays. -/
structure Extends (h h' : Heap) : Prop where
  nodes : h'.nodes = h.nodes
  lists : Cells.Extends h.lists h'.lists
  outputs : Cells.Extends h.outputs h'.outputs
  objects : Cells.Extends h.objects h'.objects

variable {h h' h'' : Heap}

theorem Extends.refl (h : Heap) : Extends h h := ⟨rfl, .refl _, .refl _, .refl _⟩

theorem Extends.trans (hext : Extends h h') (hext' : Extends h' h'') : Extends h h'' :=
  ⟨hext'.nodes.trans hext.nodes, hext.lists.trans hext'.lists, hext.outputs.trans hext'.outputs,
    hext.objects.trans hext'.objects⟩

/-! ## Contents -/

theorem readOutputs_congr {r : Ref} (houtputs : h'.outputs.read r = h.outputs.read r)
    (hlists : ∀ a, some a ∈ h.outputs.read r → h'.lists.read a = h.lists.read a) :
    h'.readOutputs r = h.readOutputs r := by
  unfold readOutputs
  rw [houtputs]
  refine List.map_congr_left fun x hx => ?_
  cases x with
  | none => rfl
  | some a => exact congrArg some (hlists a hx)

theorem readObject_congr {r : Ref} (hobjects : h'.objects.read r = h.objects.read r)
    (houtputs : ∀ e ∈ (h.objects.read r).entries, h'.readOutputs e.2 = h.readOutputs e.2) :
    h'.readObject r = h.readObject r := by
  unfold readObject
  rw [hobjects]
  exact Dict.ext_entries (List.map_congr_left fun e he => by rw [houtputs e he])

theorem Extends.readOutputs (hext : Extends h h') (hv : h.Valid) {r : Ref}
    (hr : r < h.outputs.next) : h'.readOutputs r = h.readOutputs r :=
  readOutputs_congr (hext.outputs.read r hr) fun a ha =>
    hext.lists.read a (hv.outputs r hr a ha)

theorem Extends.readObject (hext : Extends h h') (hv : h.Valid) {r : Ref}
    (hr : r < h.objects.next) : h'.readObject r = h.readObject r :=
  readObject_congr (hext.objects.read r hr) fun e he =>
    hext.readOutputs hv (hv.objects r hr e he)

/-! ## New objects -/

theorem newList_extends (connections : List IConnection) : h.Extends (h.newList connections).2 :=
  ⟨rfl, Cells.extends_alloc _, .refl _, .refl _⟩

theorem Valid.newList (hv : h.Valid) (connections : List IConnection) :
    (h.newList connections).2.Valid :=
  ⟨fun r hr a ha => Nat.lt_succ_of_lt (hv.outputs r hr a ha), hv.objects⟩

theorem Valid.allocOutputs (hv : h.Valid) {outputs : List (Option Ref)}
    (hput : ∀ a, some a ∈ outputs → a < h.lists.next) :
    { h with outputs := h.outputs.alloc outputs }.Valid := by
  refine ⟨fun r hr a ha => ?_, fun r hr e he => Nat.lt_succ_of_lt (hv.objects r hr e he)⟩
  rcases Nat.lt_succ_iff_lt_or_eq.1 hr with hr | rfl
  · rw [Cells.read_alloc_of_lt _ hr] at ha
    exact hv.outputs r hr a ha
  · rw [Cells.read_alloc_next] at ha
    exact hput a ha

theorem Valid.allocObject (hv : h.Valid) {object : Dict String Ref}
    (hput : ∀ e ∈ object.entries, e.2 < h.outputs.next) :
    { h with objects := h.objects.alloc object }.Valid := by
  refine ⟨hv.outputs, fun r hr e he => ?_⟩
  rcases Nat.lt_succ_iff_lt_or_eq.1 hr with hr | rfl
  · rw [Cells.read_alloc_of_lt _ hr] at he
    exact hv.objects r hr e he
  · rw [Cells.read_alloc_next] at he
    exact hput e he

theorem newOutput_spec (hv : h.Valid) (output : Option (List IConnection)) :
    h.Extends (h.newOutput output).2 ∧ (h.newOutput output).2.Valid ∧
      (∀ a, (h.newOutput output).1 = some a → a < (h.newOutput output).2.lists.next) ∧
      (h.newOutput output).1.map (h.newOutput output).2.lists.read = output := by
  cases output with
  | none => exact ⟨.refl h, hv, fun a ha => (by cases ha), rfl⟩
  | some connections =>
    refine ⟨newList_extends connections, hv.newList connections, fun a ha => ?_, ?_⟩
    · obtain rfl := Option.some.inj ha
      exact Nat.lt_succ_self _
    · exact congrArg some (Cells.read_alloc_next _ _)

theorem newOutputs_spec (hv : h.Valid) (outputs : NodeInputConnections) :
    h.Extends (h.newOutputs outputs).2 ∧ (h.newOutputs outputs).2.Valid ∧
      (h.newOutputs outputs).1 < (h.newOutputs outputs).2.outputs.next ∧
      (h.newOutputs outputs).2.readOutputs (h.newOutputs outputs).1 = outputs := by
  obtain ⟨hext, hv', hput, hvalue⟩ := storeAll_spec Valid Extends
    (fun h x => ∀ a, x = some a → a < h.lists.next) (fun h x => x.map h.lists.read)
    Extends.refl (fun _ _ _ => Extends.trans)
    (fun h h' x _ hext hput => ⟨fun a ha => (hput a ha).trans_le hext.lists.next, by
      cases x with
      | none => rfl
      | some a => exact congrArg some (hext.lists.read a (hput a rfl))⟩)
    (fun h output hv => newOutput_spec hv output) outputs h hv
  refine ⟨hext.trans ⟨rfl, .refl _, Cells.extends_alloc _, .refl _⟩,
    hv'.allocOutputs fun a ha => hput (some a) ha a rfl, Nat.lt_succ_self _, ?_⟩
  unfold readOutputs newOutputs
  dsimp only
  rw [Cells.read_alloc_next]
  exact hvalue

/-- `newOutputs_spec` in the form in which several arrays are stored. -/
theorem storeOutputs_spec (hv : h.Valid) (d : INodeConnections) :
    h.Extends (storeValues newOutputs h d).2 ∧ (storeValues newOutputs h d).2.Valid ∧
      (∀ e ∈ (storeValues newOutputs h d).1.entries,
        e.2 < (storeValues newOutputs h d).2.outputs.next) ∧
      (storeValues newOutputs h d).1.mapValues (storeValues newOutputs h d).2.readOutputs = d :=
  storeValues_spec Valid Extends (fun h r => r < h.outputs.next) readOutputs Extends.refl
    (fun _ _ _ => Extends.trans)
    (fun _ _ _ hv hext hput => ⟨hput.trans_le hext.outputs.next, hext.readOutputs hv hput⟩)
    (fun _ outputs hv => newOutputs_spec hv outputs) d h hv

theorem newObject_spec (hv : h.Valid) (nodeConnections : INodeConnections) :
    h.Extends (h.newObject nodeConnections).2 ∧ (h.newObject nodeConnections).2.Valid ∧
      (h.newObject nodeConnections).1 < (h.newObject nodeConnections).2.objects.next ∧
      (h.newObject nodeConnections).2.readObject (h.newObject nodeConnections).1 =
        nodeConnections := by
  obtain ⟨hext, hv', hput, hvalue⟩ := storeOutputs_spec hv nodeConnections
  refine ⟨hext.trans ⟨rfl, .refl _, .refl _, Cells.extends_alloc _⟩, hv'.allocObject hput,
    Nat.lt_succ_self _, ?_⟩
  unfold readObject newObject
  dsimp only
  rw [Cells.read_alloc_next]
  exact hvalue

/-- New connections are read back as they were stored. -/
theorem newConnections_spec (hv : h.Valid) (connections : Dict String INodeConnections) :
    h.Extends (h.newConnections connections).2 ∧ (h.newConnections connections).2.Valid ∧
      (∀ e ∈ (h.newConnections connections).1.entries,
        e.2 < (h.newConnections connections).2.objects.next) ∧
      (h.newConnections connections).1.mapValues (h.newConnections connections).2.readObject =
        connections :=
  storeValues_spec Valid Extends (fun h r => r < h.objects.next) readObject Extends.refl
    (fun _ _ _ => Extends.trans)
    (fun _ _ _ hv hext hput => ⟨hput.trans_le hext.objects.next, hext.readObject hv hput⟩)
    (fun _ outputs hv => newObject_spec hv outputs) connections h hv

/-! ## Writes -/

theorem Valid.writeList (hv : h.Valid) (r : Ref) (connections : List IConnection) :
    { h with lists := h.lists.write r connections }.Valid :=
  ⟨hv.outputs, hv.objects⟩

theorem Valid.writeOutputs (hv : h.Valid) (r : Ref) {outputs : List (Option Ref)}
    (hput : ∀ a, some a ∈ outputs → a < h.lists.next) :
    { h with outputs := h.outputs.write r outputs }.Valid := by
  refine ⟨fun r' hr a ha => ?_, hv.objects⟩
  dsimp only at ha
  rw [Cells.read_write] at ha
  split_ifs at ha with heq
  · exact hput a ha
  · exact hv.outputs r' hr a ha

theorem Valid.writeObject (hv : h.Valid) (r : Ref) {object : Dict String Ref}
    (hput : ∀ e ∈ object.entries, e.2 < h.outputs.next) :
    { h with objects := h.objects.write r object }.Valid := by
  refine ⟨hv.outputs, fun r' hr e he => ?_⟩
  dsimp only at he
  rw [Cells.read_write] at he
  split_ifs at he with heq
  · exact hput e he
  · exact hv.objects r' hr e he

theorem mem_of_output {r a : Ref} {i : ℕ} (ha : h.output r i = some a) :
    some a ∈ h.outputs.read r :=
  List.mem_of_getElem? (Option.join_eq_some_iff.1 ha)

end Heap

theorem mem_objectEntries {α : Type} {d : Dict String α} {e : String × α} :
    e ∈ objectEntries d ↔ e ∈ d.entries := by
  obtain ⟨key, a⟩ := e
  simp only [objectEntries, List.mem_filterMap, Option.map_eq_some_iff, Prod.mk.injEq, mem_objectKeys,
    Dict.mem_entries]
  constructor
  · rintro ⟨_, -, _, ha, rfl, rfl⟩
    exact ha
  · intro ha
    exact ⟨key, Dict.mem_keys.2 (Option.isSome_iff_exists.2 ⟨a, ha⟩), a, ha, rfl, rfl⟩

theorem mem_setAt {α : Type} {array : List α} {index : ℕ} {hole value a : α}
    (h : a ∈ setAt array index hole value) : a ∈ array ∨ a = hole ∨ a = value := by
  rcases List.mem_or_eq_of_mem_set h with h | h
  · rcases List.mem_append.1 h with h | h
    · exact .inl h
    · exact .inr (.inl (List.eq_of_mem_replicate h))
  · exact .inr (.inr h)

/-! ## Merging -/

/-- `h'` is valid and has the nodes, objects and arrays of `h`, with other contents perhaps. -/
structure Sized (h h' : Heap) : Prop where
  valid : h'.Valid
  nodes : h'.nodes = h.nodes
  lists : h'.lists.next = h.lists.next
  outputs : h'.outputs.next = h.outputs.next
  objects : h'.objects.next = h.objects.next

variable {h h' : Heap}

theorem Sized.refl (hv : h.Valid) : Sized h h := ⟨hv, rfl, rfl, rfl, rfl⟩

theorem Sized.trans {h'' : Heap} (hs : Sized h h') (hs' : Sized h' h'') : Sized h h'' :=
  ⟨hs'.valid, hs'.nodes.trans hs.nodes, hs'.lists.trans hs.lists, hs'.outputs.trans hs.outputs,
    hs'.objects.trans hs.objects⟩

theorem mergeOutput_sized (hv : h.Valid) {newOutputs existingOutputs : Ref}
    (hnew : newOutputs < h.outputs.next) (hexisting : existingOutputs < h.outputs.next) (i : ℕ) :
    Sized h (mergeOutput newOutputs existingOutputs h i) := by
  unfold mergeOutput
  split
  · exact .refl hv
  · rename_i new houtput
    split
    · refine ⟨hv.writeOutputs _ fun a ha => ?_, rfl, rfl, rfl, rfl⟩
      rcases mem_setAt ha with ha | ha | ha
      · exact hv.outputs _ hexisting a ha
      · cases ha
      · exact hv.outputs _ hnew a (ha ▸ Heap.mem_of_output houtput)
    · exact ⟨hv.writeList _ _, rfl, rfl, rfl, rfl⟩

theorem mergeType_sized (hv : h.Valid) {object : Ref} (hobject : object < h.objects.next)
    {entry : String × Ref} (hentry : entry.2 < h.outputs.next) :
    Sized h (mergeType object h entry) := by
  unfold mergeType
  split
  · refine ⟨hv.writeObject _ fun e he => ?_, rfl, rfl, rfl, rfl⟩
    rcases Dict.mem_entries_set he with rfl | he
    · exact hentry
    · exact hv.objects _ hobject e he
  · rename_i existingOutputs hget
    have hexisting : existingOutputs < h.outputs.next :=
      hv.objects _ hobject _ (Dict.mem_entries.2 hget)
    refine List.foldlRecOn _ _ (Sized.refl hv) fun h' hs i _ => hs.trans ?_
    exact mergeOutput_sized hs.valid (hs.outputs ▸ hentry) (hs.outputs ▸ hexisting) i

/-- The heap and the connections of a merge: the references are to objects that there are. -/
structure Merged.Sized (h : Heap) (s : Merged) : Prop where
  heap : OperationsProcessor.Sized h s.heap
  connections : ∀ e ∈ s.connections.entries, e.2 < h.objects.next

theorem mergeSource_sized {s : Merged} (hs : s.Sized h) {entry : String × Ref}
    (hentry : entry.2 < h.objects.next) : (mergeSource s entry).Sized h := by
  unfold mergeSource
  split
  · refine ⟨hs.heap, fun e he => ?_⟩
    rcases Dict.mem_entries_set he with rfl | he
    · exact hentry
    · exact hs.connections e he
  · rename_i object hget
    refine ⟨?_, hs.connections⟩
    refine List.foldlRecOn _ _ hs.heap fun h' hs' e he => hs'.trans ?_
    refine mergeType_sized hs'.valid ?_ ?_
    · rw [hs'.objects]
      exact hs.connections _ (Dict.mem_entries.2 hget)
    · rw [hs'.outputs, ← hs.heap.outputs]
      exact hs.heap.valid.objects _ (hs.heap.objects ▸ hentry) e (mem_objectEntries.1 he)

/-! ## Runs -/

namespace SimpleWorkflow

/-- What gives the connections of its nodes. -/
def objects {ν γ : Type} (workflow : SimpleWorkflow ν γ) : List γ :=
  workflow.connections.entries.map Prod.snd

end SimpleWorkflow

namespace WorkflowOperation

variable {ν γ : Type}

def nodes : WorkflowOperation ν γ → List ν
  | .addNodes nodes => nodes
  | _ => []

def objects : WorkflowOperation ν γ → List γ
  | .setConnections connections | .mergeConnections connections =>
    connections.entries.map Prod.snd
  | _ => []

end WorkflowOperation

/-- A workflow and the operations to apply to it, in a heap that has all of their objects. -/
structure Given where
  heap : Heap
  workflow : SimpleWorkflow Ref Ref
  operations : List (WorkflowOperation Ref Ref)
  valid : heap.Valid
  nodes : ∀ r ∈ workflow.nodes ++ operations.flatMap (·.nodes), r < heap.nodes.next
  objects : ∀ r ∈ workflow.objects ++ operations.flatMap (·.objects), r < heap.objects.next

/-- The state before the first operation. -/
def Given.start (g : Given) : State := ⟨g.heap, g.workflow⟩

/-- The heap has what was given, and the result refers to objects that there are. -/
structure State.Sound (g : Given) (s : State) : Prop where
  valid : s.heap.Valid
  connections : ∀ e ∈ s.result.connections.entries, e.2 < s.heap.objects.next
  nodes : Cells.Extends g.heap.nodes s.heap.nodes
  objects : g.heap.objects.next ≤ s.heap.objects.next

variable {g : Given} {s : State}

theorem Given.sound (g : Given) : g.start.Sound g :=
  ⟨g.valid, fun _ he => g.objects _ (List.mem_append_left _ (List.mem_map_of_mem he)), .refl _,
    Nat.le_refl _⟩

/-- `h'` has what `h` has, and perhaps new nodes. -/
structure UpdatesNodes (h h' : Heap) : Prop where
  nodes : Cells.Extends h.nodes h'.nodes
  lists : h'.lists = h.lists
  outputs : h'.outputs = h.outputs
  objects : h'.objects = h.objects

theorem UpdatesNodes.valid (hu : UpdatesNodes h h') (hv : h.Valid) : h'.Valid := by
  refine ⟨?_, ?_⟩
  · rw [hu.outputs, hu.lists]
    exact hv.outputs
  · rw [hu.objects, hu.outputs]
    exact hv.objects

theorem updateNodes (nodeId : String) (updates : NodeUpdates) (nodes : List Ref) (h : Heap) :
    UpdatesNodes h (storeAll (fun h => h.updateNode nodeId updates) h nodes).2 := by
  refine (storeAll_extends (fun _ => True) UpdatesNodes (fun _ => ⟨.refl _, rfl, rfl, rfl⟩) ?_ ?_
    nodes h trivial).1
  · intro h h' h'' hu hu'
    exact ⟨hu.nodes.trans hu'.nodes, hu'.lists.trans hu.lists, hu'.outputs.trans hu.outputs,
      hu'.objects.trans hu.objects⟩
  · intro h node _
    unfold Heap.updateNode
    split_ifs
    · exact ⟨⟨Cells.extends_alloc _, rfl, rfl, rfl⟩, trivial⟩
    · exact ⟨⟨.refl _, rfl, rfl, rfl⟩, trivial⟩

/-- What removing a connection can do: nothing where there is no such array, or write the array
without it, and then delete the type where it has no connections left. -/
theorem removeConnection_cases (s : State) (sourceNode targetNode connectionType : String)
    (sourceOutputIndex targetInputIndex : ℕ) {s' : State}
    (hs' : s' = s.applyRemoveConnectionOperation sourceNode targetNode connectionType
      sourceOutputIndex targetInputIndex) :
    (s' = s ∧ ∀ object outputs list, s.result.connections.get? sourceNode = some object →
      (s.heap.objects.read object).get? connectionType = some outputs →
      s.heap.output outputs sourceOutputIndex ≠ some list) ∨
    ∃ object outputs list connections h,
      s.result.connections.get? sourceNode = some object ∧
      (s.heap.objects.read object).get? connectionType = some outputs ∧
      s.heap.output outputs sourceOutputIndex = some list ∧
      connections = (s.heap.lists.read list).filter
        (· ≠ ⟨targetNode, connectionType, targetInputIndex⟩) ∧
      h = s.heap.setOutput outputs sourceOutputIndex connections ∧
      ((¬ (connections = [] ∧ State.hasAnyConnections h outputs = false) ∧
          s' = { s with heap := h }) ∨
        ((connections = [] ∧ State.hasAnyConnections h outputs = false) ∧
          s'.heap = { h with
            objects := h.objects.write object
              ((h.objects.read object).erase connectionType) } ∧
          (s'.result = s.result ∨ s'.result = { s.result with
            connections := s.result.connections.erase sourceNode }))) := by
  unfold State.applyRemoveConnectionOperation at hs'
  split at hs'
  · rename_i hnone
    exact .inl ⟨hs', fun object outputs list hobject => by rw [hnone] at hobject; cases hobject⟩
  rename_i object hobject
  split at hs'
  · rename_i hnone
    refine .inl ⟨hs', fun object' outputs list hobject' houtputs => ?_⟩
    obtain rfl := Option.some.inj (hobject.symm.trans hobject')
    rw [hnone] at houtputs
    cases houtputs
  rename_i outputs houtputs
  split at hs'
  · rename_i hnone
    refine .inl ⟨hs', fun object' outputs' list hobject' houtputs' => ?_⟩
    obtain rfl := Option.some.inj (hobject.symm.trans hobject')
    obtain rfl := Option.some.inj (houtputs.symm.trans houtputs')
    rw [hnone]
    exact fun hlist => by cases hlist
  rename_i list hlist
  refine .inr ⟨object, outputs, list, _, _, hobject, houtputs, hlist, rfl, rfl, ?_⟩
  dsimp only at hs'
  split_ifs at hs' with hlast hsize
  · exact .inr ⟨hlast, by rw [hs'], .inr (by rw [hs'])⟩
  · exact .inr ⟨hlast, by rw [hs'], .inl (by rw [hs'])⟩
  · exact .inl ⟨hlast, hs'⟩

theorem Heap.Valid.setOutput (hv : h.Valid) {outputs : Ref} (houtputs : outputs < h.outputs.next)
    (index : ℕ) (connections : List IConnection) :
    (h.setOutput outputs index connections).Valid := by
  refine (hv.newList connections).writeOutputs outputs fun a ha => ?_
  rcases List.mem_or_eq_of_mem_set ha with ha | ha
  · exact Nat.lt_succ_of_lt (hv.outputs _ houtputs a ha)
  · exact Option.some.inj ha ▸ Nat.lt_succ_self _

theorem State.Sound.removeConnection (hs : s.Sound g)
    (sourceNode targetNode connectionType : String) (sourceOutputIndex targetInputIndex : ℕ) :
    (s.applyRemoveConnectionOperation sourceNode targetNode connectionType sourceOutputIndex
      targetInputIndex).Sound g := by
  generalize hs' : s.applyRemoveConnectionOperation sourceNode targetNode connectionType
    sourceOutputIndex targetInputIndex = s'
  obtain ⟨rfl, -⟩ | ⟨object, outputs, list, connections, h, hobject, houtputs, -, -, rfl, hcases⟩ :=
    removeConnection_cases s sourceNode targetNode connectionType sourceOutputIndex
      targetInputIndex hs'.symm
  · exact hs
  have hobject' := hs.connections _ (Dict.mem_entries.2 hobject)
  have houtputs' := hs.valid.objects _ hobject' _ (Dict.mem_entries.2 houtputs)
  have hwritten := hs.valid.setOutput houtputs' sourceOutputIndex connections
  rcases hcases with ⟨-, rfl⟩ | ⟨-, hheap, hresult⟩
  · exact ⟨hwritten, hs.connections, hs.nodes, hs.objects⟩
  · refine ⟨?_, fun e he => ?_, ?_, ?_⟩
    · rw [hheap]
      exact hwritten.writeObject _ fun e he =>
        hs.valid.objects _ hobject' e (Dict.mem_entries_erase he)
    · rw [hheap]
      rcases hresult with hresult | hresult <;> rw [hresult] at he
      · exact hs.connections e he
      · exact hs.connections e (Dict.mem_entries_erase he)
    · rw [hheap]
      exact hs.nodes
    · rw [hheap]
      exact hs.objects

theorem State.Sound.merge (hs : s.Sound g) {connections : Dict String Ref}
    (hop : ∀ r ∈ connections.entries.map Prod.snd, r < g.heap.objects.next) :
    (Runs.run mergeSource ⟨s.heap, s.result.connections⟩ (objectEntries connections)).Sized
      s.heap := by
  refine List.foldlRecOn _ _ ⟨.refl hs.valid, hs.connections⟩ fun m hm e he => ?_
  exact mergeSource_sized hm
    ((hop _ (List.mem_map_of_mem (mem_objectEntries.1 he))).trans_le hs.objects)

theorem State.Sound.step (hs : s.Sound g) {op : WorkflowOperation Ref Ref}
    (hop : ∀ r ∈ op.objects, r < g.heap.objects.next) : (s.step op).Sound g := by
  cases op with
  | clear => exact ⟨hs.valid, fun e he => absurd he List.not_mem_nil, hs.nodes, hs.objects⟩
  | removeNode nodeIds =>
    obtain ⟨hext, hvalid, hput, -⟩ := Heap.newConnections_spec hs.valid
      (cleanedConnections nodeIds (s.heap.readWorkflow s.result).connections)
    refine ⟨hvalid, hput, ?_, hs.objects.trans hext.objects.next⟩
    exact (congrArg (Cells.Extends g.heap.nodes) hext.nodes).mpr hs.nodes
  | addNodes nodes => exact ⟨hs.valid, hs.connections, hs.nodes, hs.objects⟩
  | updateNode nodeId updates =>
    have hu := updateNodes nodeId updates s.result.nodes s.heap
    exact ⟨hu.valid hs.valid, fun e he => hu.objects.symm ▸ hs.connections e he,
      hs.nodes.trans hu.nodes, hu.objects.symm ▸ hs.objects⟩
  | setConnections connections =>
    exact ⟨hs.valid, fun e he => (hop _ (List.mem_map_of_mem he)).trans_le hs.objects, hs.nodes,
      hs.objects⟩
  | mergeConnections connections =>
    have hmerged := hs.merge hop
    refine ⟨hmerged.heap.valid, fun e he => ?_, ?_, ?_⟩
    · exact hmerged.heap.objects ▸ hmerged.connections e he
    · exact (congrArg (Cells.Extends g.heap.nodes) hmerged.heap.nodes).mpr hs.nodes
    · exact hmerged.heap.objects.symm ▸ hs.objects
  | removeConnection sourceNode targetNode connectionType sourceOutputIndex targetInputIndex =>
    exact hs.removeConnection _ _ _ _ _
  | setName name => exact ⟨hs.valid, hs.connections, hs.nodes, hs.objects⟩

/-- Three nodes with these ids, and objects that connect the first or another to the second and to
the third. -/
def joinedHeap (ids : Ref → String) : Heap where
  nodes := ⟨fun r => ⟨ids r, ["A", "B", "C"].getD r ""⟩, 3⟩
  lists := ⟨fun r => [⟨["B", "C"].getD r "", "main", 0⟩], 2⟩
  outputs := ⟨fun r => [some r], 2⟩
  objects := ⟨fun r => ⟨[("main", r)], List.nodup_singleton _⟩, 2⟩

theorem joinedHeap_valid (ids : Ref → String) : (joinedHeap ids).Valid := by
  refine ⟨fun r hr a ha => ?_, fun r hr e he => ?_⟩
  · rw [Option.some.inj (List.mem_singleton.1 ha)]
    exact hr
  · rw [List.mem_singleton.1 he]
    exact hr

theorem joinedHeap_valid_numbers : (joinedHeap fun r => ["1", "2", "3"].getD r "").Valid :=
  joinedHeap_valid _

/-- The first node connected to the second. -/
def joined : SimpleWorkflow Ref Ref := ⟨[0, 1], ⟨[("A", 0)], List.nodup_singleton _⟩, ""⟩

end OperationsProcessor

end N8n
