import Mathlib.Algebra.Order.BigOperators.Group.List
import Mathlib.Algebra.Order.Group.Nat
import N8n.Proofs.BuilderHeap

/-!
# The inputs of the operations

Merging and removing connections write into arrays and objects that the workflow before or an
operation may hold as well.
-/

namespace N8n

namespace OperationsProcessor

/-! ## Shared objects -/

/-- The objects of the workflow and of the operations. -/
def Given.inputs (g : Given) : List Ref :=
  g.workflow.objects ++ g.operations.flatMap (·.objects)

/-- What was given, at every depth. -/
def Given.contents (g : Given) (h : Heap) :
    SimpleWorkflow INode INodeConnections × List (WorkflowOperation INode INodeConnections) :=
  (h.readWorkflow g.workflow, g.operations.map h.readOperation)

section Shared

variable (inputs : List Ref)

/-- An input holds the array of outputs. -/
def Heap.SharesOutputs (h : Heap) (r : Ref) : Prop :=
  ∃ object ∈ inputs, ∃ e ∈ (h.objects.read object).entries, e.2 = r

/-- An input holds the array of connections. -/
def Heap.SharesList (h : Heap) (r : Ref) : Prop :=
  ∃ object ∈ inputs, ∃ e ∈ (h.objects.read object).entries, some r ∈ h.outputs.read e.2

/-- The merge of an output writes to no array that an input holds. -/
def OutputApart (newOutputs existingOutputs : Ref) (h : Heap) (i : ℕ) : Prop :=
  match h.output newOutputs i with
  | none => True
  | some new =>
    match h.output existingOutputs i with
    | none => ¬ h.SharesOutputs inputs existingOutputs
    | some existing =>
      (∀ connection ∈ h.lists.read new, connection ∈ h.lists.read existing) ∨
        ¬ h.SharesList inputs existing

/-- The merge of a type writes to no object that is an input, and to no array that one holds. -/
def TypeApart (object : Ref) (h : Heap) (entry : String × Ref) : Prop :=
  match (h.objects.read object).get? entry.1 with
  | none => object ∉ inputs
  | some existingOutputs =>
    Runs.Meets (mergeOutput entry.2 existingOutputs) (OutputApart inputs entry.2 existingOutputs) h
      (outputIndexes h entry.2 existingOutputs)

def SourceApart (s : Merged) (entry : String × Ref) : Prop :=
  match s.connections.get? entry.1 with
  | none => True
  | some object =>
    Runs.Meets (mergeType object) (TypeApart inputs object) s.heap
      (objectEntries (s.heap.objects.read entry.2))

/-- Every connection of the outputs is the one at this index. -/
def HasOnly (outputs : NodeInputConnections) (index : ℕ) (connection : IConnection) : Prop :=
  ∀ i list, outputs[i]? = some (some list) → ∀ c ∈ list, i = index ∧ c = connection

/-- The removed connection is not in an array that an input holds, and is not the last of its type
in an object that is an input. -/
def State.RemovalApart (s : State) (sourceNode targetNode connectionType : String)
    (sourceOutputIndex targetInputIndex : ℕ) : Prop :=
  ∀ object outputs list, s.result.connections.get? sourceNode = some object →
    (s.heap.objects.read object).get? connectionType = some outputs →
    s.heap.output outputs sourceOutputIndex = some list →
    (⟨targetNode, connectionType, targetInputIndex⟩ ∈ s.heap.lists.read list →
      ¬ s.heap.SharesOutputs inputs outputs) ∧
    (HasOnly (s.heap.readOutputs outputs) sourceOutputIndex
        ⟨targetNode, connectionType, targetInputIndex⟩ →
      object ∉ inputs)

/-- The operation writes to no object or array of an input. -/
def State.Apart (s : State) : WorkflowOperation Ref Ref → Prop
  | .mergeConnections connections =>
    Runs.Meets mergeSource (SourceApart inputs) ⟨s.heap, s.result.connections⟩
      (objectEntries connections)
  | .removeConnection sourceNode targetNode connectionType sourceOutputIndex targetInputIndex =>
    s.RemovalApart inputs sourceNode targetNode connectionType sourceOutputIndex targetInputIndex
  | _ => True

end Shared

/-! ## Weights -/

def outputWeight : Option (List IConnection) → ℕ
  | none => 0
  | some list => list.length + 1

def outputsWeight (outputs : NodeInputConnections) : ℕ := (outputs.map outputWeight).sum

/-- The number of types, arrays and connections of a node. -/
def objectWeight (nodeConnections : INodeConnections) : ℕ :=
  (nodeConnections.entries.map fun e => outputsWeight e.2 + 1).sum

def weight (contents : List INodeConnections) : ℕ := (contents.map objectWeight).sum

variable {h h' : Heap} {inputs : List Ref}

theorem outputsWeight_read (h : Heap) (r : Ref) : outputsWeight (h.readOutputs r) =
    ((h.outputs.read r).map fun x => outputWeight (x.map h.lists.read)).sum := by
  unfold outputsWeight Heap.readOutputs
  rw [List.map_map]
  rfl

theorem objectWeight_read (h : Heap) (r : Ref) : objectWeight (h.readObject r) =
    ((h.objects.read r).entries.map fun e => outputsWeight (h.readOutputs e.2) + 1).sum := by
  unfold objectWeight Heap.readObject Dict.mapValues
  rw [List.map_map]
  rfl

theorem weight_read (h : Heap) (inputs : List Ref) : weight (inputs.map h.readObject) =
    (inputs.map fun r => objectWeight (h.readObject r)).sum := by
  unfold weight
  rw [List.map_map]
  rfl

/-- More connections in some arrays. -/
structure MoreConnections (h h' : Heap) : Prop where
  objects : h'.objects = h.objects
  outputs : h'.outputs = h.outputs
  lists : ∀ r, (h.lists.read r).length ≤ (h'.lists.read r).length

/-- More arrays or connections in some outputs. -/
structure MoreOutputs (h h' : Heap) : Prop where
  objects : h'.objects = h.objects
  outputs : ∀ r, outputsWeight (h.readOutputs r) ≤ outputsWeight (h'.readOutputs r)

theorem MoreConnections.outputWeight (hm : MoreConnections h h') (x : Option Ref) :
    outputWeight (x.map h.lists.read) ≤ outputWeight (x.map h'.lists.read) := by
  cases x with
  | none => exact Nat.le_refl _
  | some a => exact Nat.succ_le_succ (hm.lists a)

theorem MoreConnections.moreOutputs (hm : MoreConnections h h') : MoreOutputs h h' := by
  refine ⟨hm.objects, fun r => ?_⟩
  rw [outputsWeight_read, outputsWeight_read, hm.outputs]
  exact List.sum_le_sum fun x _ => hm.outputWeight x

theorem MoreConnections.outputs_lt (hm : MoreConnections h h') {r a : Ref}
    (ha : some a ∈ h.outputs.read r)
    (hlt : (h.lists.read a).length < (h'.lists.read a).length) :
    outputsWeight (h.readOutputs r) < outputsWeight (h'.readOutputs r) := by
  rw [outputsWeight_read, outputsWeight_read, hm.outputs]
  exact List.sum_lt_sum _ _ (fun x _ => hm.outputWeight x) ⟨some a, ha, Nat.succ_lt_succ hlt⟩

theorem MoreOutputs.objectWeight_le (hm : MoreOutputs h h') (r : Ref) :
    objectWeight (h.readObject r) ≤ objectWeight (h'.readObject r) := by
  rw [objectWeight_read, objectWeight_read, hm.objects]
  exact List.sum_le_sum fun e _ => Nat.succ_le_succ (hm.outputs e.2)

theorem MoreOutputs.objectWeight_lt (hm : MoreOutputs h h') {r : Ref} {e : String × Ref}
    (he : e ∈ (h.objects.read r).entries)
    (hlt : outputsWeight (h.readOutputs e.2) < outputsWeight (h'.readOutputs e.2)) :
    objectWeight (h.readObject r) < objectWeight (h'.readObject r) := by
  rw [objectWeight_read, objectWeight_read, hm.objects]
  exact List.sum_lt_sum _ _ (fun e _ => Nat.succ_le_succ (hm.outputs e.2))
    ⟨e, he, Nat.succ_lt_succ hlt⟩

theorem weight_le (hle : ∀ r, objectWeight (h.readObject r) ≤ objectWeight (h'.readObject r)) :
    weight (inputs.map h.readObject) ≤ weight (inputs.map h'.readObject) := by
  rw [weight_read, weight_read]
  exact List.sum_le_sum fun r _ => hle r

theorem weight_lt (hle : ∀ r, objectWeight (h.readObject r) ≤ objectWeight (h'.readObject r))
    {r : Ref} (hr : r ∈ inputs)
    (hlt : objectWeight (h.readObject r) < objectWeight (h'.readObject r)) :
    weight (inputs.map h.readObject) < weight (inputs.map h'.readObject) := by
  rw [weight_read, weight_read]
  exact List.sum_lt_sum _ _ (fun r _ => hle r) ⟨r, hr, hlt⟩

theorem MoreOutputs.weight_lt (hm : MoreOutputs h h') {r : Ref} (hr : h.SharesOutputs inputs r)
    (hlt : outputsWeight (h.readOutputs r) < outputsWeight (h'.readOutputs r)) :
    weight (inputs.map h.readObject) < weight (inputs.map h'.readObject) := by
  obtain ⟨object, hobject, e, he, rfl⟩ := hr
  exact OperationsProcessor.weight_lt hm.objectWeight_le hobject (hm.objectWeight_lt he hlt)

theorem MoreConnections.weight_lt (hm : MoreConnections h h') {a : Ref}
    (ha : h.SharesList inputs a)
    (hlt : (h.lists.read a).length < (h'.lists.read a).length) :
    weight (inputs.map h.readObject) < weight (inputs.map h'.readObject) := by
  obtain ⟨object, hobject, e, he, ha⟩ := ha
  exact hm.moreOutputs.weight_lt ⟨object, hobject, e, he, rfl⟩ (hm.outputs_lt ha hlt)

/-! ## Writes -/

/-- What no input holds can be written. -/
theorem contents_writeList {r : Ref} (hr : ¬ h.SharesList inputs r) (list : List IConnection) :
    inputs.map { h with lists := h.lists.write r list }.readObject = inputs.map h.readObject := by
  refine List.map_congr_left fun object hobject => Heap.readObject_congr rfl fun e he =>
    Heap.readOutputs_congr rfl fun a ha => Cells.read_write_of_ne _ ?_ _
  rintro rfl
  exact hr ⟨object, hobject, e, he, ha⟩

theorem contents_writeOutputs {r : Ref} (hr : ¬ h.SharesOutputs inputs r)
    (outputs : List (Option Ref)) :
    inputs.map { h with outputs := h.outputs.write r outputs }.readObject =
      inputs.map h.readObject := by
  refine List.map_congr_left fun object hobject => Heap.readObject_congr rfl fun e he =>
    Heap.readOutputs_congr (Cells.read_write_of_ne _ ?_ _) fun _ _ => rfl
  rintro rfl
  exact hr ⟨object, hobject, e, he, rfl⟩

theorem contents_writeObject {r : Ref} (hr : r ∉ inputs) (object : Dict String Ref) :
    inputs.map { h with objects := h.objects.write r object }.readObject =
      inputs.map h.readObject := by
  refine List.map_congr_left fun object hobject =>
    Heap.readObject_congr (Cells.read_write_of_ne _ ?_ _) fun _ _ => rfl
  rintro rfl
  exact hr hobject

/-- Longer arrays written. -/
theorem moreConnections_write {r : Ref} {list : List IConnection}
    (hle : (h.lists.read r).length ≤ list.length) :
    MoreConnections h { h with lists := h.lists.write r list } := by
  refine ⟨rfl, rfl, fun a => ?_⟩
  dsimp only
  rw [Cells.read_write]
  split_ifs with heq
  · exact heq ▸ hle
  · exact Nat.le_refl _

theorem outputsWeight_write (h : Heap) (r r' : Ref) (outputs : List (Option Ref)) :
    outputsWeight ({ h with outputs := h.outputs.write r outputs }.readOutputs r') =
      if r' = r then outputsWeight (outputs.map (Option.map h.lists.read))
      else outputsWeight (h.readOutputs r') := by
  unfold Heap.readOutputs
  dsimp only
  rw [Cells.read_write]
  split_ifs <;> rfl

theorem objectWeight_write (h : Heap) (r r' : Ref) (object : Dict String Ref) :
    objectWeight ({ h with objects := h.objects.write r object }.readObject r') =
      if r' = r then (object.entries.map fun e => outputsWeight (h.readOutputs e.2) + 1).sum
      else objectWeight (h.readObject r') := by
  rw [objectWeight_read, objectWeight_read]
  dsimp only
  rw [Cells.read_write]
  split_ifs <;> rfl

theorem outputsWeight_set (x : Option (List IConnection)) : ∀ {outputs : NodeInputConnections}
    {i : ℕ} {y : Option (List IConnection)}, outputs[i]? = some y →
      outputsWeight (outputs.set i x) + outputWeight y = outputsWeight outputs + outputWeight x
  | [], _, _, hy => by cases hy
  | z :: outputs, 0, y, hy => by
    obtain rfl := Option.some.inj hy
    simp only [outputsWeight, List.set_cons_zero, List.map_cons, List.sum_cons]
    omega
  | z :: outputs, i + 1, y, hy => by
    have hget : outputs[i]? = some y := hy
    have ih := outputsWeight_set x hget
    simp only [outputsWeight, List.set_cons_succ, List.map_cons, List.sum_cons] at ih ⊢
    omega

/-- An array is put where there was none. -/
theorem outputsWeight_setAt {outputs : NodeInputConnections} {i : ℕ}
    (hi : outputs[i]?.join = none) (list : List IConnection) :
    outputsWeight outputs < outputsWeight (setAt outputs i none (some list)) := by
  have hholes : ∀ n, outputsWeight (outputs ++ List.replicate n none) = outputsWeight outputs := by
    intro n
    simp [outputsWeight, outputWeight]
  have hnone : (outputs ++ List.replicate (i + 1 - outputs.length) none)[i]? = some none := by
    rw [List.getElem?_append]
    split_ifs with hlt
    · rw [List.getElem?_eq_getElem hlt] at hi ⊢
      exact congrArg some hi
    · exact List.getElem?_replicate_of_lt (by omega)
  have hset := outputsWeight_set (some list) hnone
  rw [hholes] at hset
  unfold setAt
  simp only [outputWeight] at hset
  omega

theorem map_setAt {α β : Type} (f : α → β) (array : List α) (index : ℕ) (hole value : α) :
    (setAt array index hole value).map f = setAt (array.map f) index (f hole) (f value) := by
  simp [setAt, List.map_set]

theorem output_eq_none {r : Ref} {i : ℕ} (hi : h.output r i = none) :
    (h.readOutputs r)[i]?.join = none := by
  unfold Heap.output at hi
  unfold Heap.readOutputs
  rw [List.getElem?_map]
  rcases hget : (h.outputs.read r)[i]? with _ | _ | a
  · rfl
  · rfl
  · rw [hget] at hi
    cases hi

theorem output_eq_some {r a : Ref} {i : ℕ} (hi : h.output r i = some a) :
    (h.readOutputs r)[i]? = some (some (h.lists.read a)) := by
  unfold Heap.readOutputs
  rw [List.getElem?_map, Option.join_eq_some_iff.1 hi]
  rfl

/-! ## Merging -/

theorem mergeOutput_same {newOutputs existingOutputs : Ref} {i : ℕ}
    (hapart : OutputApart inputs newOutputs existingOutputs h i) :
    inputs.map (mergeOutput newOutputs existingOutputs h i).readObject =
      inputs.map h.readObject := by
  unfold OutputApart at hapart
  unfold mergeOutput
  cases hnew : h.output newOutputs i with
  | none => rfl
  | some new =>
    rw [hnew] at hapart
    dsimp only at hapart ⊢
    cases hexisting : h.output existingOutputs i with
    | none =>
      rw [hexisting] at hapart
      exact contents_writeOutputs hapart _
    | some existing =>
      rw [hexisting] at hapart
      rcases hapart with hall | hnot
      · have hnil : (h.lists.read new).filter (· ∉ h.lists.read existing) = [] :=
          List.filter_eq_nil_iff.2 fun c hc => by simpa using hall c hc
        simp only [hnil, List.append_nil, Cells.write_read]
      · exact contents_writeList hnot _

theorem mergeOutput_grows {newOutputs existingOutputs : Ref} {i : ℕ}
    (hnot : ¬ OutputApart inputs newOutputs existingOutputs h i) :
    weight (inputs.map h.readObject) <
      weight (inputs.map (mergeOutput newOutputs existingOutputs h i).readObject) := by
  unfold OutputApart at hnot
  unfold mergeOutput
  cases hnew : h.output newOutputs i with
  | none =>
    rw [hnew] at hnot
    exact absurd trivial hnot
  | some new =>
    rw [hnew] at hnot
    dsimp only at hnot ⊢
    cases hexisting : h.output existingOutputs i with
    | none =>
      rw [hexisting] at hnot
      have hshares := not_not.1 hnot
      have hgrow : outputsWeight (h.readOutputs existingOutputs) < outputsWeight
          ((setAt (h.outputs.read existingOutputs) i none (some new)).map
            (Option.map h.lists.read)) := by
        rw [map_setAt]
        exact outputsWeight_setAt (output_eq_none hexisting) _
      refine MoreOutputs.weight_lt ⟨rfl, fun r => ?_⟩ hshares ?_
      · rw [outputsWeight_write]
        split_ifs with heq
        · exact heq ▸ hgrow.le
        · exact Nat.le_refl _
      · rw [outputsWeight_write, if_pos rfl]
        exact hgrow
    | some existing =>
      rw [hexisting] at hnot
      obtain ⟨hex, hshares⟩ := not_or.1 hnot
      push Not at hex
      obtain ⟨c, hc, hcnot⟩ := hex
      have hpos : 0 < ((h.lists.read new).filter (· ∉ h.lists.read existing)).length :=
        List.length_pos_of_mem (List.mem_filter.2 ⟨hc, by simpa using hcnot⟩)
      refine (moreConnections_write ?_).weight_lt (not_not.1 hshares) ?_
      · rw [List.length_append]
        omega
      · dsimp only
        rw [Cells.read_write_self, List.length_append]
        omega

theorem mergeType_same {object : Ref} {entry : String × Ref}
    (hapart : TypeApart inputs object h entry) :
    inputs.map (mergeType object h entry).readObject = inputs.map h.readObject := by
  unfold TypeApart at hapart
  unfold mergeType
  cases hget : (h.objects.read object).get? entry.1 with
  | none =>
    rw [hget] at hapart
    exact contents_writeObject hapart _
  | some existingOutputs =>
    rw [hget] at hapart
    exact (Runs.meets_or_grows (fun h : Heap => inputs.map h.readObject) weight
      (fun _ _ => mergeOutput_same) (fun _ _ => mergeOutput_grows) _ h).1 hapart

theorem mergeType_grows {object : Ref} {entry : String × Ref}
    (hnot : ¬ TypeApart inputs object h entry) :
    weight (inputs.map h.readObject) <
      weight (inputs.map (mergeType object h entry).readObject) := by
  unfold TypeApart at hnot
  unfold mergeType
  cases hget : (h.objects.read object).get? entry.1 with
  | none =>
    rw [hget] at hnot
    have hgrow : objectWeight (h.readObject object) <
        (((h.objects.read object).set entry.1 entry.2).entries.map fun e =>
          outputsWeight (h.readOutputs e.2) + 1).sum := by
      rw [objectWeight_read, ((Dict.set_entries_perm _ _ _).map _).sum_eq,
        Dict.erase_entries_of_none hget, List.map_cons, List.sum_cons]
      omega
    refine weight_lt (fun r => ?_) (not_not.1 hnot) ?_
    · rw [objectWeight_write]
      split_ifs with heq
      · exact heq ▸ hgrow.le
      · exact Nat.le_refl _
    · rw [objectWeight_write, if_pos rfl]
      exact hgrow
  | some existingOutputs =>
    rw [hget] at hnot
    exact (Runs.meets_or_grows (fun h : Heap => inputs.map h.readObject) weight
      (fun _ _ => mergeOutput_same) (fun _ _ => mergeOutput_grows) _ h).2 hnot

/-- The contents of the inputs in the heap of a merge. -/
def Merged.contents (inputs : List Ref) (s : Merged) : List INodeConnections :=
  inputs.map s.heap.readObject

theorem mergeSource_same {s : Merged} {entry : String × Ref}
    (hapart : SourceApart inputs s entry) :
    (mergeSource s entry).contents inputs = s.contents inputs := by
  unfold SourceApart at hapart
  unfold mergeSource
  cases hget : s.connections.get? entry.1 with
  | none => rfl
  | some object =>
    rw [hget] at hapart
    exact (Runs.meets_or_grows (fun h : Heap => inputs.map h.readObject) weight
      (fun _ _ => mergeType_same) (fun _ _ => mergeType_grows) _ s.heap).1 hapart

theorem mergeSource_grows {s : Merged} {entry : String × Ref}
    (hnot : ¬ SourceApart inputs s entry) :
    weight (s.contents inputs) < weight ((mergeSource s entry).contents inputs) := by
  unfold SourceApart at hnot
  unfold mergeSource
  cases hget : s.connections.get? entry.1 with
  | none =>
    rw [hget] at hnot
    exact absurd trivial hnot
  | some object =>
    rw [hget] at hnot
    exact (Runs.meets_or_grows (fun h : Heap => inputs.map h.readObject) weight
      (fun _ _ => mergeType_same) (fun _ _ => mergeType_grows) _ s.heap).2 hnot

/-- A merge leaves the contents of the inputs as they are exactly when it writes to none of their
objects and arrays. -/
theorem merge_same_iff (s : Merged) (entries : List (String × Ref)) :
    (Runs.run mergeSource s entries).contents inputs = s.contents inputs ↔
      Runs.Meets mergeSource (SourceApart inputs) s entries := by
  obtain ⟨hsame, hgrows⟩ := Runs.meets_or_grows (Merged.contents inputs) weight
    (fun _ _ => mergeSource_same) (fun _ _ => mergeSource_grows) entries s
  refine ⟨fun heq => by_contra fun hnot => ?_, hsame⟩
  exact absurd (heq ▸ hgrows hnot) (Nat.lt_irrefl _)

/-! ## Removing a connection -/

section Removal

variable {outputs list object : Ref} {index : ℕ} {removed : IConnection}

/-- The type has no connections left. -/
theorem hasOnly_iff {outputs : NodeInputConnections} {list : List IConnection}
    (hlist : outputs[index]? = some (some list)) :
    list.filter (· ≠ removed) = [] ∧
        ((outputs.set index (some (list.filter (· ≠ removed)))).any fun output =>
          output.any (!·.isEmpty)) = false ↔
      HasOnly outputs index removed := by
  have hlt : index < outputs.length := (List.getElem?_eq_some_iff.1 hlist).1
  constructor
  · rintro ⟨hnil, hany⟩ i l hl c hc
    by_cases hi : index = i
    · subst hi
      obtain rfl := Option.some.inj (Option.some.inj (hlist.symm.trans hl))
      have hcnot := List.filter_eq_nil_iff.1 hnil c hc
      exact ⟨rfl, by simpa using hcnot⟩
    · have hmem : some l ∈ outputs.set index (some (list.filter (· ≠ removed))) :=
        List.mem_of_getElem? (by rw [List.getElem?_set_ne hi]; exact hl)
      have hempty := List.any_eq_false.1 hany _ hmem
      have hl : l = [] := by simpa using hempty
      rw [hl] at hc
      cases hc
  · intro honly
    have hnil : list.filter (· ≠ removed) = [] :=
      List.filter_eq_nil_iff.2 fun c hc => by simpa using (honly index list hlist c hc).2
    refine ⟨hnil, List.any_eq_false.2 fun x hx => ?_⟩
    rcases x with _ | l
    · simp
    obtain ⟨i, hi⟩ := List.mem_iff_getElem?.1 hx
    rw [List.getElem?_set] at hi
    split_ifs at hi with heq
    · rw [← Option.some.inj (Option.some.inj hi), hnil]
      simp
    · have hempty : l = [] := List.eq_nil_iff_forall_not_mem.2 fun c hc =>
        heq (honly i l hi c hc).1.symm
      simp [hempty]

theorem hasAnyConnections_eq (h : Heap) (r : Ref) : State.hasAnyConnections h r =
    (h.readOutputs r).any fun output => output.any (!·.isEmpty) := by
  unfold State.hasAnyConnections Heap.readOutputs
  rw [List.any_map]
  congr 1
  funext x
  cases x <;> rfl

/-- `h.setOutput outputs index connections` is a new array, and then a write to the outputs. -/
theorem readOutputs_setOutput (connections : List IConnection) :
    (h.setOutput outputs index connections).readOutputs outputs =
      ((h.newList connections).2.readOutputs outputs).set index (some connections) := by
  unfold Heap.setOutput Heap.readOutputs
  dsimp only
  rw [Cells.read_write_self, List.map_set]
  congr 2
  exact congrArg some (Cells.read_alloc_next _ _)

theorem contents_newList (hv : h.Valid) (hinputs : ∀ r ∈ inputs, r < h.objects.next)
    (connections : List IConnection) :
    inputs.map (h.newList connections).2.readObject = inputs.map h.readObject :=
  List.map_congr_left fun r hr => (Heap.newList_extends connections).readObject hv (hinputs r hr)

theorem setOutput_same (hv : h.Valid) (hinputs : ∀ r ∈ inputs, r < h.objects.next)
    (connections : List IConnection) (hapart : ¬ h.SharesOutputs inputs outputs) :
    inputs.map (h.setOutput outputs index connections).readObject = inputs.map h.readObject := by
  rw [← contents_newList hv hinputs connections]
  exact contents_writeOutputs (h := (h.newList connections).2) hapart _

/-- An array is replaced by one with the same connections. -/
theorem setOutput_self (hv : h.Valid) (hinputs : ∀ r ∈ inputs, r < h.objects.next)
    (houtputs : outputs < h.outputs.next) {connections : List IConnection}
    (hlist : (h.readOutputs outputs)[index]? = some (some connections)) :
    inputs.map (h.setOutput outputs index connections).readObject = inputs.map h.readObject := by
  rw [← contents_newList hv hinputs connections]
  refine List.map_congr_left fun r _ => Heap.readObject_congr rfl fun e _ => ?_
  by_cases he : e.2 = outputs
  · rw [he, readOutputs_setOutput,
      (Heap.newList_extends connections).readOutputs hv houtputs]
    obtain ⟨hlt, hget⟩ := List.getElem?_eq_some_iff.1 hlist
    rw [← hget, List.set_getElem_self]
  · exact Heap.readOutputs_congr (Cells.read_write_of_ne _ he _) fun _ _ => rfl

/-- An array is replaced by a shorter one. -/
theorem moreOutputs_setOutput (hv : h.Valid) (houtputs : outputs < h.outputs.next)
    {list connections : List IConnection}
    (hlist : (h.readOutputs outputs)[index]? = some (some list))
    (hle : connections.length ≤ list.length) :
    MoreOutputs (h.setOutput outputs index connections) (h.newList connections).2 := by
  refine ⟨rfl, fun r => ?_⟩
  by_cases hr : r = outputs
  · rw [hr, readOutputs_setOutput, (Heap.newList_extends connections).readOutputs hv houtputs]
    have hset := outputsWeight_set (some connections) hlist
    simp only [outputWeight] at hset
    omega
  · refine Nat.le_of_eq (congrArg outputsWeight ?_)
    exact Heap.readOutputs_congr (Cells.read_write_of_ne _ hr _) fun _ _ => rfl

theorem setOutput_lt (hv : h.Valid) (hinputs : ∀ r ∈ inputs, r < h.objects.next)
    (houtputs : outputs < h.outputs.next) {list connections : List IConnection}
    (hlist : (h.readOutputs outputs)[index]? = some (some list))
    (hlt : connections.length < list.length) (hshares : h.SharesOutputs inputs outputs) :
    weight (inputs.map (h.setOutput outputs index connections).readObject) <
      weight (inputs.map h.readObject) := by
  rw [← contents_newList hv hinputs connections]
  refine (moreOutputs_setOutput hv houtputs hlist hlt.le).weight_lt hshares ?_
  rw [readOutputs_setOutput, (Heap.newList_extends connections).readOutputs hv houtputs]
  have hset := outputsWeight_set (some connections) hlist
  simp only [outputWeight] at hset
  omega

theorem setOutput_le (hv : h.Valid) (hinputs : ∀ r ∈ inputs, r < h.objects.next)
    (houtputs : outputs < h.outputs.next) {list connections : List IConnection}
    (hlist : (h.readOutputs outputs)[index]? = some (some list))
    (hle : connections.length ≤ list.length) :
    weight (inputs.map (h.setOutput outputs index connections).readObject) ≤
      weight (inputs.map h.readObject) := by
  rw [← contents_newList hv hinputs connections]
  exact weight_le (moreOutputs_setOutput hv houtputs hlist hle).objectWeight_le

/-- A type is deleted. -/
theorem eraseType_weight (h : Heap) {type : String} {o : Ref}
    (hget : (h.objects.read object).get? type = some o) (r : Ref) :
    objectWeight ({ h with
      objects := h.objects.write object ((h.objects.read object).erase type) }.readObject r) +
        (if r = object then outputsWeight (h.readOutputs o) + 1 else 0) =
      objectWeight (h.readObject r) := by
  rw [objectWeight_write]
  split_ifs with heq
  · subst heq
    rw [objectWeight_read]
    exact Dict.sum_erase (fun o => outputsWeight (h.readOutputs o) + 1) _ hget
  · rfl

variable (inputs) in
theorem eraseType_le (h : Heap) {type : String} {o : Ref}
    (hget : (h.objects.read object).get? type = some o) :
    weight (inputs.map { h with
      objects := h.objects.write object ((h.objects.read object).erase type) }.readObject) ≤
        weight (inputs.map h.readObject) :=
  weight_le fun r => (eraseType_weight h hget r) ▸ Nat.le_add_right _ _

theorem eraseType_lt (h : Heap) {type : String} {o : Ref}
    (hget : (h.objects.read object).get? type = some o) (hobject : object ∈ inputs) :
    weight (inputs.map { h with
      objects := h.objects.write object ((h.objects.read object).erase type) }.readObject) <
        weight (inputs.map h.readObject) := by
  refine weight_lt (fun r => (eraseType_weight h hget r) ▸ Nat.le_add_right _ _) hobject ?_
  rw [← eraseType_weight h hget object, if_pos rfl]
  omega

/-- Removing a connection leaves the contents of the inputs as they are exactly when it writes to none
of their objects and arrays. -/
theorem removal_same_iff {s : State} (hv : s.heap.Valid)
    (hinputs : ∀ r ∈ inputs, r < s.heap.objects.next)
    (hconnections : ∀ e ∈ s.result.connections.entries, e.2 < s.heap.objects.next)
    (sourceNode targetNode connectionType : String) (sourceOutputIndex targetInputIndex : ℕ) :
    inputs.map (s.applyRemoveConnectionOperation sourceNode targetNode connectionType
        sourceOutputIndex targetInputIndex).heap.readObject = inputs.map s.heap.readObject ↔
      s.RemovalApart inputs sourceNode targetNode connectionType sourceOutputIndex
        targetInputIndex := by
  generalize hs' : s.applyRemoveConnectionOperation sourceNode targetNode connectionType
    sourceOutputIndex targetInputIndex = s'
  obtain ⟨rfl, hnone⟩ | ⟨object, outputs, list, connections, h, hobject, houtputs, hlist, hfilter,
      rfl, hcases⟩ := removeConnection_cases s sourceNode targetNode connectionType
        sourceOutputIndex targetInputIndex hs'.symm
  · exact ⟨fun _ object outputs list hobject houtputs hlist =>
      absurd hlist (hnone object outputs list hobject houtputs), fun _ => rfl⟩
  have hapart : s.RemovalApart inputs sourceNode targetNode connectionType sourceOutputIndex
      targetInputIndex ↔
        (⟨targetNode, connectionType, targetInputIndex⟩ ∈ s.heap.lists.read list →
          ¬ s.heap.SharesOutputs inputs outputs) ∧
        (HasOnly (s.heap.readOutputs outputs) sourceOutputIndex
          ⟨targetNode, connectionType, targetInputIndex⟩ → object ∉ inputs) := by
    refine ⟨fun hall => hall object outputs list hobject houtputs hlist, ?_⟩
    intro hall object' outputs' list' hobject' houtputs' hlist'
    obtain rfl := Option.some.inj (hobject.symm.trans hobject')
    obtain rfl := Option.some.inj (houtputs.symm.trans houtputs')
    obtain rfl := Option.some.inj (hlist.symm.trans hlist')
    exact hall
  have hlt := hv.objects _ (hconnections _ (Dict.mem_entries.2 hobject)) _
    (Dict.mem_entries.2 houtputs)
  have hread := output_eq_some hlist
  have hle : connections.length ≤ (s.heap.lists.read list).length := by
    rw [hfilter]
    exact List.length_filter_le _ _
  have hsame : (⟨targetNode, connectionType, targetInputIndex⟩ ∈ s.heap.lists.read list →
      ¬ s.heap.SharesOutputs inputs outputs) →
      inputs.map (s.heap.setOutput outputs sourceOutputIndex connections).readObject =
        inputs.map s.heap.readObject := by
    intro hall
    by_cases hmem : ⟨targetNode, connectionType, targetInputIndex⟩ ∈ s.heap.lists.read list
    · exact setOutput_same hv hinputs connections (hall hmem)
    · have hself : connections = s.heap.lists.read list := by
        rw [hfilter, List.filter_eq_self]
        intro c hc
        exact decide_eq_true fun heq => hmem (heq ▸ hc)
      exact setOutput_self hv hinputs hlt (hself ▸ hread)
  have hless : ¬ (⟨targetNode, connectionType, targetInputIndex⟩ ∈ s.heap.lists.read list →
      ¬ s.heap.SharesOutputs inputs outputs) →
      weight (inputs.map (s.heap.setOutput outputs sourceOutputIndex connections).readObject) <
        weight (inputs.map s.heap.readObject) := by
    intro hnot
    obtain ⟨hmem, hshares⟩ := Classical.not_imp.1 hnot
    refine setOutput_lt hv hinputs hlt hread ?_ (not_not.1 hshares)
    rw [hfilter, List.length_filter_lt_length_iff_exists]
    exact ⟨_, hmem, by simp⟩
  have honly : HasOnly (s.heap.readOutputs outputs) sourceOutputIndex
      ⟨targetNode, connectionType, targetInputIndex⟩ ↔ (connections = [] ∧
        State.hasAnyConnections (s.heap.setOutput outputs sourceOutputIndex connections) outputs =
          false) := by
    rw [hasAnyConnections_eq, readOutputs_setOutput,
      (Heap.newList_extends connections).readOutputs hv hlt, hfilter]
    exact (hasOnly_iff hread).symm
  rw [hapart, honly]
  rcases hcases with ⟨hkept, rfl⟩ | ⟨hdeleted, hheap, -⟩
  · rw [and_iff_left fun hdeleted => absurd hdeleted hkept]
    refine ⟨fun heq => by_contra fun hnot => ?_, hsame⟩
    exact absurd (heq ▸ hless hnot) (Nat.lt_irrefl _)
  · rw [hheap]
    have herase := eraseType_le inputs
      (s.heap.setOutput outputs sourceOutputIndex connections) houtputs
    refine ⟨fun heq => ⟨by_contra fun hnot => ?_, fun _ hobject => ?_⟩, fun hall => ?_⟩
    · rw [heq] at herase
      exact absurd (herase.trans_lt (hless hnot)) (Nat.lt_irrefl _)
    · have hlt' := eraseType_lt
        (s.heap.setOutput outputs sourceOutputIndex connections) houtputs hobject
      rw [heq] at hlt'
      exact absurd (hlt'.trans_le (setOutput_le hv hinputs hlt hread hle)) (Nat.lt_irrefl _)
    · rw [contents_writeObject (hall.2 hdeleted), hsame hall.1]

end Removal

/-! ## Runs -/

variable {g : Given} {s : State}

theorem mapValues_eq_iff {α β : Type} {f f' : α → β} {d : Dict String α} :
    d.mapValues f = d.mapValues f' ↔ ∀ a ∈ d.entries.map Prod.snd, f a = f' a := by
  constructor
  · intro heq a ha
    obtain ⟨e, he, rfl⟩ := List.mem_map.1 ha
    have hentries : d.entries.map (fun e => (e.1, f e.2)) = d.entries.map fun e => (e.1, f' e.2) :=
      congrArg Dict.entries heq
    exact (Prod.mk.inj (List.map_inj_left.1 hentries e he)).2
  · intro hall
    exact Dict.ext_entries (List.map_congr_left fun e he => by
      rw [hall e.2 (List.mem_map_of_mem he)])

theorem readOperation_eq_iff (op : WorkflowOperation Ref Ref)
    (hnodes : ∀ r ∈ op.nodes, h'.nodes.read r = h.nodes.read r) :
    h'.readOperation op = h.readOperation op ↔
      ∀ r ∈ op.objects, h'.readObject r = h.readObject r := by
  cases op with
  | setConnections connections | mergeConnections connections =>
    refine Iff.trans ?_ (mapValues_eq_iff (d := connections))
    simp [Heap.readOperation]
  | addNodes nodes =>
    refine iff_of_true ?_ fun r hr => absurd hr List.not_mem_nil
    exact congrArg _ (List.map_congr_left hnodes)
  | clear | removeNode | updateNode | removeConnection | setName =>
    exact iff_of_true rfl fun r hr => absurd hr List.not_mem_nil

/-- What was given is as before where the objects are. -/
theorem contents_iff (hs : s.Sound g) : g.contents s.heap = g.contents g.heap ↔
    g.inputs.map s.heap.readObject = g.inputs.map g.heap.readObject := by
  have hnodes : ∀ r ∈ g.workflow.nodes ++ g.operations.flatMap (·.nodes),
      s.heap.nodes.read r = g.heap.nodes.read r := fun r hr => hs.nodes.read r (g.nodes r hr)
  have hworkflow : s.heap.readWorkflow g.workflow = g.heap.readWorkflow g.workflow ↔
      ∀ r ∈ g.workflow.objects, s.heap.readObject r = g.heap.readObject r := by
    have hsame : g.workflow.nodes.map s.heap.nodes.read =
        g.workflow.nodes.map g.heap.nodes.read :=
      List.map_congr_left fun r hr => hnodes r (List.mem_append_left _ hr)
    unfold Heap.readWorkflow
    rw [SimpleWorkflow.mk.injEq, hsame, mapValues_eq_iff]
    simp [SimpleWorkflow.objects]
  have hoperations : g.operations.map s.heap.readOperation =
      g.operations.map g.heap.readOperation ↔
        ∀ r ∈ g.operations.flatMap (·.objects), s.heap.readObject r = g.heap.readObject r := by
    rw [List.map_inj_left, List.forall_mem_flatMap]
    exact forall₂_congr fun op hop => readOperation_eq_iff op fun r hr =>
      hnodes r (List.mem_append_right _ (List.mem_flatMap.2 ⟨op, hop, hr⟩))
  unfold Given.contents Given.inputs
  rw [Prod.mk.injEq, hworkflow, hoperations, List.map_inj_left, List.forall_mem_append]

/-- One operation. -/
theorem State.Sound.same_iff (hs : s.Sound g) (op : WorkflowOperation Ref Ref) :
    g.inputs.map (s.step op).heap.readObject = g.inputs.map s.heap.readObject ↔
      s.Apart g.inputs op := by
  have hinputs : ∀ r ∈ g.inputs, r < s.heap.objects.next := fun r hr =>
    (g.objects r hr).trans_le hs.objects
  cases op with
  | clear | addNodes | setConnections | setName => exact iff_of_true rfl trivial
  | removeNode nodeIds =>
    refine iff_of_true (List.map_congr_left fun r hr => ?_) trivial
    exact (Heap.newConnections_spec hs.valid _).1.readObject hs.valid (hinputs r hr)
  | updateNode nodeId updates =>
    have hu := updateNodes nodeId updates s.result.nodes s.heap
    refine iff_of_true (List.map_congr_left fun r _ => ?_) trivial
    exact Heap.readObject_congr (congrArg (Cells.read · r) hu.objects) fun e _ =>
      Heap.readOutputs_congr (congrArg (Cells.read · e.2) hu.outputs) fun a _ =>
        congrArg (Cells.read · a) hu.lists
  | mergeConnections connections => exact merge_same_iff ⟨s.heap, s.result.connections⟩ _
  | removeConnection sourceNode targetNode connectionType sourceOutputIndex targetInputIndex =>
    exact removal_same_iff hs.valid hinputs hs.connections _ _ _ _ _

/-- The workflow and the operations are as they were given after each operation exactly in the runs
whose operations write to no object or array of them; then they are at the end. -/
theorem inputs_kept_iff (g : Given) :
    (Runs.Along State.step (fun s => g.contents s.heap = g.contents g.heap) g.start g.operations ↔
      Runs.Meets State.step (State.Apart g.inputs) g.start g.operations) ∧
    (Runs.Meets State.step (State.Apart g.inputs) g.start g.operations →
      g.contents (applyOperations g.heap g.workflow g.operations).heap = g.contents g.heap) := by
  have hops : Runs.Meets State.step (fun _ op => ∀ r ∈ op.objects, r < g.heap.objects.next)
      g.start g.operations :=
    Runs.meets_of_forall fun op hop r hr =>
      g.objects r (List.mem_append_right _ (List.mem_flatMap.2 ⟨op, hop, hr⟩))
  have hiff := Runs.along_iff_meets (C := State.Apart g.inputs)
    (I := fun s => s.Sound g ∧ g.contents s.heap = g.contents g.heap)
    (P := fun s => g.contents s.heap = g.contents g.heap) (fun _ hi => hi.2)
    (fun s op hi hop hapart => by
      have hs := hi.1.step hop
      refine ⟨hs, (contents_iff hs).2 ?_⟩
      rw [(hi.1.same_iff op).2 hapart, (contents_iff hi.1).1 hi.2])
    (fun s op hi hop hnot hkept => hnot ((hi.1.same_iff op).1 (by
      rw [(contents_iff (hi.1.step hop)).1 hkept, (contents_iff hi.1).1 hi.2])))
    ⟨g.sound, rfl⟩ hops
  exact ⟨hiff, fun hmeets => (hiff.2 hmeets).last⟩

theorem nodup_entries_A : ([("A", 1)].map (Prod.fst : String × Ref → String)).Nodup :=
  List.nodup_singleton _

/-- A connection is merged into the array of an existing one. -/
def mergedInto : Given where
  heap := joinedHeap fun r => ["1", "2", "3"].getD r ""
  workflow := joined
  operations := [.mergeConnections ⟨[("A", 1)], nodup_entries_A⟩]
  valid := joinedHeap_valid_numbers
  nodes := by decide
  objects := by decide

theorem merge_writes_input :
    mergedInto.contents (applyOperations mergedInto.heap mergedInto.workflow
      mergedInto.operations).heap ≠ mergedInto.contents mergedInto.heap := by
  intro heq
  exact absurd (Prod.mk.inj heq).1 (by decide)

end OperationsProcessor

end N8n
