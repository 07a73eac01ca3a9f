import Mathlib.Tactic
import N8n.NodeExecution
import N8n.Proofs.ReleasedEntries

/-!
# The error output

Items with an error go to the last output, each over its paired item. They are lost with all others
behind them when the source of the paired item is missing, or it cannot be found. And an error with
an empty message is not taken for one.
-/

namespace N8n

/-! ## What should be on the outputs -/

namespace Item

/-- The item has an error, or its JSON is nothing but an error, with or without a message. -/
def carriesError (item : Item) : Bool :=
  item.error.truthy || (item.json.read "error").truthy &&
    item.json.keys.all fun key => key = "error" ∨ key = "message"

/-- The JSON is an error with a message that is empty. -/
def isSilent (item : Item) : Bool :=
  !item.error.truthy && (item.json.read "error").truthy &&
    (item.json.keys.all fun key => key = "error" ∨ key = "message") &&
    item.json.keys.length == 2 && !(item.json.read "message").truthy

/-- The place that the paired item comes from. None if it is not known for some reason. -/
def PairedAt (executionData : ExecuteData) (item : Item) (pairedItemData : PairedItemData)
    (sourceData : Option SourceData) : Prop :=
  ∃ source, executionData.source = some source ∧ item.pairedItemData = some pairedItemData ∧
    source[pairedItemData.input.getD 0]?.join = sourceData

/-- The item, but fields of its paired item may have been added to its JSON. -/
def Extended (t : Turn) (executionData : ExecuteData) (item item' : Item) : Prop :=
  item' = item ∨ ∃ pairedItemData sourceData paired,
    item.PairedAt executionData pairedItemData (some sourceData) ∧
    t.getPairedItem sourceData pairedItemData = .ok (some paired) ∧
    item'.pairedItem = item.pairedItem ∧ item'.error = item.error ∧
    ∀ key, item'.json.get? key = (item.json.get? key).or (paired.json.get? key)

/-- The source of the paired item is there, and the paired item is looked up without an error. -/
def Resolvable (t : Turn) (executionData : ExecuteData) (item : Item) : Prop :=
  ∀ pairedItemData sourceData, item.PairedAt executionData pairedItemData sourceData →
    ∃ source, sourceData = some source ∧ ∃ paired, t.getPairedItem source pairedItemData = .ok paired

end Item

/-- The items with an error of so many outputs, in order. -/
def errorsOf (nodeSuccessData : List Slot) (outputs : ℕ) : List Item :=
  (List.range outputs).flatMap fun outputIndex =>
    (slotAt nodeSuccessData outputIndex).list.filter (·.carriesError)

/-- Each item without an error stays where it is, and the others are on the last output. -/
structure ErrorsRouted (t : Turn) (executionData : ExecuteData) (outputs : ℕ)
    (nodeSuccessData routed : List Slot) : Prop where
  kept : ∀ outputIndex < outputs, slotAt routed outputIndex =
    .items ((slotAt nodeSuccessData outputIndex).list.filter (!·.carriesError))
  errors : ∃ errorItems, slotAt routed outputs = .items errorItems ∧
    List.Forall₂ (Item.Extended t executionData) (errorsOf nodeSuccessData outputs) errorItems

/-! ## One item -/

section Items

variable {t : Turn} {executionData : ExecuteData} {item item' : Item}

theorem mem_keys_of_truthy {json : DataObject} {key : String} (h : (json.read key).truthy = true) :
    key ∈ json.keys := by
  rw [Dict.mem_keys]
  unfold DataObject.read at h
  cases hget : json.get? key with
  | some value => rfl
  | none =>
    rw [hget] at h
    cases h

theorem keys_of_length {keys : List String} (hnodup : keys.Nodup) (herror : "error" ∈ keys) :
    (keys.length = 1 → ∀ key ∈ keys, key = "error" ∨ key = "message") ∧
    (keys.length = 2 → "message" ∈ keys → ∀ key ∈ keys, key = "error" ∨ key = "message") ∧
    ((∀ key ∈ keys, key = "error" ∨ key = "message") → keys.length = 1 ∨ keys.length = 2) := by
  refine ⟨fun hlength key hkey => ?_, fun hlength hmessage key hkey => ?_, fun hall => ?_⟩
  · obtain ⟨only, rfl⟩ := List.length_eq_one_iff.1 hlength
    rw [List.mem_singleton] at herror hkey
    exact .inl (hkey.trans herror.symm)
  · obtain ⟨first, second, rfl⟩ := List.length_eq_two.1 hlength
    simp only [List.mem_cons, List.not_mem_nil, or_false] at herror hmessage hkey
    rcases herror with rfl | rfl <;> rcases hmessage with h | h <;>
      first | exact absurd h (by decide) | (subst h; tauto)
  · have hsub : keys ⊆ ["error", "message"] := fun key hkey => by simpa using hall key hkey
    have hle := (hnodup.subperm hsub).length_le
    have hpos := List.length_pos_of_mem herror
    simp only [List.length_cons, List.length_nil] at hle
    omega

/-- An empty message makes the difference. -/
theorem carriesError_iff : item.carriesError = true ↔
    item.hasErrorData = true ∨ item.isSilent = true := by
  unfold Item.carriesError Item.hasErrorData Item.isSilent
  cases herror : item.error.truthy
  · cases hjson : (item.json.read "error").truthy
    · simp
    · obtain ⟨hone, htwo, hlength⟩ :=
        keys_of_length item.json.nodup (mem_keys_of_truthy hjson)
      change (item.json.keys.length = 1 → _) at hone
      change (item.json.keys.length = 2 → "message" ∈ item.json.keys → _) at htwo
      simp only [Bool.false_or, Bool.true_and, Bool.not_false, Bool.or_eq_true, Bool.and_eq_true,
        beq_iff_eq, Bool.not_eq_true', List.all_eq_true, decide_eq_true_eq]
      constructor
      · intro hall
        cases hmessage : (item.json.read "message").truthy with
        | true => exact .inl ((hlength hall).imp_right fun h => ⟨rfl, h⟩)
        | false => exact (hlength hall).elim (fun h => .inl (.inl h)) fun h => .inr ⟨⟨hall, h⟩, rfl⟩
      · rintro ((h | ⟨hmessage, h⟩) | ⟨⟨hall, -⟩, -⟩)
        · exact hone h
        · exact htwo h (mem_keys_of_truthy hmessage)
        · exact hall
  · simp

theorem hasErrorData_of_isSilent (h : item.isSilent = true) : item.hasErrorData = false := by
  unfold Item.isSilent at h
  unfold Item.hasErrorData
  simp only [Bool.and_eq_true, Bool.not_eq_true', beq_iff_eq] at h
  obtain ⟨⟨⟨⟨herror, -⟩, -⟩, hlength⟩, hmessage⟩ := h
  simp [herror, hlength, hmessage]

theorem merge_get? (json more : DataObject) (key : String) :
    (json.merge more).get? key = (more.get? key).or (json.get? key) := by
  unfold DataObject.merge
  rw [@Dict.get?_foldl_entries _ _ _ _ _ (fun e _ => some e.2)
    (fun d e k => Dict.get?_set d e.1 k e.2) _ _ _ more.nodup]
  unfold Dict.get?
  cases more.entries.lookup key <;> rfl

theorem errorItem_extended (h : errorItem t executionData item = .ok item') :
    item.Extended t executionData item' := by
  unfold errorItem at h
  split at h
  · rename_i source pairedItemData hsource hpaired
    split at h
    · cases h
    · rename_i sourceData hdata
      split at h
      · cases h
      · exact .inl (Except.ok.inj h).symm
      · rename_i paired hget
        obtain rfl := Except.ok.inj h
        exact .inr ⟨pairedItemData, sourceData, paired, ⟨source, hsource, hpaired, hdata⟩, hget, rfl,
          rfl, fun key => merge_get? _ _ key⟩
  · exact .inl (Except.ok.inj h).symm

theorem resolvable_iff : item.Resolvable t executionData ↔
    ∃ item', errorItem t executionData item = .ok item' := by
  unfold Item.Resolvable Item.PairedAt errorItem
  constructor
  · intro h
    split
    · rename_i source pairedItemData hsource hpaired
      obtain ⟨sourceData, hdata, paired, hget⟩ :=
        h pairedItemData _ ⟨source, hsource, hpaired, rfl⟩
      rw [hdata]
      dsimp only
      rw [hget]
      cases paired with
      | none => exact ⟨_, rfl⟩
      | some paired => exact ⟨_, rfl⟩
    · exact ⟨_, rfl⟩
  · rintro ⟨item', hok⟩ pairedItemData sourceData ⟨source, hsource, hpaired, hdata⟩
    simp only [hsource, hpaired, hdata] at hok
    cases sourceData with
    | none => cases hok
    | some sourceData =>
      dsimp only at hok
      refine ⟨sourceData, rfl, ?_⟩
      cases hget : t.getPairedItem sourceData pairedItemData with
      | error e => simp [hget] at hok
      | ok paired => exact ⟨paired, rfl⟩

/-! ## One output -/

theorem splitItems_of_ok : ∀ {items : List Item}, (∀ item ∈ items, item.hasErrorData = true →
    ∃ item', errorItem t executionData item = .ok item') →
    (splitItems t executionData items).thrown = none ∧
      (splitItems t executionData items).successItems = items.filter (!·.hasErrorData) ∧
      List.Forall₂ (Item.Extended t executionData) (items.filter (·.hasErrorData))
        (splitItems t executionData items).errorItems
  | [], _ => ⟨rfl, rfl, .nil⟩
  | item :: items, h => by
    obtain ⟨hthrown, hsuccess, herrors⟩ := splitItems_of_ok fun item hitem =>
      h item (List.mem_cons_of_mem _ hitem)
    unfold splitItems
    cases herror : item.hasErrorData with
    | true =>
      obtain ⟨item', hok⟩ := h item List.mem_cons_self herror
      simp only [hok, herror, List.filter_cons, if_true, Bool.not_true, Bool.false_eq_true,
        if_false]
      exact ⟨hthrown, hsuccess, .cons (errorItem_extended hok) herrors⟩
    | false =>
      simp only [herror, List.filter_cons, Bool.not_false, if_true, Bool.false_eq_true, if_false,
        hsuccess]
      exact ⟨hthrown, trivial, herrors⟩

theorem splitItems_throws : ∀ {items : List Item}, (∃ item ∈ items, item.hasErrorData = true ∧
    ∃ e, errorItem t executionData item = .error e) →
    (splitItems t executionData items).thrown ≠ none
  | [], ⟨_, hitem, _⟩ => absurd hitem List.not_mem_nil
  | first :: items, ⟨item, hitem, herror, e, hthrows⟩ => by
    have hrest : item ∈ items → (splitItems t executionData items).thrown ≠ none := fun hitem =>
      splitItems_throws ⟨item, hitem, herror, e, hthrows⟩
    unfold splitItems
    dsimp only
    rcases List.mem_cons.1 hitem with rfl | hitem
    · simp [herror, hthrows]
    · split_ifs
      · split
        · exact Option.some_ne_none _
        · exact hrest hitem
      · exact hrest hitem

/-! ## All outputs -/

/-- What becomes of the data of so many outputs, from the index on. -/
theorem splitOutputs_of_ok : ∀ (outputs outputIndex : ℕ) (o : ErrorOutput), o.error = none →
    (∀ i, outputIndex ≤ i → i < outputIndex + outputs → ∀ item ∈ (slotAt o.nodeSuccessData i).list,
      item.hasErrorData = true → ∃ item', errorItem t executionData item = .ok item') →
    (splitOutputs t executionData outputs outputIndex o).error = none ∧
      (∀ i, slotAt (splitOutputs t executionData outputs outputIndex o).nodeSuccessData i =
        if outputIndex ≤ i ∧ i < outputIndex + outputs then
          .items ((slotAt o.nodeSuccessData i).list.filter (!·.hasErrorData))
        else slotAt o.nodeSuccessData i) ∧
      ∃ errorItems, (splitOutputs t executionData outputs outputIndex o).errorItems =
          o.errorItems ++ errorItems ∧
        List.Forall₂ (Item.Extended t executionData)
          ((List.range' outputIndex outputs).flatMap fun i =>
            (slotAt o.nodeSuccessData i).list.filter (·.hasErrorData)) errorItems
  | 0, outputIndex, o, herror, _ => by
    refine ⟨herror, fun i => ?_, [], (List.append_nil _).symm, .nil⟩
    rw [if_neg (by omega)]
    rfl
  | outputs + 1, outputIndex, o, _, h => by
    obtain ⟨hthrown, hsuccess, herrors⟩ := splitItems_of_ok (h outputIndex le_rfl (by omega))
    unfold splitOutputs
    dsimp only
    generalize splitItems t executionData (slotAt o.nodeSuccessData outputIndex).list = split
      at hthrown hsuccess herrors
    simp only [hthrown]
    generalize hnext : setAt o.nodeSuccessData outputIndex .hole (.items split.successItems) = next
    have hslot : ∀ i, slotAt next i = if i = outputIndex then .items split.successItems
        else slotAt o.nodeSuccessData i := fun i => by rw [← hnext, slotAt_setAt]
    have hlater : ∀ i, outputIndex + 1 ≤ i → slotAt next i = slotAt o.nodeSuccessData i :=
      fun i hi => by rw [hslot, if_neg (by omega)]
    obtain ⟨herror, hdata, errorItems, heq, hforall⟩ := splitOutputs_of_ok outputs (outputIndex + 1)
      { nodeSuccessData := next, errorItems := o.errorItems ++ split.errorItems } rfl
      fun i hle hlt => by
        rw [hlater i hle]
        exact h i (by omega) (by omega)
    refine ⟨herror, fun i => ?_, split.errorItems ++ errorItems, ?_, ?_⟩
    · rw [hdata]
      dsimp only
      rw [hslot]
      rcases Nat.lt_trichotomy i outputIndex with hlt | rfl | hlt
      · rw [if_neg (by omega), if_neg (by omega), if_neg (by omega)]
      · rw [if_neg (by omega), if_pos rfl, if_pos (by omega), hsuccess]
      · simp only [if_neg (Nat.ne_of_gt hlt)]
        exact if_congr (by omega) rfl rfl
    · rw [heq, List.append_assoc]
    · rw [List.range'_succ, List.flatMap_cons]
      refine List.rel_append herrors ?_
      have hsame : (List.range' (outputIndex + 1) outputs).flatMap (fun i =>
          (slotAt o.nodeSuccessData i).list.filter (·.hasErrorData)) =
          (List.range' (outputIndex + 1) outputs).flatMap fun i =>
            (slotAt next i).list.filter (·.hasErrorData) :=
        List.flatMap_congr fun i hi => by rw [hlater i (List.mem_range'_1.1 hi).1]
      rw [hsame]
      exact hforall

/-- When an item throws, the outputs behind its own are left as they are. -/
theorem splitOutputs_throws : ∀ (outputs outputIndex : ℕ) (o : ErrorOutput),
    (∃ i, outputIndex ≤ i ∧ i < outputIndex + outputs ∧ ∃ item ∈ (slotAt o.nodeSuccessData i).list,
      item.hasErrorData = true ∧ ∃ e, errorItem t executionData item = .error e) →
    (splitOutputs t executionData outputs outputIndex o).error ≠ none ∧
      ∀ i, outputIndex + outputs ≤ i →
        slotAt (splitOutputs t executionData outputs outputIndex o).nodeSuccessData i =
          slotAt o.nodeSuccessData i
  | 0, outputIndex, o, ⟨i, hle, hlt, _⟩ => absurd hlt (by omega)
  | outputs + 1, outputIndex, o, ⟨i, hle, hlt, item, hitem, hthrows⟩ => by
    unfold splitOutputs
    dsimp only
    cases hthrown : (splitItems t executionData (slotAt o.nodeSuccessData outputIndex).list).thrown
      with
    | some thrown =>
      refine ⟨Option.some_ne_none _, fun j hj => ?_⟩
      dsimp only
      rw [slotAt_setAt, if_neg (by omega)]
    | none =>
      have hne : i ≠ outputIndex := by
        rintro rfl
        exact splitItems_throws ⟨item, hitem, hthrows⟩ hthrown
      dsimp only
      obtain ⟨herror, hdata⟩ := splitOutputs_throws outputs (outputIndex + 1)
        { nodeSuccessData := setAt o.nodeSuccessData outputIndex .hole (.items
            (splitItems t executionData (slotAt o.nodeSuccessData outputIndex).list).successItems)
          errorItems := o.errorItems ++
            (splitItems t executionData (slotAt o.nodeSuccessData outputIndex).list).errorItems }
        ⟨i, by omega, by omega, item, by rwa [slotAt_setAt, if_neg hne], hthrows⟩
      refine ⟨herror, fun j hj => ?_⟩
      rw [hdata j (by omega)]
      dsimp only
      rw [slotAt_setAt, if_neg (by omega)]

end Items

/-! ## The outputs of a node -/

variable {w : Workflow} {t : Turn} {executionData : ExecuteData} {nodeSuccessData : List Slot}

theorem range'_zero (n : ℕ) : List.range' 0 n = List.range n := (List.range_eq_range').symm

/-- If an item throws, nothing is put on the last output. -/
theorem not_errorsRouted_of_throws {outputs : ℕ} {routed : List Slot}
    (hroom : slotAt routed outputs = slotAt nodeSuccessData outputs)
    (hlast : (slotAt nodeSuccessData outputs).list = []) {i : ℕ} (hi : i < outputs) {item : Item}
    (hitem : item ∈ (slotAt nodeSuccessData i).list) (herror : item.carriesError = true) :
    ¬ ErrorsRouted t executionData outputs nodeSuccessData routed := by
  rintro ⟨-, errorItems, hslot, hforall⟩
  rw [← hroom, hslot] at hlast
  obtain rfl : errorItems = [] := hlast
  have hnil := List.forall₂_nil_right_iff.1 hforall
  have hmem : item ∈ errorsOf nodeSuccessData outputs :=
    List.mem_flatMap.2 ⟨i, List.mem_range.2 hi, List.mem_filter.2 ⟨hitem, herror⟩⟩
  rw [hnil] at hmem
  exact absurd hmem List.not_mem_nil

theorem errors_routed_iff (w : Workflow) (t : Turn) (executionData : ExecuteData)
    (nodeSuccessData : List Slot) (houtputs : 2 ≤ (w.nodeType executionData.node).mainOutputs)
    (hlast : (slotAt nodeSuccessData
      ((w.nodeType executionData.node).mainOutputs - 1)).list = []) :
    ErrorsRouted t executionData ((w.nodeType executionData.node).mainOutputs - 1) nodeSuccessData
        (handleNodeErrorOutput w t executionData nodeSuccessData).nodeSuccessData ↔
      ∀ outputIndex < (w.nodeType executionData.node).mainOutputs - 1,
        ∀ item ∈ (slotAt nodeSuccessData outputIndex).list,
          item.isSilent = false ∧
            (item.hasErrorData = true → item.Resolvable t executionData) := by
  unfold handleNodeErrorOutput
  dsimp only
  generalize hcount : (w.nodeType executionData.node).mainOutputs - 1 = outputs at hlast ⊢
  have hne : (w.nodeType executionData.node).mainOutputs ≠ 0 := by omega
  by_cases hthrows : ∃ i, 0 ≤ i ∧ i < 0 + outputs ∧ ∃ item ∈ (slotAt nodeSuccessData i).list,
      item.hasErrorData = true ∧ ∃ e, errorItem t executionData item = .error e
  · obtain ⟨herror, hdata⟩ := splitOutputs_throws outputs 0 { nodeSuccessData } hthrows
    obtain ⟨i, -, hlt, item, hitem, hhas, e, he⟩ := hthrows
    rw [if_pos (.inl (Option.isSome_iff_ne_none.2 herror))]
    refine iff_of_false (not_errorsRouted_of_throws (hdata outputs (by omega)) hlast
      (by omega : i < outputs) hitem (carriesError_iff.2 (.inl hhas))) fun h => ?_
    obtain ⟨item', hok⟩ := resolvable_iff.1 ((h i (by omega) item hitem).2 hhas)
    rw [he] at hok
    cases hok
  · have hok : ∀ i, 0 ≤ i → i < 0 + outputs → ∀ item ∈ (slotAt nodeSuccessData i).list,
        item.hasErrorData = true → ∃ item', errorItem t executionData item = .ok item' := by
      intro i hle hlt item hitem hhas
      cases hitem' : errorItem t executionData item with
      | ok item' => exact ⟨item', rfl⟩
      | error e => exact absurd ⟨i, hle, hlt, item, hitem, hhas, e, hitem'⟩ hthrows
    obtain ⟨herror, hdata, errorItems, heq, hforall⟩ :=
      splitOutputs_of_ok outputs 0 { nodeSuccessData } rfl hok
    rw [if_neg (by simp [herror, hne])]
    have hslot : ∀ i < outputs, slotAt (setAt (splitOutputs t executionData outputs 0
        { nodeSuccessData }).nodeSuccessData outputs .hole (.items (splitOutputs t executionData
          outputs 0 { nodeSuccessData }).errorItems)) i =
        .items ((slotAt nodeSuccessData i).list.filter (!·.hasErrorData)) := fun i hi => by
      rw [slotAt_setAt, if_neg (by omega), hdata, if_pos (by omega)]
    constructor
    · rintro ⟨hkept, -⟩ i hi item hitem
      refine ⟨?_, fun hhas => resolvable_iff.2 (hok i (Nat.zero_le i) (by omega) item hitem hhas)⟩
      -- a silent error stays where it is, and should not
      by_contra hsilent
      rw [Bool.not_eq_false] at hsilent
      have hstays : item ∈ (slotAt nodeSuccessData i).list.filter (!·.hasErrorData) :=
        List.mem_filter.2 ⟨hitem, by simp [hasErrorData_of_isSilent hsilent]⟩
      have heq := (hslot i hi).symm.trans (hkept i hi)
      rw [Slot.items.inj heq] at hstays
      have hnot := (List.mem_filter.1 hstays).2
      rw [carriesError_iff.2 (.inr hsilent)] at hnot
      cases hnot
    · intro h
      have hsame : ∀ i < outputs, ∀ item ∈ (slotAt nodeSuccessData i).list,
          item.carriesError = item.hasErrorData := fun i hi item hitem => by
        rw [Bool.eq_iff_iff, carriesError_iff]
        simp [(h i hi item hitem).1]
      refine ⟨fun i hi => ?_, errorItems, ?_, ?_⟩
      · rw [hslot i hi]
        exact congrArg Slot.items (List.filter_congr fun item hitem => by rw [hsame i hi item hitem])
      · rw [slotAt_setAt, if_pos rfl, heq, List.nil_append]
      · rw [range'_zero] at hforall
        have herrors : errorsOf nodeSuccessData outputs = (List.range outputs).flatMap fun i =>
            (slotAt nodeSuccessData i).list.filter (·.hasErrorData) :=
          List.flatMap_congr fun i hi => List.filter_congr fun item hitem =>
            hsame i (List.mem_range.1 hi) item hitem
        rw [herrors]
        exact hforall

/-! ### An item without its source -/

/-- An item whose JSON is an error, and that comes from the first input. -/
def failedItem : Item where
  json := Dict.empty.set "error" (.string "Not found")
  pairedItem := some (.single { item := 0 })

/-- The node has an error output, and its entry has no source for the first input. -/
def withErrorOutput : Workflow where
  nodes := Dict.empty.set "HTTP Request" { name := "HTTP Request", type := "httpRequest" }
  connectionsBySourceNode := .empty
  nodeType _ := { mainOutputs := 2 }

def entryFrom (source : List (Option SourceData)) : ExecuteData where
  node := withErrorOutput.node "HTTP Request"
  data := .empty
  source := some source

def anyTurn : Turn where
  attempt _ := { result := .response none }

theorem errors_routed_with_source : ErrorsRouted anyTurn
    (entryFrom [some { previousNode := "Trigger" }]) 1 [.items [failedItem]]
    (handleNodeErrorOutput withErrorOutput anyTurn
      (entryFrom [some { previousNode := "Trigger" }]) [.items [failedItem]]).nodeSuccessData := by
  refine (errors_routed_iff withErrorOutput anyTurn
    (entryFrom [some { previousNode := "Trigger" }]) [.items [failedItem]] (by decide) rfl).2 ?_
  intro i hi item hitem
  obtain rfl : i = 0 := Nat.lt_one_iff.1 hi
  obtain rfl := List.mem_singleton.1 hitem
  refine ⟨by decide, fun _ => resolvable_iff.2 ⟨failedItem, by decide⟩⟩

/-- Nothing is on the error output, and nothing is left on the other. -/
theorem errors_lost_without_source : ¬ ErrorsRouted anyTurn (entryFrom [none]) 1
    [.items [failedItem]]
    (handleNodeErrorOutput withErrorOutput anyTurn (entryFrom [none])
      [.items [failedItem]]).nodeSuccessData := by
  rintro ⟨-, errorItems, herrors, -⟩
  have hslot : slotAt (handleNodeErrorOutput withErrorOutput anyTurn (entryFrom [none])
      [.items [failedItem]]).nodeSuccessData 1 = .undefined := by decide
  rw [hslot] at herrors
  cases herrors

end N8n
