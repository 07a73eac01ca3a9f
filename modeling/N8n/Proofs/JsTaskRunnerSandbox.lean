import N8n.JsTaskRunnerSandbox
import N8n.Proofs.DataRequest

/-!
# Chunks are not seen

What comes of an item depends on the item and its index only. The index with which a result is
validated is another one where items were dropped before it, and is seen in the error only.
-/

namespace N8n

open Doubles

namespace Sandbox

variable {ε ρ π : Type}

/-! ## The items of a chunk -/

namespace CodeNode

variable (node : CodeNode ε ρ π)

/-- The item that the runner has for an index. -/
def inputItem (index : ℕ) : Option Item :=
  if node.stripParams.input.included then node.response.inputItems[index]? else none

theorem list_strip (chunk : InputDataChunkDefinition) :
    (mainSlot (DataRequestResponseStripper.mk node.response
      { node.stripParams with
        input := { node.stripParams.input with chunk := some chunk } }).strip.inputData).list =
      if node.stripParams.input.included then chunk.slice node.response.inputItems else [] := by
  unfold DataRequestResponseStripper.strip DataRequestResponseStripper.stripInputData
  cases node.stripParams.input.included with
  | false => rfl
  | true =>
    simp only [Bool.not_true, Bool.false_eq_true, if_false, if_true,
      list_stripChunkedInputData, DataRequestResponse.inputItems]

/-- The items of the chunk are there, in place. -/
theorem getElem?_connectionInputData {chunk : InputDataChunkDefinition} {index : ℕ}
    (hindex : index ∈ List.range' chunk.startIndex chunk.count) :
    ((node.connectionInputData chunk)[index]?).join = node.inputItem index := by
  rw [List.mem_range'_1] at hindex
  have hlength : (chunk.slice node.response.inputItems).length ≤ chunk.count :=
    List.length_take_le _ _
  unfold connectionInputData reconstructConnectionInputItems inputItem
  dsimp only
  rw [list_strip]
  split_ifs with hincluded
  · have hnone : ((chunk.slice node.response.inputItems).length - chunk.startIndex -
        chunk.count : ℤ).toNat = 0 := by
      omega
    rw [List.length_map, arrayFrom, arrayFrom, hnone, List.replicate_zero, List.append_nil,
      List.getElem?_append_right (by simp; omega), List.getElem?_map, List.length_replicate,
      Int.toNat_natCast, InputDataChunkDefinition.slice, List.getElem?_take_of_lt (by omega),
      List.getElem?_drop, Nat.add_sub_cancel' hindex.1]
    cases node.response.inputItems[index]? <;> rfl
  · have hnone : ∀ value ∈ arrayFrom chunk.startIndex ++ List.map some ([] : List Item) ++
        arrayFrom ((List.map some ([] : List Item)).length - chunk.startIndex - chunk.count),
        value = none := by
      intro value hvalue
      simp only [arrayFrom, List.map_nil, List.append_nil, List.mem_append,
        List.mem_replicate] at hvalue
      rcases hvalue with ⟨-, h⟩ | ⟨-, h⟩ <;> exact h
    cases hget : (arrayFrom chunk.startIndex ++ List.map some ([] : List Item) ++
        arrayFrom ((List.map some ([] : List Item)).length - chunk.startIndex -
          chunk.count))[index]? with
    | none => rfl
    | some value => exact hnone value (List.mem_of_getElem? hget)

/-- What the runner does for an index. -/
def runIndex (index : ℕ) : Except ε (List JsValue) := node.runItem index (node.inputItem index)

theorem runForEachItem_eq (chunk : InputDataChunkDefinition) : node.runForEachItem chunk =
    Fallible.collect node.runIndex (List.range' chunk.startIndex chunk.count) := by
  unfold runForEachItem
  refine Fallible.collect_congr fun index hindex => ?_
  rw [node.getElem?_connectionInputData hindex]
  rfl

/-- Together the chunks have each index once. -/
theorem flatMap_indexes {chunkSize : ℕ} (hsize : 0 < chunkSize) (numInputItems : ℕ) :
    ((chunkInputItems chunkSize numInputItems).flatMap fun chunk =>
      List.range' chunk.startIndex chunk.count) = List.range numInputItems := by
  refine Eq.trans ?_ (DataRequestResponse.flatMap_chunks hsize (List.range numInputItems))
  rw [List.length_range]
  refine List.flatMap_congr fun chunk hchunk => ?_
  have hend : chunk.startIndex + chunk.count ≤ numInputItems := by
    obtain ⟨i, hi, rfl⟩ := List.getElem_of_mem hchunk
    obtain ⟨-, hend⟩ := DataRequestResponse.chunk_end hsize hi
    rw [hend]
    split_ifs with hlast
    · exact le_rfl
    · exact (DataRequestResponse.end_lt_of_not_last hsize hi hlast).le
  rw [List.range_eq_range', List.drop_range', List.take_range'_of_length_ge (by omega)]
  simp

/-! ## Results and failures -/

/-- The index is in the errors only. -/
theorem toOption_validate (toText : JsValue → CodeUnits) (value : JsValue) (i j : ℕ) :
    (validateRunCodeEachItem (ε := ε) toText value i).toOption =
      (validateRunCodeEachItem (ε := ε) toText value j).toOption := by
  have hitem : ∀ properties, (validateItem (ε := ε) properties i).toOption =
      (validateItem (ε := ε) properties j).toOption := by
    intro properties
    unfold validateItem
    split_ifs
    · rfl
    · split
      · rfl
      · split_ifs <;> rfl
  have hkeys : ∀ properties, (validateTopLevelKeys (ε := ε) properties i).toOption =
      (validateTopLevelKeys (ε := ε) properties j).toOption := by
    intro properties
    unfold validateTopLevelKeys
    dsimp only
    split
    · rfl
    · split <;> rfl
  unfold validateRunCodeEachItem
  split
  · simp only [Fallible.toOption_bind, hitem, hkeys]
  all_goals rfl

/-- What the node has of an index, or its failure. -/
def outcome (index : ℕ) : Except (SandboxError ε) (List JsValue) :=
  (node.runIndex index).mapError .execution >>= Fallible.collect fun value =>
    (validateRunCodeEachItem node.toText (received value) 0).map ([·])

theorem toOption_validateResult (startIdx : ℕ) (result : List JsValue) :
    (node.validateResult (ε := ε) startIdx result).toOption =
      (Fallible.collect (fun value =>
        (validateRunCodeEachItem (ε := ε) node.toText (received value) 0).map ([·]))
          result).toOption := by
  have hfst : result = result.zipIdx.map Prod.fst := by
    rw [List.zipIdx_map_fst]
  conv_rhs => rw [hfst, Fallible.collect_map]
  refine Fallible.toOption_collect_congr fun ⟨value, i⟩ _ => ?_
  rw [Fallible.toOption_map, Fallible.toOption_map, toOption_validate node.toText _ _ 0]

theorem toOption_runChunk (chunk : InputDataChunkDefinition) : (node.runChunk chunk).toOption =
    (Fallible.collect node.outcome (List.range' chunk.startIndex chunk.count)).toOption := by
  have hcall : ∀ index, (node.outcome index).toOption = (node.runIndex index).toOption.bind
      fun ys => (Fallible.collect (fun value =>
        (validateRunCodeEachItem (ε := ε) node.toText (received value) 0).map ([·]))
          ys).toOption := by
    intro index
    rw [outcome, Fallible.toOption_bind, Fallible.toOption_mapError]
  unfold runChunk
  rw [Fallible.toOption_bind, Fallible.toOption_mapError, runForEachItem_eq,
    ← Fallible.toOption_collect_bind hcall]
  simp only [toOption_validateResult]

/-- The results are those of the items, if none of them fails. -/
theorem toOption_runCodeForEachItem {chunkSize : ℕ} (hsize : 0 < chunkSize) (numInputItems : ℕ) :
    (node.runCodeForEachItem chunkSize numInputItems).toOption =
      node.validateNoDisallowedMethods.toOption.bind fun _ =>
        (Fallible.collect node.outcome (List.range numInputItems)).toOption := by
  unfold runCodeForEachItem
  rw [Fallible.toOption_bind, ← flatMap_indexes hsize, Fallible.collect_flatMap]
  simp only [Fallible.toOption_collect_congr fun chunk _ => node.toOption_runChunk chunk]

end CodeNode

/-! ## Proper items -/

theorem binaryKey_ne : binaryKey ≠ jsonKey ∧ pairedItemKey ≠ jsonKey ∧ pairedItemKey ≠ binaryKey := by
  decide +kernel

theorem throughJson_object {value : JsValue} (h : isObject value = true) :
    ∃ properties, throughJson value = some (.object properties) := by
  cases value <;> first | exact ⟨_, rfl⟩ | cases h

/-- A result with objects under its keys is valid whatever its index. -/
theorem validate_received (toText : JsValue → CodeUnits) {json paired : JsValue}
    (hjson : isObject json = true) (hpaired : isObject paired = true)
    {more : List (CodeUnits × JsValue)}
    (hmore : more = [] ∨ ∃ binary, isObject binary = true ∧ more = [(binaryKey, binary)]) (i : ℕ) :
    validateRunCodeEachItem (ε := ε) toText
        (received (.object ([(jsonKey, json), (pairedItemKey, paired)] ++ more))) i =
      .ok (received (.object ([(jsonKey, json), (pairedItemKey, paired)] ++ more))) := by
  obtain ⟨json', hjson'⟩ := throughJson_object hjson
  obtain ⟨paired', hpaired'⟩ := throughJson_object hpaired
  obtain ⟨hbinary, hpairedJson, hpairedBinary⟩ := binaryKey_ne
  rcases hmore with rfl | ⟨binary, hobject, rfl⟩
  · simp [received, throughJson, throughJsonObject, hjson', hpaired', validateRunCodeEachItem,
      normalizeItem, hasKey, validateItem, read, isObject, validateTopLevelKeys, requiredItemKeys,
      List.lookup_cons]
    rfl
  · obtain ⟨binary', hbinary'⟩ := throughJson_object hobject
    simp [received, throughJson, throughJsonObject, hjson', hpaired', hbinary',
      validateRunCodeEachItem, normalizeItem, hasKey, validateItem, read, isObject,
      validateTopLevelKeys, requiredItemKeys, List.lookup_cons, hbinary, Ne.symm hpairedBinary]
    rfl

theorem extractJsonData_isObject {result : JsValue} (h : IsItem result)
    (htruthy : truthy result = true) : isObject (extractJsonData result) = true := by
  cases h with
  | null => cases htruthy
  | undefined => cases htruthy
  | item properties hjson hbinary =>
    unfold extractJsonData
    dsimp only
    split_ifs with hhas
    · exact hjson hhas
    · rfl
    · rfl

namespace CodeNode

variable {node : CodeNode ε ρ π}

/-- What is pushed for an item is valid. -/
theorem validate_of_mem_runIndex (hitems : node.ReturnsItems) {index : ℕ} {result : List JsValue}
    (hresult : node.runIndex index = .ok result) {value : JsValue} (hvalue : value ∈ result)
    (i : ℕ) : validateRunCodeEachItem (ε := ε) node.toText (received value) i =
      .ok (received value) := by
  unfold runIndex runItem at hresult
  cases hcode : node.code index (node.inputItem index) with
  | error error =>
    rw [hcode] at hresult
    dsimp only at hresult
    split_ifs at hresult
    obtain rfl := Except.ok.inj hresult
    obtain rfl := List.mem_singleton.1 hvalue
    exact validate_received node.toText rfl rfl (.inl rfl) i
  | ok returned =>
    rw [hcode] at hresult
    obtain rfl := Except.ok.inj hresult
    have hitem := hitems _ _ _ hcode
    unfold pushed at hvalue
    split_ifs at hvalue with htruthy hbinary
    · obtain rfl := List.mem_singleton.1 hvalue
      refine validate_received node.toText (extractJsonData_isObject hitem htruthy) rfl
        (.inr ⟨_, ?_, rfl⟩) i
      cases hitem with
      | null => cases htruthy
      | undefined => cases htruthy
      | item properties _ hobject => exact hobject hbinary
    · obtain rfl := List.mem_singleton.1 hvalue
      exact validate_received node.toText (extractJsonData_isObject hitem htruthy) rfl (.inl rfl) i
    · exact absurd hvalue List.not_mem_nil

/-- Where only items are returned nothing is refused by the validation. -/
theorem runChunk_eq (hitems : node.ReturnsItems) (chunk : InputDataChunkDefinition) :
    node.runChunk chunk =
      Fallible.collect (fun index =>
        ((node.runIndex index).mapError SandboxError.execution).map (List.map received))
          (List.range' chunk.startIndex chunk.count) := by
  rw [← Fallible.mapError_map_collect, runChunk, runForEachItem_eq]
  cases hrun : Fallible.collect node.runIndex (List.range' chunk.startIndex chunk.count) with
  | error error => rfl
  | ok result =>
    change node.validateResult chunk.startIndex result = .ok (result.map received)
    have hfst : result.map received = result.zipIdx.map fun entry => received entry.1 := by
      conv_lhs => rw [← List.zipIdx_map_fst 0 result, List.map_map]
      rfl
    rw [hfst, ← Fallible.collect_singleton]
    refine Fallible.collect_congr fun ⟨value, i⟩ hmem => ?_
    obtain ⟨index, -, pushed, hpushed, hvalue⟩ :=
      Fallible.exists_of_mem_collect hrun (List.fst_mem_of_mem_zipIdx hmem)
    dsimp only at hvalue ⊢
    rw [validate_of_mem_runIndex hitems hpushed hvalue]
    rfl

theorem runCodeForEachItem_eq (hitems : node.ReturnsItems) {chunkSize : ℕ}
    (hsize : 0 < chunkSize) (numInputItems : ℕ) :
    node.runCodeForEachItem chunkSize numInputItems = node.validateNoDisallowedMethods >>= fun _ =>
      Fallible.collect (fun index =>
        ((node.runIndex index).mapError SandboxError.execution).map (List.map received))
          (List.range numInputItems) := by
  unfold runCodeForEachItem
  rw [← flatMap_indexes hsize, Fallible.collect_flatMap]
  simp only [Fallible.collect_congr fun chunk _ => runChunk_eq hitems chunk]

/-- A node that drops the first of its two items, and fails for the second. -/
def dropsFirst : CodeNode Unit Unit Unit where
  code index _ := if index = 0 then .ok .null else .error ()
  errorMessage _ := []
  continueOnFail := true
  validateNoDisallowedMethods := .ok ()
  response := DataRequestResponse.twoItems
  stripParams := ⟨.all, false, ⟨true, none⟩, false⟩
  toText _ := []

end CodeNode

end Sandbox

end N8n
