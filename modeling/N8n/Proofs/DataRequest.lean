import N8n.DataRequest
import N8n.Library.Batches

/-!
# Chunks of input data

A rebuilt chunk has the items before it as undefined ones, but none after it: their number is taken
from the chunk itself. So it is in place exactly when it is the last.
-/

namespace N8n

open DataRequestResponseStripper

variable {ρ π : Type*}

theorem mainSlot_set (inputData : TaskDataConnections) (slot : Slot) :
    mainSlot (inputData.set .main [slot]) = slotAt [slot] 0 := by
  simp [mainSlot]

theorem list_stripChunkedInputData (inputData : TaskDataConnections)
    (chunk : InputDataChunkDefinition) :
    (mainSlot (stripChunkedInputData inputData chunk)).list =
      chunk.slice (mainSlot inputData).list := by
  unfold stripChunkedInputData
  cases hslot : mainSlot inputData with
  | items inputItems => simp [mainSlot_set, slotAt, Slot.list]
  | hole => simp [hslot, Slot.list, InputDataChunkDefinition.slice]
  | undefined => simp [hslot, Slot.list, InputDataChunkDefinition.slice]
  | null => simp [hslot, Slot.list, InputDataChunkDefinition.slice]

namespace DataRequestResponse

variable (response : DataRequestResponse ρ π) (dataOfNodes : DataOfNodes) (prevNode env : Bool)
  {chunk : InputDataChunkDefinition}

/-- Nothing comes after the chunk. -/
theorem chunkedInputItems_eq :
    response.chunkedInputItems dataOfNodes prevNode env chunk =
      List.replicate chunk.startIndex none ++ (chunk.slice response.inputItems).map some := by
  have hlength : (chunk.slice response.inputItems).length ≤ chunk.count :=
    List.length_take_le _ _
  unfold chunkedInputItems reconstructConnectionInputItems
  simp only [strip, stripInputData, Bool.not_true, Bool.false_eq_true, if_false,
    list_stripChunkedInputData, arrayFrom, List.length_map, Int.toNat_natCast]
  have hnone : ((chunk.slice (mainSlot response.inputData).list).length - chunk.startIndex -
      chunk.count : ℤ).toNat = 0 := by
    unfold inputItems at hlength
    omega
  rw [hnone, List.replicate_zero, List.append_nil]
  rfl

theorem length_chunkedInputItems
    (hchunk : chunk.startIndex + chunk.count ≤ response.inputItems.length) :
    (response.chunkedInputItems dataOfNodes prevNode env chunk).length =
      chunk.startIndex + chunk.count := by
  rw [chunkedInputItems_eq]
  simp only [List.length_append, List.length_replicate, List.length_map,
    InputDataChunkDefinition.slice, List.length_take, List.length_drop]
  omega

/-- The items up to the end of the chunk are in place. -/
theorem getElem?_chunkedInputItems
    (hchunk : chunk.startIndex + chunk.count ≤ response.inputItems.length) {i : ℕ}
    (hi : i < chunk.startIndex + chunk.count) :
    (response.chunkedInputItems dataOfNodes prevNode env chunk)[i]? =
      some (if chunk.startIndex ≤ i then response.inputItems[i]? else none) := by
  rw [chunkedInputItems_eq, List.getElem?_append, List.length_replicate]
  split_ifs with hbefore hinside hinside
  · omega
  · rw [List.getElem?_replicate, if_pos hbefore]
  · rw [List.getElem?_map, InputDataChunkDefinition.slice, List.getElem?_take,
      if_pos (by omega), List.getElem?_drop, Nat.add_sub_cancel' hinside,
      List.getElem?_eq_getElem (by omega)]
    rfl
  · omega

/-- A chunk is put back in place exactly when it is the last one. -/
theorem chunk_in_place_iff (hchunk : chunk.startIndex + chunk.count ≤ response.inputItems.length) :
    InPlace response.inputItems chunk
        (response.chunkedInputItems dataOfNodes prevNode env chunk) ↔
      chunk.startIndex + chunk.count = response.inputItems.length := by
  unfold InPlace
  rw [length_chunkedInputItems _ _ _ _ hchunk]
  refine ⟨And.left, fun hlast => ⟨hlast, fun i hi => ?_⟩⟩
  rw [← hlast] at hi
  rw [getElem?_chunkedInputItems _ _ _ _ hchunk hi]
  simp [hi]

/-! ## The chunks of a code node -/

section Chunks

variable {chunkSize : ℕ}

theorem length_chunkInputItems {numInputItems : ℕ} :
    (chunkInputItems chunkSize numInputItems).length =
      (numInputItems + chunkSize - 1) / chunkSize := by
  simp [chunkInputItems]

/-- Every chunk but the last is followed by an item, and the last ends with the items. -/
theorem chunk_end {numInputItems i : ℕ} (hsize : 0 < chunkSize)
    (hi : i < (chunkInputItems chunkSize numInputItems).length) :
    let chunk := (chunkInputItems chunkSize numInputItems)[i]
    chunk.startIndex = i * chunkSize ∧ chunk.startIndex + chunk.count =
      if i + 1 = (chunkInputItems chunkSize numInputItems).length then numInputItems
      else (i + 1) * chunkSize := by
  have hstart : i * chunkSize < numInputItems := by
    rw [length_chunkInputItems, Nat.lt_div_iff_mul_lt hsize] at hi
    omega
  have hlast : i = (numInputItems + chunkSize - 1) / chunkSize - 1 ↔
      i + 1 = (chunkInputItems chunkSize numInputItems).length := by
    rw [length_chunkInputItems] at hi ⊢
    omega
  simp only [chunkInputItems, List.getElem_map, List.getElem_range]
  refine ⟨trivial, ?_⟩
  simp only [hlast, chunkInputItems, List.length_map, List.length_range]
  split_ifs with h
  · omega
  · rw [Nat.succ_mul]

theorem end_lt_of_not_last {numInputItems i : ℕ} (hsize : 0 < chunkSize)
    (hi : i < (chunkInputItems chunkSize numInputItems).length)
    (hlast : i + 1 ≠ (chunkInputItems chunkSize numInputItems).length) :
    (i + 1) * chunkSize < numInputItems := by
  have hnext : i + 1 < (chunkInputItems chunkSize numInputItems).length := by omega
  rw [length_chunkInputItems, Nat.lt_div_iff_mul_lt hsize] at hnext
  omega

/-- The chunks of a list are its batches. -/
theorem flatMap_chunks {α : Type} (hsize : 0 < chunkSize) (xs : List α) :
    ((chunkInputItems chunkSize xs.length).flatMap fun chunk =>
      (xs.drop chunk.startIndex).take chunk.count) = xs := by
  refine Eq.trans ?_ (Batches.flatMap_batch_count hsize)
  rw [chunkInputItems, List.flatMap_map]
  refine List.flatMap_congr fun i hi => ?_
  dsimp only
  split_ifs with hlast
  · have hnext : ¬ i + 1 < Batches.count chunkSize xs.length := by
      have := List.mem_range.1 hi
      unfold Batches.count
      omega
    rw [Batches.lt_count hsize, Nat.succ_mul] at hnext
    rw [Batches.batch, List.take_of_length_le (by simp), List.take_of_length_le (by simp; omega)]
  · rfl

end Chunks

/-! ## Two items in chunks of one -/

/-- The data of a task with two input items. -/
def twoItems : DataRequestResponse Unit Unit where
  inputData := Dict.empty.set .main [.items [⟨.empty, none, .undefined⟩, ⟨.empty, some (.index 1),
    .undefined⟩]]
  connectionInputSource := none
  envProviderState := ⟨.empty, true, false⟩
  runData := .empty
  pinData := none

theorem last_chunk_in_place : InPlace twoItems.inputItems ⟨1, 1⟩
    (twoItems.chunkedInputItems (.nodes []) false false ⟨1, 1⟩) :=
  (chunk_in_place_iff twoItems (.nodes []) false false (by decide)).2 (by decide)

/-- The second item is missing from the list when the first is the chunk. -/
theorem first_chunk_not_in_place : ¬ InPlace twoItems.inputItems ⟨0, 1⟩
    (twoItems.chunkedInputItems (.nodes []) false false ⟨0, 1⟩) := by
  rintro ⟨hlength, -⟩
  exact absurd hlength (by decide)

end DataRequestResponse

end N8n
