import N8n.SplitInBatches

/-!
# Loop over items conserves items

The context has the items that are left and what has been returned, and nothing of an item but its
pairing is changed.
-/

namespace N8n

namespace SplitInBatches

variable {δ : Type} {batchSize : ℕ} {input : NodeInput δ} {returned : ℕ → NodeInput δ}

@[simp] theorem finishCall_items (context : NodeContext δ) (returnItems : List (LoopItem δ)) :
    (finishCall context returnItems).2.items = context.items := by
  unfold finishCall
  split_ifs <;> rfl

@[simp] theorem finishCall_processedItems (context : NodeContext δ)
    (returnItems : List (LoopItem δ)) :
    (finishCall context returnItems).2.processedItems = context.processedItems := by
  unfold finishCall
  split_ifs <;> rfl

@[simp] theorem finishCall_noItemsLeft (context : NodeContext δ)
    (returnItems : List (LoopItem δ)) :
    (finishCall context returnItems).2.noItemsLeft = context.items.isEmpty := by
  unfold finishCall
  split_ifs <;> rfl

@[simp] theorem finishCall_loop (context : NodeContext δ) (returnItems : List (LoopItem δ)) :
    (finishCall context returnItems).1.loop = returnItems := by
  unfold finishCall
  split_ifs with h
  · exact (List.eq_nil_of_length_eq_zero h).symm
  · rfl

theorem finishCall_done (context : NodeContext δ) (returnItems : List (LoopItem δ)) :
    (finishCall context returnItems).1.done =
      if returnItems = [] then context.processedItems else [] := by
  unfold finishCall
  simp only [List.length_eq_zero_iff]
  split_ifs <;> rfl

theorem map_data_newItems (input : NodeInput δ) :
    (newItems input).map LoopItem.data = input.items.map LoopItem.data := by
  unfold newItems
  refine List.ext_getElem (by simp) fun i _ _ => ?_
  rw [List.getElem_map, List.getElem_map, List.getElem_mapIdx]

/-! ## One call -/

/-- What is left after a call. -/
theorem call_items : ∀ k,
    (call batchSize input returned k).2.items = input.items.drop ((k + 1) * batchSize)
  | 0 => by
    simp [call, execute]
  | k + 1 => by
    simp [call, execute, call_items k, ← Nat.succ_mul]

theorem call_processedItems : ∀ k, (call batchSize input returned k).2.processedItems =
    (List.range k).flatMap fun j => newItems (returned j)
  | 0 => by
    simp [call, execute]
  | k + 1 => by
    simp [call, execute, call_processedItems k, List.range_succ]

/-- A call hands on the next batch. -/
theorem map_data_call_loop : ∀ k, (call batchSize input returned k).1.loop.map LoopItem.data =
    (Batches.batch batchSize input.items k).map LoopItem.data
  | 0 => by
    simp [call, execute, Batches.batch]
  | k + 1 => by
    have hdata : LoopItem.data ∘ (fun item : LoopItem δ => { item with
        pairedItem := some (getPairedItemInformation
          (call batchSize input returned k).2.sourceData item) }) = LoopItem.data := rfl
    simp only [call, execute, Bool.false_eq_true, if_false, finishCall_loop, List.map_map, hdata,
      call_items k, Batches.batch]

theorem call_done : ∀ k, (call batchSize input returned k).1.done =
    if (call batchSize input returned k).1.loop = [] then
      (call batchSize input returned k).2.processedItems
    else []
  | 0 => by
    simp [call, execute, finishCall_done]
  | k + 1 => by
    simp [call, execute, finishCall_done]

theorem call_noItemsLeft (k : ℕ) : (call batchSize input returned k).2.noItemsLeft =
    (input.items.drop ((k + 1) * batchSize)).isEmpty := by
  have hitems : (call batchSize input returned k).2.items = _ := call_items k
  rw [← hitems]
  cases k <;> simp [call, execute]

/-! ## The loop -/

theorem call_loop_eq_nil (hsize : 0 < batchSize) (k : ℕ) :
    (call batchSize input returned k).1.loop = [] ↔
      Batches.count batchSize input.items.length ≤ k := by
  rw [← Batches.batch_eq_nil hsize, ← List.map_eq_nil_iff, map_data_call_loop, List.map_eq_nil_iff]

theorem conserves (batchSize : ℕ) (hsize : 0 < batchSize) (input : NodeInput δ)
    (returned : ℕ → NodeInput δ) : Conserves batchSize input returned where
  batches := by
    simp only [map_data_call_loop]
    rw [← List.map_flatMap, Batches.flatMap_batch_count hsize]
  full k hk := by
    rw [← List.length_map LoopItem.data, map_data_call_loop, List.length_map,
      Batches.length_batch_of_lt hsize hk]
  batch k hk := by
    have hloop : (call batchSize input returned k).1.loop ≠ [] := by
      rw [Ne, call_loop_eq_nil hsize]
      exact not_le.2 hk
    exact ⟨hloop, by rw [call_done, if_neg hloop]⟩
  done := by
    have hloop : (call batchSize input returned
        (Batches.count batchSize input.items.length)).1.loop = [] :=
      (call_loop_eq_nil hsize _).2 le_rfl
    refine ⟨hloop, ?_⟩
    rw [call_done, if_pos hloop, call_processedItems, List.map_flatMap]
    simp only [map_data_newItems]
  noItemsLeft k _ := by
    rw [call_noItemsLeft, List.isEmpty_iff, List.drop_eq_nil_iff, ← not_lt,
      ← Batches.lt_count hsize, not_lt]

/-- Three items in batches of two, where the loop body returns no item and then two. -/
theorem conserves_threeItems : Conserves 2 ⟨[⟨1, none⟩, ⟨2, none⟩, ⟨3, none⟩], none⟩
    fun k => ⟨List.replicate (2 * k) ⟨k, none⟩, none⟩ :=
  conserves 2 (by decide) _ _

end SplitInBatches

end N8n
