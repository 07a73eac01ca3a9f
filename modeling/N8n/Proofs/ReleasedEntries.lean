import Mathlib.Tactic
import N8n.Deliveries
import N8n.Proofs.Deliveries
import N8n.Proofs.RebuiltEntries

/-!
# A released entry carries all lists

A delivery that releases the entry it is written to has found no `null` there. That says that all
other inputs have lists where the entry has a place for each of them.
-/

namespace N8n

variable {w : Workflow} {nodeName : String} {s : WorkflowExecute} {d : Delivery}

/-! ## What is written -/

theorem slotAt_setAt {main : List Slot} {i j : ℕ} {items : List Item} :
    slotAt (setAt main i .hole (.items items)) j =
      if j = i then .items items else slotAt main j := by
  unfold setAt slotAt
  by_cases hj : j = i
  · rw [if_pos hj, hj, List.getElem?_set_self (by simp; omega)]
  · rw [if_neg hj, List.getElem?_set_ne (Ne.symm hj), List.getElem?_append]
    split_ifs with hlt
    · rfl
    · rw [List.getElem?_eq_none (not_lt.1 hlt), List.getElem?_replicate]
      split_ifs <;> rfl

/-- Only other inputs can still be `null`. -/
theorem null_mem_setAt {main : List Slot} {i : ℕ} {items : List Item} :
    Slot.null ∈ setAt main i .hole (.items items) ↔ ∃ j, j ≠ i ∧ main[j]? = some .null := by
  have hget : ∀ j, j ≠ i → ((setAt main i .hole (.items items))[j]? = some .null ↔
      main[j]? = some .null) := by
    intro j hj
    rw [setAt, List.getElem?_set_ne (Ne.symm hj), List.getElem?_append]
    split_ifs with hlt
    · rfl
    · rw [List.getElem?_eq_none (not_lt.1 hlt), List.getElem?_replicate]
      split_ifs <;> simp
  have hself : (setAt main i .hole (.items items))[i]? = some (.items items) := by
    rw [setAt, List.getElem?_set_self (by simp; omega)]
  constructor
  · intro h
    obtain ⟨j, hj⟩ := List.mem_iff_getElem?.1 h
    have hji : j ≠ i := by
      rintro rfl
      rw [hself] at hj
      cases hj
    exact ⟨j, hji, (hget j hji).1 hj⟩
  · rintro ⟨j, hji, hj⟩
    exact List.mem_of_getElem? ((hget j hji).2 hj)

theorem exists_items_of_valid (hd : d.Valid w nodeName) : ∃ items, d.slot = .items items := by
  have htruthy := hd.2
  cases hslot : d.slot with
  | items items => exact ⟨items, rfl⟩
  | hole => simp [hslot, Slot.truthy] at htruthy
  | undefined => simp [hslot, Slot.truthy] at htruthy
  | null => simp [hslot, Slot.truthy] at htruthy

namespace WorkflowExecute

theorem main_of_releasedBy {e : ExecuteData} (he : s.releasedBy w nodeName d = some e) :
    e.main = (s.writtenEntry w nodeName d).main := by
  unfold releasedBy at he
  split_ifs at he
  obtain rfl := Option.some.inj he
  rfl

/-- What a delivery releases carries all lists exactly under the condition on the entry. -/
theorem releasedBy_carriesAll_iff (hd : d.Valid w nodeName) :
    (∀ e ∈ s.releasedBy w nodeName d, CarriesAll w nodeName e) ↔
      s.ReleasesWhole w nodeName d := by
  obtain ⟨items, hitems⟩ := exists_items_of_valid hd
  have hmain : (s.writtenEntry w nodeName d).main =
      setAt (s.entryFor w nodeName d).main d.input .hole (.items items) := by
    rw [writtenEntry, hitems]
  have hcarries : ∀ e, e.main = (s.writtenEntry w nodeName d).main → (CarriesAll w nodeName e ↔
      ∀ i < w.numberOfInputs nodeName, i ≠ d.input →
        ∃ items, slotAt (s.entryFor w nodeName d).main i = .items items) := by
    intro e he
    simp only [CarriesAll, he, hmain, slotAt_setAt]
    refine forall_congr' fun i => forall_congr' fun _ => ?_
    by_cases hi : i = d.input
    · simp [hi]
    · simp [hi]
  unfold ReleasesWhole
  by_cases hnull : Slot.null ∈ (s.writtenEntry w nodeName d).main
  · have hother := hnull
    rw [hmain, null_mem_setAt] at hother
    rw [releasedBy, if_neg (not_not.2 hnull)]
    exact ⟨fun _ => .inl hother, fun _ e he => by cases he⟩
  · have hother := hnull
    rw [hmain, null_mem_setAt] at hother
    rw [or_iff_right hother]
    have hreleased : s.releasedBy w nodeName d = some
        { node := w.node nodeName
          data := Dict.empty.set .main (s.writtenEntry w nodeName d).main
          source := some (s.writtenEntry w nodeName d).source } := by rw [releasedBy, if_pos hnull]
    constructor
    · intro h
      exact (hcarries _ (main_of_releasedBy hreleased)).1 (h _ hreleased)
    · intro h e he
      exact (hcarries e (main_of_releasedBy he)).2 h

end WorkflowExecute

namespace Releases

/-- `A`, `B` and `C` are connected to the three inputs of `N`. -/
def threeWorkflow : Workflow where
  nodes := (((Dict.empty.set "A" nodeA).set "B" nodeB).set "C" { name := "C", type := "set" }).set
    "N" nodeN
  connectionsBySourceNode := ((Dict.empty.set "A"
    (Dict.empty.set .main [some [{ node := "N", type := .main, index := 0 }]])).set "B"
    (Dict.empty.set .main [some [{ node := "N", type := .main, index := 1 }]])).set "C"
    (Dict.empty.set .main [some [{ node := "N", type := .main, index := 2 }]])

/-- The run data of `A`. -/
def runOfA : Dict String (List TaskData) := Dict.empty.set "A" [runWith oneItem]

end Releases

end N8n
