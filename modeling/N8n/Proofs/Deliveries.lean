import Mathlib.Tactic
import N8n.Deliveries
import N8n.Library.Join

/-!
# Deliveries are kept and paired in order

The waiting entries of a node are the rows of a table whose columns are the queues of its inputs:
a delivery goes to the first entry that lacks its input, which is the one at the end of its queue.
So the node joins its inputs, as long as a new entry comes last. It does when the entries start at
index 0, and it does not once the first of them has left: the new entry is put under the number of
entries, where an older one may still wait.
-/

namespace N8n

variable {n : ℕ}

/-! ## The table of waiting lists -/

/-- The lists at one place of the queues. -/
def rowAt (queues : Fin n → List (List Item)) (t : ℕ) : List Slot :=
  List.ofFn fun i => ((queues i)[t]?).elim .null .items

@[simp] theorem length_rowAt (queues : Fin n → List (List Item)) (t : ℕ) :
    (rowAt queues t).length = n := by
  simp [rowAt]

theorem getElem?_rowAt (queues : Fin n → List (List Item)) (t : ℕ) (i : Fin n) :
    (rowAt queues t)[(i : ℕ)]? = some (((queues i)[t]?).elim .null .items) := by
  rw [rowAt, List.getElem?_ofFn, dif_pos i.isLt]

theorem slotAt_rowAt (queues : Fin n → List (List Item)) (t : ℕ) (i : Fin n) :
    slotAt (rowAt queues t) i = ((queues i)[t]?).elim .null .items := by
  rw [slotAt, getElem?_rowAt]
  cases (queues i)[t]? <;> rfl

theorem truthy_rowAt (queues : Fin n → List (List Item)) (t : ℕ) (i : Fin n) :
    (slotAt (rowAt queues t) i).truthy = decide (t < (queues i).length) := by
  rw [slotAt_rowAt]
  by_cases h : t < (queues i).length
  · simp [h, Slot.truthy]
  · simp [h, Slot.truthy]

theorem null_notMem_rowAt {queues : Fin n → List (List Item)} {t : ℕ} :
    Slot.null ∉ rowAt queues t ↔ ∀ i, t < (queues i).length := by
  simp only [rowAt, List.mem_ofFn, not_exists]
  refine forall_congr' fun i => ?_
  by_cases h : t < (queues i).length
  · simp [h]
  · simp [h]

/-- The table of the queues, as long as the longest of them. -/
structure Layout (queues : Fin n → List (List Item)) (mains : List (List Slot)) : Prop where
  row : ∀ t < mains.length, mains[t]? = some (rowAt queues t)
  le : ∀ i, (queues i).length ≤ mains.length
  lt : ∀ t < mains.length, ∃ i, t < (queues i).length

theorem Layout.nil : Layout (fun _ : Fin n => []) [] :=
  ⟨fun _ h => absurd h (Nat.not_lt_zero _), fun _ => le_rfl, fun _ h => absurd h (Nat.not_lt_zero _)⟩

/-- A table is written at the end of a queue: in the row that is there, or in a new one. -/
def writeRow {α : Type*} (rows : List α) (t : ℕ) (row : α) : List α :=
  if t < rows.length then rows.set t row else rows ++ [row]

theorem map_writeRow {α β : Type*} (f : α → β) (rows : List α) (t : ℕ) (row : α) :
    (writeRow rows t row).map f = writeRow (rows.map f) t (f row) := by
  unfold writeRow
  simp only [List.length_map]
  split_ifs <;> simp

theorem length_writeRow {α : Type*} {rows : List α} {t : ℕ} (h : t ≤ rows.length) (row : α) :
    (writeRow rows t row).length = max rows.length (t + 1) := by
  unfold writeRow
  split_ifs
  · simp only [List.length_set]
    omega
  · simp only [List.length_append, List.length_singleton]
    omega

theorem getElem?_writeRow {α : Type*} {rows : List α} {t : ℕ} (h : t ≤ rows.length) (row : α)
    (t' : ℕ) : (writeRow rows t row)[t']? = if t' = t then some row else rows[t']? := by
  unfold writeRow
  split_ifs with h₁ h₂ h₃
  · simp [h₂, h₁]
  · rw [List.getElem?_set_ne (Ne.symm h₂)]
  · rw [h₃, show t = rows.length by omega, List.getElem?_concat_length]
  · rcases Nat.lt_or_ge t' rows.length with hlt | hge
    · rw [List.getElem?_append_left hlt]
    · rw [List.getElem?_eq_none (by simp; omega), List.getElem?_eq_none hge]

section Write

variable {queues : Fin n → List (List Item)} {i : Fin n} {x : List Item}

theorem rowAt_update_of_ne {t : ℕ} (h : t ≠ (queues i).length) :
    rowAt (Function.update queues i (queues i ++ [x])) t = rowAt queues t := by
  unfold rowAt
  congr 1
  funext i'
  by_cases hi : i' = i
  · subst hi
    rw [Function.update_self]
    congr 1
    rcases Nat.lt_or_ge t (queues i').length with hlt | hge
    · rw [List.getElem?_append_left hlt]
    · rw [List.getElem?_eq_none (by simp; omega), List.getElem?_eq_none hge]
  · rw [Function.update_of_ne hi]

/-- A delivery fills the place at the end of its queue. -/
theorem setAt_rowAt :
    setAt (rowAt queues (queues i).length) i .hole (.items x) =
      rowAt (Function.update queues i (queues i ++ [x])) (queues i).length := by
  have hi : (i : ℕ) + 1 - (rowAt queues (queues i).length).length = 0 := by
    have := i.isLt
    simp only [length_rowAt]
    omega
  rw [setAt, hi, List.replicate_zero, List.append_nil]
  apply List.ext_getElem?
  intro k
  rcases Nat.lt_or_ge k n with hk | hk
  · rw [getElem?_rowAt _ _ ⟨k, hk⟩]
    by_cases hki : (i : ℕ) = k
    · obtain rfl : i = ⟨k, hk⟩ := Fin.ext hki
      rw [List.getElem?_set_self (by simpa using hk), Function.update_self,
        List.getElem?_concat_length]
      rfl
    · have hne : (⟨k, hk⟩ : Fin n) ≠ i := fun h => hki (congrArg Fin.val h).symm
      rw [List.getElem?_set_ne hki, getElem?_rowAt _ _ ⟨k, hk⟩, Function.update_of_ne hne]
  · rw [List.getElem?_eq_none (by simpa using hk), List.getElem?_eq_none (by simpa using hk)]

theorem Layout.write {mains : List (List Slot)} (h : Layout queues mains) :
    Layout (Function.update queues i (queues i ++ [x]))
      (writeRow mains (queues i).length
        (rowAt (Function.update queues i (queues i ++ [x])) (queues i).length)) := by
  have hle := h.le i
  refine ⟨fun t ht => ?_, fun i' => ?_, fun t ht => ?_⟩
  · rw [getElem?_writeRow hle]
    split_ifs with hti
    · rw [hti]
    · rw [length_writeRow hle] at ht
      rw [h.row t (by omega), rowAt_update_of_ne hti]
  · rw [length_writeRow hle]
    by_cases hi : i' = i
    · subst hi
      simp
    · rw [Function.update_of_ne hi]
      exact (h.le i').trans (le_max_left _ _)
  · rw [length_writeRow hle] at ht
    by_cases hti : t = (queues i).length
    · exact ⟨i, by simp [hti]⟩
    · obtain ⟨i', hi'⟩ := h.lt t (by omega)
      refine ⟨i', ?_⟩
      by_cases hi : i' = i
      · subst hi
        rw [Function.update_self, List.length_append]
        omega
      · rwa [Function.update_of_ne hi]

/-- The first row leaves when it is full. -/
theorem Layout.release {main : List Slot} {mains : List (List Slot)}
    (h : Layout queues (main :: mains)) :
    Layout (fun i => (queues i).tail) mains := by
  have hshift : ∀ t, rowAt (fun i => (queues i).tail) t = rowAt queues (t + 1) := fun t => by
    unfold rowAt
    congr 1
    funext i
    rw [List.getElem?_tail]
  refine ⟨fun t ht => ?_, fun i => ?_, fun t ht => ?_⟩
  · rw [hshift, ← h.row (t + 1) (by simpa using ht), List.getElem?_cons_succ]
  · have := h.le i
    simp only [List.length_cons, List.length_tail] at this ⊢
    omega
  · obtain ⟨i, hi⟩ := h.lt (t + 1) (by simpa using ht)
    exact ⟨i, by rw [List.length_tail]; omega⟩

end Write

/-! ## Where a delivery is written -/

theorem find?_consecutiveEntries {p : WaitingEntry → Bool} : ∀ (b : ℕ) (es : List WaitingEntry)
    (m : ℕ), m ≤ es.length → (∀ t < m, ∀ e, es[t]? = some e → p e = false) →
    (∀ e, es[m]? = some e → p e = true) →
    (IndexMap.consecutiveEntries b es).find? (fun entry => p entry.2) =
      (es[m]?).map fun e => (b + m, e)
  | _, [], m, hm, _, _ => by
    obtain rfl := Nat.le_zero.1 hm
    rfl
  | b, e :: es, 0, _, _, hp => by
    rw [IndexMap.consecutiveEntries, List.find?_cons_of_pos]
    · rfl
    · exact hp e rfl
  | b, e :: es, m + 1, hm, hnp, hp => by
    have ih := find?_consecutiveEntries (b + 1) es m (Nat.le_of_succ_le_succ hm)
      (fun t ht => hnp (t + 1) (Nat.succ_lt_succ ht)) hp
    rw [IndexMap.consecutiveEntries, List.find?_cons_of_neg, ih]
    · simp only [List.getElem?_cons_succ, Nat.add_assoc, Nat.add_comm 1 m]
    · simpa using hnp 0 (Nat.succ_pos m) e rfl

/-- A delivery is written at the end of its queue, if a new entry comes last. -/
theorem waitingEntryFor_consecutive {queues : Fin n → List (List Item)} {b : ℕ}
    {es : List WaitingEntry} (h : Layout queues (es.map (·.main))) (i : Fin n)
    (hb : (queues i).length < es.length ∨ b = 0) :
    ∃ entry : WaitingEntry, entry.main = rowAt queues (queues i).length ∧
      WorkflowExecute.waitingEntryFor (IndexMap.consecutive b es) i n =
        (b + (queues i).length, entry) := by
  have hle : (queues i).length ≤ es.length := by simpa using h.le i
  have hmain : ∀ t e, es[t]? = some e → e.main = rowAt queues t := fun t e he => by
    have hlt := (List.getElem?_eq_some_iff.1 he).1
    have := h.row t (by simpa using hlt)
    rw [List.getElem?_map, he] at this
    exact Option.some.inj this
  have hfind := find?_consecutiveEntries (p := fun e => !(slotAt e.main i).truthy) b es _ hle
    (fun t ht e he => by simp [hmain t e he, truthy_rowAt, ht])
    (fun e he => by simp [hmain _ e he, truthy_rowAt])
  unfold WorkflowExecute.waitingEntryFor
  rw [show (IndexMap.consecutive b es).entries = IndexMap.consecutiveEntries b es from rfl, hfind]
  rcases Nat.lt_or_ge (queues i).length es.length with hlt | hge
  · rw [List.getElem?_eq_getElem hlt]
    exact ⟨_, hmain _ _ (List.getElem?_eq_getElem hlt), rfl⟩
  · have hm : (queues i).length = es.length := le_antisymm hle hge
    obtain rfl := hb.resolve_left (by omega)
    rw [List.getElem?_eq_none hge]
    refine ⟨WorkflowExecute.prepareWaitingToExecution n, ?_, by simp [hm]⟩
    have hnone : ∀ i', ((queues i')[(queues i).length]?).elim Slot.null Slot.items = .null :=
      fun i' => by
        have := h.le i'
        rw [List.getElem?_eq_none (by simpa [hm] using this)]
        rfl
    simp only [rowAt, hnone, WorkflowExecute.prepareWaitingToExecution, List.ofFn_const]

theorem set_writeRow {b : ℕ} {es : List WaitingEntry} {m : ℕ} (h : m ≤ es.length)
    (entry : WaitingEntry) :
    (IndexMap.consecutive b es).set (b + m) entry = IndexMap.consecutive b (writeRow es m entry) := by
  unfold writeRow
  split_ifs with hlt
  · exact IndexMap.consecutive_set b _ hlt entry
  · rw [show m = es.length by omega]
    exact IndexMap.consecutive_append b es entry

/-! ## One delivery -/

theorem Outcome.forEach_state {α : Type*} {f : WorkflowExecute → α → Outcome} {s : WorkflowExecute}
    (h : ∀ x, (f s x).state = s) : ∀ xs : List α, (Outcome.forEach f s xs).state = s
  | [] => rfl
  | x :: xs => by
    unfold Outcome.forEach Outcome.andThen
    split_ifs
    · exact h x
    · rw [h x]
      exact Outcome.forEach_state h xs

namespace WorkflowExecute

variable {w : Workflow}

/-- In execution order v1 no parent is forced to run. -/
theorem addMissingParents_state (hv1 : w.isLegacyExecutionOrder = false) (s : WorkflowExecute)
    (nodeName : String) (outputIndex : ℕ) (parentNodeName : String) (nodeSuccessData : List Slot)
    (runIndex : ℕ) :
    (s.addMissingParents w nodeName outputIndex parentNodeName nodeSuccessData runIndex).state
      = s := by
  unfold addMissingParents
  split
  · rfl
  · refine Outcome.forEach_state (fun inputData => ?_) _
    simp only [addMissingParent, hv1, Bool.not_false, if_true, ite_self]
    split_ifs
    · rfl
    · split
      · rfl
      · split <;> rfl
    · rfl

theorem enqueue_v1 (hv1 : w.isLegacyExecutionOrder = false) (s : WorkflowExecute)
    (e : ExecuteData) :
    s.enqueue w e = { s with nodeExecutionStack := e :: s.nodeExecutionStack } := by
  simp [enqueue, hv1]

end WorkflowExecute

/-- The lists of a row, as the inputs of an entry. -/
def rowMain (row : Fin n → List Item) : List Slot := List.ofFn fun i => .items (row i)

/-- The waiting entries and the pushed entries of the node are those of the join. -/
structure Joined (w : Workflow) (nodeName : String) (s₀ : WorkflowExecute)
    (j : Join (Fin n) (List Item)) (s : WorkflowExecute) : Prop where
  table : ∃ b es, (s.waitingExecution.get? nodeName).getD .empty = IndexMap.consecutive b es ∧
    (s.waitingExecution.get? nodeName = none ↔ es = []) ∧ Layout j.queues (es.map (·.main))
  stack : ∃ pushed : List ExecuteData,
    s.nodeExecutionStack = pushed.reverse ++ s₀.nodeExecutionStack ∧
      (∀ e ∈ pushed, e.node = w.node nodeName) ∧ pushed.map (·.main) = j.rows.map rowMain

section Step

variable {w : Workflow} {nodeName : String} {s₀ s : WorkflowExecute}
  {j : Join (Fin n) (List Item)} {i : Fin n} {x : List Item}

/-- The entries can be counted from an index at which a delivery to `i` is written in order. -/
theorem Joined.base (h : Joined w nodeName s₀ j s)
    (hkeeps : ∀ waiting ∈ s.waitingExecution.get? nodeName, 0 ∈ waiting.keys ∨
      ∃ entry ∈ waiting.entries, (slotAt entry.2.main i).truthy = false) :
    ∃ b es, (s.waitingExecution.get? nodeName).getD .empty = IndexMap.consecutive b es ∧
      Layout j.queues (es.map (·.main)) ∧ ((j.queues i).length < es.length ∨ b = 0) := by
  obtain ⟨b, es, hwaiting, hnone, hlayout⟩ := h.table
  cases hget : s.waitingExecution.get? nodeName with
  | none =>
    obtain rfl := hnone.1 hget
    exact ⟨0, [], by rw [← hget, hwaiting]; exact IndexMap.ext rfl, hlayout, .inr rfl⟩
  | some waiting =>
    refine ⟨b, es, by rw [← hget, hwaiting], hlayout, ?_⟩
    have heq : waiting = IndexMap.consecutive b es := by simpa [hget] using hwaiting
    rcases hkeeps waiting hget with hzero | ⟨entry, hentry, hlacks⟩
    · rw [heq] at hzero
      exact .inr (Nat.le_zero.1 (IndexMap.le_of_mem_consecutiveEntries hzero))
    · rw [heq] at hentry
      obtain ⟨t, ht, hmain⟩ : ∃ t < es.length, entry.2.main = rowAt j.queues t := by
        have hmem : entry.2 ∈ es := IndexMap.mem_of_mem_consecutiveEntries hentry
        obtain ⟨t, ht⟩ := List.mem_iff_getElem?.1 hmem
        have hlt := (List.getElem?_eq_some_iff.1 ht).1
        have hrow := hlayout.row t (by simpa using hlt)
        rw [List.getElem?_map, ht] at hrow
        exact ⟨t, hlt, Option.some.inj hrow⟩
      rw [hmain, truthy_rowAt, decide_eq_false_iff_not] at hlacks
      exact .inl (by omega)

theorem rowAt_zero {queues : Fin n → List (List Item)} (h : ∀ i, queues i ≠ []) :
    rowAt queues 0 = rowMain fun i => (queues i).head (h i) := by
  unfold rowAt rowMain
  congr 1
  funext i
  rw [← List.head?_eq_getElem?, List.head?_eq_some_head (h i)]
  rfl

theorem writeRow_zero {α : Type*} (rows : List α) (row : α) :
    writeRow rows 0 row = row :: rows.tail := by
  cases rows <;> simp [writeRow]

/-- A row is full when every input has a list. -/
theorem null_notMem_row (hwaits : j.Waits) :
    Slot.null ∉ rowAt (j.queued i x) (j.queues i).length ↔ ∀ i', j.queued i x i' ≠ [] := by
  rw [null_notMem_rowAt]
  refine ⟨fun h i' => List.ne_nil_of_length_pos (Nat.zero_lt_of_lt (h i')), fun h i' => ?_⟩
  rw [Join.queue_eq_nil hwaits h]
  exact List.length_pos_iff.2 (h i')

theorem addToWaiting_joined (hv1 : w.isLegacyExecutionOrder = false)
    (hn : w.numberOfInputs nodeName = n) (h : Joined w nodeName s₀ j s) (hwaits : j.Waits)
    (hkeeps : ∀ waiting ∈ s.waitingExecution.get? nodeName, 0 ∈ waiting.keys ∨
      ∃ entry ∈ waiting.entries, (slotAt entry.2.main i).truthy = false)
    {outputIndex : ℕ} {nodeSuccessData : List Slot}
    (hx : slotAt nodeSuccessData outputIndex = .items x) (parentNodeName : String) (runIndex : ℕ) :
    Joined w nodeName s₀ (j.arrive i x) (s.addToWaiting w
      { node := nodeName, type := .main, index := i } outputIndex parentNodeName nodeSuccessData
      runIndex).state := by
  obtain ⟨b, es, hwaiting, hlayout, hb⟩ := h.base hkeeps
  obtain ⟨pushed, hstack, hnode, hrows⟩ := h.stack
  have hle : (j.queues i).length ≤ es.length := by simpa using hlayout.le i
  obtain ⟨entry, hmain, hfor⟩ := waitingEntryFor_consecutive hlayout i hb
  have hqueued : Function.update j.queues i (j.queues i ++ [x]) = j.queued i x := rfl
  simp only [WorkflowExecute.addToWaiting, hwaiting, hn, hfor, hx, set_writeRow hle, hmain,
    setAt_rowAt, hqueued]
  set entry' : WaitingEntry :=
    { main := rowAt (j.queued i x) (j.queues i).length
      source := setAt entry.source i none
        (some (WorkflowExecute.sourceOf parentNodeName outputIndex runIndex)) } with hentry'
  have hwrite : Layout (j.queued i x) ((writeRow es (j.queues i).length entry').map (·.main)) := by
    rw [map_writeRow]
    exact hlayout.write
  by_cases hfull : ∀ i', j.queued i x i' ≠ []
  · -- the input delivered to was the only one that lacked a list, so the first row leaves
    have hlen : (j.queues i).length = 0 := by rw [Join.queue_eq_nil hwaits hfull]; rfl
    rw [if_pos ((null_notMem_row hwaits).2 hfull), Join.arrive_of_release hfull,
      WorkflowExecute.enqueue_v1 hv1]
    simp only [hlen, writeRow_zero, Nat.add_zero, IndexMap.consecutive_erase_head,
      IndexMap.size_consecutive] at hwrite ⊢
    let e : ExecuteData :=
      { node := w.node nodeName
        data := Dict.empty.set .main (rowAt (j.queued i x) 0)
        source := some entry'.source }
    refine ⟨⟨b + 1, es.tail, ?_, ?_, hwrite.release⟩, ⟨pushed ++ [e], ?_, ?_, ?_⟩⟩
    · split_ifs with hsize
      · rw [List.length_eq_zero_iff.1 hsize, Dict.get?_erase_self]
        exact IndexMap.ext rfl
      · rw [Dict.get?_set_self]
        rfl
    · split_ifs with hsize
      · simp [List.length_eq_zero_iff.1 hsize]
      · simp [mt List.length_eq_zero_iff.2 hsize]
    · rw [List.reverse_append, List.reverse_singleton, List.singleton_append, List.cons_append,
        ← hstack]
    · intro e' he'
      rcases List.mem_append.1 he' with he' | he'
      · exact hnode e' he'
      · rw [List.mem_singleton.1 he']
    · rw [List.map_append, hrows, Join.release, List.map_append, List.map_singleton,
        List.map_singleton, ← rowAt_zero hfull]
      simp [ExecuteData.main, e]
  · rw [if_neg (mt (null_notMem_row hwaits).1 hfull), Join.arrive_of_wait hfull]
    have hstate : ∀ (c : Prop) [Decidable c] (t : WorkflowExecute) (o : Outcome), o.state = t →
        (if c then { state := t } else o : Outcome).state = t := by
      intro c _ t o ho
      split_ifs
      · rfl
      · exact ho
    rw [hstate _ _ _ (WorkflowExecute.addMissingParents_state hv1 _ _ _ _ _ _)]
    refine ⟨⟨b, _, ?_, ?_, hwrite⟩, ⟨pushed, hstack, hnode, hrows⟩⟩
    · rw [Dict.get?_set_self]
      rfl
    · have hne : writeRow es (j.queues i).length entry' ≠ [] := fun hnil => by
        have := length_writeRow hle entry'
        rw [hnil, List.length_nil] at this
        omega
      simp [hne]

end Step

/-! ## What is held and what is carried -/

theorem slotAt_of_length_le {main : List Slot} {i : ℕ} (h : main.length ≤ i) :
    slotAt main i = .undefined := by
  rw [slotAt, List.getElem?_eq_none h]

theorem inputList?_eq_some {main : List Slot} {t i : ℕ} {x : List Item} :
    inputList? main t = some (i, x) ↔ t = i ∧ slotAt main i = .items x := by
  unfold inputList?
  by_cases ht : t = i
  · subst ht
    cases slotAt main t <;> simp
  · cases slotAt main t <;> simp [ht]

theorem count_inputLists (i : ℕ) (x : List Item) (main : List Slot) :
    (inputLists main).count (i, x) = if slotAt main i = .items x then 1 else 0 := by
  have hpred : ∀ t, (Option.map (· == (i, x)) (inputList? main t)).getD false = true ↔
      (t == i && decide (slotAt main i = .items x)) = true := fun t => by
    rw [Bool.and_eq_true, beq_iff_eq, decide_eq_true_iff, ← inputList?_eq_some]
    cases inputList? main t <;> simp
  rw [inputLists, List.count, List.countP_filterMap, List.countP_congr fun t _ => hpred t]
  by_cases hx : slotAt main i = .items x
  · have hlt : i < main.length := by
      by_contra hge
      rw [slotAt_of_length_le (not_lt.1 hge)] at hx
      cases hx
    simp only [hx, decide_true, Bool.and_true, if_true]
    exact (List.nodup_range.count (a := i)).trans (if_pos (List.mem_range.2 hlt))
  · simp [hx]

theorem count_flatMap_inputLists {α : Type*} (f : α → List Slot) (i : ℕ) (x : List Item)
    (es : List α) : (es.flatMap fun e => inputLists (f e)).count (i, x) =
      (es.map f).countP fun main => slotAt main i = .items x := by
  induction es with
  | nil => rfl
  | cons e es ih =>
    rw [List.flatMap_cons, List.count_append, ih, count_inputLists, List.map_cons, List.countP_cons]
    by_cases h : slotAt (f e) i = .items x <;> simp [h, Nat.add_comm]

theorem countP_range_getElem? (x : List Item) : ∀ (l : List (List Item)) (k : ℕ), l.length ≤ k →
    ((List.range k).countP fun t => l[t]? = some x) = l.count x
  | [], k, _ => by simp
  | y :: l, k + 1, h => by
    have ih := countP_range_getElem? x l k (Nat.le_of_succ_le_succ h)
    rw [List.range_succ_eq_map, List.countP_cons, List.countP_map, List.count_cons, ← ih]
    simp [Function.comp_def]

theorem Layout.count {queues : Fin n → List (List Item)} {mains : List (List Slot)}
    (h : Layout queues mains) (i : Fin n) (x : List Item) :
    (mains.countP fun main => slotAt main i = .items x) = (queues i).count x := by
  have hmains : mains = (List.range mains.length).map (rowAt queues) := by
    apply List.ext_getElem?
    intro t
    rcases Nat.lt_or_ge t mains.length with hlt | hge
    · rw [h.row t hlt, List.getElem?_map, List.getElem?_range hlt]
      rfl
    · rw [List.getElem?_eq_none hge, List.getElem?_eq_none (by simpa using hge)]
  rw [hmains, List.countP_map, ← countP_range_getElem? x (queues i) _ (h.le i)]
  congr 1
  funext t
  simp only [Function.comp_apply, slotAt_rowAt]
  cases (queues i)[t]? <;> simp

theorem slotAt_rowMain (row : Fin n → List Item) (i : Fin n) :
    slotAt (rowMain row) i = .items (row i) := by
  rw [slotAt, rowMain, List.getElem?_ofFn, dif_pos i.isLt]

theorem count_rows (rows : List (Fin n → List Item)) (i : Fin n) (x : List Item) :
    ((rows.map rowMain).countP fun main => slotAt main i = .items x) =
      (rows.map (· i)).count x := by
  rw [List.countP_map, List.count, List.countP_map]
  refine List.countP_congr fun row _ => ?_
  simp [slotAt_rowMain]

namespace Feed

variable {w : Workflow} {nodeName : String} {s₀ : WorkflowExecute} {f : Feed}

theorem count_delivered (i : ℕ) (x : List Item) (f : Feed) :
    f.delivered.count (i, x) = (f.arrivedAt i).count x := by
  unfold arrivedAt
  rw [List.count, List.count, List.countP_filterMap]
  congr 1
  funext arrival
  by_cases h : arrival.1 = i
  · simp [h, Prod.ext_iff]
  · simp [h, Prod.ext_iff]

/-- The node has joined what was delivered to its inputs. -/
def Joins (w : Workflow) (nodeName : String) (s₀ : WorkflowExecute) (n : ℕ) (f : Feed) : Prop :=
  (∃ j : Join (Fin n) (List Item), Joined w nodeName s₀ j f.state ∧ j.Waits ∧
    ∀ i : Fin n, j.arrived i = f.arrivedAt i) ∧ ∀ arrival ∈ f.delivered, arrival.1 < n

theorem Joins.kept (h : f.Joins w nodeName s₀ (w.numberOfInputs nodeName)) :
    f.Kept w nodeName s₀ := by
  obtain ⟨⟨j, hj, -, harrived⟩, hlt⟩ := h
  obtain ⟨b, es, hwaiting, -, hlayout⟩ := hj.table
  obtain ⟨pushed, hstack, hnode, hrows⟩ := hj.stack
  have hpushed : f.state.pushedSince s₀ = pushed := by
    simp [WorkflowExecute.pushedSince, hstack]
  have hheld : f.state.waitingEntries nodeName = es := by
    rw [WorkflowExecute.waitingEntries, hwaiting]
    exact IndexMap.map_snd_consecutiveEntries b es
  refine ⟨⟨pushed.reverse, hstack.symm⟩, hpushed ▸ hnode, ?_, fun k e he i hi => ?_⟩
  · rw [hpushed, hheld, List.perm_iff_count]
    rintro ⟨i, x⟩
    rw [List.count_append, count_flatMap_inputLists, count_flatMap_inputLists, count_delivered,
      hrows]
    rcases Nat.lt_or_ge i (w.numberOfInputs nodeName) with hi | hi
    · rw [← harrived ⟨i, hi⟩, Join.arrived, List.count_append, ← hlayout.count ⟨i, hi⟩ x,
        ← count_rows j.rows ⟨i, hi⟩ x, Nat.add_comm]
    · have hzero : f.delivered.count (i, x) = 0 :=
        List.count_eq_zero.2 fun hmem => absurd (hlt _ hmem) (not_lt.2 hi)
      have hnone : ∀ mains : List (List Slot), (∀ main ∈ mains, main.length ≤ i) →
          (mains.countP fun main => slotAt main i = .items x) = 0 := fun mains hlen =>
        List.countP_eq_zero.2 fun main hmain => by simp [slotAt_of_length_le (hlen main hmain)]
      rw [← count_delivered, hzero, hnone _ fun main hmain => ?_, hnone _ fun main hmain => ?_]
      · obtain ⟨row, -, rfl⟩ := List.mem_map.1 hmain
        simpa [rowMain] using hi
      · obtain ⟨t, ht⟩ := List.mem_iff_getElem?.1 hmain
        have hrow := hlayout.row t (List.getElem?_eq_some_iff.1 ht).1
        rw [ht, Option.some.injEq] at hrow
        simpa [hrow] using hi
  · rw [hpushed] at he
    obtain ⟨row, hrow, hmain⟩ : ∃ row, j.rows[k]? = some row ∧ rowMain row = e.main := by
      have := congrArg (·[k]?) hrows
      simp only [List.getElem?_map, he, Option.map_some] at this
      cases hrow : j.rows[k]? with
      | none => simp [hrow] at this
      | some row => exact ⟨row, rfl, by simpa [hrow] using this.symm⟩
    refine ⟨row ⟨i, hi⟩, ?_, ?_⟩
    · rw [← harrived ⟨i, hi⟩]
      exact Join.getElem?_arrived hrow _
    · rw [← hmain, rowMain, List.getElem?_ofFn, dif_pos hi]

theorem Joins.start (hn : 1 < w.numberOfInputs nodeName)
    (hs : s₀.waitingExecution.get? nodeName = none) :
    Feed.Joins w nodeName s₀ (w.numberOfInputs nodeName) ⟨s₀, []⟩ := by
  refine ⟨⟨Join.empty, ⟨⟨0, [], ?_, ?_, Layout.nil⟩, ⟨[], rfl, ?_, rfl⟩⟩, ?_, fun _ => rfl⟩, ?_⟩
  · rw [hs]
    exact IndexMap.ext rfl
  · simp [hs]
  · exact fun e he => absurd he List.not_mem_nil
  · exact ⟨⟨0, by omega⟩, rfl⟩
  · exact fun arrival ha => absurd ha List.not_mem_nil

theorem Joins.deliver (hv1 : w.isLegacyExecutionOrder = false)
    (hn : 1 < w.numberOfInputs nodeName) (h : f.Joins w nodeName s₀ (w.numberOfInputs nodeName))
    {d : Delivery} (hd : d.Valid w nodeName) (hkeeps : f.KeepsOrder nodeName d) :
    (f.deliver w nodeName d).Joins w nodeName s₀ (w.numberOfInputs nodeName) := by
  obtain ⟨⟨j, hj, hwaits, harrived⟩, hlt⟩ := h
  obtain ⟨hinput, htruthy⟩ := hd
  obtain ⟨x, hx⟩ : ∃ x, d.slot = .items x := by
    cases hslot : d.slot with
    | items x => exact ⟨x, rfl⟩
    | hole => simp [hslot, Slot.truthy] at htruthy
    | undefined => simp [hslot, Slot.truthy] at htruthy
    | null => simp [hslot, Slot.truthy] at htruthy
  refine ⟨⟨j.arrive ⟨d.input, hinput⟩ x, ?_, Join.arrive_waits hwaits _ _, fun i => ?_⟩, ?_⟩
  · unfold Feed.deliver WorkflowExecute.addNodeToBeExecuted
    rw [if_pos hn]
    exact addToWaiting_joined (i := ⟨d.input, hinput⟩) hv1 rfl hj hwaits hkeeps hx
      d.parentNodeName d.runIndex
  · rw [Join.arrived_arrive, harrived]
    by_cases hi : i = ⟨d.input, hinput⟩
    · simp [Feed.deliver, arrivedAt, hi, hx, Slot.list]
    · have hne : d.input ≠ i := fun heq => hi (Fin.ext heq.symm)
      simp [Feed.deliver, arrivedAt, hi, hne]
  · intro arrival ha
    rcases List.mem_append.1 ha with ha | ha
    · exact hlt arrival ha
    · rw [List.mem_singleton.1 ha]
      exact hinput

/-- As long as every new entry comes after those that wait, nothing that is delivered is lost and the
`k`-th lists of the inputs are paired. -/
theorem deliveries_kept (w : Workflow) (nodeName : String) (s : WorkflowExecute)
    (hv1 : w.isLegacyExecutionOrder = false) (hn : 1 < w.numberOfInputs nodeName)
    (hs : s.waitingExecution.get? nodeName = none) (ds : List Delivery)
    (hds : ∀ d ∈ ds, d.Valid w nodeName)
    (hkeeps : Runs.Meets (Feed.deliver w nodeName) (Feed.KeepsOrder nodeName) ⟨s, []⟩ ds) :
    Runs.Along (Feed.deliver w nodeName) (Feed.Kept w nodeName s) ⟨s, []⟩ ds := by
  have hvalid : Runs.Meets (Feed.deliver w nodeName) (fun _ d => d.Valid w nodeName) ⟨s, []⟩ ds :=
    Runs.meets_of_forall hds
  have hjoins : Runs.Along (Feed.deliver w nodeName)
      (Feed.Joins w nodeName s (w.numberOfInputs nodeName)) ⟨s, []⟩ ds :=
    Runs.meets_along (fun _ _ hf hd => Joins.deliver hv1 hn hf hd.1 hd.2) (Joins.start hn hs)
      (hvalid.and hkeeps)
  exact hjoins.mono fun _ => Joins.kept

/-! ### Two nodes that deliver to a third -/

/-- `A` and `B` are connected to the first and the second input of `N`. -/
def mergeWorkflow : Workflow where
  nodes := ((Dict.empty.set "A" { name := "A", type := "set" }).set "B"
    { name := "B", type := "set" }).set "N" { name := "N", type := "merge" }
  connectionsBySourceNode := (Dict.empty.set "A"
    (Dict.empty.set .main [some [{ node := "N", type := .main, index := 0 }]])).set "B"
    (Dict.empty.set .main [some [{ node := "N", type := .main, index := 1 }]])

/-- One item with the value. -/
def deliveryOf (input : ℕ) (value : String) : Delivery where
  input
  parentNodeName := if input = 0 then "A" else "B"
  nodeSuccessData := [.items [{ json := Dict.empty.set "value" (.string value) }]]

/-- Nothing has run yet. -/
def freshState : WorkflowExecute := { nodeExecutionStack := [] }

/-- The entry of `b` has index 1 and waits alone when `c` comes, which is put in its place. -/
theorem deliveries_not_kept :
    (∀ d ∈ [deliveryOf 0 "a", deliveryOf 0 "b", deliveryOf 1 "x", deliveryOf 0 "c"],
      d.Valid mergeWorkflow "N") ∧
    ¬ Runs.Along (Feed.deliver mergeWorkflow "N") (Feed.Kept mergeWorkflow "N" freshState)
      ⟨freshState, []⟩
      [deliveryOf 0 "a", deliveryOf 0 "b", deliveryOf 1 "x", deliveryOf 0 "c"] := by
  refine ⟨by decide, fun h => ?_⟩
  have hlength := h.last.conserved.length_eq
  revert hlength
  decide

/-- With the second list at the other input before it, `c` waits first. -/
theorem deliveries_kept_merge :
    Runs.Along (Feed.deliver mergeWorkflow "N") (Feed.Kept mergeWorkflow "N" freshState)
      ⟨freshState, []⟩
      [deliveryOf 0 "a", deliveryOf 0 "b", deliveryOf 1 "x", deliveryOf 1 "y", deliveryOf 0 "c"] :=
  deliveries_kept mergeWorkflow "N" freshState (by decide) (by decide) rfl _ (by decide)
    (by decide)

end Feed

end N8n
