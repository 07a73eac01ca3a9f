import Mathlib.Tactic
import N8n.ConcurrencyControl

/-!
# The concurrency limit

While an execution waits every slot is in use, so a `dequeue` hands its own slot on. A `remove`
gives back a slot that nobody held: the capacity goes up by the one the removed execution took in
the queue, and the next waiting execution is let through on top of the `L` that are active.
-/

namespace N8n

namespace ConcurrencyQueue

/-- The limit is kept, and executions wait only while every slot is in use. -/
structure Usage.Inv (L : ℤ) (u : Usage) : Prop where
  within : u.WithinLimit L
  full : u.queue.queue ≠ [] → (u.active : ℤ) = L

theorem Usage.start_inv {L : ℤ} (hL : 0 < L) : (Usage.start L).Inv L := by
  refine ⟨⟨?_, ?_⟩, ?_⟩ <;> simp [Usage.start]
  omega

@[simp] theorem letThrough_nil : letThrough [] = 0 := rfl

theorem resolveNext_queue (q : ConcurrencyQueue) :
    q.resolveNext.1 = { q with queue := q.queue.tail } := by
  rcases q with ⟨_ | ⟨id, rest⟩, capacity⟩ <;> rfl

theorem resolveNext_letThrough (q : ConcurrencyQueue) :
    letThrough q.resolveNext.2 = if q.queue = [] then 0 else 1 := by
  rcases q with ⟨_ | ⟨id, rest⟩, capacity⟩ <;> rfl

theorem remove_of_notMem {q : ConcurrencyQueue} {id : String} (h : id ∉ q.queue) :
    q.remove id = (q, []) := by
  have : q.queue.findIdx? (· == id) = none := by
    simp only [List.findIdx?_eq_none_iff, beq_eq_false_iff_ne]
    exact fun x hx hxid => h (hxid ▸ hx)
  simp [remove, this]

/-- Removing a waiting execution takes it out of the queue and then lets the next one through. -/
theorem remove_of_mem {q : ConcurrencyQueue} {id : String} (h : id ∈ q.queue) :
    ∃ i, i < q.queue.length ∧ q.queue[i]? = some id ∧ q.remove id =
      resolveNext { queue := q.queue.eraseIdx i, capacity := q.capacity + 1 } := by
  have hfind : (q.queue.findIdx? (· == id)).isSome := by
    simp only [List.findIdx?_isSome, List.any_eq_true, beq_iff_eq, exists_eq_right]
    exact h
  obtain ⟨i, hi⟩ := Option.isSome_iff_exists.1 hfind
  obtain ⟨hlt, hget, -⟩ := List.findIdx?_eq_some_iff_getElem.1 hi
  refine ⟨i, hlt, ?_, by simp [remove, hi]⟩
  rw [List.getElem?_eq_getElem hlt, Option.some.injEq]
  simpa using hget

theorem step_enqueue (u : Usage) (id : String) :
    u.step (.enqueue id) =
      if u.queue.capacity - 1 < 0 then
        { queue := { queue := u.queue.queue ++ [id], capacity := u.queue.capacity - 1 },
          active := u.active }
      else
        { queue := { queue := u.queue.queue, capacity := u.queue.capacity - 1 },
          active := u.active + 1 } := by
  by_cases h : u.queue.capacity - 1 < 0 <;> simp [Usage.step, enqueue, h, letThrough]

theorem step_dequeue (u : Usage) :
    u.step .dequeue =
      { queue := { queue := u.queue.queue.tail, capacity := u.queue.capacity + 1 },
        active := u.active - 1 + if u.queue.queue = [] then 0 else 1 } := by
  simp [Usage.step, dequeue, resolveNext_queue, resolveNext_letThrough]

theorem step_remove_of_notMem {u : Usage} {id : String} (h : id ∉ u.queue.queue) :
    u.step (.remove id) = u := by
  simp [Usage.step, remove_of_notMem h]

theorem step_remove_of_mem {u : Usage} {id : String} (h : id ∈ u.queue.queue) :
    ∃ rest : List String, rest.length + 1 = u.queue.queue.length ∧ u.step (.remove id) =
      { queue := { queue := rest.tail, capacity := u.queue.capacity + 1 },
        active := u.active + if rest = [] then 0 else 1 } := by
  obtain ⟨i, hi, -, hrem⟩ := remove_of_mem h
  refine ⟨u.queue.queue.eraseIdx i, ?_, ?_⟩
  · rw [List.length_eraseIdx_of_lt hi]
    omega
  · simp [Usage.step, hrem, resolveNext_queue, resolveNext_letThrough]

/-- A call that removes no waiting execution, or the only one, keeps the limit. -/
theorem Usage.Inv.step {L : ℤ} {u : Usage} {call : Call} (hu : u.Inv L) (hadm : u.Admissible call)
    (hcall : u.RemovesOnlyWaiter call) : (u.step call).Inv L := by
  obtain ⟨⟨hle, hcap⟩, hfull⟩ := hu
  cases call with
  | enqueue id =>
    rw [step_enqueue]
    split_ifs with hneg
    · -- no capacity is left, so every slot is in use already
      have hactive : (u.active : ℤ) = L := by
        by_cases hq : u.queue.queue = []
        · rw [hq] at hcap
          simp only [List.length_nil, Nat.cast_zero] at hcap
          omega
        · exact hfull hq
      refine ⟨⟨hle, ?_⟩, fun _ => hactive⟩
      simp only [List.length_append, List.length_singleton, Nat.cast_add, Nat.cast_one]
      omega
    · have hempty : u.queue.queue = [] := by
        by_contra hq
        have := hfull hq
        omega
      rw [hempty] at hcap ⊢
      simp only [List.length_nil, Nat.cast_zero] at hcap
      refine ⟨⟨?_, ?_⟩, fun h => absurd rfl h⟩ <;>
        simp only [List.length_nil] <;> push_cast <;> omega
  | dequeue =>
    rw [step_dequeue]
    simp only [Usage.Admissible] at hadm
    rcases hq : u.queue.queue with _ | ⟨id, rest⟩
    · rw [hq] at hcap
      simp only [List.length_nil, Nat.cast_zero] at hcap
      refine ⟨⟨?_, ?_⟩, fun h => absurd rfl h⟩ <;>
        simp only [List.tail_nil, List.length_nil, if_pos] <;> omega
    · have hactive := hfull (by rw [hq]; simp)
      rw [hq] at hcap
      simp only [List.length_cons, Nat.cast_add, Nat.cast_one] at hcap
      refine ⟨⟨?_, ?_⟩, fun _ => ?_⟩ <;>
        simp only [List.tail_cons, reduceCtorEq, if_false] <;> omega
  | remove id =>
    by_cases hmem : id ∈ u.queue.queue
    · have hone := hcall hmem
      obtain ⟨rest, hlen, hstep⟩ := step_remove_of_mem hmem
      have hrest : rest = [] := List.length_eq_zero_iff.1 (by omega)
      subst hrest
      rw [hstep]
      rw [hone] at hcap
      refine ⟨⟨?_, ?_⟩, fun h => absurd rfl h⟩ <;>
        simp only [List.tail_nil, List.length_nil, if_pos] <;> omega
    · rw [step_remove_of_notMem hmem]
      exact ⟨⟨hle, hcap⟩, hfull⟩

/-- Removing one of several waiting executions lets another through while every slot is in use. -/
theorem Usage.Inv.not_within_of_remove {L : ℤ} {u : Usage} {call : Call} (hu : u.Inv L)
    (hcall : ¬ u.RemovesOnlyWaiter call) : ¬ (u.step call).WithinLimit L := by
  cases call with
  | enqueue id => exact absurd trivial hcall
  | dequeue => exact absurd trivial hcall
  | remove id =>
    simp only [Usage.RemovesOnlyWaiter, Classical.not_imp] at hcall
    obtain ⟨hmem, hlen⟩ := hcall
    have hactive := hu.full (List.ne_nil_of_mem hmem)
    obtain ⟨rest, hrest, hstep⟩ := step_remove_of_mem hmem
    have hne : rest ≠ [] := fun h => hlen (by rw [← hrest, h]; rfl)
    rw [hstep, if_neg hne]
    rintro ⟨hle, -⟩
    push_cast at hle
    omega

/-- A run keeps the limit in every state exactly when no `remove` of it takes out one of several
waiting executions. -/
theorem concurrency_limit_iff {L : ℤ} (hL : 0 < L) (calls : List Call)
    (hadm : Runs.Meets Usage.step Usage.Admissible (Usage.start L) calls) :
    Runs.Along Usage.step (Usage.WithinLimit L) (Usage.start L) calls ↔
      Runs.Meets Usage.step Usage.RemovesOnlyWaiter (Usage.start L) calls :=
  Runs.along_iff_meets (I := Usage.Inv L) (fun _ hu => hu.within)
    (fun _ _ hu hadm hcall => hu.step hadm hcall)
    (fun _ _ hu _ hcall => hu.not_within_of_remove hcall) (Usage.start_inv hL) hadm

/-- With one slot, the third execution starts beside the first when the second leaves the queue. -/
theorem concurrency_limit_exceeded :
    ¬ ∀ (L : ℤ) (calls : List Call), 0 < L →
      Runs.Meets Usage.step Usage.Admissible (Usage.start L) calls →
      Runs.Along Usage.step (Usage.WithinLimit L) (Usage.start L) calls := by
  intro h
  exact absurd (h 1 [.enqueue "1", .enqueue "2", .enqueue "3", .remove "2"] (by decide) (by decide))
    (by decide)

/-- The waiting execution takes over the slot, and the only one left waiting is removed. -/
theorem concurrency_limit_one_slot :
    Runs.Along Usage.step (Usage.WithinLimit 1) (Usage.start 1)
      [.enqueue "1", .enqueue "2", .dequeue, .enqueue "3", .remove "3"] :=
  (concurrency_limit_iff (by decide) _ (by decide)).2 (by decide)

end ConcurrencyQueue

end N8n

/-!
# Emptying the queues

`removeAll` takes the ids of a queue first and then removes them one by one, and each removal lets
the next waiting execution through. So of two executions waiting in a queue, the second is let
through by the removal of the first.
-/

namespace N8n

namespace ConcurrencyQueue

theorem foldl_getAll (l : List String) : ∀ ids : List String,
    ∃ more, l.foldl (fun ids id => if id ∈ ids then ids else ids ++ [id]) ids = ids ++ more := by
  induction l with
  | nil => exact fun ids => ⟨[], by simp⟩
  | cons id l ih =>
    intro ids
    simp only [List.foldl_cons]
    split_ifs
    · exact ih ids
    · obtain ⟨more, h⟩ := ih (ids ++ [id])
      exact ⟨id :: more, by rw [h, List.append_assoc, List.singleton_append]⟩

/-- The first id of the snapshot is the execution that waits longest. -/
theorem getAll_cons (id : String) (rest : List String) (capacity : ℤ) :
    ∃ more, getAll { queue := id :: rest, capacity } = id :: more := by
  obtain ⟨more, h⟩ := foldl_getAll rest [id]
  exact ⟨more, by simpa [getAll] using h⟩

theorem remove_first (id : String) (rest : List String) (capacity : ℤ) :
    remove { queue := id :: rest, capacity } id =
      resolveNext { queue := rest, capacity := capacity + 1 } := by
  simp [remove, List.findIdx?_cons]

end ConcurrencyQueue

namespace ConcurrencyControlService

open ConcurrencyQueue

/-- Draining one queue empties it and lets nobody through. -/
def DrainsQueue (q : ConcurrencyQueue) : Prop :=
  (removeEach q q.getAll).1.queue = [] ∧ ∀ id, .resolve id ∉ (removeEach q q.getAll).2

/-- The removal of the first of two waiting executions lets the second one through. -/
theorem resolve_mem_removeEach (id next : String) (rest : List String) (capacity : ℤ) :
    let q : ConcurrencyQueue := { queue := id :: next :: rest, capacity }
    .resolve next ∈ (removeEach q q.getAll).2 := by
  intro q
  obtain ⟨more, hids⟩ := getAll_cons id (next :: rest) capacity
  rw [show q.getAll = id :: more from hids]
  simp [q, removeEach, remove_first, resolveNext]

theorem drainsQueue_iff (q : ConcurrencyQueue) : DrainsQueue q ↔ q.queue.length ≤ 1 := by
  obtain ⟨queue, capacity⟩ := q
  match queue with
  | [] => simp [DrainsQueue, getAll, removeEach]
  | [id] => simp [DrainsQueue, getAll, removeEach, remove_first, resolveNext]
  | id :: next :: rest =>
    refine ⟨fun h => absurd (resolve_mem_removeEach id next rest capacity) (h.2 next), fun h => ?_⟩
    simp only [List.length_cons] at h
    omega

theorem removeAll_queues {c : ConcurrencyControlService} (hc : c.isEnabled) (ids : List String) :
    (c.removeAll ids).1.queues =
      c.queues.map fun (type, queue) => (type, (removeEach queue queue.getAll).1) := by
  simp [removeAll, hc]

theorem resolve_mem_removeAll {c : ConcurrencyControlService} (hc : c.isEnabled)
    (ids : List String) (type : ConcurrencyQueueType) (id : String) :
    .queue type (.resolve id) ∈ (c.removeAll ids).2 ↔
      ∃ queue, (type, queue) ∈ c.queues ∧ .resolve id ∈ (removeEach queue queue.getAll).2 := by
  have hmem : .queue type (.resolve id) ∈ (c.removeAll ids).2 ↔
      .queue type (.resolve id) ∈ (c.queues.map fun q => (q.1, removeEach q.2 q.2.getAll)).flatMap
        fun r => r.2.2.map (ControlEffect.queue r.1) := by
    simp only [removeAll, hc, Bool.not_true, Bool.false_eq_true, if_false]
    split_ifs
    · rfl
    · simp
  rw [hmem]
  simp only [List.mem_flatMap, List.mem_map, Prod.exists]
  constructor
  · rintro ⟨_, _, _, ⟨type', queue, hq, heq⟩, effect, heff, hlabel⟩
    simp only [Prod.mk.injEq, ControlEffect.queue.injEq] at heq hlabel
    obtain ⟨rfl, heq⟩ := heq
    obtain ⟨rfl, rfl⟩ := hlabel
    exact ⟨queue, hq, by rw [heq]; exact heff⟩
  · rintro ⟨queue, hq, heff⟩
    exact ⟨type, _, _, ⟨type, queue, hq, rfl⟩, _, heff, rfl⟩

/-- `removeAll` empties every queue and lets no waiting execution through exactly when no queue
holds more than one. -/
theorem removeAll_drained_iff {c : ConcurrencyControlService} (hc : c.isEnabled)
    (ids : List String) :
    Drained (c.removeAll ids) ↔ ∀ q ∈ c.queues, q.2.queue.length ≤ 1 := by
  have hqueue : ∀ type queue, (type, queue) ∈ c.queues →
      (queue.queue.length ≤ 1 ↔ DrainsQueue queue) := fun _ q _ => (drainsQueue_iff q).symm
  simp only [Drained, removeAll_queues hc, resolve_mem_removeAll hc, List.mem_map, Prod.exists]
  constructor
  · rintro ⟨hempty, hnone⟩ ⟨type, queue⟩ hq
    refine (hqueue type queue hq).2 ⟨?_, fun id hid => hnone type id ⟨queue, hq, hid⟩⟩
    exact hempty _ ⟨type, queue, hq, rfl⟩
  · intro h
    constructor
    · rintro _ ⟨type, queue, hq, rfl⟩
      exact ((hqueue type queue hq).1 (h _ hq)).1
    · rintro type id ⟨queue, hq, hid⟩
      exact ((hqueue type queue hq).1 (h _ hq)).2 id hid

/-- Two executions wait for one production slot: emptying the queue lets the second one through. -/
theorem removeAll_not_drained :
    ¬ ∀ (c : ConcurrencyControlService) (ids : List String), c.isEnabled →
      Drained (c.removeAll ids) := by
  intro h
  let c : ConcurrencyControlService :=
    { isEnabled := true, limits := [(.production, 1), (.evaluation, -1)],
      queues := [(.production, { queue := ["2", "3"], capacity := -2 })] }
  exact (h c [] rfl).2 .production "3" (by decide)

theorem removeAll_drained_one_waiting :
    Drained (removeAll
      { isEnabled := true, limits := [(.production, 1), (.evaluation, -1)],
        queues := [(.production, { queue := ["2"], capacity := -1 })] } ["2"]) :=
  (removeAll_drained_iff rfl ["2"]).2 (by decide)

end ConcurrencyControlService

end N8n
