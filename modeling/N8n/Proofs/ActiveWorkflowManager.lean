import Mathlib.Tactic
import N8n.Library.Runs
import N8n.ActiveWorkflowManager

/-!
# Deactivation in between activations

A removal clears the queue once, and then only waits for the triggers to close. What is at work for
the workflow at that time comes back later: a retry makes the workflow active again, or it looks
for the entry of the queue that is gone.
-/

namespace N8n

namespace ActiveWorkflowManager

variable {s s' s'' : ActiveWorkflowManager} {workflowId : String}

/-- Nothing starts for the workflow from one state to the other, if nothing is at work for it. -/
structure Calm (workflowId : String) (s s' : ActiveWorkflowManager) : Prop where
  adds : (∀ a ∈ s.adds, a.workflowId = workflowId → a.isSettled = true) →
    ∀ a ∈ s'.adds, a.workflowId = workflowId → a.isSettled = true
  timers : ∀ timer ∈ s'.timers.entries, timer.2 = workflowId → timer ∈ s.timers.entries
  active : s'.isActive workflowId = true → s.isActive workflowId = true
  errors : workflowId ∈ s'.typeErrors → workflowId ∈ s.typeErrors

namespace Calm

theorem refl : Calm workflowId s s := ⟨id, fun _ h _ => h, id, id⟩

theorem trans (h : Calm workflowId s s') (h' : Calm workflowId s' s'') :
    Calm workflowId s s'' where
  adds := h'.adds ∘ h.adds
  timers timer htimer hfor := h.timers timer (h'.timers timer htimer hfor) hfor
  active := h.active ∘ h'.active
  errors := h.errors ∘ h'.errors

end Calm

variable {other : String}

theorem mem_of_mem_modify {α : Type*} {f : α → α} {x : α} {xs : List α} {n : ℕ}
    (h : x ∈ xs.modify n f) : x ∈ xs ∨ ∃ y, xs[n]? = some y ∧ x = f y := by
  obtain ⟨i, hi⟩ := List.mem_iff_getElem?.1 h
  rw [List.getElem?_modify] at hi
  split_ifs at hi with hn
  · subst hn
    obtain ⟨y, hy, rfl⟩ := Option.map_eq_some_iff.1 hi
    exact .inr ⟨y, hy, rfl⟩
  · exact .inl (List.mem_of_getElem? (by simpa using hi))

/-! ## Operations -/

theorem setActive_calm (hne : other ≠ workflowId) : Calm other s (s.setActive workflowId) := by
  refine ⟨id, fun _ h _ => h, fun h => ?_, id⟩
  simpa [isActive, setActive, hne] using h

theorem deleteActive_calm : Calm other s (s.deleteActive workflowId) := by
  refine ⟨id, fun _ h _ => h, fun h => ?_, id⟩
  exact decide_eq_true (List.mem_of_mem_filter (of_decide_eq_true h))

theorem mem_timers_erase {t : ℕ} {timer : ℕ × String}
    (h : timer ∈ (s.timers.erase t).entries) : timer ∈ s.timers.entries :=
  List.mem_of_mem_filter h

theorem arm_calm (hne : other ≠ workflowId) (lastTimeout : ℕ) :
    Calm other s (s.arm workflowId lastTimeout) := by
  refine ⟨id, fun timer h hfor => ?_, id, id⟩
  obtain ⟨t, w⟩ := timer
  obtain rfl : w = other := hfor
  have hget := Dict.mem_entries.1 h
  change (s.timers.set s.nextTimer workflowId).get? t = some w at hget
  rw [Dict.get?_set] at hget
  split_ifs at hget
  · exact absurd (Option.some.inj hget).symm hne
  · exact Dict.mem_entries.2 hget

theorem removeQueuedWorkflowActivation_calm :
    Calm other s (s.removeQueuedWorkflowActivation workflowId) := by
  unfold removeQueuedWorkflowActivation
  split
  · exact .refl
  · exact ⟨id, fun _ h _ => mem_timers_erase h, id, id⟩

theorem addQueuedWorkflowActivation_calm (hne : other ≠ workflowId) :
    Calm other s (s.addQueuedWorkflowActivation workflowId) :=
  removeQueuedWorkflowActivation_calm.trans (arm_calm hne _)

theorem retryAgain_calm (hne : other ≠ workflowId) : Calm other s (s.retryAgain workflowId) := by
  unfold retryAgain
  split
  · exact ⟨id, fun _ h _ => h, id, fun h => (List.mem_cons.1 h).resolve_left hne⟩
  · exact arm_calm hne _

theorem add_calm (hne : other ≠ workflowId) (origin : AddOrigin) (candidate : Candidate) :
    Calm other s (s.add workflowId origin candidate) := by
  refine ⟨fun h a ha hfor => ?_, fun _ h _ => h, id, id⟩
  rcases List.mem_append.1 ha with ha | ha
  · exact h a ha hfor
  · rw [List.mem_singleton.1 ha] at hfor
    exact absurd hfor.symm hne

theorem setAdd_calm {call : ℕ} {c : AddCall} {stage : AddStage}
    (hcall : s.adds[call]? = some c)
    (hsettled : c.workflowId = other → c.isSettled = true →
      AddCall.isSettled { c with stage } = true) :
    Calm other s (s.setAdd call stage) := by
  refine ⟨fun h a ha hfor => ?_, fun _ h _ => h, id, id⟩
  rcases mem_of_mem_modify ha with ha | ⟨c', hc', rfl⟩
  · exact h a ha hfor
  · obtain rfl := Option.some.inj (hcall.symm.trans hc')
    exact hsettled hfor (h c (List.mem_of_getElem? hcall) hfor)

theorem caught_calm {c : AddCall} (h : c.workflowId = other → c.origin = .caller) :
    Calm other s (s.caught c) := by
  unfold caught
  cases horigin : c.origin with
  | caller => exact .refl
  | startup =>
    have hne : other ≠ c.workflowId := fun heq => by simp [horigin] at h; exact h heq.symm
    dsimp only
    split_ifs
    · exact addQueuedWorkflowActivation_calm hne
    · exact .refl
  | retry =>
    have hne : other ≠ c.workflowId := fun heq => by simp [horigin] at h; exact h heq.symm
    exact retryAgain_calm hne

theorem activate_calm {call : ℕ} {c : AddCall} (hcall : s.adds[call]? = some c)
    (hne : other ≠ c.workflowId) : Calm other s (s.activate call c) :=
  (setActive_calm hne).trans (setAdd_calm hcall fun h => absurd h.symm hne)

/-- A call of `add` that is settled stays so, and starts nothing. -/
theorem resumeAdd_calm (h : ∀ a ∈ s.adds, a.workflowId = other → a.isSettled = true) (call : ℕ)
    (ok : Bool) : Calm other s (s.resumeAdd call ok) := by
  unfold resumeAdd
  split
  · exact .refl
  next c hcall =>
  have hc := h c (List.mem_of_getElem? hcall)
  -- a stage from which the call is not settled is none of the workflow's
  have hearly : c.isSettled = false → other ≠ c.workflowId := fun hnot heq => by
    rw [hc heq.symm] at hnot
    cases hnot
  cases hstage : c.stage with
  | finding | gettingBase =>
    exact setAdd_calm hcall fun _ h => by simp [AddCall.isSettled, hstage] at h
  | addingWebhooks =>
    have hne := hearly (by simp [AddCall.isSettled, hstage])
    have hset : ∀ stage, Calm other s (s.setAdd call stage) := fun stage =>
      setAdd_calm hcall fun h => absurd h.symm hne
    dsimp only
    split_ifs
    · exact hset _
    · exact hset _
    · exact activate_calm hcall hne
    · exact hset _
  | startingTriggers =>
    have hne := hearly (by simp [AddCall.isSettled, hstage])
    dsimp only
    split_ifs
    · exact activate_calm hcall hne
    · exact setAdd_calm hcall fun h => absurd h.symm hne
  | polling =>
    have hset : ∀ {s' : ActiveWorkflowManager}, s'.adds = s.adds → ∀ stage : AddStage,
        (stage = .activated ∨ stage = .registering) → Calm other s' (s'.setAdd call stage) := by
      intro s' hadds stage hor
      refine setAdd_calm (hadds ▸ hcall) fun _ h => ?_
      rcases hor with rfl | rfl <;> simpa [AddCall.isSettled, hstage] using h
    dsimp only
    split_ifs
    · exact hset rfl _ (.inl rfl)
    · exact hset rfl _ (.inr rfl)
    · have hdelete : Calm other s (s.deleteActive c.workflowId) := deleteActive_calm
      have hsame : (s.deleteActive c.workflowId).adds = s.adds := rfl
      exact hdelete.trans (hset hsame _ (.inr rfl))
  | activated =>
    have hadds : (s.removeQueuedWorkflowActivation c.workflowId).adds[call]? = some c := by
      unfold removeQueuedWorkflowActivation
      split <;> exact hcall
    exact removeQueuedWorkflowActivation_calm.trans
      (setAdd_calm hadds fun _ h => by simpa [AddCall.isSettled, hstage] using h)
  | deregistering | counting | savingStaticData =>
    refine setAdd_calm hcall fun _ h => ?_
    cases ok <;> simp_all [AddCall.isSettled]
  | registering =>
    exact setAdd_calm hcall fun _ h => by simpa [AddCall.isSettled, hstage] using h
  | threw =>
    have horigin : c.workflowId = other → c.origin = .caller := fun hfor => by
      simpa [AddCall.isSettled, hstage] using hc hfor
    have hadds : (s.caught c).adds[call]? = some c := by
      unfold caught addQueuedWorkflowActivation removeQueuedWorkflowActivation retryAgain arm
      split <;> (repeat' split) <;> exact hcall
    exact (caught_calm horigin).trans (setAdd_calm hadds fun _ _ => rfl)
  | done => exact .refl

theorem removeQueued_removes (s : ActiveWorkflowManager) (workflowId : String) :
    (s.removeQueuedWorkflowActivation workflowId).removes = s.removes ∧
      (s.removeQueuedWorkflowActivation workflowId).removed = s.removed := by
  unfold removeQueuedWorkflowActivation
  split <;> exact ⟨rfl, rfl⟩

theorem resumeAdd_removes (call : ℕ) (ok : Bool) :
    (s.resumeAdd call ok).removes = s.removes ∧ (s.resumeAdd call ok).removed = s.removed := by
  unfold resumeAdd
  split
  · exact ⟨rfl, rfl⟩
  next c hcall =>
  cases c.stage with
  | activated => exact removeQueued_removes s c.workflowId
  | threw =>
    change (s.caught c).removes = _ ∧ (s.caught c).removed = _
    unfold caught
    split
    · exact ⟨rfl, rfl⟩
    · split_ifs
      · exact removeQueued_removes s c.workflowId
      · exact ⟨rfl, rfl⟩
    · unfold retryAgain
      split <;> exact ⟨rfl, rfl⟩
  | _ => dsimp only; (repeat' split) <;> exact ⟨rfl, rfl⟩

/-! ## The invariant -/

/-- The workflow has been removed, or is being removed with the queue cleared. -/
def Window (s : ActiveWorkflowManager) (workflowId : String) : Prop :=
  workflowId ∈ s.removed ∨ s.Removing workflowId

/-- A call of `remove` is done with the workflow, but has not completed. -/
def Returning (s : ActiveWorkflowManager) (workflowId : String) : Prop :=
  ∃ c ∈ s.removes, c.workflowId = workflowId ∧ c.stage = .returning

theorem Returning.removing (h : s.Returning workflowId) : s.Removing workflowId := by
  obtain ⟨c, hc, hfor, hstage⟩ := h
  exact ⟨c, hc, hfor, by simp [RemoveCall.hasCleared, hstage]⟩

/-- While the workflow is removed, nothing is at work for it. -/
structure Quiet (s : ActiveWorkflowManager) : Prop where
  adds : ∀ id, s.Window id → ∀ a ∈ s.adds, a.workflowId = id → a.isSettled = true
  timers : ∀ id, s.Window id → ∀ timer ∈ s.timers.entries, timer.2 ≠ id
  inactive : ∀ id, id ∈ s.removed ∨ s.Returning id → ¬ s.isActive id = true
  errors : ∀ id ∈ s.removed, id ∉ s.typeErrors

theorem Quiet.final (hs : s.Quiet) : s.Final := fun id hid =>
  ⟨hs.inactive id (.inl hid), hs.timers id (.inl hid), hs.errors id hid⟩

/-- A step that opens no window, and starts nothing where there is one. -/
theorem Quiet.of_calm (hs : s.Quiet) (hwindow : ∀ id, s'.Window id → s.Window id ∧ Calm id s s')
    (hremoved : ∀ id, id ∈ s'.removed → id ∈ s.removed)
    (hreturning : ∀ id, s'.Returning id → s.Returning id) : s'.Quiet where
  adds id h := by
    obtain ⟨hold, hcalm⟩ := hwindow id h
    exact hcalm.adds (hs.adds id hold)
  timers id h timer htimer hfor := by
    obtain ⟨hold, hcalm⟩ := hwindow id h
    exact hs.timers id hold timer (hcalm.timers timer htimer hfor) hfor
  inactive id h hactive := by
    obtain ⟨-, hcalm⟩ := hwindow id (h.imp (fun h => h) Returning.removing)
    exact hs.inactive id (h.imp (hremoved id) (hreturning id)) (hcalm.active hactive)
  errors id h herror :=
    hs.errors id (hremoved id h) ((hwindow id (.inl h)).2.errors herror)

/-- A step that leaves the removals as they are. -/
theorem Quiet.of_same (hs : s.Quiet) (hremoves : s'.removes = s.removes)
    (hremoved : s'.removed = s.removed) (hcalm : ∀ id, s.Window id → Calm id s s') : s'.Quiet := by
  have hwindow : ∀ id, s'.Window id ↔ s.Window id := fun id => by
    unfold Window Removing
    rw [hremoves, hremoved]
  refine hs.of_calm (fun id h => ⟨(hwindow id).1 h, hcalm id ((hwindow id).1 h)⟩)
    (fun id h => hremoved ▸ h) fun id h => ?_
  unfold Returning at h ⊢
  rwa [hremoves] at h

/-! ## Steps -/

theorem Quiet.add (hs : s.Quiet) (atStartup : Bool) (candidate : Candidate)
    (hremoving : ¬ s.Removing workflowId) :
    (s.step (.add workflowId atStartup candidate)).Quiet := by
  have hremoved : ∀ id, id ∈ s.removed.filter (· ≠ workflowId) → id ∈ s.removed ∧ id ≠ workflowId :=
    fun id h => by simpa using h
  refine hs.of_calm (fun id h => ?_) (fun id h => (hremoved id h).1) fun id h => h
  have hne : id ≠ workflowId := by
    rcases h with h | h
    · exact (hremoved id h).2
    · rintro rfl
      exact hremoving h
  refine ⟨h.imp (fun h => (hremoved id h).1) fun h => h, ?_⟩
  have hcalm := add_calm (s := { s with removed := s.removed.filter (· ≠ workflowId) }) hne
    (if atStartup then .startup else .caller) candidate
  exact ⟨hcalm.adds, hcalm.timers, hcalm.active, hcalm.errors⟩

theorem Quiet.timer (hs : s.Quiet) (timeout : ℕ) (candidate : Candidate) :
    (s.step (.timer timeout candidate)).Quiet := by
  simp only [step]
  split
  · exact hs
  · next id hget =>
    refine hs.of_same rfl rfl fun other hwindow => ?_
    have hne : other ≠ id := by
      rintro rfl
      exact hs.timers _ hwindow (timeout, other) (Dict.mem_entries.2 hget) rfl
    have herase : Calm other s { s with timers := s.timers.erase timeout } :=
      ⟨fun h => h, fun _ h _ => mem_timers_erase h, fun h => h, fun h => h⟩
    exact herase.trans (add_calm hne .retry candidate)

/-- A new call on the list of removals that has not cleared the queue. -/
theorem Quiet.append (hs : s.Quiet) {c : RemoveCall} (hcleared : c.hasCleared = false) :
    Quiet { s with removes := s.removes ++ [c] } := by
  have hremoving : ∀ id, Removing { s with removes := s.removes ++ [c] } id → s.Removing id := by
    rintro id ⟨c', hc', hfor, hc'cleared⟩
    rcases List.mem_append.1 hc' with hc' | hc'
    · exact ⟨c', hc', hfor, hc'cleared⟩
    · rw [List.mem_singleton.1 hc', hcleared] at hc'cleared
      cases hc'cleared
  refine hs.of_calm (fun id h => ⟨h.imp (fun h => h) (hremoving id), fun h => h, fun _ h _ => h,
    fun h => h, fun h => h⟩) (fun id h => h) ?_
  rintro id ⟨c', hc', hfor, hstage⟩
  rcases List.mem_append.1 hc' with hc' | hc'
  · exact ⟨c', hc', hfor, hstage⟩
  · rw [List.mem_singleton.1 hc'] at hstage
    simp [RemoveCall.hasCleared, hstage] at hcleared

theorem Quiet.emitError (hs : s.Quiet) (hwindow : ¬ s.Window workflowId) :
    (s.emitError workflowId).Quiet := by
  have hqueue : ∀ s₁ : ActiveWorkflowManager, s₁.Quiet → ¬ s₁.Window workflowId →
      (s₁.addQueuedWorkflowActivation workflowId).Quiet := fun s₁ hs₁ hnot =>
    hs₁.of_same (removeQueued_removes s₁ workflowId).1 (removeQueued_removes s₁ workflowId).2
      fun id hid => addQueuedWorkflowActivation_calm fun heq => hnot (heq ▸ hid)
  unfold ActiveWorkflowManager.emitError
  split_ifs
  · refine hqueue _ (hs.append rfl) fun h => hwindow (h.imp (fun h => h) ?_)
    rintro ⟨c, hc, hfor, hcleared⟩
    rcases List.mem_append.1 hc with hc | hc
    · exact ⟨c, hc, hfor, hcleared⟩
    · rw [List.mem_singleton.1 hc] at hcleared
      cases hcleared
  · exact hqueue s hs hwindow

/-- A removal goes on. Where it has cleared the queue, nothing is at work for the workflow, and
where it is about to complete, the workflow is not active. -/
theorem Quiet.setRemove (hs : s.Quiet) {call : ℕ} {c : RemoveCall} {stage : RemoveStage}
    (hcall : s.removes[call]? = some c)
    (hcleared : RemoveCall.hasCleared { c with stage } = true →
      (∀ a ∈ s.adds, a.workflowId = c.workflowId → a.isSettled = true) ∧
      ∀ timer ∈ s.timers.entries, timer.2 ≠ c.workflowId)
    (hinactive : stage = .returning → ¬ s.isActive c.workflowId = true) :
    (s.setRemove call stage).Quiet := by
  have hwindow : ∀ id, (s.setRemove call stage).Window id → s.Window id ∨
      id = c.workflowId ∧ RemoveCall.hasCleared { c with stage } = true := by
    rintro id (h | ⟨c', hc', hfor, hc'cleared⟩)
    · exact .inl (.inl h)
    · rcases mem_of_mem_modify hc' with hc' | ⟨old, hold, rfl⟩
      · exact .inl (.inr ⟨c', hc', hfor, hc'cleared⟩)
      · obtain rfl := Option.some.inj (hcall.symm.trans hold)
        exact .inr ⟨hfor.symm, hc'cleared⟩
  refine ⟨fun id h => ?_, fun id h => ?_, fun id h => ?_, hs.errors⟩
  · rcases hwindow id h with h' | ⟨rfl, h'⟩
    · exact hs.adds id h'
    · exact (hcleared h').1
  · rcases hwindow id h with h' | ⟨rfl, h'⟩
    · exact hs.timers id h'
    · exact (hcleared h').2
  · rcases h with h | ⟨c', hc', hfor, hstage⟩
    · exact hs.inactive id (.inl h)
    · rcases mem_of_mem_modify hc' with hc' | ⟨old, hold, rfl⟩
      · exact hs.inactive id (.inr ⟨c', hc', hfor, hstage⟩)
      · obtain rfl := Option.some.inj (hcall.symm.trans hold)
        exact hfor ▸ hinactive hstage

/-- Once the queue is cleared, the timer of its entry is gone. -/
theorem timers_removeQueued (htimers : ∀ timer ∈ s.timers.entries, timer.2 = workflowId →
    ∃ queued ∈ s.queuedActivations.get? workflowId, queued.timeout = timer.1) :
    ∀ timer ∈ (s.removeQueuedWorkflowActivation workflowId).timers.entries,
      timer.2 ≠ workflowId := by
  intro timer h hfor
  unfold removeQueuedWorkflowActivation at h
  split at h
  · next hnone =>
    obtain ⟨queued, hqueued, -⟩ := htimers timer h hfor
    rw [hnone] at hqueued
    cases hqueued
  · next queued hsome =>
    obtain ⟨queued', hqueued, htimeout⟩ := htimers timer (mem_timers_erase h) hfor
    obtain rfl := Option.some.inj (hsome.symm.trans hqueued)
    have hget := Dict.mem_entries.1 h
    rw [htimeout, Dict.get?_erase_self] at hget
    cases hget

/-- A removal clears the queue. -/
theorem Quiet.clear (hs : s.Quiet) {call : ℕ} {c : RemoveCall}
    (hcall : s.removes[call]? = some c)
    (hadds : ∀ a ∈ s.adds, a.workflowId = c.workflowId → a.isSettled = true)
    (htimers : ∀ timer ∈ s.timers.entries, timer.2 = c.workflowId →
      ∃ queued ∈ s.queuedActivations.get? c.workflowId, queued.timeout = timer.1) :
    Quiet (ActiveWorkflowManager.setRemove (s.removeQueuedWorkflowActivation c.workflowId) call
      (if (s.removeQueuedWorkflowActivation c.workflowId).isActive c.workflowId then .closing
        else .returning)) := by
  have hcalm : ∀ id, Calm id s (s.removeQueuedWorkflowActivation c.workflowId) := fun _ =>
    removeQueuedWorkflowActivation_calm
  have hsame := removeQueued_removes s c.workflowId
  refine (hs.of_same hsame.1 hsame.2 fun id _ => hcalm id).setRemove (hsame.1 ▸ hcall)
    (fun _ => ⟨(hcalm c.workflowId).adds hadds, timers_removeQueued htimers⟩) fun hstage => ?_
  split_ifs at hstage with hactive
  exact hactive

/-- A removal completes. -/
theorem Quiet.complete (hs : s.Quiet) {call : ℕ} {c : RemoveCall}
    (hcall : s.removes[call]? = some c) (hstage : c.stage = .returning) :
    Quiet { s.setRemove call .done with
      removed := c.workflowId :: s.removed
      typeErrors := s.typeErrors.filter (· ≠ c.workflowId) } := by
  have hreturning : s.Returning c.workflowId := ⟨c, List.mem_of_getElem? hcall, rfl, hstage⟩
  have hdone : (s.setRemove call .done).Quiet := hs.setRemove hcall
    (by simp [RemoveCall.hasCleared]) (by simp)
  have hcases : ∀ id, id ∈ c.workflowId :: s.removed ∨ (s.setRemove call .done).Removing id →
      id = c.workflowId ∨ (s.setRemove call .done).Window id := by
    rintro id (h | h)
    · exact (List.mem_cons.1 h).imp_right .inl
    · exact .inr (.inr h)
  refine ⟨fun id h => ?_, fun id h => ?_, fun id h => ?_, fun id h => ?_⟩
  · rcases hcases id h with rfl | h
    · exact hs.adds _ (.inr hreturning.removing)
    · exact hdone.adds id h
  · rcases hcases id h with rfl | h
    · exact hs.timers _ (.inr hreturning.removing)
    · exact hdone.timers id h
  · rcases h with h | h
    · rcases List.mem_cons.1 h with rfl | h
      · exact hs.inactive _ (.inr hreturning)
      · exact hdone.inactive id (.inl h)
    · exact hdone.inactive id (.inr h)
  · intro herror
    obtain ⟨hold, hne⟩ := List.mem_filter.1 herror
    rcases List.mem_cons.1 h with rfl | h
    · simp at hne
    · exact hs.errors id h hold

theorem Quiet.resumeRemove (hs : s.Quiet) {call : ℕ} {ok : Bool}
    (h : s.Undisturbed (.resumeRemove call ok)) : (s.resumeRemove call ok).Quiet := by
  unfold ActiveWorkflowManager.resumeRemove
  split
  · exact hs
  next c hcall =>
  have hmem := List.mem_of_getElem? hcall
  have hdone : ∀ s : ActiveWorkflowManager, s.Quiet → s.removes[call]? = some c →
      (s.setRemove call .done).Quiet := fun s hs hcall =>
    hs.setRemove hcall (by simp [RemoveCall.hasCleared]) (by simp)
  have hdelete : (s.deleteActive c.workflowId).Quiet :=
    hs.of_same rfl rfl fun id _ => deleteActive_calm
  cases hstage : c.stage with
  | clearingWebhooks => exact hs.setRemove hcall (by simp [RemoveCall.hasCleared]) (by simp)
  | deregistering =>
    cases ok with
    | false => exact hdone s hs hcall
    | true =>
      obtain ⟨hadds, htimers⟩ := h c hcall hstage rfl
      exact hs.clear hcall hadds htimers
  | closing =>
    cases ok with
    | false => exact hdone s hs hcall
    | true =>
      have hwindow : s.Window c.workflowId := .inr
        ⟨c, hmem, rfl, by simp [RemoveCall.hasCleared, hstage]⟩
      refine hdelete.setRemove hcall (fun _ => ⟨hs.adds _ hwindow, hs.timers _ hwindow⟩) fun _ => ?_
      simp [isActive, deleteActive]
  | returning => exact hs.complete hcall hstage
  | unawaited =>
    cases ok with
    | false => exact hdone s hs hcall
    | true => exact hdone _ hdelete hcall
  | done => exact hs

theorem Quiet.step (hs : s.Quiet) {event : ManagerEvent} (h : s.Undisturbed event) :
    (s.step event).Quiet := by
  cases event with
  | add workflowId atStartup candidate => exact hs.add atStartup candidate h
  | remove workflowId => exact hs.append rfl
  | emitError workflowId => exact hs.emitError fun hwindow => hwindow.elim h.1 h.2
  | timer timeout candidate => exact hs.timer timeout candidate
  | resumeAdd call ok =>
    have hsame := resumeAdd_removes (s := s) call ok
    exact hs.of_same hsame.1 hsame.2 fun id hid => resumeAdd_calm (hs.adds id hid) call ok
  | resumeRemove call ok => exact hs.resumeRemove h

/-- Along every interleaving in which the removals are not disturbed, deactivation is final. -/
theorem deactivation_final (events : List ManagerEvent)
    (h : Runs.Meets step Undisturbed {} events) : Runs.Along step Final {} events := by
  have hinit : Quiet {} := by
    have hnone : ∀ id, ¬ Window {} id := fun id h => h.elim nofun fun ⟨_, hc, _⟩ => nomatch hc
    exact ⟨fun id h => absurd h (hnone id), fun id h => absurd h (hnone id),
      fun id h => absurd (h.imp (fun h => h) Returning.removing) (hnone id), nofun⟩
  have hquiet := Runs.meets_along (I := Quiet) (fun s event hs h => Quiet.step hs h) hinit h
  exact hquiet.mono fun s hs => hs.final

/-! ### A retry and a removal -/

/-- The activation at startup fails, so that a timer is started; it fires, and the retry gets as far
as to start the triggers. -/
def retrying : List ManagerEvent :=
  [.add "workflow" true {}, .resumeAdd 0 false, .resumeAdd 0 true, .resumeAdd 0 true, .timer 0 {},
    .resumeAdd 1 true, .resumeAdd 1 true]

/-- The workflow is removed. -/
def removing (call : ℕ) : List ManagerEvent :=
  .remove "workflow" :: List.replicate 3 (.resumeRemove call true)

/-- A retry that is starting triggers when the workflow is removed makes it active afterwards. -/
theorem retry_survives_removal :
    ¬ Runs.Along step Final {} (retrying ++ removing 0 ++ [.resumeAdd 1 true]) :=
  fun h => absurd h.last (by decide)

/-- Once the retry has come to its end, the removal is final. -/
theorem removal_after_retry_final : Runs.Along step Final {}
    (retrying ++ List.replicate 5 (.resumeAdd 1 true) ++ removing 0 ++ [.resumeRemove 0 true]) :=
  deactivation_final _ (by decide)

end ActiveWorkflowManager

end N8n
