import N8n.Library.Places
import N8n.TaskRequester

/-!
# What a cancellation reaches

A call is linked to its execution by the task it waits for, and to no other: `cancelTasks` answers
each call that waits for a result. A call that waits for a task, or has just been given one, is
linked nowhere, so it may start after the cancellation.
-/

namespace N8n

namespace TaskRequester

variable {s : TaskRequester}

/-- The task of a call that has not ended. -/
def Stage.task : Stage → Option TaskId
  | ready taskId | awaitingData taskId | answered taskId _ => some taskId
  | _ => none

/-- The maps tell of each call what it waits for, and no two calls have the same task. -/
structure Linked (s : TaskRequester) : Prop where
  requested : ∀ requestId ∈ s.requestAcceptRejects,
    ∃ c, s.calls[requestId]? = some c ∧ c.stage = .requested
  accepting : ∀ taskId i, s.taskAcceptRejects.get? taskId = some i →
    ∃ c, s.calls[i]? = some c ∧ c.stage = .awaitingData taskId
  awaiting : ∀ (i : ℕ) (c : Call) taskId, s.calls[i]? = some c → c.stage = .awaitingData taskId →
    s.taskAcceptRejects.get? taskId = some i ∧ s.tasks.get? taskId ≠ none ∧
      ∀ executionId, c.execution = some executionId → taskId ∈ s.getTaskIds executionId
  drawn : ∀ (i : ℕ) (c : Call) taskId, s.calls[i]? = some c → c.stage.task = some taskId →
    taskId < s.nextTaskId
  single : ∀ (i j : ℕ) (c c' : Call) taskId, s.calls[i]? = some c →
    s.calls[j]? = some c' → c.stage.task = some taskId → c'.stage.task = some taskId → i = j

/-- One call gets into another stage, and the maps follow. -/
theorem Linked.setStage {s' : TaskRequester} (h : s.Linked) {i : ℕ} {c : Call} {stage : Stage}
    (hc : s.calls[i]? = some c) (hcalls : s'.calls = (s.setStage i stage).calls)
    (hrequested : ∀ requestId ∈ s'.requestAcceptRejects,
      requestId ∈ s.requestAcceptRejects ∧ requestId ≠ i)
    (hnext : s.nextTaskId ≤ s'.nextTaskId)
    (htask : ∀ taskId, stage.task = some taskId →
      taskId < s'.nextTaskId ∧ (c.stage.task = some taskId ∨ s.nextTaskId ≤ taskId))
    (haccept : ∀ taskId, s'.taskAcceptRejects.get? taskId =
      if stage = .awaitingData taskId then some i
      else if c.stage = .awaitingData taskId then none else s.taskAcceptRejects.get? taskId)
    (hother : ∀ taskId, c.stage.task ≠ some taskId →
      s'.tasks.get? taskId = s.tasks.get? taskId ∧
      ∀ executionId, taskId ∈ s.getTaskIds executionId → taskId ∈ s'.getTaskIds executionId)
    (hself : ∀ taskId, stage = .awaitingData taskId → s'.tasks.get? taskId ≠ none ∧
      ∀ executionId, c.execution = some executionId → taskId ∈ s'.getTaskIds executionId) :
    s'.Linked := by
  have hget : ∀ j, s'.calls[j]? = if j = i then some { c with stage } else s.calls[j]? := by
    intro j
    rw [hcalls]
    by_cases hj : j = i
    · simp [TaskRequester.setStage, hj, hc]
    · simp [TaskRequester.setStage, hj, Ne.symm hj]
  have hdisjoint : ∀ {j c' taskId}, j ≠ i → s.calls[j]? = some c' → c'.stage.task = some taskId →
      c.stage.task ≠ some taskId ∧ stage.task ≠ some taskId := by
    intro j c' taskId hne hj htask'
    have hfirst : c.stage.task ≠ some taskId := fun hsame =>
      hne (h.single j i c' c taskId hj hc htask' hsame)
    refine ⟨hfirst, fun hsame => ?_⟩
    rcases (htask taskId hsame).2 with hold | hnew
    · exact hfirst hold
    · exact absurd (h.drawn j c' taskId hj htask') (Nat.not_lt.2 hnew)
  refine ⟨fun requestId hr => ?_, fun taskId j hj => ?_, fun j c' taskId hj hstage => ?_,
    fun j c' taskId hj htask' => ?_, fun j k c' c'' taskId hj hk htask' htask'' => ?_⟩
  · obtain ⟨hr, hne⟩ := hrequested requestId hr
    rw [hget, if_neg hne]
    exact h.requested requestId hr
  · rw [haccept] at hj
    split_ifs at hj with hnew hold
    · obtain rfl := Option.some.inj hj
      exact ⟨_, by rw [hget, if_pos rfl], hnew⟩
    · obtain ⟨c', hc', hstage⟩ := h.accepting taskId j hj
      refine ⟨c', ?_, hstage⟩
      rw [hget, if_neg, hc']
      rintro rfl
      rw [hc] at hc'
      obtain rfl := Option.some.inj hc'
      exact hold hstage
  · rw [hget] at hj
    split_ifs at hj with hji
    · subst hji
      obtain rfl := Option.some.inj hj
      obtain ⟨htasks, hids⟩ := hself taskId hstage
      exact ⟨by rw [haccept, if_pos hstage], htasks, hids⟩
    · have htask' : c'.stage.task = some taskId := by rw [hstage]; rfl
      obtain ⟨hold, hnew⟩ := hdisjoint hji hj htask'
      obtain ⟨haccepting, htasks, hids⟩ := h.awaiting j c' taskId hj hstage
      obtain ⟨htasks', hids'⟩ := hother taskId hold
      refine ⟨?_, by rwa [htasks'], fun executionId he => hids' _ (hids _ he)⟩
      rw [haccept, if_neg fun hs => hnew (by rw [hs]; rfl),
        if_neg fun hs => hold (by rw [hs]; rfl), haccepting]
  · rw [hget] at hj
    split_ifs at hj with hji
    · obtain rfl := Option.some.inj hj
      exact (htask taskId htask').1
    · exact Nat.lt_of_lt_of_le (h.drawn j c' taskId hj htask') hnext
  · rw [hget] at hj hk
    split_ifs at hj hk with hji hki hki
    · rw [hji, hki]
    · obtain rfl := Option.some.inj hj
      exact absurd htask' (hdisjoint hki hk htask'').2
    · obtain rfl := Option.some.inj hk
      exact absurd htask'' (hdisjoint hji hj htask').2
    · exact h.single j k c' c'' taskId hj hk htask' htask''

/-! ## Operations -/

theorem Linked.sendMessage (h : s.Linked) (message : RequesterMessage) (cancelled : Bool) :
    (s.sendMessage message cancelled).Linked := { h with }

/-- A request that is pending is that of its call. -/
theorem Linked.answerRequest (h : s.Linked) {requestId : RequestId}
    (hr : requestId ∈ s.requestAcceptRejects) {nextTaskId : TaskId} {stage : Stage}
    (hnext : s.nextTaskId ≤ nextTaskId)
    (htask : ∀ taskId, stage.task = some taskId → taskId < nextTaskId ∧ s.nextTaskId ≤ taskId)
    (hstage : ∀ taskId, stage ≠ .awaitingData taskId) :
    Linked { s.setStage requestId stage with
      nextTaskId
      requestAcceptRejects := s.requestAcceptRejects.filter (· ≠ requestId) } := by
  obtain ⟨c, hc, hrequested⟩ := h.requested requestId hr
  refine h.setStage hc rfl (fun r hr' => ?_) hnext (fun taskId ht => ?_) (fun taskId => ?_)
    (fun _ _ => ⟨rfl, fun _ => id⟩) fun taskId hs => absurd hs (hstage taskId)
  · simpa using hr'
  · exact ⟨(htask taskId ht).1, .inr (htask taskId ht).2⟩
  · rw [if_neg (hstage taskId), hrequested, if_neg fun hs => by cases hs]
    rfl

theorem Linked.startTask (h : s.Linked) (executionId : Option String) (taskType settings : String) :
    (s.startTask executionId taskType settings).Linked := by
  have hold : ∀ {i : ℕ} {c new : Call}, new.stage = .requested → (s.calls ++ [new])[i]? = some c →
      s.calls[i]? = some c ∨ c.stage = .requested := fun hnew hc =>
    (Places.getElem?_concat_eq_some.1 hc).imp_right fun ⟨_, heq⟩ => heq ▸ hnew
  refine Linked.sendMessage ⟨fun requestId hr => ?_, fun taskId i hi => ?_,
    fun i c taskId hc hstage => ?_, fun i c taskId hc ht => ?_,
    fun i j c c' taskId hc hc' ht ht' => ?_⟩ _ _
  · rcases List.mem_append.1 hr with hr | hr
    · obtain ⟨c, hc, hstage⟩ := h.requested requestId hr
      exact ⟨c, Places.getElem?_concat_of_some hc _, hstage⟩
    · obtain rfl := List.mem_singleton.1 hr
      exact ⟨_, List.getElem?_concat_length, rfl⟩
  · obtain ⟨c, hc, hstage⟩ := h.accepting taskId i hi
    exact ⟨c, Places.getElem?_concat_of_some hc _, hstage⟩
  · rcases hold rfl hc with hc | hnew
    · exact h.awaiting i c taskId hc hstage
    · rw [hnew] at hstage
      cases hstage
  · rcases hold rfl hc with hc | hnew
    · exact h.drawn i c taskId hc ht
    · rw [hnew] at ht
      cases ht
  · rcases hold rfl hc with hc | hnew <;> rcases hold rfl hc' with hc' | hnew'
    · exact h.single i j c c' taskId hc hc' ht ht'
    · rw [hnew'] at ht'
      cases ht'
    · rw [hnew] at ht
      cases ht
    · rw [hnew] at ht
      cases ht

theorem Linked.taskReady (h : s.Linked) (requestId : RequestId) :
    (s.taskReady requestId).Linked := by
  unfold TaskRequester.taskReady
  dsimp only
  split_ifs with hr
  · refine h.answerRequest hr (Nat.le_succ _) (fun taskId ht => ?_) fun taskId hs => by cases hs
    obtain rfl := Option.some.inj ht
    exact ⟨Nat.lt_succ_self _, Nat.le_refl _⟩
  · exact { h with drawn := fun i c taskId hc ht => Nat.lt_succ_of_lt (h.drawn i c taskId hc ht) }

theorem Linked.requestExpired (h : s.Linked) (requestId : RequestId) :
    (s.requestExpired requestId).Linked := by
  unfold TaskRequester.requestExpired
  split_ifs with hr
  · exact h.answerRequest hr (Nat.le_refl _) (fun taskId ht => by cases ht) fun taskId hs => by
      cases hs
  · exact h

/-- A pending request is not that of a call in another stage. -/
theorem Linked.ne_of_stage (h : s.Linked) {i : ℕ} {c : Call} {stage : Stage}
    (hc : s.calls[i]? = some c) (hstage : c.stage = stage) (hnot : stage ≠ .requested) :
    ∀ requestId ∈ s.requestAcceptRejects,
      requestId ∈ s.requestAcceptRejects ∧ requestId ≠ i := by
  refine fun requestId hr => ⟨hr, ?_⟩
  rintro rfl
  obtain ⟨c', hc', hrequested⟩ := h.requested requestId hr
  rw [hc] at hc'
  obtain rfl := Option.some.inj hc'
  exact hnot (hstage.symm.trans hrequested)

theorem Linked.settle (h : s.Linked) (taskId : TaskId) (answer : Answer) :
    (s.settle taskId answer).Linked := by
  unfold TaskRequester.settle
  cases hi : s.taskAcceptRejects.get? taskId with
  | none => exact h
  | some i =>
    obtain ⟨c, hc, hstage⟩ := h.accepting taskId i hi
    refine h.setStage hc rfl (h.ne_of_stage hc hstage nofun)
      (Nat.le_refl _) (fun taskId' ht => ?_) (fun taskId' => ?_) (fun _ _ => ⟨rfl, fun _ => id⟩)
      fun taskId' hs => by cases hs
    · obtain rfl := Option.some.inj ht
      exact ⟨h.drawn i c taskId hc (by rw [hstage]; rfl), .inl (by rw [hstage]; rfl)⟩
    · dsimp only
      rw [if_neg fun hs => (by cases hs), hstage, Dict.get?_erase]
      by_cases hsame : taskId' = taskId
      · rw [if_pos hsame, if_pos (by rw [hsame])]
      · rw [if_neg hsame, if_neg fun hs => hsame (by injection hs with hs; exact hs.symm)]

theorem Linked.eraseTask (h : s.Linked) {taskId : TaskId}
    (hgone : s.taskAcceptRejects.get? taskId = none) :
    Linked { s with tasks := s.tasks.erase taskId } where
  requested := h.requested
  accepting := h.accepting
  awaiting := fun i c taskId' hc hstage => by
    obtain ⟨haccept, htasks, hids⟩ := h.awaiting i c taskId' hc hstage
    refine ⟨haccept, ?_, hids⟩
    dsimp only
    rw [Dict.get?_erase, if_neg]
    · exact htasks
    · rintro rfl
      rw [hgone] at haccept
      cases haccept
  drawn := h.drawn
  single := h.single

theorem settle_get? (taskId : TaskId) (answer : Answer) :
    (s.settle taskId answer).taskAcceptRejects.get? taskId = none := by
  unfold TaskRequester.settle
  cases hi : s.taskAcceptRejects.get? taskId with
  | none => exact hi
  | some i => exact Dict.get?_erase_self _ _

theorem cancelTask_eq {taskId : TaskId} (htask : s.tasks.get? taskId ≠ none) (reason : String) :
    s.cancelTask taskId reason =
      { s.settle taskId (.cancelled s!"Task cancelled: {reason}") with
        tasks := s.tasks.erase taskId
        sent := s.sent ++ [{ message := .taskCancel taskId reason }] } := by
  unfold cancelTask TaskRequester.settle
  cases hi : s.tasks.get? taskId with
  | none => exact absurd hi htask
  | some i =>
    dsimp only [sendMessage]
    cases s.taskAcceptRejects.get? taskId <;> rfl

theorem settle_tasks (taskId : TaskId) (answer : Answer) :
    (s.settle taskId answer).tasks = s.tasks := by
  unfold TaskRequester.settle
  cases s.taskAcceptRejects.get? taskId <;> rfl

theorem Linked.cancelTask (h : s.Linked) (taskId : TaskId) (reason : String) :
    (s.cancelTask taskId reason).Linked := by
  by_cases htask : s.tasks.get? taskId = none
  · unfold TaskRequester.cancelTask
    rw [htask]
    exact h
  · have herased := (h.settle taskId (.cancelled s!"Task cancelled: {reason}")).eraseTask
      (settle_get? taskId _)
    rw [settle_tasks] at herased
    rw [cancelTask_eq htask]
    exact { herased with }

theorem mem_addTaskId {taskIds : List TaskId} {taskId taskId' : TaskId} :
    taskId' ∈ addTaskId taskIds taskId ↔ taskId' ∈ taskIds ∨ taskId' = taskId := by
  unfold addTaskId
  split_ifs with hmem
  · exact ⟨.inl, fun h => h.elim id fun heq => heq ▸ hmem⟩
  · rw [List.mem_append, List.mem_singleton]

theorem mem_getTaskIds_sendSettings {call : ℕ} {c : Call} {taskId taskId' : TaskId}
    {executionId : String} :
    taskId' ∈ (s.sendSettings call c taskId).getTaskIds executionId ↔
      taskId' ∈ s.getTaskIds executionId ∨ c.execution = some executionId ∧ taskId' = taskId := by
  unfold sendSettings
  cases hexecution : c.execution with
  | none => simp [getTaskIds, sendMessage]
  | some e =>
    by_cases he : executionId = e
    · subst he
      simp [getTaskIds, sendMessage, mem_addTaskId]
    · simp [getTaskIds, sendMessage, Dict.get?_set, he, Ne.symm he]

theorem mem_getTaskIds_clearExecutionsMap {taskId taskId' : TaskId} {executionId : String}
    (hne : taskId' ≠ taskId) (h : taskId' ∈ s.getTaskIds executionId) :
    taskId' ∈ (s.clearExecutionsMap taskId).getTaskIds executionId := by
  unfold clearExecutionsMap
  cases hfind : s.executionIdsToTaskIds.entries.find? fun e => taskId ∈ e.2 with
  | none => exact h
  | some e =>
    obtain ⟨e, taskIds⟩ := e
    have hget : s.executionIdsToTaskIds.get? e = some taskIds :=
      Dict.mem_entries.1 (List.mem_of_find?_eq_some hfind)
    dsimp only
    unfold getTaskIds at h ⊢
    by_cases he : executionId = e
    · subst he
      rw [hget] at h
      have hmem : taskId' ∈ taskIds.filter (· ≠ taskId) := by
        simpa using ⟨h, hne⟩
      rw [if_neg (Nat.ne_of_gt (List.length_pos_of_mem hmem)), Dict.get?_set_self]
      exact hmem
    · split_ifs
      · rwa [Dict.get?_erase_of_ne _ he]
      · rwa [Dict.get?_set_of_ne _ he]

theorem Linked.sendSettings (h : s.Linked) {call : ℕ} {c : Call} {taskId : TaskId}
    (hc : s.calls[call]? = some c) (hstage : c.stage = .ready taskId) :
    (s.sendSettings call c taskId).Linked := by
  have htask : c.stage.task = some taskId := by rw [hstage]; rfl
  refine h.setStage hc rfl
    (h.ne_of_stage hc hstage nofun) (Nat.le_refl _)
    (fun taskId' ht => ?_) (fun taskId' => ?_) (fun taskId' hne => ⟨?_, ?_⟩)
    fun taskId' hs => ⟨?_, fun executionId he => ?_⟩
  · obtain rfl := Option.some.inj ht
    exact ⟨h.drawn call c taskId hc htask, .inl htask⟩
  · have hset : (s.sendSettings call c taskId).taskAcceptRejects.get? taskId' = _ :=
      Dict.get?_set _ _ _ _
    rw [hset, hstage]
    by_cases hsame : taskId' = taskId
    · rw [if_pos hsame, if_pos (by rw [hsame])]
    · rw [if_neg hsame, if_neg fun hs => hsame (by injection hs with hs; exact hs.symm),
        if_neg fun hs => (by cases hs)]
  · refine Dict.get?_set_of_ne _ (fun hsame => hne ?_) _
    rw [hsame, htask]
  · exact fun executionId hmem => mem_getTaskIds_sendSettings.2 (.inl hmem)
  · obtain rfl : taskId = taskId' := by injection hs
    have hset : (s.sendSettings call c taskId).tasks.get? taskId = some call :=
      Dict.get?_set_self _ _ _
    rw [hset]
    exact fun hn => by cases hn
  · obtain rfl : taskId = taskId' := by injection hs
    exact mem_getTaskIds_sendSettings.2 (.inr ⟨he, rfl⟩)

@[simp] theorem clearExecutionsMap_eq (taskId : TaskId) :
    ∃ executionIdsToTaskIds, s.clearExecutionsMap taskId = { s with executionIdsToTaskIds } := by
  unfold clearExecutionsMap
  split
  · exact ⟨_, rfl⟩
  · exact ⟨_, rfl⟩

theorem Linked.finish (h : s.Linked) {call : ℕ} {c : Call} {taskId : TaskId} {answer : Answer}
    (hc : s.calls[call]? = some c) (hstage : c.stage = .answered taskId answer) :
    (s.finish call taskId answer).Linked := by
  obtain ⟨executionIdsToTaskIds, heq⟩ := clearExecutionsMap_eq (s :=
    { s.setStage call (.returned answer) with tasks := s.tasks.erase taskId }) taskId
  have hids : ∀ executionId taskId', taskId' ≠ taskId → taskId' ∈ s.getTaskIds executionId →
      taskId' ∈ (s.finish call taskId answer).getTaskIds executionId :=
    fun executionId taskId' hne hmem => mem_getTaskIds_clearExecutionsMap hne hmem
  unfold TaskRequester.finish at hids ⊢
  rw [heq] at hids ⊢
  refine h.setStage hc rfl (h.ne_of_stage hc hstage nofun)
    (Nat.le_refl _) (fun taskId' ht => by cases ht) (fun taskId' => ?_)
    (fun taskId' hne => ?_) fun taskId' hs => by cases hs
  · rw [if_neg fun hs => (by cases hs), if_neg fun hs => (by rw [hstage] at hs; cases hs)]
    rfl
  · have hne' : taskId' ≠ taskId := fun hsame => hne (by rw [hsame, hstage]; rfl)
    exact ⟨Dict.get?_erase_of_ne _ hne', fun executionId => hids executionId taskId' hne'⟩

theorem Linked.resume (h : s.Linked) (call : ℕ) : (s.resume call).Linked := by
  unfold TaskRequester.resume
  split
  · exact h
  · rename_i c hc
    split
    · rename_i taskId hstage
      exact h.sendSettings hc hstage
    · rename_i hstage
      refine h.setStage hc rfl (h.ne_of_stage hc hstage nofun)
        (Nat.le_refl _) (fun taskId' ht => by cases ht) (fun taskId' => ?_)
        (fun _ _ => ⟨rfl, fun _ => id⟩) fun taskId' hs => by cases hs
      rw [if_neg fun hs => (by cases hs), if_neg fun hs => (by rw [hstage] at hs; cases hs)]
      rfl
    · rename_i taskId answer hstage
      exact h.finish hc hstage
    · exact h

@[simp] theorem Call.noteCancel_stage (executionId : String) (c : Call) :
    (c.noteCancel executionId).stage = c.stage := by
  unfold Call.noteCancel
  split_ifs <;> rfl

@[simp] theorem Call.noteCancel_execution (executionId : String) (c : Call) :
    (c.noteCancel executionId).execution = c.execution := by
  unfold Call.noteCancel
  split_ifs <;> rfl

theorem getElem?_noteCancel {executionId : String} {i : ℕ} {c : Call} :
    (s.noteCancel executionId).calls[i]? = some c ↔
      ∃ c₀, s.calls[i]? = some c₀ ∧ c₀.noteCancel executionId = c := by
  unfold TaskRequester.noteCancel
  rw [List.getElem?_map]
  exact Option.map_eq_some_iff

theorem Linked.noteCancel (h : s.Linked) (executionId : String) :
    (s.noteCancel executionId).Linked where
  requested := fun requestId hr => by
    obtain ⟨c, hc, hstage⟩ := h.requested requestId hr
    exact ⟨_, getElem?_noteCancel.2 ⟨c, hc, rfl⟩, by simpa using hstage⟩
  accepting := fun taskId i hi => by
    obtain ⟨c, hc, hstage⟩ := h.accepting taskId i hi
    exact ⟨_, getElem?_noteCancel.2 ⟨c, hc, rfl⟩, by simpa using hstage⟩
  awaiting := fun i c taskId hc hstage => by
    obtain ⟨c₀, hc₀, rfl⟩ := getElem?_noteCancel.1 hc
    rw [Call.noteCancel_execution]
    exact h.awaiting i c₀ taskId hc₀ (by simpa using hstage)
  drawn := fun i c taskId hc ht => by
    obtain ⟨c₀, hc₀, rfl⟩ := getElem?_noteCancel.1 hc
    exact h.drawn i c₀ taskId hc₀ (by simpa using ht)
  single := fun i j c c' taskId hc hc' ht ht' => by
    obtain ⟨c₀, hc₀, rfl⟩ := getElem?_noteCancel.1 hc
    obtain ⟨c₁, hc₁, rfl⟩ := getElem?_noteCancel.1 hc'
    exact h.single i j c₀ c₁ taskId hc₀ hc₁ (by simpa using ht) (by simpa using ht')

/-! ## What is cancelled -/

section Cancel

variable {i : ℕ} {c : Call} {taskId : TaskId} (reason : String)

theorem Linked.cancelTask_of_ne (h : s.Linked) (hc : s.calls[i]? = some c)
    (hstage : c.stage ≠ .awaitingData taskId) :
    (s.cancelTask taskId reason).calls[i]? = some c := by
  by_cases htask : s.tasks.get? taskId = none
  · unfold TaskRequester.cancelTask
    rw [htask]
    exact hc
  · rw [cancelTask_eq htask]
    unfold TaskRequester.settle
    cases hj : s.taskAcceptRejects.get? taskId with
    | none => exact hc
    | some j =>
      obtain ⟨c', hc', hstage'⟩ := h.accepting taskId j hj
      refine Places.getElem?_modify_eq_some.2 ⟨c, hc, if_neg fun hji => hstage ?_⟩
      rw [hji, hc] at hc'
      exact Option.some.inj hc' ▸ hstage'

/-- The call that waits for the result gets the error, and the broker is told. -/
theorem Linked.cancelTask_of_awaiting (h : s.Linked) (hc : s.calls[i]? = some c)
    (hstage : c.stage = .awaitingData taskId) :
    (∃ message, (s.cancelTask taskId reason).calls[i]? =
        some { c with stage := .answered taskId (.cancelled message) }) ∧
      { message := .taskCancel taskId reason } ∈ (s.cancelTask taskId reason).sent := by
  obtain ⟨haccept, htask, -⟩ := h.awaiting i c taskId hc hstage
  rw [cancelTask_eq htask]
  refine ⟨⟨s!"Task cancelled: {reason}", ?_⟩, List.mem_append_right _ (List.mem_singleton_self _)⟩
  unfold TaskRequester.settle
  rw [haccept]
  exact Places.getElem?_modify_self hc _

end Cancel

/-- A call is left as it is, or gets the error of a cancellation. -/
def Call.Cancels (c c' : Call) : Prop :=
  c' = c ∨ ∃ taskId message, c.stage = .awaitingData taskId ∧
    c' = { c with stage := .answered taskId (.cancelled message) }

theorem Call.Cancels.trans {c c' c'' : Call} (h : c.Cancels c') (h' : c'.Cancels c'') :
    c.Cancels c'' := by
  rcases h with rfl | ⟨taskId, message, hstage, rfl⟩
  · exact h'
  · rcases h' with rfl | ⟨_, _, hstage', -⟩
    · exact .inr ⟨taskId, message, hstage, rfl⟩
    · cases hstage'

theorem Call.Cancels.eq {c c' : Call} (h : c.Cancels c')
    (hstage : ∀ taskId, c.stage ≠ .awaitingData taskId) : c' = c :=
  h.resolve_right fun ⟨taskId, _, hs, _⟩ => hstage taskId hs

/-- What the tasks of an execution are cancelled with. -/
structure Cancels (s s' : TaskRequester) : Prop where
  length : s'.calls.length = s.calls.length
  calls : ∀ (i : ℕ) (c : Call), s.calls[i]? = some c → ∃ c', s'.calls[i]? = some c' ∧ c.Cancels c'
  sent : ∃ sent, s'.sent = s.sent ++ sent ∧
    ∀ m ∈ sent, ∃ taskId reason, m.message = .taskCancel taskId reason

theorem Cancels.refl (s : TaskRequester) : Cancels s s :=
  ⟨rfl, fun _ c hc => ⟨c, hc, .inl rfl⟩, [], (List.append_nil _).symm, fun _ hm => by cases hm⟩

theorem Cancels.trans {s s' s'' : TaskRequester} (h : Cancels s s') (h' : Cancels s' s'') :
    Cancels s s'' := by
  obtain ⟨sent, hsent, hcancel⟩ := h.sent
  obtain ⟨sent', hsent', hcancel'⟩ := h'.sent
  refine ⟨h'.length.trans h.length, fun i c hc => ?_, sent ++ sent', ?_, fun m hm => ?_⟩
  · obtain ⟨c', hc', hcancels⟩ := h.calls i c hc
    obtain ⟨c'', hc'', hcancels'⟩ := h'.calls i c' hc'
    exact ⟨c'', hc'', hcancels.trans hcancels'⟩
  · rw [hsent', hsent, List.append_assoc]
  · exact (List.mem_append.1 hm).elim (hcancel m) (hcancel' m)

theorem Linked.cancels_cancelTask (h : s.Linked) (taskId : TaskId) (reason : String) :
    Cancels s (s.cancelTask taskId reason) := by
  refine ⟨?_, fun i c hc => ?_, ?_⟩
  · unfold TaskRequester.cancelTask TaskRequester.settle
    split
    · rfl
    · dsimp only [sendMessage]
      split
      · rfl
      · exact List.length_modify ..
  · by_cases hstage : c.stage = .awaitingData taskId
    · obtain ⟨⟨message, hc'⟩, -⟩ := h.cancelTask_of_awaiting reason hc hstage
      exact ⟨_, hc', .inr ⟨taskId, message, hstage, rfl⟩⟩
    · exact ⟨c, h.cancelTask_of_ne _ hc hstage, .inl rfl⟩
  · by_cases htask : s.tasks.get? taskId = none
    · refine ⟨[], ?_, fun _ hm => by cases hm⟩
      unfold TaskRequester.cancelTask
      rw [htask, List.append_nil]
    · rw [cancelTask_eq htask]
      refine ⟨[{ message := .taskCancel taskId reason }], rfl, fun m hm => ?_⟩
      obtain rfl := List.mem_singleton.1 hm
      exact ⟨taskId, reason, rfl⟩

theorem Linked.foldl_cancelTask : ∀ (taskIds : List TaskId) {s : TaskRequester}, s.Linked →
    (taskIds.foldl (fun s taskId => s.cancelTask taskId) s).Linked ∧
      Cancels s (taskIds.foldl (fun s taskId => s.cancelTask taskId) s)
  | [], s, h => ⟨h, .refl s⟩
  | taskId :: taskIds, s, h => by
    obtain ⟨hlinked, hcancels⟩ := foldl_cancelTask taskIds (h.cancelTask taskId _)
    exact ⟨hlinked, (h.cancels_cancelTask taskId _).trans hcancels⟩

/-- Each task is cancelled in its turn. -/
theorem Linked.foldl_cancelTask_of_mem {i : ℕ} {c : Call} {taskId : TaskId} :
    ∀ {taskIds : List TaskId} {s : TaskRequester}, s.Linked → s.calls[i]? = some c →
      c.stage = .awaitingData taskId → taskId ∈ taskIds →
      (∃ message, (taskIds.foldl (fun s taskId => s.cancelTask taskId) s).calls[i]? =
        some { c with stage := .answered taskId (.cancelled message) }) ∧
      ∃ m ∈ (taskIds.foldl (fun s taskId => s.cancelTask taskId) s).sent, ∃ reason,
        m.message = .taskCancel taskId reason
  | t :: taskIds, s, h, hc, hstage, hmem => by
    by_cases ht : t = taskId
    · subst ht
      obtain ⟨⟨message, hc'⟩, hsent⟩ :=
        h.cancelTask_of_awaiting "Task cancelled by user" hc hstage
      obtain ⟨-, hcancels⟩ := foldl_cancelTask taskIds (h.cancelTask t _)
      obtain ⟨c', hc'', hlater⟩ := hcancels.calls i _ hc'
      obtain rfl := hlater.eq fun _ hs => by cases hs
      obtain ⟨sent, hsent', -⟩ := hcancels.sent
      have hlast := hsent' ▸ List.mem_append_left sent hsent
      exact ⟨⟨message, hc''⟩, _, hlast, _, rfl⟩
    · have hne : c.stage ≠ .awaitingData t := fun hs => by
        rw [hstage] at hs
        injection hs with hs
        exact ht hs.symm
      have hrest := (List.mem_cons.1 hmem).resolve_left fun hs => ht hs.symm
      rw [List.foldl_cons]
      exact foldl_cancelTask_of_mem (h.cancelTask t _) (h.cancelTask_of_ne _ hc hne) hstage hrest

/-! ## Runs -/

/-- In the runs that are looked at no call that has just got a task is cancelled. -/
structure Kept (s : TaskRequester) : Prop where
  linked : s.Linked
  startsNone : s.StartsNone
  fresh : ∀ (i : ℕ) (c : Call) taskId, s.calls[i]? = some c → c.stage = .ready taskId →
    c.cancels = []

theorem Kept.setStage {s' : TaskRequester} (h : s.Kept) (hlinked : s'.Linked) {i : ℕ} {c : Call}
    {stage : Stage} (hc : s.calls[i]? = some c) (hcalls : s'.calls = (s.setStage i stage).calls)
    {sent : List Sent} (hsent : s'.sent = s.sent ++ sent)
    (hnot : ∀ m ∈ sent, ∀ taskId settings, m.message = .taskSettings taskId settings →
      m.cancelled = false)
    (hkeep : ∀ taskId, c.CancelledWith taskId → ({ c with stage } : Call).CancelledWith taskId)
    (hfresh : ∀ taskId, stage = .ready taskId → c.cancels = []) : s'.Kept := by
  have hget : ∀ {j c'}, s'.calls[j]? = some c' →
      j = i ∧ c' = { c with stage } ∨ j ≠ i ∧ s.calls[j]? = some c' := by
    intro j c' hj
    rw [hcalls] at hj
    obtain ⟨c₀, hc₀, heq⟩ := Places.getElem?_modify_eq_some.1 hj
    split_ifs at heq with hij
    · subst hij
      rw [hc] at hc₀
      obtain rfl := Option.some.inj hc₀
      exact .inl ⟨rfl, heq.symm⟩
    · exact .inr ⟨Ne.symm hij, heq ▸ hc₀⟩
  refine ⟨hlinked, ⟨fun m hm => ?_, fun c' hc' stage' hstage' taskId ht => ?_⟩,
    fun j c' taskId hj hready => ?_⟩
  · rw [hsent] at hm
    exact (List.mem_append.1 hm).elim (h.startsNone.sent m) (hnot m)
  · have hold : ∀ {c₀}, c₀ ∈ s.calls → stage' ∈ c₀.cancels → c₀.CancelledWith taskId ∧
        ∃ m ∈ s'.sent, ∃ reason, m.message = .taskCancel taskId reason := by
      intro c₀ hc₀ hmem
      obtain ⟨hwith, m, hm, hmessage⟩ := h.startsNone.answered c₀ hc₀ stage' hmem taskId ht
      exact ⟨hwith, m, hsent ▸ List.mem_append_left _ hm, hmessage⟩
    obtain ⟨j, hj⟩ := List.mem_iff_getElem?.1 hc'
    rcases hget hj with ⟨-, rfl⟩ | ⟨-, hj⟩
    · exact (hold (List.mem_of_getElem? hc) hstage').imp_left (hkeep taskId)
    · exact hold (List.mem_of_getElem? hj) hstage'
  · rcases hget hj with ⟨-, rfl⟩ | ⟨-, hj⟩
    · exact hfresh taskId hready
    · exact h.fresh j c' taskId hj hready

theorem Kept.startTask (h : s.Kept) (executionId : Option String) (taskType settings : String) :
    (s.startTask executionId taskType settings).Kept := by
  have hold : ∀ {i : ℕ} {c new : Call}, new.stage = .requested ∧ new.cancels = [] →
      (s.calls ++ [new])[i]? = some c →
      s.calls[i]? = some c ∨ c.stage = .requested ∧ c.cancels = [] := fun hnew hc =>
    (Places.getElem?_concat_eq_some.1 hc).imp_right fun ⟨_, heq⟩ => heq ▸ hnew
  refine ⟨h.linked.startTask executionId taskType settings, ⟨fun m hm => ?_,
    fun c hc stage hstage taskId ht => ?_⟩, fun i c taskId hc hready => ?_⟩
  · rcases List.mem_append.1 hm with hm | hm
    · exact h.startsNone.sent m hm
    · obtain rfl := List.mem_singleton.1 hm
      exact fun _ _ hmessage => by cases hmessage
  · obtain ⟨i, hi⟩ := List.mem_iff_getElem?.1 hc
    rcases hold ⟨rfl, rfl⟩ hi with hi | ⟨-, hnone⟩
    · obtain ⟨hwith, m, hm, hmessage⟩ :=
        h.startsNone.answered c (List.mem_of_getElem? hi) stage hstage taskId ht
      exact ⟨hwith, m, List.mem_append_left _ hm, hmessage⟩
    · rw [hnone] at hstage
      cases hstage
  · rcases hold ⟨rfl, rfl⟩ hc with hc | ⟨hrequested, -⟩
    · exact h.fresh i c taskId hc hready
    · rw [hrequested] at hready
      cases hready

theorem Kept.taskReady (h : s.Kept) {requestId : RequestId}
    (hfresh : s.CancelsLinked (.taskReady requestId)) : (s.taskReady requestId).Kept := by
  have hlinked := h.linked.taskReady requestId
  unfold TaskRequester.taskReady at hlinked ⊢
  dsimp only at hlinked ⊢
  split_ifs at hlinked ⊢ with hr
  · obtain ⟨c, hc, hrequested⟩ := h.linked.requested requestId hr
    refine h.setStage hlinked hc rfl (List.append_nil _).symm (fun _ hm => by cases hm)
      (fun taskId ⟨message, hwith⟩ => ?_) fun _ _ => hfresh hr c hc
    rw [hrequested] at hwith
    rcases hwith with hwith | hwith <;> cases hwith
  · refine ⟨hlinked, ⟨fun m hm => ?_, fun c hc stage hstage taskId ht => ?_⟩, h.fresh⟩
    · rcases List.mem_append.1 hm with hm | hm
      · exact h.startsNone.sent m hm
      · obtain rfl := List.mem_singleton.1 hm
        exact fun _ _ hmessage => by cases hmessage
    · obtain ⟨hwith, m, hm, hmessage⟩ := h.startsNone.answered c hc stage hstage taskId ht
      exact ⟨hwith, m, List.mem_append_left _ hm, hmessage⟩

theorem Kept.requestExpired (h : s.Kept) (requestId : RequestId) :
    (s.requestExpired requestId).Kept := by
  have hlinked := h.linked.requestExpired requestId
  unfold TaskRequester.requestExpired at hlinked ⊢
  split_ifs at hlinked ⊢ with hr
  · obtain ⟨c, hc, hrequested⟩ := h.linked.requested requestId hr
    refine h.setStage hlinked hc rfl (List.append_nil _).symm (fun _ hm => by cases hm)
      (fun taskId ⟨message, hwith⟩ => ?_) fun _ hs => by cases hs
    rw [hrequested] at hwith
    rcases hwith with hwith | hwith <;> cases hwith
  · exact h

theorem Kept.settle (h : s.Kept) (taskId : TaskId) (answer : Answer) :
    (s.settle taskId answer).Kept := by
  have hlinked := h.linked.settle taskId answer
  unfold TaskRequester.settle at hlinked ⊢
  cases hi : s.taskAcceptRejects.get? taskId with
  | none => exact h
  | some i =>
    rw [hi] at hlinked
    obtain ⟨c, hc, hstage⟩ := h.linked.accepting taskId i hi
    refine h.setStage hlinked hc rfl (List.append_nil _).symm (fun _ hm => by cases hm)
      (fun taskId ⟨message, hwith⟩ => ?_) fun _ hs => by cases hs
    rw [hstage] at hwith
    rcases hwith with hwith | hwith <;> cases hwith

theorem Kept.resume (h : s.Kept) (call : ℕ) : (s.resume call).Kept := by
  have hlinked := h.linked.resume call
  unfold TaskRequester.resume at hlinked ⊢
  cases hc : s.calls[call]? with
  | none => exact h
  | some c =>
    rw [hc] at hlinked
    dsimp only at hlinked ⊢
    split at hlinked
    · rename_i taskId hstage
      refine h.setStage hlinked hc rfl rfl (fun m hm _ _ _ => ?_)
        (fun taskId ⟨message, hwith⟩ => ?_) fun _ hs => by cases hs
      · obtain rfl := List.mem_singleton.1 hm
        exact decide_eq_false (not_not.2 (h.fresh call c taskId hc hstage))
      · rw [hstage] at hwith
        rcases hwith with hwith | hwith <;> cases hwith
    · rename_i hstage
      refine h.setStage hlinked hc rfl (List.append_nil _).symm (fun _ hm => by cases hm)
        (fun taskId ⟨message, hwith⟩ => ?_) fun _ hs => by cases hs
      rw [hstage] at hwith
      rcases hwith with hwith | hwith <;> cases hwith
    · rename_i taskId answer hstage
      obtain ⟨executionIdsToTaskIds, heq⟩ := clearExecutionsMap_eq (s :=
        { s.setStage call (.returned answer) with tasks := s.tasks.erase taskId }) taskId
      unfold TaskRequester.finish at hlinked ⊢
      rw [heq] at hlinked ⊢
      refine h.setStage hlinked hc rfl (List.append_nil _).symm (fun _ hm => by cases hm)
        (fun taskId' ⟨message, hwith⟩ => ⟨message, .inr ?_⟩) fun _ hs => by cases hs
      -- the answer it returns is the one it has got
      rw [hstage] at hwith
      rcases hwith with hwith | hwith
      · injection hwith with _ hanswer
        exact congrArg Stage.returned hanswer
      · cases hwith
    · exact h

theorem Kept.cancelTasks (h : s.Kept) {executionId : String}
    (hnone : s.CancelsLinked (.cancelTasks executionId)) : (s.cancelTasks executionId).Kept := by
  obtain ⟨hlinked, hcancels⟩ :=
    Linked.foldl_cancelTask (s.getTaskIds executionId) (h.linked.noteCancel executionId)
  have hnoted := h.linked.noteCancel executionId
  obtain ⟨sent, hsent, hcancel⟩ := hcancels.sent
  have hback : ∀ {i : ℕ} {c' : Call}, (s.cancelTasks executionId).calls[i]? = some c' →
      ∃ c : Call, s.calls[i]? = some c ∧ (c.noteCancel executionId).Cancels c' := by
    intro i c' hc'
    have hlt := (List.getElem?_eq_some_iff.1 hc').1
    have hlength : (s.cancelTasks executionId).calls.length = s.calls.length := by
      rw [show (s.cancelTasks executionId).calls.length = _ from hcancels.length]
      exact List.length_map _
    obtain ⟨c, hc⟩ : ∃ c, s.calls[i]? = some c :=
      ⟨_, List.getElem?_eq_getElem (hlength ▸ hlt)⟩
    obtain ⟨c'', hc'', hlater⟩ := hcancels.calls i _ (getElem?_noteCancel.2 ⟨c, hc, rfl⟩)
    rw [show (s.cancelTasks executionId).calls[i]? = some c'' from hc''] at hc'
    exact ⟨c, hc, Option.some.inj hc' ▸ hlater⟩
  refine ⟨hlinked, ⟨fun m hm => ?_, fun c' hc' stage hstage taskId ht => ?_⟩,
    fun i c' taskId hc' hready => ?_⟩
  · rw [show (s.cancelTasks executionId).sent = s.sent ++ sent from hsent] at hm
    rcases List.mem_append.1 hm with hm | hm
    · exact h.startsNone.sent m hm
    · obtain ⟨taskId, reason, hmessage⟩ := hcancel m hm
      exact fun _ _ hsettings => by rw [hmessage] at hsettings; cases hsettings
  · obtain ⟨i, hi⟩ := List.mem_iff_getElem?.1 hc'
    obtain ⟨c, hc, hlater⟩ := hback hi
    have hold : stage ∈ c.cancels → c'.CancelledWith taskId ∧
        ∃ m ∈ (s.cancelTasks executionId).sent, ∃ reason,
          m.message = .taskCancel taskId reason := by
      intro hmem
      obtain ⟨⟨message, hwith⟩, m, hm, hmessage⟩ :=
        h.startsNone.answered c (List.mem_of_getElem? hc) stage hmem taskId ht
      have hsame := hlater.eq fun taskId' hs => by
        rw [Call.noteCancel_stage] at hs
        rcases hwith with hwith | hwith <;> rw [hwith] at hs <;> cases hs
      refine ⟨⟨message, ?_⟩, m, ?_, hmessage⟩
      · rw [hsame, Call.noteCancel_stage]
        exact hwith
      · rw [show (s.cancelTasks executionId).sent = s.sent ++ sent from hsent]
        exact List.mem_append_left _ hm
    rw [show c'.cancels = (c.noteCancel executionId).cancels by
      rcases hlater with rfl | ⟨_, _, -, rfl⟩ <;> rfl] at hstage
    unfold Call.noteCancel at hstage
    split_ifs at hstage with he
    · rcases List.mem_append.1 hstage with hstage | hstage
      · exact hold hstage
      · -- the stage it is cancelled in
        obtain rfl := List.mem_singleton.1 hstage
        cases hs : c.stage with
        | ready taskId' => exact absurd hs (hnone c (List.mem_of_getElem? hc) he taskId')
        | awaitingData taskId' =>
          rw [hs] at ht
          obtain rfl := Option.some.inj ht
          obtain ⟨-, -, hids⟩ := h.linked.awaiting i c taskId' hc hs
          obtain ⟨⟨message, hlast⟩, hcancel⟩ := hnoted.foldl_cancelTask_of_mem
            (getElem?_noteCancel.2 ⟨c, hc, rfl⟩) (by simpa using hs) (hids executionId he)
          rw [show (s.cancelTasks executionId).calls[i]? = _ from hlast] at hi
          obtain rfl := Option.some.inj hi
          exact ⟨⟨message, .inl rfl⟩, hcancel⟩
        | requested | expired | answered _ _ | returned _ | thrown =>
          rw [hs] at ht
          cases ht
    · exact hold hstage
  · obtain ⟨c, hc, hlater⟩ := hback hc'
    rcases hlater with rfl | ⟨_, _, -, rfl⟩
    · rw [Call.noteCancel_stage] at hready
      have hfresh := h.fresh i c taskId hc hready
      unfold Call.noteCancel
      rw [if_neg fun he => hnone c (List.mem_of_getElem? hc) he taskId hready]
      exact hfresh
    · cases hready

theorem Kept.step (h : s.Kept) {e : Event} (hlinks : s.CancelsLinked e) : (s.step e).Kept := by
  cases e with
  | startTask executionId taskType settings => exact h.startTask executionId taskType settings
  | taskReady requestId => exact h.taskReady hlinks
  | requestExpired requestId => exact h.requestExpired requestId
  | taskDone taskId data => exact h.settle taskId _
  | taskError taskId error => exact h.settle taskId _
  | resume call => exact h.resume call
  | cancelTasks executionId => exact h.cancelTasks hlinks

/-- A cancelled execution starts none of its code in a run in which no request of it is answered
after the cancellation, or just before it. -/
theorem starts_none {es : List Event} (h : Runs.Meets step CancelsLinked {} es) :
    Runs.Along step StartsNone {} es := by
  have hlinked : Linked {} :=
    { requested := fun _ hr => by cases hr
      accepting := fun _ _ hi => by cases hi
      awaiting := fun _ _ _ hc => by simp at hc
      drawn := fun _ _ _ hc => by simp at hc
      single := fun _ _ _ _ _ hc => by simp at hc }
  have hstart : Kept {} :=
    { linked := hlinked
      startsNone := ⟨fun _ hm => (by cases hm), fun _ hc => (by cases hc)⟩
      fresh := fun _ _ _ hc => by simp at hc }
  exact (Runs.meets_along (fun _ _ hs hlinks => hs.step hlinks) hstart h).mono
    fun _ hs => hs.startsNone

/-- A call that waits for its result is cancelled, and goes on. -/
def cancelRun : List Event :=
  [.startTask (some "1") "javascript" "code", .taskReady 0, .resume 0, .cancelTasks "1", .resume 0]

theorem waiting_call_cancelled : Runs.Along step StartsNone {} cancelRun := by
  have hlinks : Runs.Meets step CancelsLinked {} cancelRun := by
    refine ⟨trivial, fun _ c hc => ?_, trivial, fun c hc _ taskId hs => ?_, trivial, trivial⟩
    · obtain rfl := Option.some.inj hc
      rfl
    · obtain rfl := List.mem_singleton.1 hc
      cases hs
  exact starts_none hlinks

/-- A task comes after the execution of its call has been cancelled, and gets its settings. -/
theorem requested_call_starts :
    ¬ Runs.Along step StartsNone {} [.startTask (some "1") "javascript" "code", .cancelTasks "1",
      .taskReady 0, .resume 0] := by
  intro h
  have hnot := h.last.sent { message := .taskSettings 0 "code", cancelled := true } (by decide) 0
    "code" rfl
  cases hnot

end TaskRequester

end N8n
