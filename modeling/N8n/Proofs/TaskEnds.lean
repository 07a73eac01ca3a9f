import Mathlib.Tactic
import N8n.Proofs.TaskLife

/-!
# A task ends once

A task whose requester has been told stays in the map until the callback that told it returns; in
between another handler finds it and tells its requester again. Without that, at most one message
about its end is sent for a task: it is sent for a task in the map, which the same step then takes
out of the map or marks as told.
-/

namespace N8n

namespace TaskBroker

/-- Only a task that was told to have ended has an end message: it has left the map, or its
requester is in its callback. -/
structure EndInv (s : TaskBroker) : Prop where
  le_one : ∀ n, s.endMessages n ≤ 1
  undrawn : ∀ n, s.nextTaskId ≤ n → s.endMessages n = 0
  offered : ∀ n, s.Offered n → s.endMessages n = 0
  untold : ∀ t ∈ s.tasks, ⟨t.id, true⟩ ∉ s.endings → s.endMessages t.id = 0

theorem start_endInv (mode : RunnerMode) : (start mode).EndInv :=
  ⟨fun _ => Nat.zero_le _, fun _ _ => rfl, fun _ _ => rfl, fun _ _ _ => rfl⟩

section

variable {s : TaskBroker}

/-- No requester is told, and a task that is new was on offer. -/
theorem EndInv.still (hs : s.EndInv) {s' : TaskBroker} (hnext : s.nextTaskId ≤ s'.nextTaskId)
    (htasks : ∀ t' ∈ s'.tasks, (∃ t ∈ s.tasks, t.id = t'.id) ∨ s.Offered t'.id)
    (hoffered : ∀ n, s'.Offered n → s.Offered n ∨ s.nextTaskId ≤ n)
    (hendings : ∀ t ∈ s'.tasks, ⟨t.id, true⟩ ∈ s.endings → ⟨t.id, true⟩ ∈ s'.endings)
    (hmessages : ∀ n, s'.endMessages n = s.endMessages n) : s'.EndInv where
  le_one := fun n => hmessages n ▸ hs.le_one n
  undrawn := fun n hn => hmessages n ▸ hs.undrawn n (hnext.trans hn)
  offered := fun n hn => by
    rw [hmessages]
    exact (hoffered n hn).elim (hs.offered n) (hs.undrawn n)
  untold := fun t' ht' hnot => by
    rw [hmessages]
    rcases htasks t' ht' with ⟨t, ht, hid⟩ | hoff
    · have hnot' : ⟨t.id, true⟩ ∉ s.endings := fun h => hnot (hendings t' ht' (hid ▸ h))
      exact hid ▸ hs.untold t ht hnot'
    · exact hs.offered _ hoff

theorem EndInv.calm (hs : s.EndInv) {s' : TaskBroker} (h : Calm s s') : s'.EndInv :=
  hs.still h.next (fun t ht => .inl ⟨t, h.tasks t ht, rfl⟩) h.offered
    (fun _ _ hmem => h.endings ▸ hmem) h.endMessages

theorem endMessages_messageRequester (requesterId : String) (message : ToRequester) (n : TaskId) :
    (s.messageRequester requesterId message).endMessages n = s.endMessages n +
      if requesterId ∈ s.requesters ∧ Sent.ends n (.toRequester requesterId message) = true
        then 1 else 0 := by
  by_cases hreq : requesterId ∈ s.requesters
  · by_cases hends : Sent.ends n (.toRequester requesterId message) <;>
      simp [endMessages, messageRequester, List.countP_append, hreq, hends]
  · simp [endMessages, messageRequester, hreq]

/-- The requester of a task that was not told is told, and the task leaves the map or is marked. -/
theorem EndInv.tell (hs : s.EndInv) (hwf : s.WellFormed) {task : Task} (hmem : task ∈ s.tasks)
    (hnot : task.requesterId ∈ s.requesters → ⟨task.id, true⟩ ∉ s.endings) {s' : TaskBroker}
    (hnext : s'.nextTaskId = s.nextTaskId) (hcalls : s'.acceptances = s.acceptances)
    (htasks : ∀ t ∈ s'.tasks, t ∈ s.tasks)
    (hendings : ∀ t ∈ s'.tasks, ⟨t.id, true⟩ ∈ s.endings → ⟨t.id, true⟩ ∈ s'.endings)
    (hmarked : task.requesterId ∈ s.requesters → ∀ t ∈ s'.tasks, t.id = task.id →
      ⟨t.id, true⟩ ∈ s'.endings)
    (hmessages : ∀ n, s'.endMessages n = s.endMessages n +
      if task.requesterId ∈ s.requesters ∧ task.id = n then 1 else 0) : s'.EndInv := by
  have hoffered : ∀ n, s'.Offered n → s.Offered n := fun n hn => by rwa [Offered, ← hcalls]
  by_cases hreq : task.requesterId ∈ s.requesters
  · have hzero : s.endMessages task.id = 0 := hs.untold task hmem (hnot hreq)
    have hother : ∀ n, task.id ≠ n → s'.endMessages n = s.endMessages n := fun n hn => by
      simp [hmessages, hn]
    refine ⟨fun n => ?_, fun n hn => ?_, fun n hn => ?_, fun t ht ht' => ?_⟩
    · by_cases hid : task.id = n
      · subst hid
        simp [hmessages, hreq, hzero]
      · exact hother n hid ▸ hs.le_one n
    · have hlt := hwf.task_lt task hmem
      rw [hnext] at hn
      rw [hother n (hlt.trans_le hn).ne]
      exact hs.undrawn n hn
    · rw [hother n fun hid => hwf.not_offered task hmem (hid ▸ hoffered n hn)]
      exact hs.offered n (hoffered n hn)
    · by_cases hid : t.id = task.id
      · exact absurd (hmarked hreq t ht hid) ht'
      · rw [hother _ (Ne.symm hid)]
        exact hs.untold t (htasks t ht) fun h => ht' (hendings t ht h)
  · refine hs.still hnext.ge (fun t ht => .inl ⟨t, htasks t ht, rfl⟩)
      (fun n hn => .inl (hoffered n hn)) hendings fun n => ?_
    simp [hmessages, hreq]

theorem failTask_endInv (hs : s.EndInv) (hwf : s.WellFormed) (taskId : TaskId) (error : TaskError)
    (hnot : s.CanTell taskId → ⟨taskId, true⟩ ∉ s.endings) : (s.failTask taskId error).EndInv := by
  unfold failTask
  split
  · exact hs
  · rename_i task htask
    obtain ⟨hmem, rfl⟩ := mem_tasks_of_task? s htask
    refine hs.tell hwf hmem (fun hreq => hnot ⟨task, hmem, rfl, hreq⟩) rfl rfl
      (fun t ht => (List.mem_filter.1 ht).1) (fun _ _ h => h) (fun _ t ht hid => ?_) fun n => ?_
    · exact absurd hid (by simpa using (List.mem_filter.1 ht).2)
    · rw [endMessages_messageRequester]
      simp [Sent.ends, deleteTask, endMessages]

theorem endTask_endInv (hs : s.EndInv) (hwf : s.WellFormed) (taskId : TaskId)
    {message : ToRequester} (hmessage : ∀ requesterId n,
      Sent.ends n (.toRequester requesterId message) = (taskId == n)) {reply : Callback}
    (hnot : s.CanTell taskId → ⟨taskId, true⟩ ∉ s.endings) (hreply : reply ≠ .threw) :
    (s.endTask taskId message reply).EndInv := by
  unfold endTask
  split
  · exact hs
  · rename_i task htask
    obtain ⟨hmem, rfl⟩ := mem_tasks_of_task? s htask
    have hsent : ∀ n, ((s.clearTimeout task.timeout).messageRequester task.requesterId
        message).endMessages n = s.endMessages n +
          if task.requesterId ∈ s.requesters ∧ task.id = n then 1 else 0 := fun n => by
      rw [endMessages_messageRequester]
      simp [hmessage, clearTimeout, endMessages]
    have hnot' := fun hreq => hnot ⟨task, hmem, rfl, hreq⟩
    cases reply with
    | returned =>
      refine hs.tell hwf hmem hnot' rfl rfl (fun t ht => (List.mem_filter.1 ht).1)
        (fun _ _ h => h) (fun _ t ht hid => ?_) hsent
      exact absurd hid (by simpa using (List.mem_filter.1 ht).2)
    | suspended =>
      refine hs.tell hwf hmem hnot' rfl rfl (fun _ ht => ht)
        (fun _ _ h => List.mem_append_left _ h) (fun hreq t ht hid => ?_) hsent
      refine List.mem_append_right _ (List.mem_singleton.2 ?_)
      simp [hid, hreq, clearTimeout, messageRequester]
    | threw => exact absurd rfl hreply

theorem handleTaskTimeout_endInv (hs : s.EndInv) (hwf : s.WellFormed) (taskId : TaskId)
    {runnerReply reply : Callback} (hnot : s.mode = .internal ∨ runnerReply = .returned →
      s.CanTell taskId → ⟨taskId, true⟩ ∉ s.endings) (hreply : reply ≠ .threw) :
    (s.handleTaskTimeout taskId runnerReply reply).EndInv := by
  unfold handleTaskTimeout
  split
  · exact hs
  · rename_i task _
    split
    · rename_i hmode
      exact endTask_endInv hs hwf taskId (fun _ _ => rfl) (hnot (.inl hmode)) hreply
    · have hcalm := messageRunner_calm s task.runnerId
        (.taskCancel taskId "Task execution timed out")
      have hcancelled := hs.calm hcalm
      cases runnerReply with
      | returned =>
        exact endTask_endInv hcancelled (hwf.calm hcalm) taskId (fun _ _ => rfl) (hnot (.inr rfl))
          hreply
      | suspended =>
        exact ⟨hcancelled.le_one, hcancelled.undrawn, hcancelled.offered, hcancelled.untold⟩
      | threw => exact hcancelled

theorem mem_lostRunner {taskId : TaskId} {task : Task} (htask : s.task? taskId = some task)
    (hrunner : s.knownRunners.find? (·.id == task.runnerId) = none) :
    taskId ∈ s.lostRunner taskId := by
  have hknows : s.knows task.runnerId = false := by
    simpa [knows, List.find?_eq_none] using hrunner
  simp [lostRunner, htask, hknows, (mem_tasks_of_task? s htask).2, Option.filter]

theorem getRunnerOrFailTask_endInv (hs : s.EndInv) (hwf : s.WellFormed) (taskId : TaskId)
    (hnot : ∀ n ∈ s.lostRunner taskId, s.CanTell n → ⟨n, true⟩ ∉ s.endings) :
    (s.getRunnerOrFailTask taskId).1.EndInv := by
  unfold getRunnerOrFailTask
  split
  · exact hs
  · rename_i task htask
    split
    · exact hs
    · rename_i hrunner
      exact failTask_endInv hs hwf taskId _ (hnot taskId (mem_lostRunner htask hrunner))

theorem passToRunner_endInv (hs : s.EndInv) (hwf : s.WellFormed) (taskId : TaskId)
    (message : ToRunner)
    (hnot : ∀ n ∈ s.lostRunner taskId, s.CanTell n → ⟨n, true⟩ ∉ s.endings) :
    (s.passToRunner taskId message).EndInv := by
  have h := getRunnerOrFailTask_endInv hs hwf taskId hnot
  unfold passToRunner
  split <;> rename_i heq <;> rw [heq] at h
  · exact h
  · exact h.calm (messageRunner_calm _ _ _)

theorem EndInv.finish (hs : s.EndInv) (taskId : TaskId) : (s.finish taskId).EndInv :=
  hs.still le_rfl (fun t ht => .inl ⟨t, ht, rfl⟩) (fun _ hn => .inl hn.of_finish.1)
    (fun _ _ h => h) fun _ => rfl

theorem EndInv.setStage (hs : s.EndInv) (taskId : TaskId) {stage : Stage}
    (hstage : stage.offered = false) : (s.setStage taskId stage).EndInv :=
  hs.still le_rfl (fun t ht => .inl ⟨t, ht, rfl⟩) (fun _ hn => .inl (hn.of_setStage hstage).1)
    (fun _ _ h => h) fun _ => rfl

theorem sendTaskSettings_endInv (hs : s.EndInv) (hwf : s.WellFormed) (taskId : TaskId)
    (settings : Payload)
    (hnot : ∀ n ∈ s.lostRunner taskId, s.CanTell n → ⟨n, true⟩ ∉ s.endings) :
    (s.sendTaskSettings taskId settings).EndInv := by
  have h := getRunnerOrFailTask_endInv hs hwf taskId hnot
  unfold sendTaskSettings
  split <;> rename_i heq <;> rw [heq] at h
  · exact h.finish taskId
  · exact h.setStage taskId rfl

theorem armTask_endInv (hs : s.EndInv) (taskId : TaskId) (runnerId : String) (settings : Payload) :
    (s.armTask taskId runnerId settings).EndInv := by
  unfold armTask
  split
  · exact hs.finish taskId
  · refine EndInv.setStage ?_ taskId rfl
    refine EndInv.calm ?_ (messageRunner_calm _ _ _)
    have hmap : ∀ timer : Timer, ∀ t' ∈ s.tasks.map (fun task =>
        if task.id = taskId then { task with timeout := some timer } else task),
        ∃ t ∈ s.tasks, t.id = t'.id := fun timer t' ht' => by
      obtain ⟨t, ht, rfl⟩ := List.mem_map.1 ht'
      exact ⟨t, ht, by split_ifs <;> rfl⟩
    exact hs.still le_rfl (fun t' ht' => .inl (hmap _ t' ht')) (fun _ hn => .inl hn)
      (fun _ _ h => h) fun _ => rfl

theorem accepted_endInv (hs : s.EndInv) {a : Acceptance} (ha : a ∈ s.acceptances)
    (hoff : a.stage.offered) : (s.accepted a).EndInv := by
  have htasks : ∀ task : Task, task.id = a.taskId →
      ∀ t' ∈ s.tasks.filter (fun t : Task => t.id ≠ a.taskId) ++ [task],
        (∃ t ∈ s.tasks, t.id = t'.id) ∨ s.Offered t'.id := fun task hid t' ht' => by
    rcases List.mem_append.1 ht' with ht' | ht'
    · exact .inl ⟨t', (List.mem_filter.1 ht').1, rfl⟩
    · rw [List.mem_singleton.1 ht']
      exact .inr ⟨a, ha, hid.symm, hoff⟩
  have hnew : ∀ (t : TaskBroker) (task : Task), task.id = a.taskId →
      t.tasks = s.tasks.filter (fun t : Task => t.id ≠ a.taskId) ++ [task] →
      t.nextTaskId = s.nextTaskId → t.acceptances = s.acceptances → t.endings = s.endings →
      t.sent = s.sent → t.EndInv := fun t task hid ht hnext hcalls hendings hsent =>
    hs.still hnext.ge (fun t' ht' => htasks task hid t' (ht ▸ ht'))
      (fun n hn => .inl (by rwa [Offered, ← hcalls])) (fun _ _ h => hendings ▸ h)
      fun n => by rw [endMessages, endMessages, hsent]
  simp only [accepted]
  split_ifs
  · refine EndInv.setStage ?_ a.taskId rfl
    refine EndInv.calm ?_ (messageRequester_calm _ _ fun _ => rfl)
    exact hnew _ _ rfl rfl rfl rfl rfl rfl
  · refine EndInv.finish ?_ a.taskId
    exact hnew _ _ rfl rfl rfl rfl rfl rfl

theorem runnerAnswered_endInv (hs : s.EndInv) (hwf : s.WellFormed) {a : Acceptance}
    (ha : a ∈ s.acceptances) (hoff : a.stage.offered) (answer : RunnerAnswer) :
    (s.runnerAnswered a answer).EndInv := by
  cases answer with
  | accepted => exact accepted_endInv hs ha hoff
  | rejected => exact hs.calm (acceptFailed_calm hwf ha hoff false)
  | deferred => exact hs.calm (acceptFailed_calm hwf ha hoff true)
  | timedOut => exact hs.calm (acceptFailed_calm hwf ha hoff false)

theorem resume_endInv (hs : s.EndInv) (hwf : s.WellFormed) {a : Acceptance}
    (ha : a ∈ s.acceptances) (ok : Bool) (hnot : ∀ settings,
      a.stage = .awaitingSettings (some (.settings settings)) →
        ∀ n ∈ s.lostRunner a.taskId, s.CanTell n → ⟨n, true⟩ ∉ s.endings) :
    (s.resume a ok).EndInv := by
  unfold resume
  split <;> rename_i hstage
  · split_ifs
    · exact hs.calm (setStage_calm hwf.drawn ha (fun _ => by simp [hstage, Stage.offered])
        (by simp [hstage, Stage.awaitsSettings]) (by simp [hstage, Stage.arming]))
    · exact hs.calm (acceptFailed_calm hwf ha (by simp [hstage, Stage.offered]) false)
  · exact hs
  · exact runnerAnswered_endInv hs hwf ha (by simp [hstage, Stage.offered]) _
  · split_ifs
    · exact hs.setStage a.taskId rfl
    · exact hs.calm (requesterFailed_calm s a.taskId)
  · exact hs
  · exact sendTaskSettings_endInv hs hwf a.taskId _ (hnot _ hstage)
  · exact hs.calm (requesterFailed_calm s a.taskId)
  · exact armTask_endInv hs a.taskId _ _
  · split_ifs
    · exact hs.finish a.taskId
    · exact hs.calm (requesterFailed_calm s a.taskId)

theorem settleRequester_endInv (hs : s.EndInv) (taskId : TaskId) (answer : RequesterAnswer) :
    (s.settleRequester taskId answer).EndInv :=
  hs.still le_rfl (fun t ht => .inl ⟨t, ht, rfl⟩) (fun _ hn => .inl hn.of_settleRequester)
    (fun _ _ h => h) fun _ => rfl

theorem fireTimer_endInv (hs : s.EndInv) (hwf : s.WellFormed) (timer : Timer)
    {runnerReply reply : Callback} (hnot : ∀ taskId, timer.target = .task taskId →
      s.mode = .internal ∨ runnerReply = .returned →
        s.CanTell taskId → ⟨taskId, true⟩ ∉ s.endings) (hreply : reply ≠ .threw) :
    (s.fireTimer timer runnerReply reply).EndInv := by
  have herase : ({ s with timers := s.timers.erase timer } : TaskBroker).EndInv :=
    ⟨hs.le_one, hs.undrawn, hs.offered, hs.untold⟩
  have hwf' : ({ s with timers := s.timers.erase timer } : TaskBroker).WellFormed :=
    hwf.of_subset rfl rfl rfl fun _ ht => ht
  simp only [fireTimer]
  split <;> rename_i htarget
  · exact herase.calm (handleRequestTimeout_calm hwf'.requestTimers _)
  · split
    · rename_i a ha
      split_ifs with hstage
      · have hmem := List.mem_of_find?_eq_some ha
        exact runnerAnswered_endInv herase hwf' hmem (by simp [hstage, Stage.offered]) _
      · exact herase.calm (settleRunner_calm _ _ _)
    · exact herase
  · split
    · split_ifs
      · exact herase.calm (requesterFailed_calm _ _)
      · exact settleRequester_endInv herase _ _
    · exact herase
  · exact handleTaskTimeout_endInv herase hwf' _ (hnot _ htarget) hreply

theorem failTask_frame (taskId : TaskId) (error : TaskError) :
    (∀ t ∈ (s.failTask taskId error).tasks, t ∈ s.tasks) ∧
      (s.failTask taskId error).requesters = s.requesters ∧
      (s.failTask taskId error).endings = s.endings := by
  unfold failTask
  split
  · exact ⟨fun _ ht => ht, rfl, rfl⟩
  · exact ⟨fun t ht => (List.mem_filter.1 ht).1, rfl, rfl⟩

theorem answerRunner_requesters (taskId : TaskId) (answer : RunnerAnswer) :
    (s.answerRunner taskId answer).requesters = s.requesters := by
  unfold answerRunner
  split <;> rfl

theorem deregisterRunner_endInv (hs : s.EndInv) (hwf : s.WellFormed) (runnerId : String)
    (error : Payload) (hnot : ∀ task ∈ s.tasks, task.runnerId = runnerId → s.CanTell task.id →
      ⟨task.id, true⟩ ∉ s.endings) : (s.deregisterRunner runnerId error).EndInv := by
  have hfold : ∀ (tasks : List Task) (t : TaskBroker), t.EndInv → t.WellFormed →
      (∀ task ∈ tasks, t.CanTell task.id → ⟨task.id, true⟩ ∉ t.endings) →
      (tasks.foldl (fun s task =>
        (s.failTask task.id (.disconnected error)).handleRunnerReject task.id
          ("The Task Runner (" ++ runnerId ++ ") has disconnected: " ++ error)) t).EndInv := by
    intro tasks
    induction tasks with
    | nil => exact fun _ ht _ _ => ht
    | cons task tasks ih =>
      intro t ht htwf htnot
      have hfail := failTask_endInv ht htwf task.id (.disconnected error)
        (htnot task List.mem_cons_self)
      have hfailwf := failTask_wellFormed htwf task.id (.disconnected error)
      have hreject := answerRunner_calm (t.failTask task.id (.disconnected error)) task.id
        (.rejected ("The Task Runner (" ++ runnerId ++ ") has disconnected: " ++ error))
      obtain ⟨hsub, hreq, hend⟩ := failTask_frame (s := t) task.id (.disconnected error)
      refine ih _ (hfail.calm hreject) (hfailwf.calm hreject) fun x hx ⟨y, hy, hid, hyreq⟩ => ?_
      have htold := htnot x (List.mem_cons_of_mem _ hx) ⟨y, hsub y (hreject.tasks y hy), hid,
        hreq ▸ answerRunner_requesters (s := t.failTask task.id _) task.id _ ▸ hyreq⟩
      exact fun h => htold (hend ▸ hreject.endings ▸ h)
  refine hfold _ _ ⟨hs.le_one, hs.undrawn, hs.offered, hs.untold⟩
    (hwf.of_subset rfl rfl rfl fun _ ht => ht) fun task htask hcan => ?_
  obtain ⟨hmem, hrunner⟩ := List.mem_filter.1 htask
  exact hnot task hmem (by simpa using hrunner) hcan

/-- Every step that ends tasks alone keeps the invariant. -/
theorem step_endInv {e : Event} (hs : s.EndInv) (hwf : s.WellFormed) (he : s.EndsAlone e) :
    (step s e).EndInv := by
  obtain ⟨hnot, hreply⟩ := he
  cases e with
  | registerRunner runner => exact hs.calm (registerRunner_calm s runner)
  | deregisterRunner runnerId error =>
    refine deregisterRunner_endInv hs hwf runnerId error fun task hmem hrunner => hnot task.id ?_
    exact List.mem_map.2 ⟨task, List.mem_filter.2 ⟨hmem, by simpa using hrunner⟩, rfl⟩
  | registerRequester requesterId => exact ⟨hs.le_one, hs.undrawn, hs.offered, hs.untold⟩
  | deregisterRequester requesterId => exact ⟨hs.le_one, hs.undrawn, hs.offered, hs.untold⟩
  | runnerMessage runnerId message now reply =>
    simp only [step, onRunnerMessage]
    split
    · exact hs
    · rename_i hknows
      simp only [Bool.not_eq_true, Bool.not_eq_false'] at hknows
      cases message with
      | taskAccepted taskId => exact hs.calm (answerRunner_calm s taskId _)
      | taskRejected taskId reason => exact hs.calm (answerRunner_calm s taskId _)
      | taskDeferred taskId => exact hs.calm (answerRunner_calm s taskId _)
      | taskOffer taskType offerId validFor => exact hs.calm (taskOffered_calm s _ now)
      | taskDone taskId data =>
        exact endTask_endInv hs hwf taskId (fun _ _ => rfl) (hnot taskId (by simp [ended, hknows]))
          hreply
      | taskError taskId error =>
        exact endTask_endInv hs hwf taskId (fun _ _ => rfl) (hnot taskId (by simp [ended, hknows]))
          hreply
      | taskDataRequest taskId requestId params =>
        exact hs.calm (passToRequester_calm s taskId fun _ _ => rfl)
      | nodeTypesRequest taskId requestId params =>
        exact hs.calm (passToRequester_calm s taskId fun _ _ => rfl)
      | rpc taskId callId name params =>
        exact hs.calm (passToRequester_calm s taskId fun _ _ => rfl)
      | info => exact hs
  | requesterMessage requesterId message now =>
    cases message with
    | taskSettings taskId settings => exact hs.calm (handleRequesterAccept_calm s taskId settings)
    | taskCancel taskId reason => exact hs.calm (cancelTask_calm s taskId reason)
    | taskRequest taskType requestId =>
      exact hs.calm (requestMade_calm requestId requesterId taskType now)
    | taskDataResponse taskId requestId data => exact passToRunner_endInv hs hwf taskId _ hnot
    | nodeTypesResponse taskId requestId types => exact passToRunner_endInv hs hwf taskId _ hnot
    | rpcResponse taskId callId status data => exact passToRunner_endInv hs hwf taskId _ hnot
  | fire timer runnerReply reply =>
    simp only [step]
    split_ifs
    · refine fireTimer_endInv hs hwf timer (fun taskId htarget hmode => hnot taskId ?_) hreply
      simp [ended, htarget, hmode]
    · exact hs
  | resume taskId ok =>
    simp only [step]
    split
    · exact hs
    · rename_i a ha
      obtain ⟨hmem, rfl⟩ := mem_of_acceptance? ha
      refine resume_endInv hs hwf hmem ok fun settings hstage n hn => hnot n ?_
      obtain ⟨taskId, offer, request, stage⟩ := a
      simp only at hstage
      subst hstage
      simpa [ended, ha] using hn
  | endingSettled index ok =>
    cases ok with
    | false => exact absurd rfl hreply
    | true =>
      simp only [step]
      split
      · exact hs
      · rename_i ending hending
        refine hs.still le_rfl (fun t ht => .inl ⟨t, (List.mem_filter.1 ht).1, rfl⟩)
          (fun _ hn => .inl hn) (fun t ht h => ?_) fun _ => rfl
        have hne : t.id ≠ ending.taskId := by simpa using (List.mem_filter.1 ht).2
        obtain ⟨i, hi⟩ := List.mem_iff_getElem?.1 h
        refine List.mem_eraseIdx_iff_getElem?.2 ⟨i, fun hindex => hne ?_, hi⟩
        rw [hindex, hending] at hi
        rw [Option.some.inj hi]
  | timingOutSettled index ok reply =>
    simp only [step]
    split
    · exact hs
    · rename_i taskId htask
      have herase : ∀ timingOut, ({ s with timingOut } : TaskBroker).EndInv := fun _ =>
        ⟨hs.le_one, hs.undrawn, hs.offered, hs.untold⟩
      split_ifs with hok
      · refine endTask_endInv (herase _) ?_ taskId (fun _ _ => rfl) (hnot taskId ?_) hreply
        · exact hwf.of_subset rfl rfl rfl fun _ ht => ht
        · simp [ended, hok, htask]
      · exact herase _

end

/-- In a run in which every task is ended alone, every task's end is told at most once. -/
theorem ends_once {mode : RunnerMode} {es : List Event}
    (h : Runs.Meets step EndsAlone (start mode) es) : Runs.Along step EndsOnce (start mode) es := by
  have hinv : Runs.Along step (fun s => s.EndInv ∧ s.WellFormed) (start mode) es :=
    Runs.meets_along (fun s e hs he => ⟨step_endInv hs.1 hs.2 he, step_wellFormed hs.2 e⟩)
      ⟨start_endInv mode, start_wellFormed mode⟩ h
  exact hinv.mono fun s hs => hs.1.le_one

/-- A runner is done with a task and disconnects while the requester is in its callback. -/
def disconnectRun : List Event :=
  [.registerRunner { id := "runner" }, .registerRequester "requester",
    .requesterMessage "requester" (.taskRequest "javascript" "request") 0,
    .runnerMessage "runner" (.taskOffer "javascript" "offer" (-1)) 0 .returned,
    .resume 0 true, .runnerMessage "runner" (.taskAccepted 0) 0 .returned,
    .resume 0 true, .resume 0 true,
    .requesterMessage "requester" (.taskSettings 0 "settings") 0, .resume 0 true,
    .resume 0 true, .resume 0 true,
    .runnerMessage "runner" (.taskDone 0 "data") 0 .suspended,
    .deregisterRunner "runner" "disconnected"]

/-- The requester is told that the task is done, and then that it has failed. -/
theorem disconnect_ends_twice :
    Runs.Meets step Admissible (start .external) disconnectRun ∧
      ¬ Runs.Along step EndsOnce (start .external) disconnectRun :=
  ⟨by decide, fun h => absurd (h.last 0) (by decide)⟩

/-- The runner disconnects once the callback has returned. -/
theorem ends_once_disconnected : Runs.Along step EndsOnce (start .external)
    (disconnectRun.dropLast ++ [.endingSettled 0 true, .deregisterRunner "runner" "disconnected"]) :=
  ends_once (by decide)

end TaskBroker

end N8n
