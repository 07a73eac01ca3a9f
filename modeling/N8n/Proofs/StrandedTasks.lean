import Mathlib.Tactic
import N8n.Proofs.TaskLife

/-!
# No task is stranded

A task in the map is guarded: by the requester's two seconds, by its execution timeout, or because
its settings are about to be sent. It is stranded by an acceptance whose request has expired, by a
requester that is still in its callback when its two seconds end, and by a callback for the end of
a task that does not return. Steps other than these keep every task guarded.
-/

namespace N8n

namespace TaskBroker

structure GuardInv (s : TaskBroker) : Prop where
  guarded : ∀ t ∈ s.tasks, s.Guarded t
  endings : s.endings = []
  timingOut : s.timingOut = []

/-- Every task is guarded but perhaps one. -/
structure GuardedBut (s : TaskBroker) (taskId : TaskId) : Prop where
  guarded : ∀ t ∈ s.tasks, t.id ≠ taskId → s.Guarded t
  endings : s.endings = []
  timingOut : s.timingOut = []

theorem start_guardInv (mode : RunnerMode) : (start mode).GuardInv :=
  ⟨fun _ ht => absurd ht List.not_mem_nil, rfl, rfl⟩

section

variable {s : TaskBroker}

theorem Guarded.noneStranded {t : Task} (h : s.Guarded t) :
    s.AwaitsSettings t.id ∨ s.SendsSettings t.id ∨ s.Armed t := by
  rcases h with ⟨timer, hmem, hto, -⟩ | hawaits | ⟨a, ha, hid, harm⟩
  · exact .inr (.inr ⟨timer, hmem, hto⟩)
  · exact .inl hawaits
  · refine .inr (.inl ⟨a, ha, hid, ?_⟩)
    revert harm
    cases a.stage <;> simp only [Stage.arming, Stage.sendsSettings, Bool.false_eq_true,
      false_implies, implies_true]
    all_goals split <;> simp_all

theorem GuardInv.calm (hs : s.GuardInv) {s' : TaskBroker} (h : Calm s s') : s'.GuardInv where
  guarded := fun t ht => h.guarded t ht (hs.guarded t (h.tasks t ht))
  endings := h.endings.trans hs.endings
  timingOut := h.timingOut.trans hs.timingOut

theorem GuardInv.but (hs : s.GuardInv) (taskId : TaskId) : s.GuardedBut taskId :=
  ⟨fun t ht _ => hs.guarded t ht, hs.endings, hs.timingOut⟩

theorem GuardedBut.calm {taskId : TaskId} (hs : s.GuardedBut taskId) {s' : TaskBroker}
    (h : Calm s s') : s'.GuardedBut taskId where
  guarded := fun t ht hne => h.guarded t ht (hs.guarded t (h.tasks t ht) hne)
  endings := h.endings.trans hs.endings
  timingOut := h.timingOut.trans hs.timingOut

theorem GuardedBut.guardInv {taskId : TaskId} (hs : s.GuardedBut taskId)
    (h : ∀ t ∈ s.tasks, t.id ≠ taskId) : s.GuardInv :=
  ⟨fun t ht => hs.guarded t ht (h t ht), hs.endings, hs.timingOut⟩

/-- A timer goes that is of none of the guarded tasks. -/
theorem GuardedBut.eraseTimer {taskId : TaskId} (hs : s.GuardInv) {timer : Timer}
    (h : timer.target = .task taskId ∨ timer.target = .requesterSettings taskId) :
    ({ s with timers := s.timers.erase timer } : TaskBroker).GuardedBut taskId := by
  refine ⟨fun t ht hne => (hs.guarded t ht).mono (fun x hx htarget => ?_) fun _ ha _ _ => ha,
    hs.endings, hs.timingOut⟩
  refine (List.mem_erase_of_ne fun hxt => hne ?_).2 hx
  subst hxt
  rcases h with h | h <;> rcases htarget with ht | ht <;> rw [h] at ht <;> cases ht <;> rfl

theorem GuardInv.eraseTimer (hs : s.GuardInv) (timer : Timer)
    (h : ∀ taskId, timer.target ≠ .task taskId ∧ timer.target ≠ .requesterSettings taskId) :
    ({ s with timers := s.timers.erase timer } : TaskBroker).GuardInv := by
  refine ⟨fun t ht => (hs.guarded t ht).mono (fun x hx htarget => ?_) fun _ ha _ _ => ha,
    hs.endings, hs.timingOut⟩
  refine (List.mem_erase_of_ne fun hxt => ?_).2 hx
  subst hxt
  exact htarget.elim (h t.id).1 (h t.id).2

/-- The requester's two seconds may end when it is not waited for. -/
theorem GuardInv.eraseSettingsTimer (hs : s.GuardInv) {timer : Timer} {taskId : TaskId}
    (h : timer.target = .requesterSettings taskId)
    (hcalls : ∀ a ∈ s.acceptances, a.taskId = taskId → a.stage.awaitsSettings = false) :
    ({ s with timers := s.timers.erase timer } : TaskBroker).GuardInv := by
  refine ⟨fun t ht => ?_, hs.endings, hs.timingOut⟩
  by_cases hid : t.id = taskId
  · rcases hs.guarded t ht with ⟨x, hx, hto, htarget⟩ | ⟨⟨a, ha, haid, haw⟩, -⟩ | harming
    · refine .inl ⟨x, (List.mem_erase_of_ne fun hxt => ?_).2 hx, hto, htarget⟩
      rw [hxt, h] at htarget
      cases htarget
    · simp [hcalls a ha (haid.trans hid)] at haw
    · exact .inr (.inr harming)
  · exact (GuardedBut.eraseTimer hs (.inr h)).guarded t ht hid

/-! ## The ends of a task -/

theorem failTask_guardInv (hs : s.GuardInv) (taskId : TaskId) (error : TaskError) :
    (s.failTask taskId error).GuardInv := by
  unfold failTask
  split
  · exact hs
  · have hdelete := hs.calm (deleteTask_calm s taskId)
    exact ⟨hdelete.guarded, hdelete.endings, hdelete.timingOut⟩

theorem failTask_notMem (taskId : TaskId) (error : TaskError) :
    ∀ t ∈ (s.failTask taskId error).tasks, t.id ≠ taskId := by
  unfold failTask
  split
  · exact ne_of_task?_none s ‹_›
  · intro t ht
    simpa using (List.mem_filter.1 ht).2

theorem endTask_guardInv {taskId : TaskId} (hs : s.GuardedBut taskId) (hwf : s.WellFormed)
    (message : ToRequester) {reply : Callback} (hreply : (s.task? taskId).isSome → reply = .returned) :
    (s.endTask taskId message reply).GuardInv := by
  unfold endTask
  split
  · exact hs.guardInv (ne_of_task?_none s ‹_›)
  · rename_i task htask
    obtain ⟨hmem, rfl⟩ := mem_tasks_of_task? s htask
    obtain rfl := hreply (by simp [htask])
    refine ⟨fun t ht => ?_, hs.endings, hs.timingOut⟩
    obtain ⟨htmem, hne⟩ := List.mem_filter.1 ht
    simp only [ne_eq, decide_not, Bool.not_eq_true', decide_eq_false_iff_not] at hne
    refine (hs.guarded t htmem hne).mono (fun x hx htarget => ?_) fun _ ha _ _ => ha
    refine List.mem_filter.2 ⟨hx, decide_eq_true fun hto => ?_⟩
    have hown := hwf.taskTimer task hmem x hto.symm
    rcases htarget with h | h <;> rw [hown] at h
    · exact hne (TimerTarget.task.inj h).symm
    · cases h

theorem handleTaskTimeout_guardInv {taskId : TaskId} (hs : s.GuardedBut taskId)
    (hwf : s.WellFormed) {runnerReply reply : Callback} (h : (s.task? taskId).isSome →
      reply = .returned ∧ (s.mode = .external → runnerReply = .returned)) :
    (s.handleTaskTimeout taskId runnerReply reply).GuardInv := by
  unfold handleTaskTimeout
  split
  · exact hs.guardInv (ne_of_task?_none s ‹_›)
  · rename_i task htask
    obtain ⟨hreply, hrunner⟩ := h (by simp [htask])
    split
    · exact endTask_guardInv hs hwf _ fun _ => hreply
    · rename_i hmode
      obtain rfl := hrunner hmode
      have hcalm := messageRunner_calm s task.runnerId
        (.taskCancel taskId "Task execution timed out")
      exact endTask_guardInv (hs.calm hcalm) (hwf.calm hcalm) _ fun _ => hreply

theorem getRunnerOrFailTask_guardInv (hs : s.GuardInv) (taskId : TaskId) :
    (s.getRunnerOrFailTask taskId).1.GuardInv := by
  unfold getRunnerOrFailTask
  split
  · exact hs
  · split
    · exact hs
    · exact failTask_guardInv hs taskId _

theorem passToRunner_guardInv (hs : s.GuardInv) (taskId : TaskId) (message : ToRunner) :
    (s.passToRunner taskId message).GuardInv := by
  have h := getRunnerOrFailTask_guardInv hs taskId
  unfold passToRunner
  split <;> rename_i heq <;> rw [heq] at h
  · exact h
  · exact h.calm (messageRunner_calm _ _ _)

theorem deregisterRunner_guardInv (hs : s.GuardInv) (runnerId : String) (error : Payload) :
    (s.deregisterRunner runnerId error).GuardInv := by
  have hfold : ∀ (tasks : List Task) (t : TaskBroker), t.GuardInv → (tasks.foldl (fun s task =>
      (s.failTask task.id (.disconnected error)).handleRunnerReject task.id
        ("The Task Runner (" ++ runnerId ++ ") has disconnected: " ++ error)) t).GuardInv := by
    intro tasks
    induction tasks with
    | nil => exact fun _ ht => ht
    | cons task tasks ih =>
      intro t ht
      exact ih _ ((failTask_guardInv ht task.id _).calm (answerRunner_calm _ _ _))
  exact hfold _ _ ⟨hs.guarded, hs.endings, hs.timingOut⟩

/-! ## The stages of a task's acceptance -/

theorem sendTaskSettings_guardInv (hs : s.GuardInv) (hwf : s.WellFormed) {a : Acceptance}
    (ha : a ∈ s.acceptances) {settings : Payload}
    (hstage : a.stage = .awaitingSettings (some (.settings settings))) :
    (s.sendTaskSettings a.taskId settings).GuardInv := by
  unfold sendTaskSettings getRunnerOrFailTask
  split <;> rename_i heq <;> split at heq
  · rename_i htask
    obtain ⟨rfl, -⟩ := Prod.mk.inj heq
    exact hs.calm (finish_calm s fun _ _ _ ⟨t, ht, hid⟩ => absurd hid (ne_of_task?_none s htask t ht))
  · split at heq
    · cases (Prod.mk.inj heq).2
    · obtain ⟨rfl, -⟩ := Prod.mk.inj heq
      exact (failTask_guardInv hs _ _).calm
        (finish_calm _ fun _ _ _ ⟨t, ht, hid⟩ => absurd hid (failTask_notMem _ _ t ht))
  · cases (Prod.mk.inj heq).2
  · split at heq
    · obtain ⟨rfl, -⟩ := Prod.mk.inj heq
      exact hs.calm (setStage_calm hwf.drawn ha (by simp [Stage.offered])
        (by simp [hstage, Stage.awaitsSettings]) (by simp [Stage.arming]))
    · cases (Prod.mk.inj heq).2

theorem armTask_guardInv (hs : s.GuardInv) (taskId : TaskId) (runnerId : String)
    (settings : Payload) : (s.armTask taskId runnerId settings).GuardInv := by
  unfold armTask
  split
  · rename_i htask
    exact hs.calm (finish_calm s fun _ _ _ ⟨t, ht, hid⟩ =>
      absurd hid (ne_of_task?_none s htask t ht))
  · refine ⟨fun t ht => ?_, hs.endings, hs.timingOut⟩
    obtain ⟨t₀, ht₀, rfl⟩ := List.mem_map.1 ht
    by_cases hid : t₀.id = taskId
    · refine .inl ⟨s.newTimer (.task taskId), List.mem_append_right _ (List.mem_singleton.2 rfl), ?_⟩
      rw [if_pos hid]
      exact ⟨rfl, hid ▸ rfl⟩
    · rw [if_neg hid]
      refine (hs.guarded t₀ ht₀).mono (fun x hx _ => List.mem_append_left _ hx)
        fun a ha haid _ => ?_
      refine List.mem_map.2 ⟨a, ha, if_neg ?_⟩
      exact fun h => hid (haid.symm.trans h)

theorem accepted_guardInv (hs : s.GuardInv) (hwf : s.WellFormed) {a : Acceptance}
    (ha : a ∈ s.acceptances) (hpending : ∃ ref ∈ s.pendingTaskRequests,
      (s.request ref).requestId = (s.request a.request).requestId) : (s.accepted a).GuardInv := by
  have hany : s.pendingTaskRequests.any (fun ref =>
      (s.request ref).requestId == (s.request a.request).requestId) = true := by
    simpa using hpending
  simp only [accepted]
  split_ifs with hif
  swap
  · exact absurd hany hif
  refine ⟨fun t ht => ?_, hs.endings, hs.timingOut⟩
  rcases List.mem_append.1 ht with ht | ht
  · obtain ⟨hmem, hne⟩ := List.mem_filter.1 ht
    simp only [ne_eq, decide_not, Bool.not_eq_true', decide_eq_false_iff_not] at hne
    refine (hs.guarded t hmem).mono (fun x hx htarget => ?_) fun b hb hid _ => ?_
    · refine List.mem_append_left _ (List.mem_filter.2 ⟨hx, decide_eq_true fun hto => ?_⟩)
      obtain ⟨requestId, hreq⟩ := hwf.requestTimers.request a.request x hto.symm
      simp [hreq] at htarget
    · exact List.mem_map.2 ⟨b, hb, if_neg fun h => hne (hid.symm.trans h)⟩
  · rw [List.mem_singleton.1 ht]
    refine .inr (.inl ⟨⟨{ a with stage := .messagingRequester none }, ?_, rfl, rfl⟩, ?_⟩)
    · exact List.mem_map.2 ⟨a, ha, if_pos rfl⟩
    · exact ⟨_, List.mem_append_right _ (List.mem_singleton.2 rfl), rfl⟩

theorem resume_guardInv (hs : s.GuardInv) (hwf : s.WellFormed) {a : Acceptance}
    (ha : a ∈ s.acceptances) (ok : Bool) (h : a.stage = .awaitingRunner (some .accepted) →
      ∃ ref ∈ s.pendingTaskRequests,
        (s.request ref).requestId = (s.request a.request).requestId) :
    (s.resume a ok).GuardInv := by
  have hfailed : a.stage.offered → ∀ deferred, (s.acceptFailed a deferred).GuardInv :=
    fun hoff deferred => hs.calm (acceptFailed_calm hwf ha hoff deferred)
  unfold resume
  split <;> rename_i hstage
  · split_ifs
    · exact hs.calm (setStage_calm hwf.drawn ha (fun _ => by simp [hstage, Stage.offered])
        (by simp [hstage, Stage.awaitsSettings]) (by simp [hstage, Stage.arming]))
    · exact hfailed (by simp [hstage, Stage.offered]) false
  · exact hs
  · rename_i answer
    have hoff : a.stage.offered := by simp [hstage, Stage.offered]
    cases answer with
    | accepted => exact accepted_guardInv hs hwf ha (h hstage)
    | rejected => exact hfailed hoff false
    | deferred => exact hfailed hoff true
    | timedOut => exact hfailed hoff false
  · rename_i answer
    split_ifs
    · refine hs.calm (setStage_calm hwf.drawn ha (by simp [Stage.offered]) ?_ ?_)
      · rw [hstage]
        cases answer <;> simp [Stage.awaitsSettings]
      · rw [hstage]
        rcases answer with _ | _ | _ <;> simp [Stage.arming]
    · exact hs.calm (requesterFailed_calm s a.taskId)
  · exact hs
  · exact sendTaskSettings_guardInv hs hwf ha hstage
  · exact hs.calm (requesterFailed_calm s a.taskId)
  · exact armTask_guardInv hs a.taskId _ _
  · split_ifs
    · refine hs.calm (finish_calm s fun b hb hid _ => ?_)
      rw [hwf.drawn.eq_of_taskId hb ha hid, hstage]
      exact ⟨rfl, rfl⟩
    · exact hs.calm (requesterFailed_calm s a.taskId)

/-! ## Steps and runs -/

/-- The requester's two seconds end. -/
theorem fireSettingsTimer_guardInv (hs : s.GuardInv) (hwf : s.WellFormed) {timer : Timer}
    {taskId : TaskId} (htarget : timer.target = .requesterSettings taskId)
    (h : ∀ a, s.acceptance? taskId = some a → a.stage ≠ .messagingRequester none)
    (runnerReply reply : Callback) : (s.fireTimer timer runnerReply reply).GuardInv := by
  have hbut := GuardedBut.eraseTimer hs (.inr htarget)
  simp only [fireTimer, htarget]
  split
  · rename_i a ha
    obtain ⟨hmem, rfl⟩ := mem_of_acceptance? (s := s) ha
    split_ifs with hstage
    · refine (hbut.calm (requesterFailed_calm _ _)).guardInv fun t ht => ?_
      exact cancelTask_notMem _ _ _ t ht
    · have hcalls : ∀ b ∈ s.acceptances, b.taskId = a.taskId →
          b.stage.awaitsSettings = false := by
        intro b hb hid
        rw [hwf.drawn.eq_of_taskId hb hmem hid]
        have hne := h a ha
        revert hne hstage
        cases a.stage <;> simp only [Stage.awaitsSettings, implies_true]
        all_goals split <;> simp_all
      refine (hs.eraseSettingsTimer htarget hcalls).calm ?_
      refine mapStages_calm _ (fun b => ?_) (fun b _ => ?_) (fun b hb haw => ?_) fun b _ => ?_
      · split_ifs
        · split <;> rfl
        · rfl
      · split_ifs
        · split <;> rename_i hst <;> simp [hst, Stage.offered]
        · exact id
      · split_ifs with hid
        · simp [hcalls b hb hid] at haw
        · exact .inl haw
      · split_ifs
        · split <;> rename_i hst <;> simp [hst, Stage.arming]
        · exact id
  · rename_i hnone
    refine hs.eraseSettingsTimer htarget fun a ha hid => ?_
    have := List.find?_eq_none.1 hnone a ha
    simp [hid] at this

theorem fireTimer_guardInv (hs : s.GuardInv) (hwf : s.WellFormed) (timer : Timer)
    (runnerReply reply : Callback) (h : ¬ s.Strands (.fire timer runnerReply reply)) :
    (s.fireTimer timer runnerReply reply).GuardInv := by
  have hwf' : ({ s with timers := s.timers.erase timer } : TaskBroker).WellFormed :=
    hwf.of_subset rfl rfl rfl fun _ ht => ht
  obtain ⟨id, target⟩ := timer
  cases target with
  | request requestId =>
    have herase := hs.eraseTimer ⟨id, .request requestId⟩ (by simp)
    exact herase.calm (handleRequestTimeout_calm hwf'.requestTimers requestId)
  | runnerAccept taskId =>
    have herase := hs.eraseTimer ⟨id, .runnerAccept taskId⟩ (by simp)
    simp only [fireTimer]
    split
    · rename_i a ha
      split_ifs with hstage
      · have hmem := List.mem_of_find?_eq_some ha
        exact herase.calm (acceptFailed_calm hwf' hmem (by simp [hstage, Stage.offered]) false)
      · exact herase.calm (settleRunner_calm _ _ _)
    · exact herase
  | requesterSettings taskId =>
    refine fireSettingsTimer_guardInv hs hwf rfl (fun a ha hstage => h ?_) runnerReply reply
    exact .inr (.inl ⟨taskId, rfl, a, ha, hstage⟩)
  | task taskId =>
    refine handleTaskTimeout_guardInv (GuardedBut.eraseTimer hs (.inl rfl)) hwf' fun htask => ?_
    by_contra hcon
    refine h (.inr (.inr ⟨taskId, rfl, htask, ?_⟩))
    simp only [Event.reply, Event.runnerReply]
    tauto

/-- A task's runner says that it has ended, and the requester's callback returns. -/
theorem runnerEnds_guardInv (hs : s.GuardInv) (hwf : s.WellFormed) {taskId : TaskId}
    (message : ToRequester) {e : Event} (hending : s.ending? e = some taskId)
    (h : ¬ s.Strands e) : (s.endTask taskId message e.reply).GuardInv := by
  refine endTask_guardInv (hs.but taskId) hwf message fun htask => ?_
  by_contra hreply
  exact h (.inr (.inr ⟨taskId, hending, htask, .inl hreply⟩))

theorem step_guardInv {e : Event} (hs : s.GuardInv) (hwf : s.WellFormed) (h : ¬ s.Strands e) :
    (step s e).GuardInv := by
  cases e with
  | registerRunner runner => exact hs.calm (registerRunner_calm s runner)
  | deregisterRunner runnerId error => exact deregisterRunner_guardInv hs runnerId error
  | registerRequester requesterId => exact ⟨hs.guarded, hs.endings, hs.timingOut⟩
  | deregisterRequester requesterId => exact ⟨hs.guarded, hs.endings, hs.timingOut⟩
  | runnerMessage runnerId message now reply =>
    simp only [step, onRunnerMessage]
    split
    · exact hs
    · rename_i hknows
      simp only [Bool.not_eq_true, Bool.not_eq_false'] at hknows
      cases message with
      | taskAccepted taskId => exact hs.calm (answerRunner_calm s taskId _)
      | taskRejected taskId reason => exact hs.calm (answerRunner_calm s taskId _)
      | taskDeferred taskId => exact hs.calm (answerRunner_calm s taskId _)
      | taskOffer taskType offerId validFor => exact hs.calm (taskOffered_calm s _ now)
      | taskDone taskId data => exact runnerEnds_guardInv hs hwf _ (by simp [ending?, hknows]) h
      | taskError taskId error => exact runnerEnds_guardInv hs hwf _ (by simp [ending?, hknows]) h
      | taskDataRequest taskId requestId params =>
        exact hs.calm (passToRequester_calm s taskId fun _ _ => rfl)
      | nodeTypesRequest taskId requestId params =>
        exact hs.calm (passToRequester_calm s taskId fun _ _ => rfl)
      | rpc taskId callId name params =>
        exact hs.calm (passToRequester_calm s taskId fun _ _ => rfl)
      | info => exact hs
  | requesterMessage requesterId message now =>
    cases message with
    | taskSettings taskId settings => exact hs.calm (handleRequesterAccept_calm s taskId settings)
    | taskCancel taskId reason => exact hs.calm (cancelTask_calm s taskId reason)
    | taskRequest taskType requestId =>
      exact hs.calm (requestMade_calm requestId requesterId taskType now)
    | taskDataResponse taskId requestId data => exact passToRunner_guardInv hs taskId _
    | nodeTypesResponse taskId requestId types => exact passToRunner_guardInv hs taskId _
    | rpcResponse taskId callId status data => exact passToRunner_guardInv hs taskId _
  | fire timer runnerReply reply =>
    simp only [step]
    split_ifs
    · exact fireTimer_guardInv hs hwf timer runnerReply reply h
    · exact hs
  | resume taskId ok =>
    simp only [step]
    split
    · exact hs
    · rename_i a ha
      refine resume_guardInv hs hwf (mem_of_acceptance? ha).1 ok fun hstage => ?_
      by_contra hcon
      exact h (.inl ⟨a, ha, hstage, fun ref href hid => hcon ⟨ref, href, hid⟩⟩)
  | endingSettled index ok =>
    simp only [step, hs.endings, List.getElem?_nil]
    exact hs
  | timingOutSettled index ok reply =>
    simp only [step, hs.timingOut, List.getElem?_nil]
    exact hs

end

/-- In a run none of whose events strands a task, no task is stranded. -/
theorem none_stranded {mode : RunnerMode} {es : List Event}
    (h : Runs.Meets step (fun s e => ¬ s.Strands e) (start mode) es) :
    Runs.Along step NoneStranded (start mode) es := by
  have hinv : Runs.Along step (fun s => s.GuardInv ∧ s.WellFormed) (start mode) es :=
    Runs.meets_along (fun s e hs he => ⟨step_guardInv hs.1 hs.2 he, step_wellFormed hs.2 e⟩)
      ⟨start_guardInv mode, start_wellFormed mode⟩ h
  exact hinv.mono fun s hs t ht => (hs.1.guarded t ht).noneStranded

/-- A request expires while its acceptance is in progress. -/
def expiredRun : List Event :=
  [.registerRunner { id := "runner" }, .registerRequester "requester",
    .requesterMessage "requester" (.taskRequest "javascript" "request") 0,
    .runnerMessage "runner" (.taskOffer "javascript" "offer" (-1)) 0 .returned, .resume 0 true,
    .fire ⟨0, .request "request"⟩ .returned .returned,
    .runnerMessage "runner" (.taskAccepted 0) 0 .returned, .resume 0 true]

/-- Its task is in the map, and no acceptance and no timer is left that would take it out. -/
theorem expired_stranded : Runs.Meets step Admissible (start .internal) expiredRun ∧
    ¬ Runs.Along step NoneStranded (start .internal) expiredRun := by
  refine ⟨by decide, fun h => ?_⟩
  have hnone : (Runs.run step (start .internal) expiredRun).acceptances = [] := by decide
  rcases h.last ⟨0, "runner", "requester", "javascript", none⟩ (by decide) with
    ⟨⟨a, ha, -⟩, -⟩ | ⟨a, ha, -⟩ | ⟨timer, -, hto⟩
  · simp [hnone] at ha
  · simp [hnone] at ha
  · cases hto

/-- The task of a request that does not expire runs until its execution timeout. -/
theorem none_stranded_timeout : Runs.Along step NoneStranded (start .external)
    [.registerRunner { id := "runner" }, .registerRequester "requester",
      .requesterMessage "requester" (.taskRequest "javascript" "request") 0,
      .runnerMessage "runner" (.taskOffer "javascript" "offer" (-1)) 0 .returned,
      .resume 0 true, .runnerMessage "runner" (.taskAccepted 0) 0 .returned,
      .resume 0 true, .resume 0 true,
      .requesterMessage "requester" (.taskSettings 0 "settings") 0, .resume 0 true,
      .resume 0 true, .resume 0 true, .fire ⟨3, .task 0⟩ .returned .returned] :=
  none_stranded (by decide)

end TaskBroker

end N8n
