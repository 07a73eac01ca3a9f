import Mathlib.Tactic
import N8n.TaskBrokerRun

/-!
# The life of a task

A task id is drawn when an offer is taken up, becomes a task when the runner accepts, and leaves the
map when the task ends. `WellFormed` is what every reachable state keeps of this. `Calm` is what a
handler does that neither creates a task nor tells a requester that one has ended: no task, no
acceptance and no timer of a task is lost or made up.
-/

namespace N8n

namespace TaskBroker

/-- The runner has not accepted yet. -/
def Stage.offered : Stage → Bool
  | .messagingRunner _ | .awaitingRunner _ => true
  | _ => false

/-- The settings have come and the execution timeout is still to be armed. -/
def Stage.arming : Stage → Bool
  | .messagingRequester (some (.settings _)) | .awaitingSettings (some (.settings _))
  | .foundRunner _ _ => true
  | _ => false

def Offered (s : TaskBroker) (taskId : TaskId) : Prop :=
  ∃ a ∈ s.acceptances, a.taskId = taskId ∧ a.stage.offered

/-- The acceptances in flight bear distinct ids, all of them drawn. -/
structure DrawnIds (s : TaskBroker) : Prop where
  nodup : (s.acceptances.map (·.taskId)).Nodup
  lt : ∀ a ∈ s.acceptances, a.taskId < s.nextTaskId

def RequestTimers (s : TaskBroker) : Prop :=
  ∀ r ∈ s.requests, ∀ timer, r.timeout = some timer → ∃ requestId, timer.target = .request requestId

structure WellFormed (s : TaskBroker) : Prop where
  drawn : s.DrawnIds
  requestTimers : s.RequestTimers
  task_lt : ∀ t ∈ s.tasks, t.id < s.nextTaskId
  taskTimer : ∀ t ∈ s.tasks, ∀ timer, t.timeout = some timer → timer.target = .task t.id
  not_offered : ∀ t ∈ s.tasks, ¬ s.Offered t.id

/-- A timer of the task's own is running, or its settings are about to be sent. -/
def Guarded (s : TaskBroker) (t : Task) : Prop :=
  (∃ timer ∈ s.timers, t.timeout = some timer ∧ timer.target = .task t.id) ∨
    s.AwaitsSettings t.id ∨ ∃ a ∈ s.acceptances, a.taskId = t.id ∧ a.stage.arming

theorem start_wellFormed (mode : RunnerMode) : (start mode).WellFormed := by
  refine ⟨⟨List.nodup_nil, ?_⟩, ?_, ?_, ?_, ?_⟩ <;> simp [start, RequestTimers]

/-- A timer's task that keeps its timers and its acceptance stays guarded. -/
theorem Guarded.mono {s s' : TaskBroker} {t : Task} (h : s.Guarded t)
    (htimers : ∀ timer ∈ s.timers,
      timer.target = .task t.id ∨ timer.target = .requesterSettings t.id → timer ∈ s'.timers)
    (hcalls : ∀ a ∈ s.acceptances, a.taskId = t.id → a.stage.offered = false →
      a ∈ s'.acceptances) : s'.Guarded t := by
  rcases h with ⟨timer, hmem, hto, htarget⟩ | ⟨⟨a, ha, hid, haw⟩, timer, hmem, htarget⟩ |
    ⟨a, ha, hid, harm⟩
  · exact .inl ⟨timer, htimers timer hmem (.inl htarget), hto, htarget⟩
  · have hoff : a.stage.offered = false := by
      revert haw
      cases a.stage <;> simp [Stage.awaitsSettings, Stage.offered]
    exact .inr (.inl ⟨⟨a, hcalls a ha hid hoff, hid, haw⟩, timer,
      htimers timer hmem (.inr htarget), htarget⟩)
  · have hoff : a.stage.offered = false := by
      revert harm
      cases a.stage <;> simp [Stage.arming, Stage.offered]
    exact .inr (.inr ⟨a, hcalls a ha hid hoff, hid, harm⟩)

structure Calm (s s' : TaskBroker) : Prop where
  next : s.nextTaskId ≤ s'.nextTaskId
  tasks : ∀ t ∈ s'.tasks, t ∈ s.tasks
  offered : ∀ n, s'.Offered n → s.Offered n ∨ s.nextTaskId ≤ n
  drawn : s.DrawnIds → s'.DrawnIds
  requestTimers : s.RequestTimers → s'.RequestTimers
  guarded : ∀ t ∈ s'.tasks, s.Guarded t → s'.Guarded t
  endings : s'.endings = s.endings
  timingOut : s'.timingOut = s.timingOut
  endMessages : ∀ n, s'.endMessages n = s.endMessages n

theorem Calm.refl (s : TaskBroker) : Calm s s :=
  ⟨le_rfl, fun _ h => h, fun _ h => .inl h, id, id, fun _ _ h => h, rfl, rfl, fun _ => rfl⟩

theorem Calm.trans {s t u : TaskBroker} (h : Calm s t) (h' : Calm t u) : Calm s u where
  next := h.next.trans h'.next
  tasks := fun x hx => h.tasks x (h'.tasks x hx)
  offered := fun n hn => (h'.offered n hn).elim (h.offered n) fun hle => .inr (h.next.trans hle)
  drawn := fun hs => h'.drawn (h.drawn hs)
  requestTimers := fun hs => h'.requestTimers (h.requestTimers hs)
  guarded := fun x hx hg => h'.guarded x hx (h.guarded x (h'.tasks x hx) hg)
  endings := h'.endings.trans h.endings
  timingOut := h'.timingOut.trans h.timingOut
  endMessages := fun n => (h'.endMessages n).trans (h.endMessages n)

theorem WellFormed.calm {s s' : TaskBroker} (hs : s.WellFormed) (h : Calm s s') :
    s'.WellFormed where
  drawn := h.drawn hs.drawn
  requestTimers := h.requestTimers hs.requestTimers
  task_lt := fun t ht => (hs.task_lt t (h.tasks t ht)).trans_le h.next
  taskTimer := fun t ht => hs.taskTimer t (h.tasks t ht)
  not_offered := fun t ht hoff => by
    rcases h.offered _ hoff with hold | hle
    · exact hs.not_offered t (h.tasks t ht) hold
    · exact absurd (hs.task_lt t (h.tasks t ht)) (not_lt.2 hle)

theorem DrawnIds.eq_of_taskId {s : TaskBroker} (hs : s.DrawnIds) {a b : Acceptance}
    (ha : a ∈ s.acceptances) (hb : b ∈ s.acceptances) (h : a.taskId = b.taskId) : a = b :=
  List.inj_on_of_nodup_map hs.nodup ha hb h

theorem DrawnIds.map {s : TaskBroker} (hs : s.DrawnIds) {f : Acceptance → Acceptance}
    (hf : ∀ a, (f a).taskId = a.taskId) :
    ({ s with acceptances := s.acceptances.map f } : TaskBroker).DrawnIds := by
  refine ⟨?_, fun a ha => ?_⟩
  · rw [List.map_map, show (fun a : Acceptance => a.taskId) ∘ f = fun a => a.taskId from funext hf]
    exact hs.nodup
  · obtain ⟨b, hb, rfl⟩ := List.mem_map.1 ha
    exact (hf b).symm ▸ hs.lt b hb

/-! ## Calm handlers -/

section Calm

variable (s : TaskBroker)

/-- Nothing that `Calm` speaks of changes but the messages, and no task's end is among these. -/
theorem calm_of_sent {s' : TaskBroker} (more : List Sent)
    (h : ∀ m ∈ more, ∀ n, m.ends n = false) (hsent : s'.sent = s.sent ++ more)
    (hnext : s'.nextTaskId = s.nextTaskId) (htasks : s'.tasks = s.tasks)
    (hcalls : s'.acceptances = s.acceptances) (hrequests : s'.requests = s.requests)
    (htimers : ∀ timer ∈ s.timers, timer ∈ s'.timers) (hendings : s'.endings = s.endings)
    (htimingOut : s'.timingOut = s.timingOut) : Calm s s' where
  next := hnext.ge
  tasks := fun t ht => htasks ▸ ht
  offered := fun n hn => .inl (by rwa [Offered, ← hcalls])
  drawn := fun hs => ⟨hcalls ▸ hs.nodup, fun a ha => hnext ▸ hs.lt a (hcalls ▸ ha)⟩
  requestTimers := fun hs r hr => hs r (hrequests ▸ hr)
  guarded := fun t _ h => h.mono (fun timer hmem _ => htimers timer hmem)
    fun a ha _ _ => hcalls ▸ ha
  endings := hendings
  timingOut := htimingOut
  endMessages := fun n => by
    have hzero : more.countP (Sent.ends n) = 0 :=
      List.countP_eq_zero.2 fun m hm => by simp [h m hm n]
    simp [TaskBroker.endMessages, hsent, List.countP_append, hzero]

/-- Only the registers, the offers, the pending requests and the timers change. -/
theorem calm_of_eq {s' : TaskBroker} (hsent : s'.sent = s.sent)
    (hnext : s'.nextTaskId = s.nextTaskId) (htasks : s'.tasks = s.tasks)
    (hcalls : s'.acceptances = s.acceptances) (hrequests : s'.requests = s.requests)
    (htimers : ∀ timer ∈ s.timers, timer ∈ s'.timers) (hendings : s'.endings = s.endings)
    (htimingOut : s'.timingOut = s.timingOut) : Calm s s' :=
  calm_of_sent s [] (fun _ hm => absurd hm List.not_mem_nil) (by simp [hsent]) hnext htasks hcalls
    hrequests htimers hendings htimingOut

theorem messageRunner_calm (runnerId : String) (message : ToRunner) :
    Calm s (s.messageRunner runnerId message) := by
  refine calm_of_sent s _ (fun m hm n => ?_) rfl rfl rfl rfl rfl (fun _ h => h) rfl rfl
  split_ifs at hm <;> simp only [List.mem_singleton, List.not_mem_nil] at hm
  subst hm
  rfl

theorem messageRequester_calm (requesterId : String) {message : ToRequester}
    (h : ∀ n, Sent.ends n (.toRequester requesterId message) = false) :
    Calm s (s.messageRequester requesterId message) := by
  refine calm_of_sent s _ (fun m hm n => ?_) rfl rfl rfl rfl rfl (fun _ h => h) rfl rfl
  split_ifs at hm <;> simp only [List.mem_singleton, List.not_mem_nil] at hm
  subst hm
  exact h n

theorem setTimeout_calm (target : TimerTarget) : Calm s (s.setTimeout target) :=
  calm_of_eq s rfl rfl rfl rfl rfl (fun _ h => List.mem_append_left _ h) rfl rfl

theorem clearTimeout_calm {timeout : Option Timer}
    (h : ∀ timer, timeout = some timer → ∃ requestId, timer.target = .request requestId) :
    Calm s (s.clearTimeout timeout) where
  next := le_rfl
  tasks := fun _ h => h
  offered := fun _ h => .inl h
  drawn := fun hs => ⟨hs.nodup, hs.lt⟩
  requestTimers := id
  guarded := fun t _ hg => hg.mono (fun timer hmem htarget => by
    refine List.mem_filter.2 ⟨hmem, decide_eq_true fun heq => ?_⟩
    obtain ⟨requestId, hreq⟩ := h timer heq.symm
    simp [hreq] at htarget) fun _ ha _ _ => ha
  endings := rfl
  timingOut := rfl
  endMessages := fun _ => rfl

theorem deleteTask_calm (taskId : TaskId) : Calm s (s.deleteTask taskId) where
  next := le_rfl
  tasks := fun _ h => (List.mem_filter.1 h).1
  offered := fun _ h => .inl h
  drawn := fun hs => ⟨hs.nodup, hs.lt⟩
  requestTimers := id
  guarded := fun _ _ h => h
  endings := rfl
  timingOut := rfl
  endMessages := fun _ => rfl

theorem updateRequest_calm (ref : ℕ) {f : TaskRequest → TaskRequest}
    (hf : ∀ r timer, (f r).timeout = some timer →
      r.timeout = some timer ∨ ∃ requestId, timer.target = .request requestId) :
    Calm s (s.updateRequest ref f) where
  next := le_rfl
  tasks := fun _ h => h
  offered := fun _ h => .inl h
  drawn := fun hs => ⟨hs.nodup, hs.lt⟩
  requestTimers := fun hs r hr timer ht => by
    obtain ⟨i, hi⟩ := List.mem_iff_getElem?.1 hr
    simp only [updateRequest, List.getElem?_modify, Option.map_eq_map, Option.map_eq_some_iff] at hi
    obtain ⟨r₀, hr₀, rfl⟩ := hi
    have hmem := List.mem_of_getElem? hr₀
    split_ifs at ht
    · rcases hf r₀ timer ht with hold | hnew
      · exact hs r₀ hmem timer hold
      · exact hnew
    · exact hs r₀ hmem timer ht
  guarded := fun _ _ h => h
  endings := rfl
  timingOut := rfl
  endMessages := fun _ => rfl

/-- An `acceptOffer` call may end when it guards no task. -/
theorem finish_calm {taskId : TaskId}
    (h : ∀ a ∈ s.acceptances, a.taskId = taskId → (∃ t ∈ s.tasks, t.id = taskId) →
      a.stage.awaitsSettings = false ∧ a.stage.arming = false) : Calm s (s.finish taskId) where
  next := le_rfl
  tasks := fun _ h => h
  offered := fun _ ⟨a, ha, hrest⟩ => .inl ⟨a, (List.mem_filter.1 ha).1, hrest⟩
  drawn := fun hs =>
    ⟨hs.nodup.sublist (List.filter_sublist.map _), fun a ha => hs.lt a (List.mem_filter.1 ha).1⟩
  requestTimers := id
  guarded := fun t ht hg => by
    have hother : ∀ a ∈ s.acceptances, a.taskId = t.id →
        a.stage.awaitsSettings = true ∨ a.stage.arming = true → a ∈ (s.finish taskId).acceptances :=
      fun a ha hid hst => by
        refine List.mem_filter.2 ⟨ha, decide_eq_true fun heq => ?_⟩
        obtain ⟨h₁, h₂⟩ := h a ha heq ⟨t, ht, hid.symm.trans heq⟩
        simp [h₁, h₂] at hst
    rcases hg with harmed | ⟨⟨a, ha, hid, haw⟩, htimer⟩ | ⟨a, ha, hid, harm⟩
    · exact .inl harmed
    · exact .inr (.inl ⟨⟨a, hother a ha hid (.inl haw), hid, haw⟩, htimer⟩)
    · exact .inr (.inr ⟨a, hother a ha hid (.inr harm), hid, harm⟩)
  endings := rfl
  timingOut := rfl
  endMessages := fun _ => rfl

/-- The stages of the acceptances move on, none of them backwards. -/
theorem mapStages_calm {f : Acceptance → Acceptance} (hid : ∀ a, (f a).taskId = a.taskId)
    (hoffered : ∀ a ∈ s.acceptances, (f a).stage.offered → a.stage.offered)
    (hawaits : ∀ a ∈ s.acceptances, a.stage.awaitsSettings →
      (f a).stage.awaitsSettings ∨ (f a).stage.arming)
    (harming : ∀ a ∈ s.acceptances, a.stage.arming → (f a).stage.arming) :
    Calm s { s with acceptances := s.acceptances.map f } where
  next := le_rfl
  tasks := fun _ h => h
  offered := fun n ⟨b, hb, hn, hoff⟩ => by
    obtain ⟨a, ha, rfl⟩ := List.mem_map.1 hb
    exact .inl ⟨a, ha, (hid a).symm.trans hn, hoffered a ha hoff⟩
  drawn := fun hs => hs.map hid
  requestTimers := id
  guarded := fun t _ hg => by
    rcases hg with harmed | ⟨⟨a, ha, ht, haw⟩, htimer⟩ | ⟨a, ha, ht, harm⟩
    · exact .inl harmed
    · rcases hawaits a ha haw with h | h
      · exact .inr (.inl ⟨⟨f a, List.mem_map_of_mem ha, (hid a).trans ht, h⟩, htimer⟩)
      · exact .inr (.inr ⟨f a, List.mem_map_of_mem ha, (hid a).trans ht, h⟩)
    · exact .inr (.inr ⟨f a, List.mem_map_of_mem ha, (hid a).trans ht, harming a ha harm⟩)
  endings := rfl
  timingOut := rfl
  endMessages := fun _ => rfl

variable {s}

theorem setStage_calm (hs : s.DrawnIds) {a : Acceptance} (ha : a ∈ s.acceptances) {stage : Stage}
    (hoffered : stage.offered → a.stage.offered)
    (hawaits : a.stage.awaitsSettings → stage.awaitsSettings ∨ stage.arming)
    (harming : a.stage.arming → stage.arming) : Calm s (s.setStage a.taskId stage) := by
  have hself : ∀ b ∈ s.acceptances, b.taskId = a.taskId → b = a := fun b hb hid =>
    hs.eq_of_taskId hb ha hid
  refine mapStages_calm s (fun b => ?_) (fun b hb => ?_) (fun b hb => ?_) fun b hb => ?_
  · split_ifs <;> rfl
  · by_cases hid : b.taskId = a.taskId
    · rw [if_pos hid, hself b hb hid]
      exact hoffered
    · rw [if_neg hid]
      exact id
  · by_cases hid : b.taskId = a.taskId
    · rw [if_pos hid, hself b hb hid]
      exact hawaits
    · rw [if_neg hid]
      exact .inl
  · by_cases hid : b.taskId = a.taskId
    · rw [if_pos hid, hself b hb hid]
      exact harming
    · rw [if_neg hid]
      exact id

variable (s)

theorem settleRunner_calm (taskId : TaskId) (answer : RunnerAnswer) :
    Calm s (s.settleRunner taskId answer) := by
  refine mapStages_calm s (fun b => ?_) (fun b _ => ?_) (fun b _ h => .inl ?_) fun b _ => ?_
  · split_ifs
    · split <;> rfl
    · rfl
  · split_ifs
    · split <;> rename_i hst <;> simp [hst, Stage.offered]
    · exact id
  · revert h
    split_ifs
    · split <;> rename_i hst <;> simp [hst, Stage.awaitsSettings]
    · exact id
  · split_ifs
    · split <;> rename_i hst <;> simp [hst, Stage.arming]
    · exact id

theorem settleRequester_calm (taskId : TaskId) (settings : Payload) :
    Calm s (s.settleRequester taskId (.settings settings)) := by
  refine mapStages_calm s (fun b => ?_) (fun b _ => ?_) (fun b _ h => ?_) fun b _ => ?_
  · split_ifs
    · split <;> rfl
    · rfl
  · split_ifs
    · split <;> rename_i hst <;> simp [hst, Stage.offered]
    · exact id
  · split_ifs
    · split
      · exact .inr rfl
      · exact .inr rfl
      · exact .inl h
    · exact .inl h
  · split_ifs
    · split <;> rename_i hst <;> simp [hst, Stage.arming]
    · exact id

theorem answerRunner_calm (taskId : TaskId) (answer : RunnerAnswer) :
    Calm s (s.answerRunner taskId answer) := by
  unfold answerRunner
  split
  · exact (settleRunner_calm s taskId answer).trans
      (calm_of_eq _ rfl rfl rfl rfl rfl (fun _ h => h) rfl rfl)
  · exact .refl s

theorem handleRequesterAccept_calm (taskId : TaskId) (settings : Payload) :
    Calm s (s.handleRequesterAccept taskId settings) := by
  unfold handleRequesterAccept
  split
  · exact (settleRequester_calm s taskId settings).trans
      (calm_of_eq _ rfl rfl rfl rfl rfl (fun _ h => h) rfl rfl)
  · exact .refl s

theorem registerRunner_calm (runner : TaskRunner) : Calm s (s.registerRunner runner) := by
  refine Calm.trans ?_ (messageRunner_calm _ _ _)
  exact calm_of_eq s rfl rfl rfl rfl rfl (fun _ h => h) rfl rfl

theorem cancelTask_calm (taskId : TaskId) (reason : String) :
    Calm s (s.cancelTask taskId reason) := by
  unfold cancelTask
  split
  · exact .refl s
  · exact (deleteTask_calm s taskId).trans (messageRunner_calm _ _ _)

theorem passToRequester_calm (taskId : TaskId) {message : ToRequester}
    (h : ∀ requesterId n, Sent.ends n (.toRequester requesterId message) = false) :
    Calm s (s.passToRequester taskId message) := by
  unfold passToRequester
  split
  · exact .refl s
  · exact messageRequester_calm s _ (h _)

theorem mem_tasks_of_task? {taskId : TaskId} {task : Task} (h : s.task? taskId = some task) :
    task ∈ s.tasks ∧ task.id = taskId :=
  ⟨List.mem_of_find?_eq_some h, by simpa using List.find?_some h⟩

theorem ne_of_task?_none {taskId : TaskId} (h : s.task? taskId = none) :
    ∀ t ∈ s.tasks, t.id ≠ taskId := fun t ht hid => by
  have := List.find?_eq_none.1 h t ht
  simp [hid] at this

theorem cancelTask_notMem (taskId : TaskId) (reason : String) :
    ∀ t ∈ (s.cancelTask taskId reason).tasks, t.id ≠ taskId := by
  unfold cancelTask
  split
  · exact ne_of_task?_none s ‹_›
  · intro t ht
    simpa using (List.mem_filter.1 ht).2

theorem requesterFailed_calm (taskId : TaskId) : Calm s (s.requesterFailed taskId) := by
  refine (cancelTask_calm s taskId _).trans (finish_calm _ fun a _ _ ⟨t, ht, hid⟩ => ?_)
  exact absurd hid (cancelTask_notMem s taskId _ t ht)

/-- A new `acceptOffer` call draws the next id. -/
theorem draw_calm (a : Acceptance) (h : a.taskId = s.nextTaskId) :
    Calm s { s with nextTaskId := s.nextTaskId + 1, acceptances := s.acceptances ++ [a] } where
  next := Nat.le_succ _
  tasks := fun _ ht => ht
  offered := fun n ⟨b, hb, hn, hoff⟩ => by
    rcases List.mem_append.1 hb with hb | hb
    · exact .inl ⟨b, hb, hn, hoff⟩
    · rw [List.mem_singleton.1 hb, h] at hn
      exact .inr hn.le
  drawn := fun hs => by
    refine ⟨?_, fun b hb => ?_⟩
    · simp only [List.map_append, List.map_cons, List.map_nil]
      refine List.nodup_append.2 ⟨hs.nodup, List.nodup_singleton _, fun x hx y hy hxy => ?_⟩
      obtain ⟨b, hb, rfl⟩ := List.mem_map.1 hx
      have hlt := hs.lt b hb
      rw [List.mem_singleton.1 hy, h] at hxy
      exact absurd hxy hlt.ne
    · rcases List.mem_append.1 hb with hb | hb
      · exact Nat.lt_succ_of_lt (hs.lt b hb)
      · rw [List.mem_singleton.1 hb, h]
        exact Nat.lt_succ_self _
  requestTimers := id
  guarded := fun t _ hg => hg.mono (fun _ hmem _ => hmem)
    fun b hb _ _ => List.mem_append_left _ hb
  endings := rfl
  timingOut := rfl
  endMessages := fun _ => rfl

theorem acceptOffer_calm (offer : TaskOffer) (ref : ℕ) : Calm s (s.acceptOffer offer ref) := by
  let a : Acceptance :=
    { taskId := s.nextTaskId, offer, request := ref, stage := .messagingRunner none }
  have hdraw := draw_calm s a rfl
  have htimer := hdraw.trans (setTimeout_calm _ (.runnerAccept s.nextTaskId))
  have hmessage := htimer.trans
    (messageRunner_calm _ offer.runnerId (.taskOfferAccept offer.offerId s.nextTaskId))
  exact hmessage.trans (calm_of_eq _ rfl rfl rfl rfl rfl (fun _ h => h) rfl rfl)

theorem settleLoop_calm : ∀ (refs : List ℕ) (s : TaskBroker), Calm s (s.settleLoop refs)
  | [], s => .refl s
  | ref :: refs, s => by
    unfold settleLoop
    split
    · exact settleLoop_calm refs s
    · split
      · exact settleLoop_calm refs s
      · refine Calm.trans ?_ (settleLoop_calm refs _)
        refine Calm.trans ?_ (acceptOffer_calm _ _ ref)
        have hupdate := updateRequest_calm s ref
          (f := fun r => { r with acceptInProgress := true }) fun _ _ h => .inl h
        refine hupdate.trans ?_
        exact calm_of_eq _ rfl rfl rfl rfl rfl (fun _ h => h) rfl rfl

theorem settleTasks_calm (now : ℤ) : Calm s (s.settleTasks now) := by
  refine Calm.trans ?_ (settleLoop_calm _ _)
  exact calm_of_eq s rfl rfl rfl rfl rfl (fun _ h => h) rfl rfl

theorem taskOffered_calm (offer : TaskOffer) (now : ℤ) : Calm s (s.taskOffered offer now) := by
  refine Calm.trans ?_ (settleTasks_calm _ now)
  exact calm_of_eq s rfl rfl rfl rfl rfl (fun _ h => h) rfl rfl

theorem taskRequested_calm (request : TaskRequest) (now : ℤ)
    (h : ∀ timer, request.timeout = some timer → ∃ requestId, timer.target = .request requestId) :
    Calm s (s.taskRequested request now) := by
  refine Calm.trans ?_ (settleTasks_calm _ now)
  exact {
    next := le_rfl
    tasks := fun _ ht => ht
    offered := fun _ hn => .inl hn
    drawn := fun hs => ⟨hs.nodup, hs.lt⟩
    requestTimers := fun hs r hr => by
      rcases List.mem_append.1 hr with hr | hr
      · exact hs r hr
      · exact List.mem_singleton.1 hr ▸ h
    guarded := fun _ _ hg => hg
    endings := rfl
    timingOut := rfl
    endMessages := fun _ => rfl }

variable {s}

theorem RequestTimers.request (hs : s.RequestTimers) (ref : ℕ) : ∀ timer,
    (s.request ref).timeout = some timer → ∃ requestId, timer.target = .request requestId := by
  intro timer ht
  by_cases hlt : ref < s.requests.length
  · rw [TaskBroker.request, List.getD_eq_getElem?_getD, List.getElem?_eq_getElem hlt] at ht
    exact hs _ (List.getElem_mem hlt) timer ht
  · rw [TaskBroker.request, List.getD_eq_getElem?_getD,
      List.getElem?_eq_none (not_lt.1 hlt)] at ht
    cases ht

theorem handleRequestTimeout_calm (hs : s.RequestTimers) (requestId : String) :
    Calm s (s.handleRequestTimeout requestId) := by
  unfold handleRequestTimeout
  split
  · exact .refl s
  · rename_i ref _
    refine Calm.trans ?_ (messageRequester_calm _ _ fun _ => rfl)
    refine Calm.trans ?_ (clearTimeout_calm _ (hs.request ref))
    exact calm_of_eq s rfl rfl rfl rfl rfl (fun _ h => h) rfl rfl

theorem acceptFailed_calm (hs : s.WellFormed) {a : Acceptance} (ha : a ∈ s.acceptances)
    (hoff : a.stage.offered) (deferred : Bool) : Calm s (s.acceptFailed a deferred) := by
  have hupdate := updateRequest_calm s a.request
    (f := fun r => { r with acceptInProgress := false }) fun _ _ h => .inl h
  have hfinish := hupdate.trans (finish_calm _ fun b hb hid ⟨t, ht, ht'⟩ =>
    absurd ⟨a, ha, ht'.symm, hoff⟩ (hs.not_offered t ht))
  have htimers := (hs.calm hfinish).requestTimers
  simp only [acceptFailed]
  generalize (s.updateRequest a.request _).finish a.taskId = t at hfinish htimers ⊢
  split_ifs
  · let timer := (t.clearTimeout (t.request a.request).timeout).newTimer
      (.request (t.request a.request).requestId)
    have hclear := hfinish.trans (clearTimeout_calm t (htimers.request a.request))
    have hset := hclear.trans (setTimeout_calm _ timer.target)
    have hrenew := hset.trans (updateRequest_calm _ a.request
      (f := fun r => { r with timeout := some timer }) fun _ _ h =>
        .inr ⟨_, congrArg Timer.target (Option.some.inj h).symm⟩)
    exact hrenew.trans (calm_of_eq _ rfl rfl rfl rfl rfl (fun _ h => h) rfl rfl)
  · exact hfinish

end Calm

/-! ## Every step keeps a well-formed state well formed -/

section WellFormed

variable {s : TaskBroker}

theorem WellFormed.of_subset (hs : s.WellFormed) {s' : TaskBroker}
    (hcalls : s'.acceptances = s.acceptances) (hnext : s'.nextTaskId = s.nextTaskId)
    (hrequests : s'.requests = s.requests) (htasks : ∀ t ∈ s'.tasks, t ∈ s.tasks) :
    s'.WellFormed where
  drawn := ⟨hcalls ▸ hs.drawn.nodup, fun a ha => hnext ▸ hs.drawn.lt a (hcalls ▸ ha)⟩
  requestTimers := fun r hr => hs.requestTimers r (hrequests ▸ hr)
  task_lt := fun t ht => hnext ▸ hs.task_lt t (htasks t ht)
  taskTimer := fun t ht => hs.taskTimer t (htasks t ht)
  not_offered := fun t ht hoff => hs.not_offered t (htasks t ht) (by rwa [Offered, ← hcalls])

theorem Offered.of_setStage {taskId n : TaskId} {stage : Stage} (hstage : stage.offered = false)
    (h : (s.setStage taskId stage).Offered n) : s.Offered n ∧ n ≠ taskId := by
  obtain ⟨b, hb, rfl, hoff⟩ := h
  obtain ⟨a, ha, rfl⟩ := List.mem_map.1 hb
  by_cases hid : a.taskId = taskId
  · rw [if_pos hid] at hoff
    exact absurd hoff (by simp [hstage])
  · rw [if_neg hid] at hoff ⊢
    exact ⟨⟨a, ha, rfl, hoff⟩, hid⟩

theorem Offered.of_finish {taskId n : TaskId} (h : (s.finish taskId).Offered n) :
    s.Offered n ∧ n ≠ taskId := by
  obtain ⟨a, ha, rfl, hoff⟩ := h
  obtain ⟨ha, hid⟩ := List.mem_filter.1 ha
  exact ⟨⟨a, ha, rfl, hoff⟩, by simpa using hid⟩

theorem DrawnIds.setStage (hs : s.DrawnIds) (taskId : TaskId) (stage : Stage) :
    (s.setStage taskId stage).DrawnIds :=
  hs.map fun a => by split_ifs <;> rfl

theorem DrawnIds.finish (hs : s.DrawnIds) (taskId : TaskId) : (s.finish taskId).DrawnIds :=
  ⟨hs.nodup.sublist (List.filter_sublist.map _), fun a ha => hs.lt a (List.mem_filter.1 ha).1⟩

theorem WellFormed.setStage (hs : s.WellFormed) (taskId : TaskId) {stage : Stage}
    (hstage : stage.offered = false) : (s.setStage taskId stage).WellFormed where
  drawn := hs.drawn.setStage taskId stage
  requestTimers := hs.requestTimers
  task_lt := hs.task_lt
  taskTimer := hs.taskTimer
  not_offered := fun t ht hoff => hs.not_offered t ht (hoff.of_setStage hstage).1

theorem WellFormed.finish (hs : s.WellFormed) (taskId : TaskId) :
    (s.finish taskId).WellFormed where
  drawn := hs.drawn.finish taskId
  requestTimers := hs.requestTimers
  task_lt := hs.task_lt
  taskTimer := hs.taskTimer
  not_offered := fun t ht hoff => hs.not_offered t ht hoff.of_finish.1

theorem failTask_wellFormed (hs : s.WellFormed) (taskId : TaskId) (error : TaskError) :
    (s.failTask taskId error).WellFormed := by
  unfold failTask
  split
  · exact hs
  · exact hs.of_subset rfl rfl rfl fun t ht => (List.mem_filter.1 ht).1

theorem endTask_wellFormed (hs : s.WellFormed) (taskId : TaskId) (message : ToRequester)
    (reply : Callback) : (s.endTask taskId message reply).WellFormed := by
  unfold endTask
  split
  · exact hs
  · cases reply with
    | returned => exact hs.of_subset rfl rfl rfl fun t ht => (List.mem_filter.1 ht).1
    | suspended => exact hs.of_subset rfl rfl rfl fun _ ht => ht
    | threw => exact hs.of_subset rfl rfl rfl fun _ ht => ht

theorem handleTaskTimeout_wellFormed (hs : s.WellFormed) (taskId : TaskId)
    (runnerReply reply : Callback) : (s.handleTaskTimeout taskId runnerReply reply).WellFormed := by
  unfold handleTaskTimeout
  split
  · exact hs
  · split
    · exact endTask_wellFormed hs taskId _ reply
    · have hmessage := fun runnerId message => hs.calm (messageRunner_calm s runnerId message)
      cases runnerReply with
      | returned => exact endTask_wellFormed (hmessage _ _) taskId _ reply
      | suspended => exact hs.of_subset rfl rfl rfl fun _ ht => ht
      | threw => exact hmessage _ _

theorem getRunnerOrFailTask_wellFormed (hs : s.WellFormed) (taskId : TaskId) :
    (s.getRunnerOrFailTask taskId).1.WellFormed := by
  unfold getRunnerOrFailTask
  split
  · exact hs
  · split
    · exact hs
    · exact failTask_wellFormed hs taskId _

theorem passToRunner_wellFormed (hs : s.WellFormed) (taskId : TaskId) (message : ToRunner) :
    (s.passToRunner taskId message).WellFormed := by
  have h := getRunnerOrFailTask_wellFormed hs taskId
  unfold passToRunner
  split <;> rename_i heq <;> rw [heq] at h
  · exact h
  · exact h.calm (messageRunner_calm _ _ _)

theorem sendTaskSettings_wellFormed (hs : s.WellFormed) (taskId : TaskId) (settings : Payload) :
    (s.sendTaskSettings taskId settings).WellFormed := by
  have h := getRunnerOrFailTask_wellFormed hs taskId
  unfold sendTaskSettings
  split <;> rename_i heq <;> rw [heq] at h
  · exact h.finish taskId
  · exact h.setStage taskId rfl

theorem armTask_wellFormed (hs : s.WellFormed) (taskId : TaskId) (runnerId : String)
    (settings : Payload) : (s.armTask taskId runnerId settings).WellFormed := by
  unfold armTask
  split
  · exact hs.finish taskId
  · refine WellFormed.setStage ?_ taskId rfl
    refine WellFormed.calm ?_ (messageRunner_calm _ _ _)
    refine ⟨⟨hs.drawn.nodup, hs.drawn.lt⟩, hs.requestTimers, fun t ht => ?_, fun t ht timer h => ?_,
      fun t ht => ?_⟩ <;> obtain ⟨t₀, ht₀, rfl⟩ := List.mem_map.1 ht
    · have hlt := hs.task_lt t₀ ht₀
      split_ifs <;> exact hlt
    · split_ifs at h ⊢ with hid
      · obtain rfl := Option.some.inj h
        exact hid ▸ rfl
      · exact hs.taskTimer t₀ ht₀ timer h
    · have hnot := hs.not_offered t₀ ht₀
      split_ifs <;> exact fun ⟨a, ha, hoff⟩ => hnot ⟨a, ha, hoff⟩

theorem accepted_wellFormed (hs : s.WellFormed) {a : Acceptance} (ha : a ∈ s.acceptances) :
    (s.accepted a).WellFormed := by
  -- the acceptance leaves the offered stages, so the new task is not on offer
  have key : ∀ s' : TaskBroker, s'.DrawnIds → s'.requests = s.requests →
      s'.nextTaskId = s.nextTaskId →
      s'.tasks = s.tasks.filter (fun t : Task => t.id ≠ a.taskId) ++
        [{ id := a.taskId, taskType := a.offer.taskType, runnerId := a.offer.runnerId,
           requesterId := (s.request a.request).requesterId }] →
      (∀ n, s'.Offered n → s.Offered n ∧ n ≠ a.taskId) → s'.WellFormed := by
    intro s' hdrawn hrequests hnext htasks hoffered
    have hmem : ∀ t ∈ s'.tasks, t ∈ s.tasks ∨ t.id = a.taskId ∧ t.timeout = none := by
      intro t ht
      rw [htasks] at ht
      rcases List.mem_append.1 ht with ht | ht
      · exact .inl (List.mem_filter.1 ht).1
      · rw [List.mem_singleton.1 ht]
        exact .inr ⟨rfl, rfl⟩
    refine ⟨hdrawn, fun r hr => hs.requestTimers r (hrequests ▸ hr), fun t ht => ?_,
      fun t ht timer h => ?_, fun t ht hoff => ?_⟩
    · rcases hmem t ht with hold | ⟨hid, -⟩
      · exact hnext ▸ hs.task_lt t hold
      · exact hid ▸ hnext ▸ hs.drawn.lt a ha
    · rcases hmem t ht with hold | ⟨-, hnone⟩
      · exact hs.taskTimer t hold timer h
      · rw [hnone] at h
        cases h
    · obtain ⟨hoff, hne⟩ := hoffered _ hoff
      rcases hmem t ht with hold | ⟨hid, -⟩
      · exact hs.not_offered t hold hoff
      · exact hne hid
  have hdrawn : ∀ t : TaskBroker, t.acceptances = s.acceptances → t.nextTaskId = s.nextTaskId →
      t.DrawnIds := fun t hcalls hnext =>
    ⟨hcalls ▸ hs.drawn.nodup, fun b hb => hnext ▸ hs.drawn.lt b (hcalls ▸ hb)⟩
  simp only [accepted]
  split_ifs
  · refine key _ (DrawnIds.setStage ?_ _ _) rfl rfl rfl fun n hn => ?_
    · exact hdrawn _ rfl rfl
    · exact hn.of_setStage rfl
  · refine key _ (DrawnIds.finish ?_ _) rfl rfl rfl fun n hn => ?_
    · exact hdrawn _ rfl rfl
    · exact hn.of_finish

theorem runnerAnswered_wellFormed (hs : s.WellFormed) {a : Acceptance} (ha : a ∈ s.acceptances)
    (hoff : a.stage.offered) (answer : RunnerAnswer) : (s.runnerAnswered a answer).WellFormed := by
  cases answer with
  | accepted => exact accepted_wellFormed hs ha
  | rejected => exact hs.calm (acceptFailed_calm hs ha hoff false)
  | deferred => exact hs.calm (acceptFailed_calm hs ha hoff true)
  | timedOut => exact hs.calm (acceptFailed_calm hs ha hoff false)

theorem resume_wellFormed (hs : s.WellFormed) {a : Acceptance} (ha : a ∈ s.acceptances)
    (ok : Bool) : (s.resume a ok).WellFormed := by
  unfold resume
  split <;> rename_i hstage
  · split
    · exact hs.calm (setStage_calm hs.drawn ha (fun _ => by simp [hstage, Stage.offered])
        (by simp [hstage, Stage.awaitsSettings]) (by simp [hstage, Stage.arming]))
    · exact hs.calm (acceptFailed_calm hs ha (by simp [hstage, Stage.offered]) false)
  · exact hs
  · exact runnerAnswered_wellFormed hs ha (by simp [hstage, Stage.offered]) _
  · split
    · exact hs.setStage a.taskId rfl
    · exact hs.calm (requesterFailed_calm s a.taskId)
  · exact hs
  · exact sendTaskSettings_wellFormed hs a.taskId _
  · exact hs.calm (requesterFailed_calm s a.taskId)
  · exact armTask_wellFormed hs a.taskId _ _
  · split
    · exact hs.finish a.taskId
    · exact hs.calm (requesterFailed_calm s a.taskId)

theorem mem_of_acceptance? {taskId : TaskId} {a : Acceptance}
    (h : s.acceptance? taskId = some a) : a ∈ s.acceptances ∧ a.taskId = taskId :=
  ⟨List.mem_of_find?_eq_some h, by simpa using List.find?_some h⟩

theorem settleRunner_wellFormed (hs : s.WellFormed) (taskId : TaskId) (answer : RunnerAnswer) :
    (s.settleRunner taskId answer).WellFormed :=
  hs.calm (settleRunner_calm s taskId answer)

theorem Offered.of_settleRequester {taskId n : TaskId} {answer : RequesterAnswer}
    (h : (s.settleRequester taskId answer).Offered n) : s.Offered n := by
  obtain ⟨b, hb, rfl, hoff⟩ := h
  obtain ⟨a, ha, rfl⟩ := List.mem_map.1 hb
  refine ⟨a, ha, ?_, ?_⟩
  · split_ifs
    · split <;> rfl
    · rfl
  · revert hoff
    split_ifs
    · split <;> rename_i hst <;> simp [hst, Stage.offered]
    · exact id

theorem settleRequester_wellFormed (hs : s.WellFormed) (taskId : TaskId)
    (answer : RequesterAnswer) : (s.settleRequester taskId answer).WellFormed where
  drawn := hs.drawn.map fun b => by
    split_ifs
    · split <;> rfl
    · rfl
  requestTimers := hs.requestTimers
  task_lt := hs.task_lt
  taskTimer := hs.taskTimer
  not_offered := fun t ht hoff => hs.not_offered t ht hoff.of_settleRequester

theorem fireTimer_wellFormed (hs : s.WellFormed) (timer : Timer) (runnerReply reply : Callback) :
    (s.fireTimer timer runnerReply reply).WellFormed := by
  have herase : ({ s with timers := s.timers.erase timer } : TaskBroker).WellFormed :=
    hs.of_subset rfl rfl rfl fun _ ht => ht
  simp only [fireTimer]
  split
  · exact herase.calm (handleRequestTimeout_calm herase.requestTimers _)
  · split
    · rename_i a ha
      split_ifs with hstage
      · have hmem := List.mem_of_find?_eq_some ha
        exact runnerAnswered_wellFormed herase hmem (by simp [hstage, Stage.offered]) _
      · exact settleRunner_wellFormed herase _ _
    · exact herase
  · split
    · split_ifs
      · exact herase.calm (requesterFailed_calm _ _)
      · exact settleRequester_wellFormed herase _ _
    · exact herase
  · exact handleTaskTimeout_wellFormed herase _ _ _

theorem deregisterRunner_wellFormed (hs : s.WellFormed) (runnerId : String) (error : Payload) :
    (s.deregisterRunner runnerId error).WellFormed := by
  have hfold : ∀ (tasks : List Task) (t : TaskBroker), t.WellFormed → (tasks.foldl (fun s task =>
      (s.failTask task.id (.disconnected error)).handleRunnerReject task.id
        ("The Task Runner (" ++ runnerId ++ ") has disconnected: " ++ error)) t).WellFormed := by
    intro tasks
    induction tasks with
    | nil => exact fun _ ht => ht
    | cons task tasks ih =>
      intro t ht
      exact ih _ ((failTask_wellFormed ht task.id _).calm (answerRunner_calm _ _ _))
  exact hfold _ _ (hs.of_subset rfl rfl rfl fun _ ht => ht)

theorem onRunnerMessage_wellFormed (hs : s.WellFormed) (runnerId : String)
    (message : RunnerMessage) (now : ℤ) (reply : Callback) :
    (s.onRunnerMessage runnerId message now reply).WellFormed := by
  unfold onRunnerMessage
  split
  · exact hs
  · cases message with
    | taskAccepted taskId => exact hs.calm (answerRunner_calm s taskId _)
    | taskRejected taskId reason => exact hs.calm (answerRunner_calm s taskId _)
    | taskDeferred taskId => exact hs.calm (answerRunner_calm s taskId _)
    | taskOffer taskType offerId validFor => exact hs.calm (taskOffered_calm s _ now)
    | taskDone taskId data => exact endTask_wellFormed hs taskId _ reply
    | taskError taskId error => exact endTask_wellFormed hs taskId _ reply
    | taskDataRequest taskId requestId params =>
      exact hs.calm (passToRequester_calm s taskId fun _ _ => rfl)
    | nodeTypesRequest taskId requestId params =>
      exact hs.calm (passToRequester_calm s taskId fun _ _ => rfl)
    | rpc taskId callId name params => exact hs.calm (passToRequester_calm s taskId fun _ _ => rfl)
    | info => exact hs

theorem requestMade_calm (requestId requesterId taskType : String) (now : ℤ) :
    Calm s (s.onRequesterMessage requesterId (.taskRequest taskType requestId) now) := by
  refine (setTimeout_calm s (.request requestId)).trans (taskRequested_calm _ _ now ?_)
  rintro timer ⟨⟩
  exact ⟨requestId, rfl⟩

theorem step_wellFormed (hs : s.WellFormed) (e : Event) : (step s e).WellFormed := by
  cases e with
  | registerRunner runner => exact hs.calm (registerRunner_calm s runner)
  | deregisterRunner runnerId error => exact deregisterRunner_wellFormed hs runnerId error
  | registerRequester requesterId => exact hs.of_subset rfl rfl rfl fun _ ht => ht
  | deregisterRequester requesterId => exact hs.of_subset rfl rfl rfl fun _ ht => ht
  | runnerMessage runnerId message now reply =>
    exact onRunnerMessage_wellFormed hs runnerId message now reply
  | requesterMessage requesterId message now =>
    cases message with
    | taskSettings taskId settings => exact hs.calm (handleRequesterAccept_calm s taskId settings)
    | taskCancel taskId reason => exact hs.calm (cancelTask_calm s taskId reason)
    | taskRequest taskType requestId =>
      exact hs.calm (requestMade_calm requestId requesterId taskType now)
    | taskDataResponse taskId requestId data => exact passToRunner_wellFormed hs taskId _
    | nodeTypesResponse taskId requestId nodeTypes => exact passToRunner_wellFormed hs taskId _
    | rpcResponse taskId callId status data => exact passToRunner_wellFormed hs taskId _
  | fire timer runnerReply reply =>
    simp only [step]
    split
    · exact fireTimer_wellFormed hs timer runnerReply reply
    · exact hs
  | resume taskId ok =>
    simp only [step]
    split
    · exact hs
    · rename_i a ha
      exact resume_wellFormed hs (mem_of_acceptance? ha).1 ok
  | endingSettled index ok =>
    simp only [step]
    split
    · exact hs
    · split_ifs
      · exact hs.of_subset rfl rfl rfl fun _ ht => (List.mem_filter.1 ht).1
      · exact hs.of_subset rfl rfl rfl fun _ ht => ht
  | timingOutSettled index ok reply =>
    simp only [step]
    split
    · exact hs
    · have herase : ∀ timingOut, WellFormed { s with timingOut } := fun _ =>
        hs.of_subset rfl rfl rfl fun _ ht => ht
      split_ifs
      · exact endTask_wellFormed (herase _) _ _ reply
      · exact herase _

end WellFormed

end TaskBroker

end N8n
