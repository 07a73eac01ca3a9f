import N8n.Library.Places
import N8n.TaskRunner

/-!
# Capacity and answers of a task runner

An offer that is accepted makes room for its task, and new offers fill what room is left. A task
is answered where it leaves the running tasks: by its timer before it has settings, else by one of
the handlers of its execution. The handler of a success fails after it has answered only if an
offer cannot be sent, which an open connection rules out.
-/

namespace N8n

namespace TaskRunner

variable {sendThrows : ReadyState → Bool} {s : TaskRunner}

/-! ## Sending -/

theorem send_fst (sendThrows : ReadyState → Bool) (s : TaskRunner) (message : RunnerMessage)
    (task : Option ℕ) :
    ∃ sent, (s.send sendThrows message task).1 = { s with sent := s.sent ++ sent } ∧
      (∀ m ∈ sent, m = ⟨message, task⟩) ∧ sent.length ≤ 1 ∧
      ((s.send sendThrows message task).2 = true → sent = []) := by
  unfold send
  split_ifs
  · exact ⟨[], by simp, by simp, by simp, fun _ => rfl⟩
  · exact ⟨[⟨message, task⟩], rfl, by simp, Nat.le_refl _, fun h => by cases h⟩

theorem answers_append (sent : List Sent) (task : ℕ) :
    answers { s with sent := s.sent ++ sent } task = s.answers task ++
      sent.filter fun m => m.message.isAnswer ∧ m.task = some task := by
  unfold answers
  rw [List.filter_append]

/-- Messages that are no answers for a task. -/
theorem answers_append_of_forall {sent : List Sent} {task : ℕ}
    (h : ∀ m ∈ sent, m.message.isAnswer = true → m.task ≠ some task) :
    answers { s with sent := s.sent ++ sent } task = s.answers task := by
  rw [answers_append, List.filter_eq_nil_iff.2, List.append_nil]
  intro m hm hanswer
  simp only [decide_eq_true_eq] at hanswer
  exact h m hm hanswer.1 hanswer.2

/-- The first answer for a task. -/
theorem length_answers_append {sent : List Sent} {task : ℕ} (h : s.answers task = [])
    (hlength : sent.length ≤ 1) :
    (answers { s with sent := s.sent ++ sent } task).length ≤ 1 := by
  rw [answers_append, h, List.nil_append]
  exact Nat.le_trans (List.length_filter_le _ _) hlength

/-! ## Offers -/

/-- Sending offers changes the open offers alone, and sends nothing but offers. -/
theorem sendOffersFrom_fst (sendThrows : ReadyState → Bool) (offer : ℕ → NewOffer) :
    ∀ (rounds i : ℕ) (s : TaskRunner),
    ∃ openOffers sent, (sendOffersFrom sendThrows offer rounds i s).1 =
        { s with openOffers, sent := s.sent ++ sent } ∧
      (∀ m ∈ sent, m.message.isAnswer = false) ∧ openOffers.size ≤ s.openOffers.size + rounds
  | 0, _, s => ⟨s.openOffers, [], by simp [sendOffersFrom], by simp, Nat.le_refl _⟩
  | rounds + 1, i, s => by
    obtain ⟨sent, hsend, hmem, -, -⟩ := send_fst sendThrows
      { s with openOffers := s.openOffers.set (offer i).offerId (offer i).toTaskOffer }
      (.taskOffer s.taskType (offer i).offerId (offer i).validForInMs) none
    have hoffer : ∀ m ∈ sent, m.message.isAnswer = false := fun m hm => by rw [hmem m hm]; rfl
    have hsize := s.openOffers.size_set_le (offer i).offerId (offer i).toTaskOffer
    simp only [sendOffersFrom]
    split_ifs
    · exact ⟨_, sent, hsend, hoffer, Nat.le_trans hsize (by omega)⟩
    · rw [hsend]
      obtain ⟨openOffers, sent', heq, hmem', hle⟩ :=
        sendOffersFrom_fst sendThrows offer rounds (i + 1) { s with
          openOffers := s.openOffers.set (offer i).offerId (offer i).toTaskOffer
          sent := s.sent ++ sent }
      refine ⟨openOffers, sent ++ sent', ?_, ?_, ?_⟩
      · rw [heq, ← List.append_assoc]
      · intro m hm
        exact (List.mem_append.1 hm).elim (hoffer m) (hmem' m)
      · dsimp only at hle
        omega

theorem sendOffers_fst (sendThrows : ReadyState → Bool) (s : TaskRunner) (draws : Draws) :
    ∃ openOffers sent, (s.sendOffers sendThrows draws).1 =
        { s with openOffers, sent := s.sent ++ sent } ∧
      (∀ m ∈ sent, m.message.isAnswer = false) ∧
      (s.WithinCapacity → openOffers.size + s.runningTasks.size ≤ s.maxConcurrency) := by
  have hstale : (s.deleteStaleOffers draws.now).openOffers.size ≤ s.openOffers.size :=
    Dict.size_filter_le _ _
  unfold sendOffers WithinCapacity
  dsimp only
  split_ifs
  · obtain ⟨openOffers, sent, heq, hmem, hle⟩ := sendOffersFrom_fst sendThrows
      draws.offer _ 0 (s.deleteStaleOffers draws.now)
    refine ⟨openOffers, sent, heq, hmem, fun hcapacity => ?_⟩
    have hmax : (s.deleteStaleOffers draws.now).maxConcurrency = s.maxConcurrency := rfl
    have hrunning : (s.deleteStaleOffers draws.now).runningTasks.size = s.runningTasks.size := rfl
    omega
  · refine ⟨(s.deleteStaleOffers draws.now).openOffers, [], ?_, by simp, fun hcapacity => by omega⟩
    rw [List.append_nil]
    rfl

theorem sendOffersFrom_snd (offer : ℕ → NewOffer) : ∀ (rounds i : ℕ) {s : TaskRunner},
    sendThrows s.readyState = false → (sendOffersFrom sendThrows offer rounds i s).2 = false
  | 0, _, _, _ => rfl
  | rounds + 1, i, s, h => by
    simp only [sendOffersFrom, send, h, RunnerMessage.unserializable]
    exact sendOffersFrom_snd offer rounds (i + 1) h

theorem sendOffers_snd (h : sendThrows s.readyState = false) (draws : Draws) :
    (s.sendOffers sendThrows draws).2 = false := by
  unfold sendOffers
  dsimp only
  split_ifs
  · exact sendOffersFrom_snd _ _ _ h
  · rfl

/-! ## Finished tasks -/

section Finish

variable (task : ℕ) (taskId : String) (draws : Draws)

theorem finishTask_fst (sendThrows : ReadyState → Bool) (s : TaskRunner) (task : ℕ)
    (taskId : String) (draws : Draws) :
    ∃ openOffers sent, (s.finishTask sendThrows task taskId draws).1 =
        { s.cleanup task with
          runningTasks := s.runningTasks.erase taskId
          openOffers
          sent := s.sent ++ sent } ∧
      (∀ m ∈ sent, m.message.isAnswer = false) ∧
      (s.WithinCapacity →
        openOffers.size + (s.runningTasks.erase taskId).size ≤ s.maxConcurrency) := by
  obtain ⟨openOffers, sent, heq, hmem, hcapacity⟩ := sendOffers_fst sendThrows
    { s.cleanup task with runningTasks := s.runningTasks.erase taskId } draws
  refine ⟨openOffers, sent, heq, hmem, fun hwithin => hcapacity ?_⟩
  have herase := s.runningTasks.size_erase_le taskId
  unfold WithinCapacity at hwithin ⊢
  dsimp only [TaskRunner.cleanup]
  omega

@[simp] theorem finishTask_tasks :
    (s.finishTask sendThrows task taskId draws).1.tasks = (s.cleanup task).tasks := by
  obtain ⟨_, _, heq, -⟩ := finishTask_fst sendThrows s task taskId draws
  rw [heq]

@[simp] theorem finishTask_runningTasks :
    (s.finishTask sendThrows task taskId draws).1.runningTasks = s.runningTasks.erase taskId := by
  obtain ⟨_, _, heq, -⟩ := finishTask_fst sendThrows s task taskId draws
  rw [heq]

@[simp] theorem finishTask_readyState :
    (s.finishTask sendThrows task taskId draws).1.readyState = s.readyState := by
  obtain ⟨_, _, heq, -⟩ := finishTask_fst sendThrows s task taskId draws
  rw [heq]
  rfl

theorem finishTask_snd (h : sendThrows s.readyState = false) :
    (s.finishTask sendThrows task taskId draws).2 = false := sendOffers_snd (by exact h) draws

@[simp] theorem finishTask_answers (i : ℕ) :
    (s.finishTask sendThrows task taskId draws).1.answers i = s.answers i := by
  obtain ⟨_, sent, heq, hmem, -⟩ :=
    finishTask_fst sendThrows s task taskId draws
  rw [heq]
  exact answers_append_of_forall (s := s) fun m hm hanswer => by
    rw [hmem m hm] at hanswer
    cases hanswer

theorem WithinCapacity.finishTask (h : s.WithinCapacity) :
    (s.finishTask sendThrows task taskId draws).1.WithinCapacity := by
  obtain ⟨_, _, heq, -, hcapacity⟩ :=
    finishTask_fst sendThrows s task taskId draws
  rw [heq]
  exact hcapacity h

end Finish

/-! ## The invariant -/

/-- The task is one of `runningTasks`. -/
def IsRunning (s : TaskRunner) (task : ℕ) : Prop :=
  ∃ taskId, s.runningTasks.get? taskId = some task

/-- How a task stands, with the answers sent for it and whether it is one of `runningTasks`. -/
structure Task.Ok (t : Task) (answers : List Sent) (running : Prop) : Prop where
  once : answers.length ≤ 1
  cancelled : t.cancelled = true → answers = []
  waiting : t.execution = .notStarted ↔ t.state.status = .waitingForSettings
  unanswered : (t.execution = .notStarted ∧ running) ∨ t.execution = .underWay ∨
    t.execution = .succeeded true ∨ t.execution = .caught → answers = []
  aborted : t.cancelled = true →
    (t.execution = .notStarted ∧ ¬ running) ∨ t.state.status = .abortingCancelled
  gone : t.execution = .caught ∨ t.execution = .settled → ¬ running

theorem Task.Ok.mono {t : Task} {answers : List Sent} {p q : Prop} (h : t.Ok answers p)
    (hqp : q → p) : t.Ok answers q where
  once := h.once
  cancelled := h.cancelled
  waiting := h.waiting
  unanswered := fun hstage => h.unanswered (hstage.imp_left fun ⟨hnot, hq⟩ => ⟨hnot, hqp hq⟩)
  aborted := fun hc => (h.aborted hc).imp_left fun ⟨hnot, hp⟩ => ⟨hnot, fun hq => hp (hqp hq)⟩
  gone := fun hstage hq => h.gone hstage (hqp hq)

/-- What holds while a handler works on a task, of all others. -/
structure TrackedBut (s : TaskRunner) (task : ℕ) : Prop where
  capacity : s.WithinCapacity
  opened : s.readyState = .connecting → s.tasks = []
  known : ∀ taskId i, s.runningTasks.get? taskId = some i →
    ∃ t, s.tasks[i]? = some t ∧ t.state.taskId = taskId
  later : ∀ i, s.tasks[i]? = none → s.answers i = []
  ok : ∀ i t, i ≠ task → s.tasks[i]? = some t → t.Ok (s.answers i) (s.IsRunning i)

def Tracked (s : TaskRunner) : Prop := ∀ task, s.TrackedBut task

theorem Tracked.ok (h : s.Tracked) {task : ℕ} {t : Task} (ht : s.tasks[task]? = some t) :
    t.Ok (s.answers task) (s.IsRunning task) :=
  (h (task + 1)).ok task t (Nat.succ_ne_self task).symm ht

theorem TrackedBut.tracked {task : ℕ} {t : Task} (h : s.TrackedBut task)
    (ht : s.tasks[task]? = some t) (hok : t.Ok (s.answers task) (s.IsRunning task)) :
    s.Tracked := fun _ =>
  { h with
    ok := fun i t' _ ht' => by
      by_cases hi : i = task
      · subst hi
        rw [ht] at ht'
        exact Option.some.inj ht' ▸ hok
      · exact h.ok i t' hi ht' }

section Handler

variable {task : ℕ}

theorem TrackedBut.modify (h : s.TrackedBut task) {f : Task → Task}
    (hf : ∀ t, (f t).state.taskId = t.state.taskId) :
    TrackedBut { s with tasks := s.tasks.modify task f } task where
  capacity := h.capacity
  opened := fun hready => by
    dsimp only
    rw [h.opened hready, List.modify_nil]
  known := fun taskId i hi => by
    obtain ⟨t, ht, hid⟩ := h.known taskId i hi
    refine ⟨if task = i then f t else t, Places.getElem?_modify_eq_some.2 ⟨t, ht, rfl⟩, ?_⟩
    split_ifs
    · exact (hf t).trans hid
    · exact hid
  later := fun i hi => by
    exact h.later i (Places.getElem?_modify_eq_none.1 hi)
  ok := fun i t hne ht => by
    exact h.ok i t hne (by simpa [List.getElem?_modify, Ne.symm hne] using ht)

theorem TrackedBut.setStatus (h : s.TrackedBut task) (status : TaskStatus) :
    (s.setStatus task status).TrackedBut task := h.modify fun _ => rfl

theorem TrackedBut.setExecution (h : s.TrackedBut task) (execution : Execution) :
    (s.setExecution task execution).TrackedBut task := h.modify fun _ => rfl

theorem TrackedBut.markCancelled (h : s.TrackedBut task) :
    (s.markCancelled task).TrackedBut task := h.modify fun _ => rfl

theorem TrackedBut.cleanup (h : s.TrackedBut task) : (s.cleanup task).TrackedBut task :=
  h.modify fun _ => rfl

theorem TrackedBut.append_sent (h : s.TrackedBut task) (ht : s.tasks[task]? ≠ none)
    {sent : List Sent} (hsent : ∀ m ∈ sent, m.task = some task) :
    TrackedBut { s with sent := s.sent ++ sent } task := by
  have hother : ∀ i, i ≠ task → answers { s with sent := s.sent ++ sent } i = s.answers i :=
    fun i hne => answers_append_of_forall fun m hm _ hi => by
      rw [hsent m hm] at hi
      exact hne (Option.some.inj hi).symm
  refine ⟨h.capacity, h.opened, h.known, fun i hi => ?_, fun i t hne hi => ?_⟩
  · rw [hother i fun hsame => ht (hsame ▸ hi)]
    exact h.later i hi
  · rw [hother i hne]
    exact h.ok i t hne hi

theorem TrackedBut.finishTask (h : s.TrackedBut task) (taskId : String) (draws : Draws) :
    (s.finishTask sendThrows task taskId draws).1.TrackedBut task := by
  have hgone : ∀ {id i}, (s.runningTasks.erase taskId).get? id = some i →
      s.runningTasks.get? id = some i := by
    intro id i hi
    rw [Dict.get?_erase] at hi
    split_ifs at hi
    exact hi
  have hmodified := h.cleanup
  refine ⟨h.capacity.finishTask task taskId draws, fun hready => ?_, fun id i hi => ?_,
    fun i hi => ?_, fun i t hne ht => ?_⟩
  · rw [finishTask_readyState] at hready
    rw [finishTask_tasks]
    exact hmodified.opened hready
  · rw [finishTask_runningTasks] at hi
    rw [finishTask_tasks]
    exact hmodified.known id i (hgone hi)
  · rw [finishTask_tasks] at hi
    rw [finishTask_answers]
    exact hmodified.later i hi
  · rw [finishTask_tasks] at ht
    rw [finishTask_answers]
    refine (hmodified.ok i t hne ht).mono ?_
    rintro ⟨id, hid⟩
    rw [finishTask_runningTasks] at hid
    exact ⟨id, hgone hid⟩

/-- A task that is finished is under no id. -/
theorem TrackedBut.not_isRunning_finishTask (sendThrows : ReadyState → Bool)
    (h : s.TrackedBut task) {t : Task}
    (ht : s.tasks[task]? = some t) (draws : Draws) :
    ¬ (s.finishTask sendThrows task t.state.taskId draws).1.IsRunning task := by
  rintro ⟨id, hid⟩
  rw [finishTask_runningTasks, Dict.get?_erase] at hid
  split_ifs at hid with hne
  obtain ⟨t', ht', hid'⟩ := h.known id task hid
  rw [ht] at ht'
  obtain rfl := Option.some.inj ht'
  exact hne hid'.symm

end Handler

/-! ## Messages and timers -/

theorem getTask_eq_some {taskId : String} {task : ℕ} {t : Task}
    (h : s.getTask taskId = some (task, t)) :
    s.runningTasks.get? taskId = some task ∧ s.tasks[task]? = some t := by
  unfold getTask at h
  split at h
  · cases h
  · rename_i i hi
    obtain ⟨t', ht', heq⟩ := Option.map_eq_some_iff.1 h
    obtain ⟨rfl, rfl⟩ := Prod.mk.inj heq
    exact ⟨hi, ht'⟩

theorem Tracked.taskId_eq (h : s.Tracked) {taskId : String} {task : ℕ} {t : Task}
    (hi : s.runningTasks.get? taskId = some task) (ht : s.tasks[task]? = some t) :
    t.state.taskId = taskId := by
  obtain ⟨t', ht', hid⟩ := (h task).known taskId task hi
  rw [ht] at ht'
  exact Option.some.inj ht' ▸ hid

/-- Between two events a running task that has got its settings is being executed. -/
theorem Tracked.underWay (h : s.Tracked) (hidle : s.Idle) {task : ℕ} {t : Task}
    (ht : s.tasks[task]? = some t) (hrunning : s.IsRunning task)
    (hstatus : t.state.status ≠ .waitingForSettings) : t.execution = .underWay := by
  have hok := h.ok ht
  have hawait := hidle t (List.mem_of_getElem? ht)
  cases hexecution : t.execution with
  | notStarted => exact absurd (hok.waiting.1 hexecution) hstatus
  | underWay => rfl
  | settled => exact absurd hrunning (hok.gone (.inr hexecution))
  | succeeded threw | caught | failed =>
    rw [hexecution] at hawait
    cases hawait

theorem Tracked.taskCancelled (h : s.Tracked) (hidle : s.Idle) (taskId : String) (draws : Draws) :
    (s.taskCancelled sendThrows taskId draws).Tracked := by
  unfold TaskRunner.taskCancelled
  cases hget : s.getTask taskId with
  | none => exact h
  | some p =>
    obtain ⟨task, t⟩ := p
    obtain ⟨hi, ht⟩ := getTask_eq_some hget
    obtain rfl := h.taskId_eq hi ht
    have hok := h.ok ht
    have hrunning : s.IsRunning task := ⟨_, hi⟩
    have hmarked := (h task).markCancelled
    have htask : (s.markCancelled task).tasks[task]? = some { t with cancelled := true } :=
      Places.getElem?_modify_self ht _
    dsimp only
    split
    · -- it is finished before it has started
      rename_i hwaiting
      have hstage := hok.waiting.2 hwaiting
      have hnone := hok.unanswered (.inl ⟨hstage, hrunning⟩)
      have hgone := hmarked.not_isRunning_finishTask sendThrows htask draws
      refine (hmarked.finishTask _ draws).tracked
        (by rw [finishTask_tasks]; exact Places.getElem?_modify_self htask _) ?_
      rw [finishTask_answers]
      exact
        { once := hok.once
          cancelled := fun _ => hnone
          waiting := hok.waiting
          unanswered := fun _ => hnone
          aborted := fun _ => .inl ⟨hstage, hgone⟩
          gone := fun _ => hgone }
    · rename_i hstatus
      have hunder := h.underWay hidle ht hrunning (by rw [hstatus]; exact fun hc => by cases hc)
      have hnone := hok.unanswered (.inr (.inl hunder))
      refine (hmarked.setStatus _).tracked (Places.getElem?_modify_self htask _) ?_
      exact
        { once := hok.once
          cancelled := fun _ => hnone
          waiting := by simp [hunder]
          unanswered := fun _ => hnone
          aborted := fun _ => .inr rfl
          gone := hok.gone }
    · exact h
    · exact h

/-- Of a timer that has fired nothing else changes. -/
theorem Tracked.cleanup (h : s.Tracked) {task : ℕ} {t : Task} (ht : s.tasks[task]? = some t) :
    (s.cleanup task).Tracked :=
  (h task).cleanup.tracked (Places.getElem?_modify_self ht _) { h.ok ht with }

theorem Tracked.taskTimedOut (h : s.Tracked) (hidle : s.Idle) (taskId : String) (draws : Draws) :
    (s.taskTimedOut sendThrows taskId draws).Tracked := by
  unfold TaskRunner.taskTimedOut
  cases hget : s.getTask taskId with
  | none => exact h
  | some p =>
    obtain ⟨task, t⟩ := p
    obtain ⟨hi, ht⟩ := getTask_eq_some hget
    obtain rfl := h.taskId_eq hi ht
    have hok := h.ok ht
    have hrunning : s.IsRunning task := ⟨_, hi⟩
    have hlive : t.cancelled = true → t.state.status = .abortingCancelled := fun hc =>
      (hok.aborted hc).resolve_left fun ⟨_, hnot⟩ => hnot hrunning
    dsimp only
    split
    · rename_i hwaiting
      have hstage := hok.waiting.2 hwaiting
      have hnone := hok.unanswered (.inl ⟨hstage, hrunning⟩)
      obtain ⟨sent, heq, hmem, hlength, -⟩ := send_fst sendThrows s
        (.taskError t.state.taskId (.timeoutError s.taskTimeout)) (some task)
      rw [heq]
      have hsent := (h task).append_sent (by simp [ht]) fun m hm => by rw [hmem m hm]
      have htask : ({ s with sent := s.sent ++ sent } : TaskRunner).tasks[task]? = some t := ht
      have hgone := hsent.not_isRunning_finishTask sendThrows htask draws
      refine (hsent.finishTask _ draws).tracked
        (by rw [finishTask_tasks]; exact Places.getElem?_modify_self htask _) ?_
      rw [finishTask_answers]
      exact
        { once := length_answers_append hnone hlength
          cancelled := fun hc => by rw [hlive hc] at hwaiting; cases hwaiting
          waiting := hok.waiting
          unanswered := fun hstage' => by
            rcases hstage' with ⟨-, hrunning⟩ | hstage' | hstage' | hstage'
            · exact absurd hrunning hgone
            all_goals
              have hstarted : t.execution = _ := hstage'
              rw [hstage] at hstarted
              cases hstarted
          aborted := fun _ => .inl ⟨hstage, hgone⟩
          gone := fun _ => hgone }
    · rename_i hstatus
      have hunder := h.underWay hidle ht hrunning (by rw [hstatus]; exact fun hc => by cases hc)
      refine ((h task).setStatus _).tracked (Places.getElem?_modify_self ht _) ?_
      exact
        { once := hok.once
          cancelled := hok.cancelled
          waiting := by simp [hunder]
          unanswered := hok.unanswered
          aborted := fun hc => by rw [hlive hc] at hstatus; cases hstatus
          gone := hok.gone }
    · exact h
    · exact h

theorem Tracked.receivedSettings (h : s.Tracked) (taskId : String) :
    (s.receivedSettings taskId).Tracked := by
  unfold TaskRunner.receivedSettings
  cases hget : s.getTask taskId with
  | none => exact h
  | some p =>
    obtain ⟨task, t⟩ := p
    obtain ⟨hi, ht⟩ := getTask_eq_some hget
    have hok := h.ok ht
    have hrunning : s.IsRunning task := ⟨_, hi⟩
    dsimp only
    split
    · rename_i hwaiting
      have hstage := hok.waiting.2 hwaiting
      have hnone := hok.unanswered (.inl ⟨hstage, hrunning⟩)
      refine (((h task).setStatus _).setExecution _).tracked
        (Places.getElem?_modify_self (Places.getElem?_modify_self ht _) _) ?_
      exact
        { once := hok.once
          cancelled := fun _ => hnone
          waiting := by simp
          unanswered := fun _ => hnone
          aborted := fun hc => by
            rcases hok.aborted hc with ⟨-, hnot⟩ | hstatus
            · exact absurd hrunning hnot
            · rw [hstatus] at hwaiting
              cases hwaiting
          gone := fun hstage' => by simp at hstage' }
    · exact h
    · exact h
    · exact h

/-- Messages that are no answers, beside a change of the open offers. -/
theorem Tracked.append_sent (h : s.Tracked) {openOffers : Dict String TaskOffer}
    {sent : List Sent} (hsent : ∀ m ∈ sent, m.message.isAnswer = false)
    (hcapacity : openOffers.size + s.runningTasks.size ≤ s.maxConcurrency) :
    Tracked { s with openOffers, sent := s.sent ++ sent } := by
  have hanswers : ∀ i, answers { s with openOffers, sent := s.sent ++ sent } i = s.answers i :=
    fun i => answers_append_of_forall (s := s) fun m hm hanswer => by
      rw [hsent m hm] at hanswer
      cases hanswer
  refine fun task => ⟨hcapacity, (h task).opened, (h task).known, fun i hi => ?_,
    fun i t _ ht => ?_⟩
  · rw [hanswers]
    exact (h task).later i hi
  · rw [hanswers]
    exact h.ok ht

theorem Tracked.sendOffers (h : s.Tracked) (draws : Draws) :
    (s.sendOffers sendThrows draws).1.Tracked := by
  obtain ⟨openOffers, sent, heq, hmem, hcapacity⟩ :=
    sendOffers_fst sendThrows s draws
  rw [heq]
  exact h.append_sent hmem (hcapacity (h 0).capacity)

theorem Tracked.send (h : s.Tracked) {message : RunnerMessage}
    (hanswer : message.isAnswer = false) :
    (s.send sendThrows message).1.Tracked := by
  obtain ⟨sent, heq, hmem, -⟩ := send_fst sendThrows s message none
  rw [heq]
  exact h.append_sent (fun m hm => by rw [hmem m hm]; exact hanswer) (h 0).capacity

/-- The task that takes the place of an open offer. -/
theorem Tracked.accept (h : s.Tracked) (hready : s.readyState ≠ .connecting) {offerId : String}
    {offer : TaskOffer} (hoffer : s.openOffers.get? offerId = some offer) (taskId : String) :
    Tracked { s with
      openOffers := s.openOffers.erase offerId
      runningTasks := s.runningTasks.set taskId s.tasks.length
      tasks := s.tasks ++ [{ state := { taskId } }] } := by
  have hnone : ∀ i, s.tasks.length ≤ i → s.answers i = [] := fun i hi =>
    (h 0).later i (List.getElem?_eq_none hi)
  refine fun task => ⟨?_, fun hc => absurd hc hready, fun id i hi => ?_, fun i hi => hnone i ?_,
    fun i t _ ht => ?_⟩
  · have hcapacity := (h 0).capacity
    have herase := Dict.size_erase hoffer
    have hset := s.runningTasks.size_set_le taskId s.tasks.length
    unfold WithinCapacity at hcapacity ⊢
    dsimp only
    omega
  · dsimp only at hi
    rw [Dict.get?_set] at hi
    split_ifs at hi with hid
    · obtain rfl := Option.some.inj hi
      exact ⟨_, List.getElem?_concat_length, hid.symm⟩
    · obtain ⟨t, ht, hid⟩ := (h 0).known id i hi
      exact ⟨t, Places.getElem?_concat_of_some ht _, hid⟩
  · have hlength := List.getElem?_eq_none_iff.1 hi
    rw [List.length_append] at hlength
    omega
  · rcases Places.getElem?_concat_eq_some.1 ht with ht | ⟨rfl, rfl⟩
    · -- the older tasks are running as before, the one of the same id excepted
      refine (h.ok ht).mono ?_
      rintro ⟨id, hid⟩
      refine ⟨id, ?_⟩
      dsimp only at hid
      rw [Dict.get?_set] at hid
      split_ifs at hid
      · obtain rfl := Option.some.inj hid
        rw [List.getElem?_eq_none (Nat.le_refl _)] at ht
        cases ht
      · exact hid
    · have hempty := hnone _ (Nat.le_refl _)
      exact
        { once := by
            show (s.answers s.tasks.length).length ≤ 1
            rw [hempty]
            exact Nat.zero_le 1
          cancelled := fun hc => by cases hc
          waiting := by simp
          unanswered := fun _ => hempty
          aborted := fun hc => by cases hc
          gone := fun hstage => by simp at hstage }

theorem Tracked.offerAccepted (h : s.Tracked) (hready : s.readyState ≠ .connecting)
    (offerId taskId : String) : (s.offerAccepted sendThrows offerId taskId).Tracked := by
  unfold TaskRunner.offerAccepted
  split_ifs
  · cases hoffer : s.openOffers.get? offerId with
    | none => exact h.send rfl
    | some offer => exact (h.accept hready hoffer taskId).send rfl
  · have herase : Tracked { s with openOffers := s.openOffers.erase offerId } := by
      have hcapacity := (h 0).capacity
      have hsize := s.openOffers.size_erase_le offerId
      refine fun task => { h task with capacity := ?_ }
      unfold WithinCapacity at hcapacity ⊢
      dsimp only
      omega
    exact herase.send rfl

/-! ## Executions -/

/-- A cancelled task is not answered. -/
theorem sendAnswer_fst (sendThrows : ReadyState → Bool) (s : TaskRunner) (task : ℕ)
    (status : TaskStatus) (message : RunnerMessage) :
    ∃ sent, (s.sendAnswer sendThrows task status message).1 = { s with sent := s.sent ++ sent } ∧
      (∀ m ∈ sent, m.task = some task) ∧ sent.length ≤ 1 ∧
      (status = .abortingCancelled ∨ (s.sendAnswer sendThrows task status message).2 = true →
        sent = []) := by
  obtain ⟨sent, heq, hmem, hlength, hnone⟩ :=
    send_fst sendThrows s message (some task)
  have hsend : ∀ m ∈ sent, m.task = some task := fun m hm => by rw [hmem m hm]
  cases status with
  | waitingForSettings => exact ⟨[], by simp [sendAnswer], by simp, by simp, fun _ => rfl⟩
  | abortingCancelled => exact ⟨[], by simp [sendAnswer], by simp, by simp, fun _ => rfl⟩
  | running => exact ⟨sent, heq, hsend, hlength, fun h => hnone (h.resolve_left (by simp))⟩
  | abortingTimeout => exact ⟨sent, heq, hsend, hlength, fun h => hnone (h.resolve_left (by simp))⟩

section Settle

variable {task : ℕ} {t : Task}

/-- The handler that answers is the first to do so. -/
theorem Tracked.answered (h : s.Tracked) (ht : s.tasks[task]? = some t)
    (hstage : t.execution = .underWay ∨ t.execution = .caught) {sent : List Sent}
    (hmem : ∀ m ∈ sent, m.task = some task) (hlength : sent.length ≤ 1)
    (hcancelled : t.state.status = .abortingCancelled → sent = []) {execution : Execution}
    (hnext : execution = .failed ∨
      ∃ threw, execution = .succeeded threw ∧ (threw = true → sent = [])) :
    (setExecution { s with sent := s.sent ++ sent } task execution).Tracked := by
  have hok := h.ok ht
  have hempty : s.answers task = [] :=
    hok.unanswered (.inr (hstage.imp_right .inr))
  have hstarted : t.execution ≠ .notStarted := by
    rintro hnot
    rcases hstage with hstage | hstage <;> rw [hstage] at hnot <;> cases hnot
  have habort : t.cancelled = true → t.state.status = .abortingCancelled := fun hc =>
    (hok.aborted hc).resolve_left fun ⟨hnot, _⟩ => hstarted hnot
  have hnone : sent = [] → answers { s with sent := s.sent ++ sent } task = [] := by
    rintro rfl
    rw [List.append_nil]
    exact hempty
  refine (((h task).append_sent (by simp [ht]) hmem).setExecution _).tracked
    (Places.getElem?_modify_self ht _) ?_
  exact
    { once := length_answers_append hempty hlength
      cancelled := fun hc => hnone (hcancelled (habort hc))
      waiting := by
        refine iff_of_false ?_ fun hwaiting => hstarted (hok.waiting.2 hwaiting)
        rcases hnext with rfl | ⟨threw, rfl, -⟩ <;> exact fun hc => by cases hc
      unanswered := fun hstage' => hnone <| by
        rcases hnext with rfl | ⟨threw, rfl, hthrew⟩
        · simp at hstage'
        · exact hthrew (by simpa using hstage')
      aborted := fun hc => .inr (habort hc)
      gone := by rcases hnext with rfl | ⟨threw, rfl, -⟩ <;> simp }

theorem Tracked.taskExecutionSucceeded (h : s.Tracked) (ht : s.tasks[task]? = some t)
    (hunder : t.execution = .underWay) (data : Payload) :
    (s.taskExecutionSucceeded sendThrows task t.state data).Tracked := by
  obtain ⟨sent, heq, hmem, hlength, hnone⟩ := sendAnswer_fst sendThrows s
    task t.state.status (.taskDone t.state.taskId data)
  unfold TaskRunner.taskExecutionSucceeded
  dsimp only
  rw [heq]
  exact h.answered ht (.inl hunder) hmem hlength (fun hc => hnone (.inl hc))
    (.inr ⟨_, rfl, fun hthrew => hnone (.inr hthrew)⟩)

theorem Tracked.taskExecutionFailed (h : s.Tracked) (ht : s.tasks[task]? = some t)
    (hstage : t.execution = .underWay ∨ t.execution = .caught) (error : TaskError) :
    (s.taskExecutionFailed sendThrows task t.state error).Tracked := by
  obtain ⟨sent, heq, hmem, hlength, hnone⟩ := sendAnswer_fst sendThrows s
    task t.state.status (.taskError t.state.taskId error)
  unfold TaskRunner.taskExecutionFailed
  rw [heq]
  exact h.answered ht hstage hmem hlength (fun hc => hnone (.inl hc)) (.inl rfl)

theorem Tracked.settle (h : s.Tracked) (task : ℕ) (result : Except Payload Payload) :
    (s.settle sendThrows task result).Tracked := by
  unfold TaskRunner.settle
  split
  · rename_i t cancelled ht
    cases result with
    | ok data => exact h.taskExecutionSucceeded ht rfl data
    | error error => exact h.taskExecutionFailed ht (.inl rfl) _
  · exact h

/-- A task is finished after its answer, and is not answered again unless that one has failed. -/
theorem Tracked.finish (h : s.Tracked) (ht : s.tasks[task]? = some t) (draws : Draws)
    {execution : Execution}
    (hstage : t.execution = .succeeded true ∧ execution = .caught ∨
      (∃ threw, t.execution = .succeeded threw) ∧ execution = .settled ∨
      t.execution = .failed ∧ execution = .settled) :
    ((s.finishTask sendThrows task t.state.taskId draws).1.setExecution task
      execution).Tracked := by
  have hok := h.ok ht
  have hgone := (h task).not_isRunning_finishTask sendThrows ht draws
  have hstarted : t.execution ≠ .notStarted := by
    rintro hnot
    rcases hstage with ⟨hstage, -⟩ | ⟨⟨_, hstage⟩, -⟩ | ⟨hstage, -⟩ <;> rw [hstage] at hnot <;>
      cases hnot
  refine (((h task).finishTask t.state.taskId draws).setExecution execution).tracked
    (Places.getElem?_modify_self (by rw [finishTask_tasks]; exact Places.getElem?_modify_self ht _) _) ?_
  rw [show (setExecution _ task execution).answers task = s.answers task from
    finishTask_answers _ _ _ _]
  exact
    { once := hok.once
      cancelled := hok.cancelled
      waiting := by
        refine iff_of_false ?_ fun hwaiting => hstarted (hok.waiting.2 hwaiting)
        rcases hstage with ⟨-, rfl⟩ | ⟨-, rfl⟩ | ⟨-, rfl⟩ <;> exact fun hc => by cases hc
      unanswered := fun hstage' => by
        rcases hstage with ⟨hstage, -⟩ | ⟨-, rfl⟩ | ⟨-, rfl⟩
        · exact hok.unanswered (.inr (.inr (.inl hstage)))
        · simp at hstage'
        · simp at hstage'
      aborted := fun hc => .inr ((hok.aborted hc).resolve_left fun ⟨hnot, _⟩ => hstarted hnot)
      gone := fun _ => hgone }

end Settle

theorem Tracked.resume
    (hsend : ∀ readyState, readyState ≠ .connecting → sendThrows readyState = false)
    (h : s.Tracked) (task : ℕ) (draws : Draws) : (s.resume sendThrows task draws).Tracked := by
  unfold TaskRunner.resume
  split
  · rename_i t threw cancelled ht
    have hready : s.readyState ≠ .connecting := fun hc => by
      rw [(h task).opened hc] at ht
      cases ht
    dsimp only
    rw [finishTask_snd task t.taskId draws (hsend _ hready)]
    refine h.finish ht draws ?_
    cases threw with
    | true => exact .inl ⟨rfl, rfl⟩
    | false => exact .inr (.inl ⟨⟨_, rfl⟩, rfl⟩)
  · rename_i t cancelled ht
    exact h.taskExecutionFailed ht (.inr rfl) _
  · rename_i t cancelled ht
    exact h.finish ht draws (.inr (.inr ⟨rfl, rfl⟩))
  · exact h

/-! ## Runs -/

theorem Tracked.connection (h : s.Tracked) (readyState : ReadyState) :
    (s.connection readyState).Tracked := by
  unfold TaskRunner.connection
  split
  · rename_i hlt
    have hnext : Tracked { s with readyState } := fun task =>
      { h task with
        opened := fun hc => by
          have hc : readyState = .connecting := hc
          rw [hc] at hlt
          exact absurd hlt (Nat.not_lt_zero _) }
    dsimp only
    split_ifs
    · exact fun task => { hnext task with }
    · exact hnext
  · exact h

theorem idle_cleanup (h : s.Idle) {task : ℕ} : (s.cleanup task).Idle := by
  intro t ht
  obtain ⟨i, hi⟩ := List.mem_iff_getElem?.1 ht
  obtain ⟨t', ht', rfl⟩ := Places.getElem?_modify_eq_some.1 hi
  have hidle := h t' (List.mem_of_getElem? ht')
  split_ifs <;> exact hidle

theorem Tracked.step
    (hsend : ∀ readyState, readyState ≠ .connecting → sendThrows readyState = false)
    (h : s.Tracked) (e : Event) : (s.step sendThrows e).Tracked := by
  cases e with
  | connection readyState =>
    dsimp only [TaskRunner.step]
    split_ifs
    · exact h.connection readyState
    · exact h
  | receive message draws =>
    dsimp only [TaskRunner.step]
    split_ifs with hready
    · obtain ⟨hidle, hready⟩ := hready
      cases message with
      | infoRequest => exact h.send rfl
      | runnerRegistered => exact fun task => { h task with }
      | taskOfferAccept offerId taskId => exact h.offerAccepted hready offerId taskId
      | taskCancel taskId reason => exact h.taskCancelled hidle taskId draws
      | taskSettings taskId settings => exact h.receivedSettings taskId
    · exact h
  | offerInterval draws =>
    dsimp only [TaskRunner.step]
    split_ifs
    · exact h.sendOffers draws
    · exact h
  | timeout task draws =>
    dsimp only [TaskRunner.step, timeout]
    split_ifs with hidle
    · split
      · rename_i ht
        exact (h.cleanup ht).taskTimedOut (idle_cleanup hidle) _ draws
      · exact h
    · exact h
  | stop =>
    dsimp only [TaskRunner.step]
    split_ifs
    · exact fun task => { h task with }
    · exact h
  | settle task result => exact h.settle task result
  | resume task draws => exact h.resume hsend task draws

/-- A runner stays within its capacity, answers each task once at most and one that is cancelled
before its end not at all, and keeps no settled one, whatever the order of the events. -/
theorem sound_along
    (hsend : ∀ readyState, readyState ≠ .connecting → sendThrows readyState = false)
    (taskType name : String) (maxConcurrency taskTimeout : ℕ) (es : List Event) :
    Runs.Along (step sendThrows) Sound { taskType, name, maxConcurrency, taskTimeout } es := by
  have hstart : Tracked { taskType, name, maxConcurrency, taskTimeout } := fun task =>
    { capacity := Nat.zero_le _
      opened := fun _ => rfl
      known := fun taskId i hi => by cases hi
      later := fun _ _ => rfl
      ok := fun i t _ ht => by simp at ht }
  have htracked := Runs.meets_along (C := fun _ _ => True) (fun _ e hs _ => hs.step hsend e) hstart
    (Runs.meets_of_forall (C := fun _ => True) fun _ (_ : _ ∈ es) => trivial)
  exact htracked.mono fun s hs =>
    { capacity := (hs 0).capacity
      answered_once := fun task => by
        cases ht : s.tasks[task]? with
        | none =>
          rw [(hs task).later task ht]
          exact Nat.zero_le 1
        | some t => exact (hs.ok ht).once
      cancelled := fun task t ht => (hs.ok ht).cancelled
      settled := fun task t ht hsettled taskId hi => (hs.ok ht).gone (.inr hsettled) ⟨taskId, hi⟩ }

/-- The offers of these are valid for 5.1 s. -/
def noDelay : Draws where
  now := fun _ => 0
  offer := fun i => ⟨toString i, 0, 0⟩

/-- A task whose result cannot be serialized is answered with an error. -/
theorem unserializable_result_sound : Runs.Along (step fun readyState => readyState = .connecting)
    Sound { maxConcurrency := 2, taskTimeout := 60 }
    [.connection .open, .receive .runnerRegistered noDelay, .offerInterval noDelay,
      .receive (.taskOfferAccept "0" "task") noDelay, .receive (.taskSettings "task" "") noDelay,
      .settle 0 (.ok none), .resume 0 noDelay, .resume 0 noDelay, .resume 0 noDelay] :=
  sound_along (fun _ h => by simpa using h) _ _ 2 60 _

end TaskRunner

end N8n
