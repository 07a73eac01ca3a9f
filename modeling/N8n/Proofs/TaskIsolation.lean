import Mathlib.Tactic
import N8n.TaskBrokerRun

/-!
# A task has one runner and one requester

A task id is given once, to one offer and one request. What the broker keeps about the task agrees
with them, whatever handlers come in between, so that all messages about the task go to the runner
of the offer and the requester of the request.
-/

namespace N8n

namespace TaskBroker

/-- Who the messages about each task are for. -/
structure Parties where
  runner : TaskId → String
  requester : TaskId → String

/-- A message about a task is for a party of it. -/
def Sent.Fits (P : Parties) (nextTaskId : TaskId) : Sent → Prop
  | .toRunner runnerId message =>
    ∀ taskId ∈ message.taskId?, taskId < nextTaskId ∧ runnerId = P.runner taskId
  | .toRequester requesterId message =>
    ∀ taskId ∈ message.taskId?, taskId < nextTaskId ∧ requesterId = P.requester taskId

/-- An acceptance is for the parties of its task, and has sent no settings before its last stage. -/
def Accepts (P : Parties) (s : TaskBroker) (a : Acceptance) : Prop :=
  (a.taskId < s.nextTaskId ∧ a.offer.runnerId = P.runner a.taskId) ∧
    (a.request < s.requests.length ∧
      (s.request a.request).requesterId = P.requester a.taskId) ∧
    (∀ runnerId settings, a.stage = .foundRunner runnerId settings →
      runnerId = P.runner a.taskId) ∧
    (a.stage ≠ .sendingSettings → s.settingsSent a.taskId = 0)

/-- What the broker has and has sent agrees with the parties. -/
structure Agrees (P : Parties) (s : TaskBroker) : Prop where
  acceptances : ∀ a ∈ s.acceptances, s.Accepts P a
  tasks : ∀ task ∈ s.tasks, task.id < s.nextTaskId ∧ task.runnerId = P.runner task.id ∧
    task.requesterId = P.requester task.id
  sent : ∀ m ∈ s.sent, m.Fits P s.nextTaskId
  offered : ∀ taskId < s.nextTaskId,
    ∃ offerId, .toRunner (P.runner taskId) (.taskOfferAccept offerId taskId) ∈ s.sent
  pending : ∀ ref ∈ s.pendingTaskRequests, ref < s.requests.length
  known : ∀ offer ∈ s.pendingTaskOffers, s.knows offer.runnerId = true
  settingsOnce : ∀ taskId, s.settingsSent taskId ≤ 1

variable {P : Parties} {s : TaskBroker}

theorem start_agrees (mode : RunnerMode) (P : Parties) : (start mode).Agrees P where
  acceptances _ ha := by cases ha
  tasks _ ht := by cases ht
  sent _ hm := by cases hm
  offered _ ht := absurd ht (Nat.not_lt_zero _)
  pending _ hr := by cases hr
  known _ ho := by cases ho
  settingsOnce _ := Nat.zero_le _

theorem Agrees.isolated (h : s.Agrees P) : s.Isolated where
  oneRunner runnerId message runnerId' message' hm hm' hsome heq := by
    obtain ⟨taskId, htask⟩ := Option.isSome_iff_exists.1 hsome
    rw [(h.sent _ hm taskId htask).2, (h.sent _ hm' taskId (heq ▸ htask)).2]
  oneRequester requesterId message requesterId' message' hm hm' hsome heq := by
    obtain ⟨taskId, htask⟩ := Option.isSome_iff_exists.1 hsome
    rw [(h.sent _ hm taskId htask).2, (h.sent _ hm' taskId (heq ▸ htask)).2]
  offered runnerId message taskId hm htask := by
    obtain ⟨hlt, hrunner⟩ := h.sent _ hm taskId htask
    exact hrunner ▸ h.offered taskId hlt
  settingsOnce := h.settingsOnce

/-! ## Messages -/

theorem settingsSent_append (s : TaskBroker) (more : List Sent) (taskId : TaskId) :
    ({ s with sent := s.sent ++ more } : TaskBroker).settingsSent taskId =
      s.settingsSent taskId + more.countP (Sent.isSettings taskId) := List.countP_append

/-- Messages other than settings that fit. -/
theorem Agrees.append_sent (h : s.Agrees P) {more : List Sent}
    (hfits : ∀ m ∈ more, m.Fits P s.nextTaskId)
    (hsettings : ∀ m ∈ more, ∀ taskId, m.isSettings taskId = false) :
    ({ s with sent := s.sent ++ more } : TaskBroker).Agrees P := by
  have hcount : ∀ taskId, ({ s with sent := s.sent ++ more } : TaskBroker).settingsSent taskId =
      s.settingsSent taskId := fun taskId => by
    rw [settingsSent_append, List.countP_eq_zero.2 fun m hm => by simp [hsettings m hm taskId],
      Nat.add_zero]
  refine { h with
    acceptances := fun a ha => ?_, sent := fun m hm => ?_, offered := fun taskId hlt => ?_,
    settingsOnce := fun taskId => (hcount taskId).trans_le (h.settingsOnce taskId) }
  · obtain ⟨hgiven, hrequest, hfound, hunsent⟩ := h.acceptances a ha
    exact ⟨hgiven, hrequest, hfound, fun hstage => (hcount _).trans (hunsent hstage)⟩
  · exact (List.mem_append.1 hm).elim (h.sent m) (hfits m)
  · obtain ⟨offerId, hoffer⟩ := h.offered taskId hlt
    exact ⟨offerId, List.mem_append_left _ hoffer⟩

theorem Agrees.messageRunner (h : s.Agrees P) {runnerId : String} {message : ToRunner}
    (hfits : (Sent.toRunner runnerId message).Fits P s.nextTaskId)
    (hsettings : ∀ taskId, (Sent.toRunner runnerId message).isSettings taskId = false) :
    (s.messageRunner runnerId message).Agrees P := by
  refine h.append_sent (fun m hm => ?_) fun m hm => ?_ <;> split_ifs at hm
  · exact List.mem_singleton.1 hm ▸ hfits
  · cases hm
  · exact List.mem_singleton.1 hm ▸ hsettings
  · cases hm

theorem Agrees.messageRequester (h : s.Agrees P) {requesterId : String} {message : ToRequester}
    (hfits : (Sent.toRequester requesterId message).Fits P s.nextTaskId) :
    (s.messageRequester requesterId message).Agrees P := by
  refine h.append_sent (fun m hm => ?_) fun m hm => ?_ <;> split_ifs at hm
  · exact List.mem_singleton.1 hm ▸ hfits
  · cases hm
  · exact List.mem_singleton.1 hm ▸ fun _ => rfl
  · cases hm

/-! ## Tasks and acceptances -/

theorem updateRequest_length (s : TaskBroker) (ref : ℕ) (f : TaskRequest → TaskRequest) :
    (s.updateRequest ref f).requests.length = s.requests.length := List.length_modify _ _ _

theorem Agrees.deleteTask (h : s.Agrees P) (taskId : TaskId) : (s.deleteTask taskId).Agrees P :=
  { h with tasks := fun task ht => h.tasks task (List.mem_of_mem_filter ht) }

theorem Agrees.finish (h : s.Agrees P) (taskId : TaskId) : (s.finish taskId).Agrees P :=
  { h with acceptances := fun a ha => h.acceptances a (List.mem_of_mem_filter ha) }

theorem Agrees.map_acceptances (h : s.Agrees P) {f : Acceptance → Acceptance}
    (hf : ∀ a, s.Accepts P a → s.Accepts P (f a)) :
    ({ s with acceptances := s.acceptances.map f } : TaskBroker).Agrees P := by
  refine { h with acceptances := fun a' ha' => ?_ }
  obtain ⟨a, ha, rfl⟩ := List.mem_map.1 ha'
  exact hf a (h.acceptances a ha)

theorem Agrees.setStage (h : s.Agrees P) {taskId : TaskId} {stage : Stage}
    (hfound : ∀ runnerId settings, stage = .foundRunner runnerId settings →
      runnerId = P.runner taskId)
    (hunsent : stage ≠ .sendingSettings → s.settingsSent taskId = 0) :
    (s.setStage taskId stage).Agrees P := by
  refine h.map_acceptances fun a ha => ?_
  split_ifs with htask
  · exact ⟨ha.1, ha.2.1, htask ▸ hfound, htask ▸ hunsent⟩
  · exact ha

/-- A promise is settled before the settings are sent. -/
theorem Accepts.settled {a : Acceptance} {stage : Stage} (ha : s.Accepts P a)
    (hold : a.stage ≠ .sendingSettings)
    (hnew : ∀ runnerId settings, stage ≠ .foundRunner runnerId settings) :
    s.Accepts P { a with stage } :=
  ⟨ha.1, ha.2.1, fun runnerId settings hstage => absurd hstage (hnew runnerId settings),
    fun _ => ha.2.2.2 hold⟩

theorem Agrees.settleRunner (h : s.Agrees P) (taskId : TaskId) (answer : RunnerAnswer) :
    (s.settleRunner taskId answer).Agrees P := by
  refine h.map_acceptances fun a ha => ?_
  split
  · split
    · rename_i hstage
      exact Accepts.settled ha (by rw [hstage]; nofun) nofun
    · rename_i hstage
      exact Accepts.settled ha (by rw [hstage]; nofun) nofun
    · exact ha
  · exact ha

theorem Agrees.settleRequester (h : s.Agrees P) (taskId : TaskId) (answer : RequesterAnswer) :
    (s.settleRequester taskId answer).Agrees P := by
  refine h.map_acceptances fun a ha => ?_
  split
  · split
    · rename_i hstage
      exact Accepts.settled ha (by rw [hstage]; nofun) nofun
    · rename_i hstage
      exact Accepts.settled ha (by rw [hstage]; nofun) nofun
    · exact ha
  · exact ha

theorem Agrees.updateRequest (h : s.Agrees P) (ref : ℕ) {f : TaskRequest → TaskRequest}
    (hf : ∀ r, (f r).requesterId = r.requesterId) : (s.updateRequest ref f).Agrees P := by
  have hrequester : ∀ ref', ((s.updateRequest ref f).request ref').requesterId =
      (s.request ref').requesterId := by
    intro ref'
    simp only [TaskBroker.request, TaskBroker.updateRequest, List.getD_eq_getElem?_getD,
      List.getElem?_modify]
    cases s.requests[ref']? with
    | none => rfl
    | some r =>
      by_cases href : ref = ref'
      · simp [href, hf]
      · simp [href]
  refine { h with acceptances := fun a ha => ?_, pending := fun ref' href => ?_ }
  · obtain ⟨hgiven, ⟨hlt, hrequest⟩, hstage⟩ := h.acceptances a ha
    exact ⟨hgiven, ⟨by rwa [updateRequest_length], (hrequester _).trans hrequest⟩, hstage⟩
  · rw [updateRequest_length]
    exact h.pending ref' href

theorem Agrees.setTimeout (h : s.Agrees P) (target : TimerTarget) :
    (s.setTimeout target).Agrees P := { h with }

theorem Agrees.clearTimeout (h : s.Agrees P) (timeout : Option Timer) :
    (s.clearTimeout timeout).Agrees P := { h with }

theorem Agrees.callbacks (h : s.Agrees P) (endings : List Ending) (timingOut : List TaskId) :
    ({ s with endings, timingOut } : TaskBroker).Agrees P := { h with }

/-! ## The ends of a task -/

theorem Agrees.of_task? (h : s.Agrees P) {taskId : TaskId} {task : Task}
    (ht : s.task? taskId = some task) : taskId < s.nextTaskId ∧
      task.runnerId = P.runner taskId ∧ task.requesterId = P.requester taskId := by
  have hid : task.id = taskId := by simpa using List.find?_some ht
  exact hid ▸ h.tasks task (List.mem_of_find?_eq_some ht)

theorem fits_toRunner {runnerId : String} {message : ToRunner} {taskId n : TaskId}
    (hmessage : message.taskId? = some taskId) (hlt : taskId < n)
    (hrunner : runnerId = P.runner taskId) : (Sent.toRunner runnerId message).Fits P n := by
  intro taskId' htask
  obtain rfl := Option.some.inj (hmessage.symm.trans htask)
  exact ⟨hlt, hrunner⟩

theorem fits_toRequester {requesterId : String} {message : ToRequester} {taskId n : TaskId}
    (hmessage : message.taskId? = some taskId) (hlt : taskId < n)
    (hrequester : requesterId = P.requester taskId) :
    (Sent.toRequester requesterId message).Fits P n := by
  intro taskId' htask
  obtain rfl := Option.some.inj (hmessage.symm.trans htask)
  exact ⟨hlt, hrequester⟩

theorem Agrees.cancelTask (h : s.Agrees P) (taskId : TaskId) (reason : String) :
    (s.cancelTask taskId reason).Agrees P := by
  unfold TaskBroker.cancelTask
  split
  · exact h
  · rename_i task ht
    obtain ⟨hlt, hrunner, -⟩ := h.of_task? ht
    exact (h.deleteTask taskId).messageRunner (fits_toRunner rfl hlt hrunner) fun _ => rfl

theorem Agrees.failTask (h : s.Agrees P) (taskId : TaskId) (error : TaskError) :
    (s.failTask taskId error).Agrees P := by
  unfold TaskBroker.failTask
  split
  · exact h
  · rename_i task ht
    obtain ⟨hlt, -, hrequester⟩ := h.of_task? ht
    exact (h.deleteTask taskId).messageRequester (fits_toRequester rfl hlt hrequester)

theorem Agrees.getRunnerOrFailTask (h : s.Agrees P) (taskId : TaskId) :
    (s.getRunnerOrFailTask taskId).1.Agrees P ∧
      ∀ runner, (s.getRunnerOrFailTask taskId).2 = some runner → taskId < s.nextTaskId ∧
        (s.getRunnerOrFailTask taskId).1 = s ∧ runner.id = P.runner taskId := by
  unfold TaskBroker.getRunnerOrFailTask
  split
  · exact ⟨h, nofun⟩
  · rename_i task ht
    obtain ⟨hlt, hrunner, -⟩ := h.of_task? ht
    split
    · rename_i runner hfind
      refine ⟨h, fun runner' heq => ⟨hlt, rfl, ?_⟩⟩
      obtain rfl := Option.some.inj heq
      rw [← hrunner]
      simpa using List.find?_some hfind
    · exact ⟨h.failTask taskId _, nofun⟩

theorem Agrees.endTask (h : s.Agrees P) {taskId : TaskId} {message : ToRequester}
    (hmessage : message.taskId? = some taskId) (reply : Callback) :
    (s.endTask taskId message reply).Agrees P := by
  unfold TaskBroker.endTask
  split
  · exact h
  · rename_i task ht
    obtain ⟨hlt, -, hrequester⟩ := h.of_task? ht
    have hsent := (h.clearTimeout task.timeout).messageRequester
      (fits_toRequester hmessage hlt hrequester)
    cases reply with
    | returned => exact hsent.deleteTask task.id
    | suspended => exact hsent.callbacks _ _
    | threw => exact hsent

theorem Agrees.handleTaskTimeout (h : s.Agrees P) (taskId : TaskId)
    (runnerReply reply : Callback) : (s.handleTaskTimeout taskId runnerReply reply).Agrees P := by
  unfold TaskBroker.handleTaskTimeout
  split
  · exact h
  · rename_i task ht
    obtain ⟨hlt, hrunner, -⟩ := h.of_task? ht
    split
    · exact h.endTask rfl reply
    · have hsent : (s.messageRunner task.runnerId
          (.taskCancel taskId "Task execution timed out")).Agrees P :=
        h.messageRunner (fits_toRunner rfl hlt hrunner) fun _ => rfl
      cases runnerReply with
      | returned => exact hsent.endTask rfl reply
      | suspended => exact hsent.callbacks _ _
      | threw => exact hsent

/-! ## Requests and offers -/

theorem Agrees.takeRequest (h : s.Agrees P) (p : ℕ → Bool) :
    ({ s with pendingTaskRequests := s.pendingTaskRequests.eraseP p } : TaskBroker).Agrees P :=
  { h with pending := fun ref href => h.pending ref (List.mem_of_mem_eraseP href) }

/-- Fewer offers. -/
theorem Agrees.takeOffers (h : s.Agrees P) {offers : List TaskOffer}
    (hoffers : offers ⊆ s.pendingTaskOffers) :
    ({ s with pendingTaskOffers := offers } : TaskBroker).Agrees P :=
  { h with known := fun offer hoffer => h.known offer (hoffers hoffer) }

theorem Agrees.handleRequestTimeout (h : s.Agrees P) (requestId : String) :
    (s.handleRequestTimeout requestId).Agrees P := by
  unfold TaskBroker.handleRequestTimeout
  split
  · exact h
  · exact ((h.takeRequest _).clearTimeout _).messageRequester nofun

theorem Agrees.expireTasks (h : s.Agrees P) (now : ℤ) : (s.expireTasks now).Agrees P :=
  h.takeOffers fun _ => List.mem_of_mem_filter

/-- The parties of the tasks that there are decide. -/
theorem Agrees.congr (h : s.Agrees P) {P' : Parties} (hsame : ∀ taskId < s.nextTaskId,
    P'.runner taskId = P.runner taskId ∧ P'.requester taskId = P.requester taskId) :
    s.Agrees P' := by
  refine { h with
    acceptances := fun a ha => ?_, tasks := fun task ht => ?_, sent := fun m hm => ?_,
    offered := fun taskId hlt => (hsame taskId hlt).1 ▸ h.offered taskId hlt }
  · obtain ⟨⟨hlt, hrunner⟩, ⟨href, hrequester⟩, hstage⟩ := h.acceptances a ha
    obtain ⟨heq, heq'⟩ := hsame _ hlt
    rw [Accepts, heq, heq']
    exact ⟨⟨hlt, hrunner⟩, ⟨href, hrequester⟩, hstage⟩
  · obtain ⟨hlt, hparties⟩ := h.tasks task ht
    rw [(hsame _ hlt).1, (hsame _ hlt).2]
    exact ⟨hlt, hparties⟩
  · cases m with
    | toRunner runnerId message =>
      intro taskId htask
      obtain ⟨hlt, hrunner⟩ := h.sent _ hm taskId htask
      exact ⟨hlt, hrunner.trans (hsame taskId hlt).1.symm⟩
    | toRequester requesterId message =>
      intro taskId htask
      obtain ⟨hlt, hrequester⟩ := h.sent _ hm taskId htask
      exact ⟨hlt, hrequester.trans (hsame taskId hlt).2.symm⟩

/-- The parties of one more task. -/
def Parties.set (P : Parties) (taskId : TaskId) (runnerId requesterId : String) : Parties where
  runner := Function.update P.runner taskId runnerId
  requester := Function.update P.requester taskId requesterId

theorem Agrees.set (h : s.Agrees P) (runnerId requesterId : String) :
    s.Agrees (P.set s.nextTaskId runnerId requesterId) :=
  h.congr fun _ hlt =>
    ⟨Function.update_of_ne (Nat.ne_of_lt hlt) _ _, Function.update_of_ne (Nat.ne_of_lt hlt) _ _⟩

theorem Sent.Fits.mono {m : Sent} {n n' : TaskId} (h : m.Fits P n) (hle : n ≤ n') :
    m.Fits P n' := by
  cases m with
  | toRunner => exact fun taskId htask => ⟨(h taskId htask).1.trans_le hle, (h taskId htask).2⟩
  | toRequester => exact fun taskId htask => ⟨(h taskId htask).1.trans_le hle, (h taskId htask).2⟩

theorem Agrees.settingsSent_eq_zero (h : s.Agrees P) : s.settingsSent s.nextTaskId = 0 := by
  refine List.countP_eq_zero.2 fun m hm hsettings => ?_
  cases m with
  | toRequester => cases hsettings
  | toRunner runnerId message =>
    cases message with
    | taskSettings taskId settings =>
      have heq : taskId = s.nextTaskId := by simpa [Sent.isSettings] using hsettings
      exact absurd heq (Nat.ne_of_lt (h.sent _ hm taskId rfl).1)
    | _ => cases hsettings

/-- A new task, whose runner is told. -/
theorem Agrees.acceptOffer (h : s.Agrees P) {offer : TaskOffer} {ref : ℕ}
    (hknown : s.knows offer.runnerId = true) (href : ref < s.requests.length)
    (hrunner : offer.runnerId = P.runner s.nextTaskId)
    (hrequester : (s.request ref).requesterId = P.requester s.nextTaskId) :
    (s.acceptOffer offer ref).Agrees P := by
  have hknows : (({ s with nextTaskId := s.nextTaskId + 1,
                           runnerAcceptRejects := s.runnerAcceptRejects ++ [s.nextTaskId] } :
      TaskBroker).setTimeout (.runnerAccept s.nextTaskId)).knows offer.runnerId = true := hknown
  have hsent : (s.acceptOffer offer ref).sent =
      s.sent ++ [.toRunner offer.runnerId (.taskOfferAccept offer.offerId s.nextTaskId)] := by
    simp only [TaskBroker.acceptOffer, TaskBroker.messageRunner, hknows, if_true]
    rfl
  have hcount : ∀ taskId, (s.acceptOffer offer ref).settingsSent taskId = s.settingsSent taskId :=
    fun taskId => by
      unfold settingsSent
      rw [hsent, List.countP_append]
      rfl
  refine ⟨fun a ha => ?_, fun task ht => ?_, fun m hm => ?_, fun taskId hlt => ?_, h.pending,
    h.known, fun taskId => (hcount taskId).trans_le (h.settingsOnce taskId)⟩
  · rcases List.mem_append.1 ha with ha | ha
    · obtain ⟨⟨hlt, hoffer⟩, hrequest, hfound, hunsent⟩ := h.acceptances a ha
      exact ⟨⟨Nat.lt_succ_of_lt hlt, hoffer⟩, hrequest, hfound,
        fun hstage => (hcount _).trans (hunsent hstage)⟩
    · rw [List.mem_singleton.1 ha]
      exact ⟨⟨Nat.lt_succ_self _, hrunner⟩, ⟨href, hrequester⟩, nofun,
        fun _ => (hcount _).trans h.settingsSent_eq_zero⟩
  · exact (h.tasks task ht).imp_left Nat.lt_succ_of_lt
  · rw [hsent] at hm
    rcases List.mem_append.1 hm with hm | hm
    · exact (h.sent m hm).mono (Nat.le_succ _)
    · rw [List.mem_singleton.1 hm]
      exact fits_toRunner rfl (Nat.lt_succ_self _) hrunner
  · rw [hsent]
    rcases Nat.lt_succ_iff_lt_or_eq.1 hlt with hlt | rfl
    · obtain ⟨offerId, hoffer⟩ := h.offered taskId hlt
      exact ⟨offerId, List.mem_append_left _ hoffer⟩
    · rw [← hrunner]
      exact ⟨offer.offerId, List.mem_append_right _ List.mem_cons_self⟩

theorem Agrees.acceptNext (h : s.Agrees P) {offer : TaskOffer} {ref : ℕ}
    (hknown : s.knows offer.runnerId = true) (href : ref < s.requests.length) :
    ∃ P', (s.acceptOffer offer ref).Agrees P' :=
  ⟨_, (h.set offer.runnerId (s.request ref).requesterId).acceptOffer hknown href
    (by simp [Parties.set]) (by simp [Parties.set])⟩

theorem Agrees.settleLoop {refs : List ℕ} : ∀ {s : TaskBroker} {P : Parties}, s.Agrees P →
    (∀ ref ∈ refs, ref < s.requests.length) → ∃ P', (s.settleLoop refs).Agrees P' := by
  induction refs with
  | nil => exact fun h _ => ⟨_, h⟩
  | cons ref refs ih =>
    intro s P h hrefs
    have htail : ∀ ref' ∈ refs, ref' < s.requests.length :=
      fun ref' href => hrefs ref' (List.mem_cons_of_mem _ href)
    rw [TaskBroker.settleLoop]
    split_ifs
    · exact ih h htail
    · split
      · exact ih h htail
      · rename_i offer hoffer
        have hmarked : (s.updateRequest ref fun r =>
            { r with acceptInProgress := true }).Agrees P := h.updateRequest ref fun _ => rfl
        have hlength := updateRequest_length s ref fun r => { r with acceptInProgress := true }
        refine Exists.elim ?_ fun P' hnext =>
          ih (P := P') hnext fun ref' href => hlength ▸ htail ref' href
        exact (hmarked.takeOffers List.eraseP_subset).acceptNext
          (h.known offer (List.mem_of_find?_eq_some hoffer))
          (hlength ▸ hrefs ref List.mem_cons_self)

theorem Agrees.settleTasks (h : s.Agrees P) (now : ℤ) : ∃ P', (s.settleTasks now).Agrees P' :=
  (h.expireTasks now).settleLoop h.pending

theorem Agrees.addRequest (h : s.Agrees P) (request : TaskRequest) :
    ({ s with requests := s.requests ++ [request],
              pendingTaskRequests := s.pendingTaskRequests ++ [s.requests.length] } :
      TaskBroker).Agrees P := by
  have hold : ∀ ref < s.requests.length, ref < (s.requests ++ [request]).length ∧
      (s.requests ++ [request]).getD ref default = s.request ref := fun ref href => by
    constructor
    · rw [List.length_append]
      omega
    · rw [TaskBroker.request, List.getD_eq_getElem?_getD, List.getElem?_append_left href,
        List.getD_eq_getElem?_getD]
  refine { h with acceptances := fun a ha => ?_, pending := fun ref href => ?_ }
  · obtain ⟨hgiven, ⟨hlt, hrequester⟩, hstage⟩ := h.acceptances a ha
    obtain ⟨hlt', heq⟩ := hold a.request hlt
    exact ⟨hgiven, ⟨hlt', (congrArg TaskRequest.requesterId heq).trans hrequester⟩, hstage⟩
  · rcases List.mem_append.1 href with href | href
    · exact (hold ref (h.pending ref href)).1
    · simp [List.mem_singleton.1 href]

theorem Agrees.taskRequested (h : s.Agrees P) (request : TaskRequest) (now : ℤ) :
    ∃ P', (s.taskRequested request now).Agrees P' := (h.addRequest request).settleTasks now

theorem Agrees.addOffer (h : s.Agrees P) {offer : TaskOffer}
    (hknown : s.knows offer.runnerId = true) :
    ({ s with pendingTaskOffers := s.pendingTaskOffers ++ [offer] } : TaskBroker).Agrees P := by
  refine { h with known := fun offer' hoffer => ?_ }
  rcases List.mem_append.1 hoffer with hoffer | hoffer
  · exact h.known offer' hoffer
  · exact List.mem_singleton.1 hoffer ▸ hknown

theorem Agrees.taskOffered (h : s.Agrees P) {offer : TaskOffer}
    (hknown : s.knows offer.runnerId = true) (now : ℤ) :
    ∃ P', (s.taskOffered offer now).Agrees P' := (h.addOffer hknown).settleTasks now

/-! ## The answers an acceptance waits for -/

theorem Agrees.rejects (h : s.Agrees P) (runners requesters : List TaskId) :
    ({ s with runnerAcceptRejects := runners, requesterAcceptRejects := requesters } :
      TaskBroker).Agrees P := { h with }

theorem Agrees.answerRunner (h : s.Agrees P) (taskId : TaskId) (answer : RunnerAnswer) :
    (s.answerRunner taskId answer).Agrees P := by
  unfold TaskBroker.answerRunner
  split_ifs
  · exact (h.settleRunner taskId answer).rejects _ _
  · exact h

theorem Agrees.handleRequesterAccept (h : s.Agrees P) (taskId : TaskId) (settings : Payload) :
    (s.handleRequesterAccept taskId settings).Agrees P := by
  unfold TaskBroker.handleRequesterAccept
  split_ifs
  · exact (h.settleRequester taskId _).rejects _ _
  · exact h

theorem Agrees.deregisterRunner (h : s.Agrees P) (runnerId : String) (error : Payload) :
    (s.deregisterRunner runnerId error).Agrees P := by
  unfold TaskBroker.deregisterRunner
  refine List.foldlRecOn (motive := fun s : TaskBroker => s.Agrees P) _ _ ?_ fun s hs task _ =>
    (hs.failTask task.id _).answerRunner task.id _
  refine { h with known := fun offer hoffer => ?_ }
  obtain ⟨hoffer, hne⟩ := List.mem_filter.1 hoffer
  obtain ⟨runner, hrunner, hid⟩ := List.any_eq_true.1 (h.known offer hoffer)
  refine List.any_eq_true.2 ⟨runner, List.mem_filter.2 ⟨hrunner, ?_⟩, hid⟩
  rw [eq_of_beq hid]
  exact hne

theorem Agrees.registerRunner (h : s.Agrees P) (runner : TaskRunner) :
    (s.registerRunner runner).Agrees P := by
  have hknown : ({ s with knownRunners :=
      s.knownRunners.filter (fun r : TaskRunner => r.id ≠ runner.id) ++ [runner] } :
      TaskBroker).Agrees P := by
    refine { h with known := fun offer hoffer => ?_ }
    obtain ⟨known, hmem, hid⟩ := List.any_eq_true.1 (h.known offer hoffer)
    by_cases heq : known.id = runner.id
    · exact List.any_eq_true.2 ⟨runner, List.mem_append_right _ List.mem_cons_self, heq ▸ hid⟩
    · exact List.any_eq_true.2
        ⟨known, List.mem_append_left _ (List.mem_filter.2 ⟨hmem, by simpa using heq⟩), hid⟩
  exact hknown.messageRunner nofun fun _ => rfl

theorem Agrees.requesterSet (h : s.Agrees P) (requesters : List String) :
    ({ s with requesters } : TaskBroker).Agrees P :=
  { h with }

/-! ## Acceptances after their awaits -/

theorem Agrees.pushRequest (h : s.Agrees P) {ref : ℕ} (href : ref < s.requests.length) :
    ({ s with pendingTaskRequests := s.pendingTaskRequests ++ [ref] } : TaskBroker).Agrees P := by
  refine { h with pending := fun ref' hmem => ?_ }
  rcases List.mem_append.1 hmem with hmem | hmem
  · exact h.pending ref' hmem
  · exact List.mem_singleton.1 hmem ▸ href

/-- A request gets a new timer and is pending again. -/
theorem Agrees.rearm (h : s.Agrees P) {ref : ℕ} (href : ref < s.requests.length)
    (target : TimerTarget) (timer : Timer) :
    ({ (s.setTimeout target).updateRequest ref fun r => { r with timeout := some timer } with
        pendingTaskRequests := s.pendingTaskRequests ++ [ref] } : TaskBroker).Agrees P := by
  have hrequest : ((s.setTimeout target).updateRequest ref fun r =>
      { r with timeout := some timer }).Agrees P :=
    (h.setTimeout target).updateRequest ref fun _ => rfl
  refine hrequest.pushRequest ?_
  rw [updateRequest_length]
  exact href

theorem Agrees.acceptFailed (h : s.Agrees P) {a : Acceptance} (ha : a ∈ s.acceptances)
    (deferred : Bool) : (s.acceptFailed a deferred).Agrees P := by
  have hfree : (s.updateRequest a.request fun r => { r with acceptInProgress := false }).Agrees P :=
    h.updateRequest a.request fun _ => rfl
  cases deferred with
  | false => exact hfree.finish a.taskId
  | true =>
    refine ((hfree.finish a.taskId).clearTimeout _).rearm ?_ _ _
    exact (updateRequest_length s a.request _).symm ▸ (h.acceptances a ha).2.1.1

theorem Agrees.addTask (h : s.Agrees P) (task : Task) (hlt : task.id < s.nextTaskId)
    (hrunner : task.runnerId = P.runner task.id)
    (hrequester : task.requesterId = P.requester task.id) :
    ({ s with tasks := s.tasks.filter (fun t : Task => t.id ≠ task.id) ++ [task] } :
      TaskBroker).Agrees P := by
  refine { h with tasks := fun t ht => ?_ }
  rcases List.mem_append.1 ht with ht | ht
  · exact h.tasks t (List.mem_of_mem_filter ht)
  · rw [List.mem_singleton.1 ht]
    exact ⟨hlt, hrunner, hrequester⟩

theorem settingsSent_messageRequester (s : TaskBroker) (requesterId : String)
    (message : ToRequester) (taskId : TaskId) :
    (s.messageRequester requesterId message).settingsSent taskId = s.settingsSent taskId := by
  refine (settingsSent_append s _ taskId).trans ?_
  split_ifs <;> rfl

theorem Agrees.accepted (h : s.Agrees P) {a : Acceptance} (ha : a ∈ s.acceptances)
    (hstage : a.stage ≠ .sendingSettings) : (s.accepted a).Agrees P := by
  obtain ⟨⟨hlt, hrunner⟩, ⟨-, hrequester⟩, -, hunsent⟩ := h.acceptances a ha
  have htask := (h.clearTimeout (s.request a.request).timeout).addTask
    ⟨a.taskId, a.offer.runnerId, (s.request a.request).requesterId, a.offer.taskType, none⟩
    hlt hrunner hrequester
  unfold TaskBroker.accepted
  dsimp only
  split_ifs
  · refine (((htask.takeRequest _).rejects _ _).setTimeout _ |>.messageRequester
      (fits_toRequester rfl hlt hrequester)).setStage nofun fun _ => ?_
    rw [settingsSent_messageRequester]
    exact hunsent hstage
  · exact htask.finish a.taskId

/-- The first settings of a task whose acceptance has reached its last stage. -/
theorem Agrees.messageSettings (h : s.Agrees P) {taskId : TaskId} {runnerId : String}
    (hlt : taskId < s.nextTaskId) (hrunner : runnerId = P.runner taskId)
    (hnone : s.settingsSent taskId = 0)
    (hlast : ∀ a ∈ s.acceptances, a.taskId = taskId → a.stage = .sendingSettings)
    (settings : Payload) : (s.messageRunner runnerId (.taskSettings taskId settings)).Agrees P := by
  have hcount : ∀ other, (s.messageRunner runnerId (.taskSettings taskId settings)).settingsSent
      other ≤ s.settingsSent other + if taskId = other then 1 else 0 := by
    intro other
    refine (settingsSent_append s _ other).trans_le (Nat.add_le_add_left ?_ _)
    split_ifs with hknows heq heq
    · simp [Sent.isSettings, heq]
    · simp [Sent.isSettings, heq]
    · exact Nat.zero_le _
    · exact Nat.zero_le _
  refine { h with
    acceptances := fun a ha => ?_, sent := fun m hm => ?_, offered := fun other hother => ?_,
    settingsOnce := fun other => ?_ }
  · obtain ⟨hgiven, hrequest, hfound, hunsent⟩ := h.acceptances a ha
    refine ⟨hgiven, hrequest, hfound, fun hstage => ?_⟩
    have hzero := hcount a.taskId
    rw [if_neg fun heq => hstage (hlast a ha heq.symm), hunsent hstage] at hzero
    exact Nat.le_zero.1 hzero
  · rcases List.mem_append.1 hm with hm | hm
    · exact h.sent m hm
    · split_ifs at hm
      · exact List.mem_singleton.1 hm ▸ fits_toRunner rfl hlt hrunner
      · cases hm
  · obtain ⟨offerId, hoffer⟩ := h.offered other hother
    exact ⟨offerId, List.mem_append_left _ hoffer⟩
  · refine (hcount other).trans ?_
    split_ifs with heq
    · rw [← heq, hnone]
    · exact h.settingsOnce other

/-- The settings go to the runner while the acceptance passes to its last stage. -/
theorem Agrees.sendSettings (h : s.Agrees P) {taskId : TaskId} {runnerId : String}
    (hlt : taskId < s.nextTaskId) (hrunner : runnerId = P.runner taskId)
    (hnone : s.settingsSent taskId = 0) (settings : Payload) :
    ((s.messageRunner runnerId (.taskSettings taskId settings)).setStage taskId
      .sendingSettings).Agrees P := by
  have hlast : ∀ a ∈ (s.setStage taskId .sendingSettings).acceptances, a.taskId = taskId →
      a.stage = .sendingSettings := by
    intro a' ha'
    obtain ⟨a, -, rfl⟩ := List.mem_map.1 ha'
    split_ifs with htask
    · exact fun _ => rfl
    · exact fun heq => absurd heq htask
  have hstage : (s.setStage taskId .sendingSettings).Agrees P :=
    h.setStage nofun fun hne => absurd rfl hne
  exact hstage.messageSettings hlt hrunner hnone hlast settings

theorem Agrees.sendTaskSettings (h : s.Agrees P) {taskId : TaskId} {settings : Payload}
    (hnone : s.settingsSent taskId = 0) : (s.sendTaskSettings taskId settings).Agrees P := by
  unfold TaskBroker.sendTaskSettings
  obtain ⟨hagrees, hfound⟩ := h.getRunnerOrFailTask taskId
  rcases heq : s.getRunnerOrFailTask taskId with ⟨s', _ | runner⟩
  · rw [heq] at hagrees
    exact hagrees.finish taskId
  · obtain ⟨-, hsame, hrunner⟩ := hfound runner (by rw [heq])
    rw [heq] at hsame
    obtain rfl : s' = s := hsame
    refine h.setStage (fun runnerId settings' hstage => ?_) fun _ => hnone
    obtain ⟨rfl, -⟩ := Stage.foundRunner.inj hstage
    exact hrunner

theorem Agrees.armTask (h : s.Agrees P) {a : Acceptance} (ha : a ∈ s.acceptances)
    {runnerId : String} {settings : Payload} (hstage : a.stage = .foundRunner runnerId settings) :
    (s.armTask a.taskId runnerId settings).Agrees P := by
  obtain ⟨⟨hlt, -⟩, -, hfound, hunsent⟩ := h.acceptances a ha
  unfold TaskBroker.armTask
  split
  · exact h.finish a.taskId
  · have hsend : ∀ {tasks : List Task}, (∀ task ∈ tasks, task.id < s.nextTaskId ∧
        task.runnerId = P.runner task.id ∧ task.requesterId = P.requester task.id) →
        ({ s.setTimeout (.task a.taskId) with tasks } : TaskBroker).Agrees P :=
      fun htasks => { h with tasks := htasks }
    refine (hsend fun task' hmem => ?_).sendSettings hlt (hfound runnerId settings hstage)
      (hunsent (by rw [hstage]; nofun)) settings
    obtain ⟨task, ht, rfl⟩ := List.mem_map.1 hmem
    split_ifs <;> exact h.tasks task ht

theorem Agrees.requesterFailed (h : s.Agrees P) (taskId : TaskId) :
    (s.requesterFailed taskId).Agrees P := (h.cancelTask taskId _).finish taskId

theorem Agrees.runnerAnswered (h : s.Agrees P) {a : Acceptance} (ha : a ∈ s.acceptances)
    (hstage : a.stage ≠ .sendingSettings) (answer : RunnerAnswer) :
    (s.runnerAnswered a answer).Agrees P := by
  cases answer with
  | accepted => exact h.accepted ha hstage
  | rejected reason => exact h.acceptFailed ha false
  | timedOut => exact h.acceptFailed ha false
  | deferred => exact h.acceptFailed ha true

theorem Agrees.resume (h : s.Agrees P) {a : Acceptance} (ha : a ∈ s.acceptances) (ok : Bool) :
    (s.resume a ok).Agrees P := by
  have hunsent : a.stage ≠ .sendingSettings → s.settingsSent a.taskId = 0 :=
    (h.acceptances a ha).2.2.2
  unfold TaskBroker.resume
  split
  · rename_i answer hstage
    split_ifs
    · exact h.setStage nofun fun _ => hunsent (by rw [hstage]; nofun)
    · exact h.acceptFailed ha false
  · exact h
  · rename_i answer hstage
    exact h.runnerAnswered ha (by rw [hstage]; nofun) answer
  · rename_i answer hstage
    split_ifs
    · exact h.setStage nofun fun _ => hunsent (by rw [hstage]; nofun)
    · exact h.requesterFailed a.taskId
  · exact h
  · rename_i settings hstage
    exact h.sendTaskSettings (hunsent (by rw [hstage]; nofun))
  · exact h.requesterFailed a.taskId
  · rename_i runnerId settings hstage
    exact h.armTask ha hstage
  · split_ifs
    · exact h.finish a.taskId
    · exact h.requesterFailed a.taskId

theorem Agrees.fireTimer (h : s.Agrees P) (timer : Timer) (runnerReply reply : Callback) :
    (s.fireTimer timer runnerReply reply).Agrees P := by
  have hfired : ({ s with timers := s.timers.erase timer } : TaskBroker).Agrees P :=
    { h with }
  unfold TaskBroker.fireTimer
  cases timer.target with
  | request requestId => exact hfired.handleRequestTimeout requestId
  | runnerAccept taskId =>
    dsimp only
    split
    · rename_i a ha
      split_ifs with hstage
      · exact hfired.runnerAnswered (List.mem_of_find?_eq_some ha) (by rw [hstage]; nofun) .timedOut
      · exact hfired.settleRunner taskId .timedOut
    · exact hfired
  | requesterSettings taskId =>
    dsimp only
    split
    · split_ifs
      · exact hfired.requesterFailed taskId
      · exact hfired.settleRequester taskId .timedOut
    · exact hfired
  | task taskId => exact hfired.handleTaskTimeout taskId runnerReply reply

/-! ## Messages passed on -/

theorem Agrees.passToRequester (h : s.Agrees P) {taskId : TaskId} {message : ToRequester}
    (hmessage : message.taskId? = some taskId) : (s.passToRequester taskId message).Agrees P := by
  unfold TaskBroker.passToRequester
  split
  · exact h
  · rename_i task ht
    obtain ⟨hlt, -, hrequester⟩ := h.of_task? ht
    exact h.messageRequester (fits_toRequester hmessage hlt hrequester)

theorem Agrees.passToRunner (h : s.Agrees P) {taskId : TaskId} {message : ToRunner}
    (hmessage : message.taskId? = some taskId)
    (hsettings : ∀ runnerId other, (Sent.toRunner runnerId message).isSettings other = false) :
    (s.passToRunner taskId message).Agrees P := by
  unfold TaskBroker.passToRunner
  obtain ⟨hagrees, hfound⟩ := h.getRunnerOrFailTask taskId
  rcases heq : s.getRunnerOrFailTask taskId with ⟨s', _ | runner⟩
  · rw [heq] at hagrees
    exact hagrees
  · obtain ⟨hlt, hsame, hrunner⟩ := hfound runner (by rw [heq])
    rw [heq] at hsame
    obtain rfl : s' = s := hsame
    exact h.messageRunner (fits_toRunner hmessage hlt hrunner) (hsettings runner.id)

/-! ## Runs -/

theorem Agrees.onRunnerMessage (h : s.Agrees P) (runnerId : String) (message : RunnerMessage)
    (now : ℤ) (reply : Callback) :
    ∃ P', (s.onRunnerMessage runnerId message now reply).Agrees P' := by
  unfold TaskBroker.onRunnerMessage
  split_ifs with hknows
  · exact ⟨P, h⟩
  · cases message with
    | taskAccepted taskId => exact ⟨P, h.answerRunner taskId _⟩
    | taskRejected taskId reason => exact ⟨P, h.answerRunner taskId _⟩
    | taskDeferred taskId => exact ⟨P, h.answerRunner taskId _⟩
    | taskOffer taskType offerId validFor => exact h.taskOffered (by simpa using hknows) now
    | taskDone taskId data => exact ⟨P, h.endTask rfl reply⟩
    | taskError taskId error => exact ⟨P, h.endTask rfl reply⟩
    | taskDataRequest taskId requestId params => exact ⟨P, h.passToRequester rfl⟩
    | nodeTypesRequest taskId requestId params => exact ⟨P, h.passToRequester rfl⟩
    | rpc taskId callId name params => exact ⟨P, h.passToRequester rfl⟩
    | info => exact ⟨P, h⟩

theorem Agrees.onRequesterMessage (h : s.Agrees P) (requesterId : String)
    (message : RequesterMessage) (now : ℤ) :
    ∃ P', (s.onRequesterMessage requesterId message now).Agrees P' := by
  cases message with
  | taskSettings taskId settings => exact ⟨P, h.handleRequesterAccept taskId settings⟩
  | taskCancel taskId reason => exact ⟨P, h.cancelTask taskId reason⟩
  | taskRequest taskType requestId => exact (h.setTimeout _).taskRequested _ now
  | taskDataResponse taskId requestId data => exact ⟨P, h.passToRunner rfl fun _ _ => rfl⟩
  | nodeTypesResponse taskId requestId nodeTypes => exact ⟨P, h.passToRunner rfl fun _ _ => rfl⟩
  | rpcResponse taskId callId status data => exact ⟨P, h.passToRunner rfl fun _ _ => rfl⟩

theorem Agrees.step (h : s.Agrees P) (e : Event) : ∃ P', (s.step e).Agrees P' := by
  cases e with
  | registerRunner runner => exact ⟨P, h.registerRunner runner⟩
  | deregisterRunner runnerId error => exact ⟨P, h.deregisterRunner runnerId error⟩
  | registerRequester requesterId => exact ⟨P, h.requesterSet _⟩
  | deregisterRequester requesterId => exact ⟨P, h.requesterSet _⟩
  | runnerMessage runnerId message now reply => exact h.onRunnerMessage runnerId message now reply
  | requesterMessage requesterId message now => exact h.onRequesterMessage requesterId message now
  | fire timer runnerReply reply =>
    refine ⟨P, ?_⟩
    dsimp only [TaskBroker.step]
    split_ifs
    · exact h.fireTimer timer runnerReply reply
    · exact h
  | resume taskId ok =>
    refine ⟨P, ?_⟩
    dsimp only [TaskBroker.step]
    split
    · exact h
    · rename_i a ha
      exact h.resume (List.mem_of_find?_eq_some ha) ok
  | endingSettled index ok =>
    refine ⟨P, ?_⟩
    dsimp only [TaskBroker.step]
    split
    · exact h
    · rename_i ending _
      have hsettled := h.callbacks (s.endings.eraseIdx index) s.timingOut
      split_ifs
      · exact hsettled.deleteTask ending.taskId
      · exact hsettled
  | timingOutSettled index ok reply =>
    refine ⟨P, ?_⟩
    dsimp only [TaskBroker.step]
    split
    · exact h
    · have hsettled := h.callbacks s.endings (s.timingOut.eraseIdx index)
      split_ifs
      · exact hsettled.endTask rfl reply
      · exact hsettled

/-- Whatever handlers come in between, all messages about a task are between one runner, whose offer
was accepted for it, and one requester, and its settings are sent no more than once. -/
theorem tasks_isolated (mode : RunnerMode) (es : List Event) :
    Runs.Along step Isolated (start mode) es := by
  have hagrees : Runs.Along step (fun s => ∃ P, s.Agrees P) (start mode) es :=
    Runs.meets_along (fun _ e h _ => h.elim fun _ h => h.step e)
      ⟨_, start_agrees mode ⟨fun _ => "", fun _ => ""⟩⟩
      (Runs.meets_of_forall (C := fun _ => True) fun _ _ => trivial)
  exact hagrees.mono fun _ h => h.elim fun _ h => h.isolated

end TaskBroker

end N8n
