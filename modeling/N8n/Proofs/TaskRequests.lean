import Mathlib.Tactic
import N8n.Library.Tickets
import N8n.TaskBrokerRun

/-!
# A task request is settled at most once

The broker's requests as a book of tickets: every handler leaves the book as it is, issues a
request, or settles one that is pending. The exception is an acceptance the runner defers, which
pushes a request to the pending ones that is still among them, or that has been answered.
-/

namespace N8n

namespace TaskBroker

open Tickets

/-- The broker's requests as tickets. -/
def book (s : TaskBroker) : Book String where
  issued := s.requests.map (·.requestId)
  pending := s.pendingTaskRequests
  answers := s.answers

/-- The message answers a request. -/
def ToRequester.isAnswer : ToRequester → Bool
  | .requestExpired _ _ | .taskReady _ _ => true
  | _ => false

theorem requestId_of_lt {s : TaskBroker} {ref : ℕ} (h : ref < s.requests.length) :
    s.book.issued[ref]? = some (s.request ref).requestId := by
  simp [book, request, h]

/-! ## Handlers that leave the book as it is -/

section Stay

variable (s : TaskBroker)

theorem book_sent (more : List Sent) (h : ∀ m ∈ more, ∀ id, m.answersTo id = false) :
    ({ s with sent := s.sent ++ more } : TaskBroker).book = s.book := by
  have hanswers : ∀ id, more.countP (Sent.answersTo id) = 0 := fun id =>
    List.countP_eq_zero.2 fun m hm => by simp [h m hm id]
  simp [book, answers, List.countP_append, hanswers, funext_iff]

@[simp] theorem book_messageRunner (runnerId : String) (message : ToRunner) :
    (s.messageRunner runnerId message).book = s.book := by
  refine book_sent s _ fun m hm id => ?_
  split_ifs at hm <;> simp only [List.mem_singleton, List.not_mem_nil] at hm
  subst hm
  rfl

theorem book_messageRequester (requesterId : String) {message : ToRequester}
    (h : message.isAnswer = false) :
    (s.messageRequester requesterId message).book = s.book := by
  refine book_sent s _ fun m hm id => ?_
  split_ifs at hm <;> simp only [List.mem_singleton, List.not_mem_nil] at hm
  subst hm
  cases message with
  | requestExpired => cases h
  | taskReady => cases h
  | _ => rfl

@[simp] theorem book_deleteTask (taskId : TaskId) : (s.deleteTask taskId).book = s.book := rfl

@[simp] theorem book_setTimeout (target : TimerTarget) : (s.setTimeout target).book = s.book := rfl

@[simp] theorem book_clearTimeout (timeout : Option Timer) :
    (s.clearTimeout timeout).book = s.book := rfl

@[simp] theorem book_setStage (taskId : TaskId) (stage : Stage) :
    (s.setStage taskId stage).book = s.book := rfl

@[simp] theorem book_finish (taskId : TaskId) : (s.finish taskId).book = s.book := rfl

theorem book_updateRequest (ref : ℕ) {f : TaskRequest → TaskRequest}
    (hf : ∀ r, (f r).requestId = r.requestId) : (s.updateRequest ref f).book = s.book := by
  have hids : (s.requests.modify ref f).map (·.requestId) = s.requests.map (·.requestId) := by
    apply List.ext_getElem?
    intro i
    simp only [List.getElem?_map, List.getElem?_modify]
    cases s.requests[i]? with
    | none => rfl
    | some r =>
      by_cases h : ref = i <;> simp [h, hf]
  simp only [book, updateRequest, hids]
  rfl

@[simp] theorem book_cancelTask (taskId : TaskId) (reason : String) :
    (s.cancelTask taskId reason).book = s.book := by
  unfold cancelTask
  split <;> simp

@[simp] theorem book_failTask (taskId : TaskId) (error : TaskError) :
    (s.failTask taskId error).book = s.book := by
  unfold failTask
  split
  · rfl
  · rw [book_messageRequester _ _ rfl, book_deleteTask]

@[simp] theorem book_getRunnerOrFailTask (taskId : TaskId) :
    (s.getRunnerOrFailTask taskId).1.book = s.book := by
  unfold getRunnerOrFailTask
  split
  · rfl
  · split <;> simp

theorem book_endTask (taskId : TaskId) {message : ToRequester} (h : message.isAnswer = false)
    (reply : Callback) : (s.endTask taskId message reply).book = s.book := by
  unfold endTask
  split
  · rfl
  · cases reply with
    | returned => exact book_messageRequester (s.clearTimeout _) _ h
    | suspended => exact book_messageRequester (s.clearTimeout _) _ h
    | threw => exact book_messageRequester (s.clearTimeout _) _ h

@[simp] theorem book_taskErrorHandler (taskId : TaskId) (error : TaskError) (reply : Callback) :
    (s.taskErrorHandler taskId error reply).book = s.book :=
  book_endTask s taskId rfl reply

@[simp] theorem book_taskDoneHandler (taskId : TaskId) (data : Payload) (reply : Callback) :
    (s.taskDoneHandler taskId data reply).book = s.book :=
  book_endTask s taskId rfl reply

@[simp] theorem book_handleTaskTimeout (taskId : TaskId) (runnerReply reply : Callback) :
    (s.handleTaskTimeout taskId runnerReply reply).book = s.book := by
  unfold handleTaskTimeout
  split
  · rfl
  · split
    · simp
    · cases runnerReply with
      | returned => simp
      | suspended => exact book_messageRunner s _ _
      | threw => simp

@[simp] theorem book_settleRunner (taskId : TaskId) (answer : RunnerAnswer) :
    (s.settleRunner taskId answer).book = s.book := rfl

@[simp] theorem book_settleRequester (taskId : TaskId) (answer : RequesterAnswer) :
    (s.settleRequester taskId answer).book = s.book := rfl

@[simp] theorem book_answerRunner (taskId : TaskId) (answer : RunnerAnswer) :
    (s.answerRunner taskId answer).book = s.book := by
  unfold answerRunner
  split <;> rfl

@[simp] theorem book_handleRequesterAccept (taskId : TaskId) (settings : Payload) :
    (s.handleRequesterAccept taskId settings).book = s.book := by
  unfold handleRequesterAccept
  split <;> rfl

@[simp] theorem book_deregisterRunner (runnerId : String) (error : Payload) :
    (s.deregisterRunner runnerId error).book = s.book := by
  have hfold : ∀ (tasks : List Task) (s : TaskBroker), (tasks.foldl (fun s task =>
      (s.failTask task.id (.disconnected error)).handleRunnerReject task.id
        ("The Task Runner (" ++ runnerId ++ ") has disconnected: " ++ error)) s).book = s.book := by
    intro tasks
    induction tasks with
    | nil => exact fun _ => rfl
    | cons task tasks ih =>
      intro s
      rw [List.foldl_cons, ih, handleRunnerReject, book_answerRunner, book_failTask]
  exact hfold _ _

@[simp] theorem book_acceptOffer (offer : TaskOffer) (ref : ℕ) :
    (s.acceptOffer offer ref).book = s.book := by
  have h := book_messageRunner (({ s with
      nextTaskId := s.nextTaskId + 1,
      runnerAcceptRejects := s.runnerAcceptRejects ++ [s.nextTaskId] } : TaskBroker).setTimeout
        (.runnerAccept s.nextTaskId)) offer.runnerId (.taskOfferAccept offer.offerId s.nextTaskId)
  exact h

@[simp] theorem book_settleLoop : ∀ (refs : List ℕ) (s : TaskBroker),
    (s.settleLoop refs).book = s.book
  | [], _ => rfl
  | ref :: refs, s => by
    unfold settleLoop
    split
    · exact book_settleLoop refs s
    · split
      · exact book_settleLoop refs s
      · rw [book_settleLoop refs, book_acceptOffer]
        exact book_updateRequest s ref fun _ => rfl

@[simp] theorem book_settleTasks (now : ℤ) : (s.settleTasks now).book = s.book := by
  unfold settleTasks
  rw [book_settleLoop]
  rfl

theorem book_acceptFailed (a : Acceptance) : (s.acceptFailed a false).book = s.book := by
  simp only [acceptFailed, Bool.false_eq_true, if_false, book_finish]
  exact book_updateRequest s _ fun _ => rfl

@[simp] theorem book_requesterFailed (taskId : TaskId) :
    (s.requesterFailed taskId).book = s.book := by
  simp [requesterFailed]

@[simp] theorem book_sendTaskSettings (taskId : TaskId) (settings : Payload) :
    (s.sendTaskSettings taskId settings).book = s.book := by
  have h := book_getRunnerOrFailTask s taskId
  unfold sendTaskSettings
  split <;> rename_i heq <;> rw [heq] at h <;> simpa using h

@[simp] theorem book_armTask (taskId : TaskId) (runnerId : String) (settings : Payload) :
    (s.armTask taskId runnerId settings).book = s.book := by
  unfold armTask
  split
  · rfl
  · rw [book_setStage, book_messageRunner]
    rfl

@[simp] theorem book_passToRunner (taskId : TaskId) (message : ToRunner) :
    (s.passToRunner taskId message).book = s.book := by
  have h := book_getRunnerOrFailTask s taskId
  unfold passToRunner
  split <;> rename_i heq <;> rw [heq] at h <;> simpa using h

theorem book_passToRequester (taskId : TaskId) {message : ToRequester}
    (h : message.isAnswer = false) : (s.passToRequester taskId message).book = s.book := by
  unfold passToRequester
  split
  · rfl
  · exact book_messageRequester s _ h

end Stay

/-! ## Handlers that settle or issue a request -/

theorem eraseP_of_find? {p : ℕ → Bool} {l : List ℕ} {n : ℕ} (h : l.find? p = some n) :
    ∃ l₁ l₂, l = l₁ ++ n :: l₂ ∧ l.eraseP p = l₁ ++ l₂ := by
  obtain ⟨hn, l₁, l₂, rfl, hl₁⟩ := List.find?_eq_some_iff_append.1 h
  refine ⟨l₁, l₂, rfl, ?_⟩
  rw [List.eraseP_append_right _ fun x hx => by simpa using hl₁ x hx, List.eraseP_cons_of_pos hn]

theorem book_messageRequester_answer {s : TaskBroker} {requesterId name : String}
    {message : ToRequester} (h : s.requesters.contains requesterId)
    (hm : ∀ id, Sent.answersTo id (.toRequester requesterId message) = (name == id)) :
    (s.messageRequester requesterId message).book =
      { s.book with answers := Function.update s.answers name (s.answers name + 1) } := by
  simp only [book, messageRequester, h, if_true, Book.mk.injEq, true_and]
  funext id
  by_cases hid : id = name
  · subst hid
    simp [answers, List.countP_append, hm]
  · simp [answers, List.countP_append, hm, Function.update_of_ne hid, Ne.symm hid]

/-- A pending request is settled: it leaves the list, and its requester, if registered, is
answered. -/
theorem settle_move {s t : TaskBroker} (hb : s.book.Valid) {l₁ l₂ : List ℕ} {ref : ℕ}
    (h : s.pendingTaskRequests = l₁ ++ ref :: l₂)
    (ht : t.book = { s.book with pending := l₁ ++ l₂ }) (requesterId : String)
    {message : ToRequester} (hm : ∀ id, Sent.answersTo id (.toRequester requesterId message) =
      ((s.request ref).requestId == id)) :
    s.book.Move (t.messageRequester requesterId message).book := by
  have hlt : ref < s.requests.length := by
    have := hb.lt ref (by simp [book, h])
    simpa [book] using this
  by_cases hreq : t.requesters.contains requesterId
  · rw [book_messageRequester_answer hreq hm, show t.answers = s.answers from congrArg (·.answers) ht,
      ht]
    exact .answer h (requestId_of_lt hlt)
  · have : (t.messageRequester requesterId message).book = t.book :=
      book_sent t _ fun m hm id => by
        rw [if_neg hreq] at hm
        cases hm
    rw [this, ht]
    exact .drop h

theorem handleRequestTimeout_move {s : TaskBroker} (hb : s.book.Valid) (requestId : String) :
    s.book.Move (s.handleRequestTimeout requestId).book := by
  unfold handleRequestTimeout
  split
  · exact .stay
  · rename_i ref hfind
    obtain ⟨l₁, l₂, hsplit, herase⟩ := eraseP_of_find? hfind
    refine settle_move hb hsplit ?_ _ fun id => rfl
    simp only [book_clearTimeout]
    rw [← herase]
    rfl

theorem accepted_move {s : TaskBroker} (hb : s.book.Valid) (a : Acceptance) :
    s.book.Move (s.accepted a).book := by
  simp only [accepted]
  split
  · rename_i hany
    obtain ⟨ref, hfind⟩ := Option.isSome_iff_exists.1 (List.find?_isSome.2 (List.any_eq_true.1 hany))
    obtain ⟨l₁, l₂, hsplit, herase⟩ := eraseP_of_find? hfind
    have hmatch := List.find?_some hfind
    have hid : (s.request ref).requestId = (s.request a.request).requestId := beq_iff_eq.1 hmatch
    rw [book_setStage]
    refine settle_move hb hsplit ?_ _ fun id => by rw [hid]; rfl
    rw [book_setTimeout, ← herase]
    rfl
  · rw [book_finish]
    exact .stay

theorem taskRequested_move {s : TaskBroker} {request : TaskRequest} (now : ℤ)
    (h : ∀ r ∈ s.requests, r.requestId ≠ request.requestId) :
    s.book.Move (s.taskRequested request now).book := by
  have hbook : (s.taskRequested request now).book = { s.book with
      issued := s.book.issued ++ [request.requestId]
      pending := s.book.pending ++ [s.book.issued.length] } := by
    unfold taskRequested
    rw [book_settleTasks]
    simp only [book, List.map_append, List.map_cons, List.map_nil, List.length_map]
    rfl
  rw [hbook]
  exact .issue request.requestId (by simpa [book] using h)

theorem runnerAnswered_move {s : TaskBroker} (hb : s.book.Valid) (a : Acceptance)
    {answer : RunnerAnswer} (h : answer ≠ .deferred) :
    s.book.Move (s.runnerAnswered a answer).book := by
  cases answer with
  | accepted => exact accepted_move hb a
  | rejected reason => exact (book_acceptFailed s a).symm ▸ .stay
  | deferred => exact absurd rfl h
  | timedOut => exact (book_acceptFailed s a).symm ▸ .stay

theorem resume_move {s : TaskBroker} (hb : s.book.Valid) {a : Acceptance} (ok : Bool)
    (h : a.stage ≠ .awaitingRunner (some .deferred)) : s.book.Move (s.resume a ok).book := by
  have stay : ∀ {t : TaskBroker}, t.book = s.book → s.book.Move t.book := fun ht => ht ▸ .stay
  unfold resume
  split
  · split
    · exact .stay
    · exact stay (book_acceptFailed s a)
  · exact .stay
  · rename_i answer hstage
    exact runnerAnswered_move hb a fun hdef => h (hdef ▸ hstage)
  · exact stay (by split <;> simp)
  · exact .stay
  · exact stay (by simp)
  · exact stay (by simp)
  · exact stay (by simp)
  · exact stay (by split <;> simp)

theorem fireTimer_move {s : TaskBroker} (hb : s.book.Valid) (timer : Timer)
    (runnerReply reply : Callback) : s.book.Move (s.fireTimer timer runnerReply reply).book := by
  let t : TaskBroker := { s with timers := s.timers.erase timer }
  have ht : t.book = s.book := rfl
  have stay : ∀ {u : TaskBroker}, u.book = t.book → s.book.Move u.book := fun hu => hu ▸ .stay
  simp only [fireTimer]
  split
  · exact handleRequestTimeout_move (s := t) hb _
  · split
    · rename_i a ha
      split
      · exact runnerAnswered_move (s := t) hb a (by simp)
      · exact stay (book_settleRunner t _ _)
    · exact .stay
  · split
    · split
      · exact stay (book_requesterFailed t _)
      · exact stay (book_settleRequester t _ _)
    · exact .stay
  · exact stay (book_handleTaskTimeout t _ _ _)

theorem onRunnerMessage_book (s : TaskBroker) (runnerId : String) (message : RunnerMessage)
    (now : ℤ) (reply : Callback) :
    (s.onRunnerMessage runnerId message now reply).book = s.book := by
  unfold onRunnerMessage
  split
  · rfl
  · cases message with
    | taskAccepted taskId => exact book_answerRunner s taskId _
    | taskRejected taskId reason => exact book_answerRunner s taskId _
    | taskDeferred taskId => exact book_answerRunner s taskId _
    | taskOffer taskType offerId validFor => exact book_settleTasks _ now
    | taskDone taskId data => exact book_taskDoneHandler s taskId data reply
    | taskError taskId error => exact book_taskErrorHandler s taskId _ reply
    | taskDataRequest taskId requestId params => exact book_passToRequester s taskId rfl
    | nodeTypesRequest taskId requestId params => exact book_passToRequester s taskId rfl
    | rpc taskId callId name params => exact book_passToRequester s taskId rfl
    | info => rfl

/-- Every step but the taking up of a deferral is a move of the book. -/
theorem step_move {s : TaskBroker} {e : Event} (hb : s.book.Valid) (hadm : s.Admissible e)
    (hdef : s.TakesNoDeferral e) : s.book.Move (step s e).book := by
  have stay : ∀ {t : TaskBroker}, t.book = s.book → s.book.Move t.book := fun ht => ht ▸ .stay
  cases e with
  | registerRunner runner => exact stay (book_messageRunner _ _ _)
  | deregisterRunner runnerId error => exact stay (book_deregisterRunner s runnerId error)
  | registerRequester requesterId => exact .stay
  | deregisterRequester requesterId => exact .stay
  | runnerMessage runnerId message now reply =>
    exact stay (onRunnerMessage_book s runnerId message now reply)
  | requesterMessage requesterId message now =>
    cases message with
    | taskSettings taskId settings => exact stay (book_handleRequesterAccept s taskId settings)
    | taskCancel taskId reason => exact stay (book_cancelTask s taskId reason)
    | taskRequest taskType requestId =>
      exact taskRequested_move (s := s.setTimeout _) now (hadm requestId rfl)
    | taskDataResponse taskId requestId data => exact stay (book_passToRunner s taskId _)
    | nodeTypesResponse taskId requestId nodeTypes => exact stay (book_passToRunner s taskId _)
    | rpcResponse taskId callId status data => exact stay (book_passToRunner s taskId _)
  | fire timer runnerReply reply =>
    simp only [step]
    split
    · exact fireTimer_move hb timer runnerReply reply
    · exact .stay
  | resume taskId ok =>
    simp only [step]
    split
    · exact .stay
    · rename_i a ha
      exact resume_move hb ok (hdef a ha)
  | endingSettled index ok =>
    simp only [step]
    split
    · exact .stay
    · split <;> exact .stay
  | timingOutSettled index ok reply =>
    simp only [step]
    split
    · exact .stay
    · split
      · exact stay (book_taskErrorHandler _ _ _ _)
      · exact .stay

/-! ## Runs -/

theorem settledOnce_of_valid {s : TaskBroker} (hb : s.book.Valid) : s.SettledOnce := by
  refine fun requestId => ⟨hb.le_one requestId, fun hpos ref href hid => ?_⟩
  have hlt : ref < s.requests.length := by simpa [book] using hb.lt ref href
  exact hb.not_pending hpos ref href (hid ▸ requestId_of_lt hlt)

/-- In a run in which no deferral is taken up, every request is settled at most once. -/
theorem settled_once {mode : RunnerMode} {es : List Event}
    (hadm : Runs.Meets step Admissible (start mode) es)
    (hdef : Runs.Meets step TakesNoDeferral (start mode) es) :
    Runs.Along step SettledOnce (start mode) es := by
  have hvalid : Runs.Along step (fun s => s.book.Valid) (start mode) es :=
    Runs.meets_along (fun s e hb h => hb.move (step_move hb h.1 h.2)) Book.empty_valid
      (hadm.and hdef)
  exact hvalid.mono fun s => settledOnce_of_valid

/-- A runner defers the first acceptance of a request and accepts its second. -/
def deferralRun : List Event :=
  [.registerRunner { id := "runner" }, .registerRequester "requester",
    .requesterMessage "requester" (.taskRequest "javascript" "request") 0,
    .runnerMessage "runner" (.taskOffer "javascript" "offer1" (-1)) 0 .returned,
    .resume 0 true, .runnerMessage "runner" (.taskDeferred 0) 0 .returned, .resume 0 true,
    .runnerMessage "runner" (.taskOffer "javascript" "offer2" (-1)) 0 .returned,
    .resume 1 true, .runnerMessage "runner" (.taskAccepted 1) 0 .returned, .resume 1 true]

/-- After a deferral the request is pending twice: its task is ready and it is still pending. -/
theorem deferral_not_settled_once :
    Runs.Meets step Admissible (start .internal) deferralRun ∧
      ¬ Runs.Along step SettledOnce (start .internal) deferralRun := by
  refine ⟨by decide, fun h => ?_⟩
  exact (h.last "request").2 (by decide) 0 (by decide) (by decide)

/-- A request whose first acceptance the runner rejects, and whose second it accepts. -/
theorem settled_once_rejected : Runs.Along step SettledOnce (start .internal)
    [.registerRunner { id := "runner" }, .registerRequester "requester",
      .requesterMessage "requester" (.taskRequest "javascript" "request") 0,
      .runnerMessage "runner" (.taskOffer "javascript" "offer1" (-1)) 0 .returned,
      .resume 0 true, .runnerMessage "runner" (.taskRejected 0 "busy") 0 .returned, .resume 0 true,
      .runnerMessage "runner" (.taskOffer "javascript" "offer2" (-1)) 0 .returned,
      .resume 1 true, .runnerMessage "runner" (.taskAccepted 1) 0 .returned, .resume 1 true] :=
  settled_once (by decide) (by decide)

end TaskBroker

end N8n
