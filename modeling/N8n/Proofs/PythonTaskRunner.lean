import N8n.Library.Places
import N8n.PythonTaskRunner
import Mathlib.Tactic.SplitIfs

/-!
# Capacity and cancellation of the Python runner

`_send_offers` counts once how many offers to send, and then waits for each of them: where two of
them are under way, each sends all it has counted. A cancellation stops the process of a task, if
there is one that is alive then, and leaves the rest to the exit code.
-/

namespace N8n

namespace PythonTaskRunner

variable {s s' : PythonTaskRunner}

/-! ## What is asked of a run -/

/-- The task whose result or error is sent. -/
def Entry.answers : Entry → Option String
  | .sent (.taskDone taskId _) | .sent (.taskError taskId _ _) => some taskId
  | _ => none

def Entry.done : Entry → Option String
  | .sent (.taskDone taskId _) => some taskId
  | _ => none

/-- The capacity is kept, each task is answered once, and none that is cancelled is done. -/
structure Sound (s : PythonTaskRunner) : Prop where
  running_le : s.runningTasks.size ≤ s.maxConcurrency
  open_le : s.openOffers.size + s.runningTasks.size ≤ s.maxConcurrency
  single : (s.log.filterMap Entry.answers).Nodup
  undone : s.log.Pairwise fun later earlier => ∀ taskId ∈ later.done, earlier ≠ .cancelled taskId

/-- The broker gives each task that it has accepted an id of its own. -/
def NewTask (s : PythonTaskRunner) : Event → Prop
  | .receive (.taskOfferAccept taskId _) _ =>
    .sent (.taskAccepted taskId) ∉ s.log ∧ .cancelled taskId ∉ s.log
  | _ => True

/-- The status of a task that runs. -/
def status (s : PythonTaskRunner) (taskId : String) : Option TaskStatus :=
  (s.runningTasks.get? taskId).map TaskState.status

def Loop.left : Loop → ℕ
  | .sending left => left
  | _ => 0

def Handler.left : Handler → ℕ
  | .offering left => left
  | _ => 0

/-- How many offers are counted and not sent. -/
def unsent (s : PythonTaskRunner) : ℕ := (s.loops.map Loop.left).sum + s.handler.left

/-- The event begins `_send_offers`. -/
def BeginsOffers (s : PythonTaskRunner) : Event → Prop
  | .offersLoop i _ => s.loops[i]? = some .sleeping
  | .receive (.taskCancel taskId _) _ =>
    s.handler = .idle ∧ s.status taskId = some .waitingForSettings
  | _ => False

/-- It fails, unless its process exits with a result. -/
def Execution.Failing (e : Execution) : Prop :=
  match e.stage with
  | .alive _ => e.continueOnFail = false
  | .returned (.error _) => True
  | _ => False

/-- Its result or error has been sent. -/
def Execution.Answered (e : Execution) : Prop :=
  match e.stage with
  | .answered | .ended => True
  | _ => False

def ProcessEnd.givesResult : ProcessEnd → Bool
  | .exits 0 (.result _ _) => true
  | _ => false

/-- A cancellation comes when the process is alive, and ends it: once its task is cancelled, the
process does not exit with a result. -/
def CancelStops (s : PythonTaskRunner) : Event → Prop
  | .receive (.taskCancel taskId _) _ => s.handler = .idle → s.status taskId = some .running →
    ∀ e ∈ s.executions, e.taskId = taskId → e.Failing ∨ e.Answered
  | .endProcess i how => how.givesResult →
    ∀ e ∈ s.executions[i]?, e.isAlive → s.status e.taskId ≠ some .aborting
  | _ => True

/-- Offers are counted when all that were counted before are sent, and a cancellation stops. -/
structure Orderly (s : PythonTaskRunner) (event : Event) : Prop where
  alone : s.BeginsOffers event → s.unsent = 0
  stops : s.CancelStops event

section Decidable

instance decidableNewTask (s : PythonTaskRunner) : ∀ event, Decidable (s.NewTask event)
  | .receive (.taskOfferAccept _ _) _ => inferInstanceAs (Decidable (_ ∧ _))
  | .receive .infoRequest _ | .receive .runnerRegistered _ | .receive (.taskSettings _ _) _
  | .receive (.taskCancel _ _) _ | .receive (.rpcResponse _ _ _) _ | .resumeHandler _
  | .offersLoop _ _ | .executeTask _ _ | .startProcess _ | .endProcess _ _ | .resumeTask _ _ =>
    isTrue trivial

instance decidableBeginsOffers (s : PythonTaskRunner) : ∀ event, Decidable (s.BeginsOffers event)
  | .offersLoop _ _ => inferInstanceAs (Decidable (_ = _))
  | .receive (.taskCancel _ _) _ => inferInstanceAs (Decidable (_ ∧ _))
  | .receive .infoRequest _ | .receive .runnerRegistered _ | .receive (.taskSettings _ _) _
  | .receive (.taskOfferAccept _ _) _ | .receive (.rpcResponse _ _ _) _ | .resumeHandler _
  | .executeTask _ _ | .startProcess _ | .endProcess _ _ | .resumeTask _ _ => isFalse id

instance decidableFailing : ∀ e : Execution, Decidable e.Failing
  | ⟨_, _, .alive _⟩ => inferInstanceAs (Decidable (_ = _))
  | ⟨_, _, .returned (.error _)⟩ => isTrue trivial
  | ⟨_, _, .returned (.ok _)⟩ | ⟨_, _, .created⟩ | ⟨_, _, .threaded⟩ | ⟨_, _, .printing _ _⟩
  | ⟨_, _, .answered⟩ | ⟨_, _, .ended⟩ => isFalse id

instance decidableAnswered : ∀ e : Execution, Decidable e.Answered
  | ⟨_, _, .answered⟩ | ⟨_, _, .ended⟩ => isTrue trivial
  | ⟨_, _, .alive _⟩ | ⟨_, _, .returned _⟩ | ⟨_, _, .created⟩ | ⟨_, _, .threaded⟩
  | ⟨_, _, .printing _ _⟩ => isFalse id

instance decidableCancelStops (s : PythonTaskRunner) : ∀ event, Decidable (s.CancelStops event)
  | .receive (.taskCancel _ _) _ => inferInstanceAs (Decidable (_ → _ → ∀ e ∈ _, _ → _ ∨ _))
  | .endProcess _ _ => inferInstanceAs (Decidable (_ → ∀ e ∈ _, _ → _))
  | .receive .infoRequest _ | .receive .runnerRegistered _ | .receive (.taskSettings _ _) _
  | .receive (.taskOfferAccept _ _) _ | .receive (.rpcResponse _ _ _) _ | .resumeHandler _
  | .offersLoop _ _ | .executeTask _ _ | .startProcess _ | .resumeTask _ _ => isTrue trivial

instance (s : PythonTaskRunner) (event : Event) : Decidable (s.Orderly event) :=
  decidable_of_iff ((s.BeginsOffers event → s.unsent = 0) ∧ s.CancelStops event)
    ⟨fun h => ⟨h.1, h.2⟩, fun h => ⟨h.alone, h.stops⟩⟩

end Decidable

/-! ## Offers -/

theorem sendNextOffer_spec (s : PythonTaskRunner) (draws : Draws) (left : ℕ) :
    ∃ openOffers entries, (s.sendNextOffer draws left).1 =
        { s with openOffers, log := entries ++ s.log } ∧
      (∀ e ∈ entries, ∃ id validFor, e = .sent (.taskOffer id "python" validFor)) ∧
      openOffers.size + (s.sendNextOffer draws left).2.getD 0 ≤ s.openOffers.size + left := by
  cases left with
  | zero => exact ⟨s.openOffers, [], rfl, by simp, Nat.le_refl _⟩
  | succ left =>
    refine ⟨_, [.sent (.taskOffer draws.offerId "python" draws.validForMs)], rfl, ?_, ?_⟩
    · intro e he
      exact ⟨_, _, List.mem_singleton.1 he⟩
    · have hsize := s.openOffers.size_set_le draws.offerId
        { offerId := draws.offerId, validUntil := draws.validUntil }
      calc (s.openOffers.set draws.offerId _).size + left
        _ ≤ s.openOffers.size + 1 + left := Nat.add_le_add_right hsize left
        _ = s.openOffers.size + (left + 1) := by omega

theorem sendOffers_spec (s : PythonTaskRunner) (draws : Draws) :
    ∃ openOffers entries, (s.sendOffers draws).1 =
        { s with openOffers, log := entries ++ s.log } ∧
      (∀ e ∈ entries, ∃ id validFor, e = .sent (.taskOffer id "python" validFor)) ∧
      (s.openOffers.size + s.runningTasks.size ≤ s.maxConcurrency →
        openOffers.size + s.runningTasks.size + (s.sendOffers draws).2.getD 0 ≤
          s.maxConcurrency) := by
  by_cases hcan : s.canSendOffers = true
  · have heq : s.sendOffers draws = (s.dropExpiredOffers draws.now).sendNextOffer draws
        (s.maxConcurrency -
          ((s.dropExpiredOffers draws.now).openOffers.size + s.runningTasks.size)) := if_pos hcan
    obtain ⟨openOffers, entries, hsent, hentries, hsize⟩ :=
      (s.dropExpiredOffers draws.now).sendNextOffer_spec draws (s.maxConcurrency -
        ((s.dropExpiredOffers draws.now).openOffers.size + s.runningTasks.size))
    have hdrop : (s.dropExpiredOffers draws.now).openOffers.size ≤ s.openOffers.size :=
      Dict.size_filter_le _ _
    rw [heq]
    exact ⟨openOffers, entries, hsent, hentries, fun hle => by omega⟩
  · have heq : s.sendOffers draws = (s, none) := if_neg hcan
    rw [heq]
    exact ⟨s.openOffers, [], rfl, by simp, id⟩

/-! ## Capacity -/

/-- The offers that are counted have room, the ones that are still to be sent included. -/
structure Roomy (s : PythonTaskRunner) : Prop where
  running_le : s.runningTasks.size ≤ s.maxConcurrency
  unsent_le : s.openOffers.size + s.runningTasks.size + s.unsent ≤ s.maxConcurrency

theorem Roomy.open_le (h : s.Roomy) :
    s.openOffers.size + s.runningTasks.size ≤ s.maxConcurrency :=
  Nat.le_trans (Nat.le_add_right _ _) h.unsent_le

theorem sum_left_set (loop : Loop) : ∀ (loops : List Loop) {i : ℕ} {old : Loop},
    loops[i]? = some old →
      ((loops.set i loop).map Loop.left).sum + old.left = (loops.map Loop.left).sum + loop.left
  | [], i, old, h => by simp at h
  | first :: loops, 0, old, h => by
    obtain rfl := Option.some.inj h
    simp only [List.set_cons_zero, List.map_cons, List.sum_cons]
    omega
  | first :: loops, i + 1, old, h => by
    have ih := sum_left_set loop loops (i := i) h
    simp only [List.set_cons_succ, List.map_cons, List.sum_cons]
    omega

theorem left_elim_loop (left : Option ℕ) :
    (left.elim Loop.sleeping Loop.sending).left = left.getD 0 := by
  cases left <;> rfl

theorem left_elim_handler (left : Option ℕ) :
    (left.elim Handler.idle Handler.offering).left = left.getD 0 := by
  cases left <;> rfl

theorem unsent_setLoop {i : ℕ} {old : Loop} (h : s.loops[i]? = some old) (loop : Loop) :
    (s.setLoop i loop).unsent + old.left = s.unsent + loop.left := by
  have hsum := sum_left_set loop s.loops h
  show ((s.loops.set i loop).map Loop.left).sum + s.handler.left + old.left = _
  unfold unsent
  omega

/-- A loop gets into another state, and the offers change with it. -/
theorem Roomy.setLoop (h : s.Roomy) {i : ℕ} {old : Loop} (hloop : s.loops[i]? = some old)
    {openOffers : Dict String TaskOffer} (entries : List Entry) {loop : Loop}
    (hsize : openOffers.size + s.runningTasks.size + s.unsent + loop.left ≤
      s.maxConcurrency + old.left) :
    (setLoop { s with openOffers, log := entries ++ s.log } i loop).Roomy := by
  have hunsent := unsent_setLoop hloop loop
  refine ⟨h.running_le, ?_⟩
  show openOffers.size + s.runningTasks.size + (s.setLoop i loop).unsent ≤ s.maxConcurrency
  omega

theorem Roomy.sendOffersLoop (h : s.Roomy) {i : ℕ} {draws : Draws}
    (halone : s.loops[i]? = some .sleeping → s.unsent = 0) :
    (s.sendOffersLoop i draws).Roomy := by
  have hunsent := h.unsent_le
  unfold PythonTaskRunner.sendOffersLoop
  rcases hloop : s.loops[i]? with _ | loop
  · exact h
  cases loop with
  | sleeping =>
    dsimp only
    split_ifs with hcan
    · obtain ⟨openOffers, entries, hsent, -, hsize⟩ := s.sendOffers_spec draws
      have hle := hsize h.open_le
      rw [hsent]
      refine h.setLoop hloop _ ?_
      rw [left_elim_loop, halone hloop]
      exact Nat.le_trans hle (Nat.le_add_right _ _)
    · exact h.setLoop hloop [] (Nat.le_trans hunsent (Nat.le_add_right _ _))
  | sending left =>
    obtain ⟨openOffers, entries, hsent, -, hsize⟩ := s.sendNextOffer_spec draws left
    dsimp only
    rw [hsent]
    refine h.setLoop hloop _ ?_
    rw [left_elim_loop]
    show _ ≤ s.maxConcurrency + left
    omega
  | ended => exact h

theorem Roomy.respond (h : s.Roomy) (message : RunnerMessage) : (s.respond message).Roomy :=
  ⟨h.running_le, Nat.le_trans (Nat.add_le_add_left (Nat.le_add_right _ _) _) h.unsent_le⟩

theorem Roomy.handleTaskOfferAccept (h : s.Roomy) (taskId offerId : String) (draws : Draws) :
    (s.handleTaskOfferAccept taskId offerId draws).Roomy := by
  unfold PythonTaskRunner.handleTaskOfferAccept
  rcases hoffer : s.openOffers.get? offerId with _ | offer
  · exact h.respond _
  dsimp only
  split_ifs with hexpired hfull
  · exact h.respond _
  · exact h.respond _
  · have herase := Dict.size_erase hoffer
    have hset := s.runningTasks.size_set_le taskId { taskId }
    have hunsent := h.unsent_le
    refine Roomy.respond ⟨?_, ?_⟩ _
    · show (s.runningTasks.set taskId { taskId }).size ≤ s.maxConcurrency
      omega
    · show (s.openOffers.erase offerId).size + (s.runningTasks.set taskId { taskId }).size +
        s.unsent ≤ s.maxConcurrency
      omega

theorem size_setTask {taskId : String} {old : TaskState}
    (h : s.runningTasks.get? taskId = some old) (task : TaskState) :
    (s.runningTasks.set taskId task).size = s.runningTasks.size := by
  have hset : (s.runningTasks.set taskId task).size = (s.runningTasks.erase taskId).size + 1 :=
    (Dict.set_entries_perm _ _ _).length_eq
  rw [hset, Dict.size_erase h]

/-- A task that runs gets into another state. -/
theorem Roomy.setTask (h : s.Roomy) {taskId : String} {old : TaskState}
    (hold : s.runningTasks.get? taskId = some old) (task : TaskState) :
    (s.setTask taskId task).Roomy := by
  have hsize := size_setTask hold task
  refine ⟨Nat.le_trans (Nat.le_of_eq hsize) h.running_le, ?_⟩
  show s.openOffers.size + (s.runningTasks.set taskId task).size + s.unsent ≤ s.maxConcurrency
  rw [hsize]
  exact h.unsent_le

theorem Roomy.erase (h : s.Roomy) (taskId : String) :
    Roomy { s with runningTasks := s.runningTasks.erase taskId } := by
  have hsize := s.runningTasks.size_erase_le taskId
  have hunsent := h.unsent_le
  refine ⟨Nat.le_trans hsize h.running_le, ?_⟩
  show s.openOffers.size + (s.runningTasks.erase taskId).size + s.unsent ≤ s.maxConcurrency
  omega

/-- The handler gets into another state, and the offers change with it. -/
theorem Roomy.setHandler (h : s.Roomy) {openOffers : Dict String TaskOffer} (entries : List Entry)
    {handler : Handler}
    (hsize : openOffers.size + s.runningTasks.size + s.unsent + handler.left ≤
      s.maxConcurrency + s.handler.left) :
    Roomy { s with openOffers, log := entries ++ s.log, handler } := by
  refine ⟨h.running_le, ?_⟩
  show openOffers.size + s.runningTasks.size + ((s.loops.map Loop.left).sum + handler.left) ≤
    s.maxConcurrency
  unfold unsent at hsize
  omega

/-- The handler waits for no more offers. -/
theorem Roomy.toHandler (h : s.Roomy) {handler : Handler} (hleft : handler.left = 0) :
    Roomy { s with handler } :=
  h.setHandler [] (by
    rw [hleft]
    exact Nat.le_trans h.unsent_le (Nat.le_add_right _ _))

theorem Roomy.handleTaskSettings (h : s.Roomy) (taskId : String) (continueOnFail : Bool) :
    (s.handleTaskSettings taskId continueOnFail).Roomy := by
  unfold PythonTaskRunner.handleTaskSettings
  rcases htask : s.runningTasks.get? taskId with _ | task
  · exact h
  dsimp only
  split_ifs
  · have hset := h.setTask htask { task with status := .running }
    exact ⟨hset.running_le, hset.unsent_le⟩
  · exact h

theorem Roomy.handleTaskCancel (h : s.Roomy) {taskId : String} {draws : Draws}
    (halone : s.status taskId = some .waitingForSettings → s.unsent = 0) :
    (s.handleTaskCancel taskId draws).Roomy := by
  have hlog : Roomy { s with log := .cancelled taskId :: s.log } := ⟨h.running_le, h.unsent_le⟩
  unfold PythonTaskRunner.handleTaskCancel
  rcases htask : s.runningTasks.get? taskId with _ | task
  · simpa only [htask] using hlog
  simp only [htask]
  rcases hstatus : task.status
  · have hnone := halone (by rw [status, htask, Option.map_some, hstatus])
    have hgone := hlog.erase taskId
    obtain ⟨openOffers, entries, hsent, -, hsize⟩ := sendOffers_spec
      { s with
        log := .cancelled taskId :: s.log, runningTasks := s.runningTasks.erase taskId } draws
    have hle := hsize hgone.open_le
    dsimp only
    rw [hsent]
    refine hgone.setHandler _ ?_
    rw [left_elim_handler]
    show openOffers.size + (s.runningTasks.erase taskId).size + s.unsent + _ ≤ _
    rw [hnone]
    exact Nat.le_trans hle (Nat.le_add_right _ _)
  · exact (hlog.setTask htask _).toHandler rfl
  · exact hlog

theorem Roomy.handleMessage (h : s.Roomy) (hidle : s.handler = .idle) {message : BrokerMessage}
    {draws : Draws} (halone : s.BeginsOffers (.receive message draws) → s.unsent = 0) :
    (s.handleMessage draws message).Roomy := by
  cases message with
  | infoRequest => exact h.respond _
  | runnerRegistered =>
    refine ⟨h.running_le, ?_⟩
    show s.openOffers.size + s.runningTasks.size +
      (((s.loops ++ [Loop.sleeping]).map Loop.left).sum + s.handler.left) ≤ s.maxConcurrency
    rw [List.map_append, List.sum_append]
    exact h.unsent_le
  | taskOfferAccept taskId offerId => exact h.handleTaskOfferAccept taskId offerId draws
  | taskSettings taskId continueOnFail => exact h.handleTaskSettings taskId continueOnFail
  | taskCancel taskId reason =>
    exact h.handleTaskCancel fun hwaiting => halone ⟨hidle, hwaiting⟩
  | rpcResponse => exact h

theorem Roomy.setStage (h : s.Roomy) (i : ℕ) (stage : Stage) : (s.setStage i stage).Roomy :=
  ⟨h.running_le, h.unsent_le⟩

theorem Roomy.resumeHandler (h : s.Roomy) (draws : Draws) : (s.resumeHandler draws).Roomy := by
  unfold PythonTaskRunner.resumeHandler
  rcases hhandler : s.handler with _ | _ | left | process | process
  · exact h
  · exact h.toHandler rfl
  · obtain ⟨openOffers, entries, hsent, -, hsize⟩ := s.sendNextOffer_spec draws left
    have hunsent := h.unsent_le
    dsimp only
    rw [hsent]
    refine h.setHandler _ ?_
    rw [left_elim_handler, hhandler]
    show openOffers.size + s.runningTasks.size + s.unsent + _ ≤ s.maxConcurrency + left
    omega
  · cases process with
    | none => exact h.toHandler rfl
    | some process =>
      dsimp only
      split_ifs
      · exact (h.setStage process _).toHandler rfl
      · exact h.toHandler rfl
  · dsimp only
    split_ifs
    · exact h
    · exact h.toHandler rfl

/-- The execution of a task sends messages and changes its own stage and process. -/
theorem Roomy.executions (h : s.Roomy) (i : ℕ) (failure : Option TaskError) (how : ProcessEnd)
    (callId : String) : (s.executeTask i failure).Roomy ∧ (s.startProcess i).Roomy ∧
      (s.endProcess i how).Roomy ∧ (s.resumeTask i callId).Roomy := by
  have herror : ∀ taskId e, (s.sendError i taskId e).Roomy := fun _ _ =>
    ⟨h.running_le, h.unsent_le⟩
  have hresult : ∀ taskId result left, (s.sendResult i taskId callId result left).Roomy := by
    intro taskId result left
    cases left <;> exact ⟨h.running_le, h.unsent_le⟩
  refine ⟨?_, ?_, ?_, ?_⟩
  · unfold executeTask
    split
    · split
      · exact herror _ _
      · rename_i htask
        split
        · exact herror _ _
        · exact (h.setTask htask _).setStage i _
    · exact h
  · unfold startProcess
    split
    · exact h.setStage i _
    · exact h
  · unfold endProcess
    split
    · split_ifs
      · exact h.setStage i _
      · exact h
    · split_ifs
      · exact h
      · exact h.setStage i _
    · exact h
  · unfold resumeTask
    split
    · exact herror _ _
    · exact hresult _ _ _
    · exact hresult _ _ _
    · exact (h.setStage i .ended).erase _
    · exact h

theorem Roomy.step (h : s.Roomy) {event : Event}
    (halone : s.BeginsOffers event → s.unsent = 0) : (s.step event).Roomy := by
  cases event with
  | receive message draws =>
    unfold PythonTaskRunner.step
    split_ifs with hidle
    · exact h.handleMessage hidle halone
    · exact h
  | resumeHandler draws => exact h.resumeHandler draws
  | offersLoop i draws => exact h.sendOffersLoop halone
  | executeTask i failure => exact (h.executions i failure .timesOut "").1
  | startProcess i =>
    exact (h.executions i none .timesOut "").2.1
  | endProcess i how => exact (h.executions i none how "").2.2.1
  | resumeTask i callId => exact (h.executions i none .timesOut callId).2.2.2

/-! ## Answers -/

/-- An entry that no answer and no cancellation is. -/
def Entry.Neutral (e : Entry) : Prop := e.answers = none ∧ ∀ taskId, e ≠ .cancelled taskId

theorem Entry.done_eq_none : ∀ {e : Entry}, e.answers = none → e.done = none
  | .sent (.info _ _), _ | .sent (.taskOffer _ _ _), _ | .sent (.taskAccepted _), _
  | .sent (.taskRejected _ _), _ | .sent (.taskError _ _ _), _ | .sent (.rpcCall _ _ _ _), _
  | .cancelled _, _ => rfl

/-- What is answered is a task whose execution is done with it, and one that is not answered runs
or is cancelled when it fails. -/
structure Tracked (s : PythonTaskRunner) : Prop where
  accepted : ∀ taskId, s.status taskId ≠ none → .sent (.taskAccepted taskId) ∈ s.log
  begun : ∀ (i : ℕ) (e : Execution), s.executions[i]? = some e →
    .sent (.taskAccepted e.taskId) ∈ s.log
  distinct : ∀ (i j : ℕ) (e e' : Execution), s.executions[i]? = some e →
    s.executions[j]? = some e' → e.taskId = e'.taskId → i = j
  waiting : ∀ taskId, s.status taskId = some .waitingForSettings → .cancelled taskId ∉ s.log ∧
    ∀ (i : ℕ) (e : Execution), s.executions[i]? = some e → e.taskId ≠ taskId
  pending : ∀ (i : ℕ) (e : Execution), s.executions[i]? = some e → ¬ e.Answered →
    e.taskId ∉ s.log.filterMap Entry.answers ∧
      (s.status e.taskId = some .running ∧ .cancelled e.taskId ∉ s.log ∨
        s.status e.taskId = some .aborting ∧ e.Failing)
  answered : ∀ taskId ∈ s.log.filterMap Entry.answers,
    ∃ (i : ℕ) (e : Execution), s.executions[i]? = some e ∧ e.taskId = taskId
  single : (s.log.filterMap Entry.answers).Nodup
  undone : s.log.Pairwise fun later earlier => ∀ taskId ∈ later.done, earlier ≠ .cancelled taskId

theorem status_setTask (s : PythonTaskRunner) (taskId id : String) (task : TaskState) :
    (s.setTask taskId task).status id = if id = taskId then some task.status else s.status id := by
  unfold status setTask
  rw [Dict.get?_set]
  split_ifs <;> rfl

theorem status_erase (s : PythonTaskRunner) (taskId id : String) :
    status { s with runningTasks := s.runningTasks.erase taskId } id =
      if id = taskId then none else s.status id := by
  unfold status
  rw [Dict.get?_erase]
  split_ifs <;> rfl

section Entries

variable {entries log : List Entry} (hentries : ∀ e ∈ entries, e.Neutral)
include hentries

theorem answers_append :
    (entries ++ log).filterMap Entry.answers = log.filterMap Entry.answers := by
  rw [List.filterMap_append, List.filterMap_eq_nil_iff.2 fun e he => (hentries e he).1,
    List.nil_append]

theorem cancelled_mem_append {taskId : String} :
    .cancelled taskId ∈ entries ++ log ↔ .cancelled taskId ∈ log := by
  rw [List.mem_append]
  exact or_iff_right fun hmem => (hentries _ hmem).2 taskId rfl

theorem undone_append
    (h : log.Pairwise fun later earlier => ∀ taskId ∈ later.done, earlier ≠ .cancelled taskId) :
    (entries ++ log).Pairwise fun later earlier =>
      ∀ taskId ∈ later.done, earlier ≠ .cancelled taskId := by
  have hnone : ∀ later ∈ entries, ∀ taskId, taskId ∉ later.done := by
    intro later hlater taskId hdone
    rw [Entry.done_eq_none (hentries later hlater).1] at hdone
    cases hdone
  refine List.pairwise_append.2 ⟨?_, h, fun later hlater _ _ taskId hdone =>
    absurd hdone (hnone later hlater taskId)⟩
  exact List.pairwise_of_forall_mem_list fun later hlater _ _ taskId hdone =>
    absurd hdone (hnone later hlater taskId)

end Entries

/-- Messages are sent that answer nothing. -/
theorem Tracked.frame (h : s.Tracked) (entries : List Entry)
    (hexecutions : s'.executions = s.executions)
    (hstatus : ∀ taskId, s'.status taskId = s.status taskId)
    (hlog : s'.log = entries ++ s.log) (hentries : ∀ e ∈ entries, e.Neutral) : s'.Tracked := by
  have hkept : ∀ e ∈ s.log, e ∈ entries ++ s.log := fun e he => List.mem_append_right _ he
  refine ⟨fun taskId hne => ?_, fun i e he => ?_, fun i j e e' he he' => ?_,
    fun taskId hwaiting => ?_, fun i e he hopen => ?_, fun taskId hmem => ?_, ?_, ?_⟩
  · rw [hstatus] at hne
    exact hlog ▸ hkept _ (h.accepted taskId hne)
  · rw [hexecutions] at he
    exact hlog ▸ hkept _ (h.begun i e he)
  · rw [hexecutions] at he he'
    exact h.distinct i j e e' he he'
  · rw [hstatus] at hwaiting
    rw [hlog, cancelled_mem_append hentries, hexecutions]
    exact h.waiting taskId hwaiting
  · rw [hexecutions] at he
    rw [hlog, answers_append hentries, hstatus, cancelled_mem_append hentries]
    exact h.pending i e he hopen
  · rw [hlog, answers_append hentries] at hmem
    rw [hexecutions]
    exact h.answered taskId hmem
  · rw [hlog, answers_append hentries]
    exact h.single
  · rw [hlog]
    exact undone_append hentries h.undone

theorem Tracked.respond (h : s.Tracked) {message : RunnerMessage}
    (hneutral : (Entry.sent message).Neutral) : (s.respond message).Tracked :=
  h.frame [.sent message] rfl (fun _ => rfl) rfl
    fun _ he => List.mem_singleton.1 he ▸ hneutral

theorem neutral_offer {e : Entry}
    (h : ∃ id validFor, e = .sent (.taskOffer id "python" validFor)) : e.Neutral := by
  obtain ⟨id, validFor, rfl⟩ := h
  exact ⟨rfl, fun _ => Entry.noConfusion⟩

theorem Tracked.sendOffersLoop (h : s.Tracked) (i : ℕ) (draws : Draws) :
    (s.sendOffersLoop i draws).Tracked := by
  unfold PythonTaskRunner.sendOffersLoop
  split
  · split_ifs
    · obtain ⟨openOffers, entries, hsent, hentries, -⟩ := s.sendOffers_spec draws
      dsimp only
      rw [hsent]
      exact h.frame _ rfl (fun _ => rfl) rfl fun e he => neutral_offer (hentries e he)
    · exact h.frame [] rfl (fun _ => rfl) rfl (by simp)
  · rename_i left _
    obtain ⟨openOffers, entries, hsent, hentries, -⟩ := s.sendNextOffer_spec draws left
    dsimp only
    rw [hsent]
    exact h.frame _ rfl (fun _ => rfl) rfl fun e he => neutral_offer (hentries e he)
  · exact h
  · exact h

/-! ## Messages of the broker -/

theorem Tracked.accept (h : s.Tracked) {taskId : String}
    (hnew : .sent (.taskAccepted taskId) ∉ s.log) (hkept : .cancelled taskId ∉ s.log)
    (hexecutions : s'.executions = s.executions)
    (hstatus : ∀ id, s'.status id =
      if id = taskId then some .waitingForSettings else s.status id)
    (hlog : s'.log = .sent (.taskAccepted taskId) :: s.log) : s'.Tracked := by
  have hentries : ∀ e ∈ [Entry.sent (.taskAccepted taskId)], e.Neutral := by
    intro e he
    rw [List.mem_singleton.1 he]
    exact ⟨rfl, fun _ => Entry.noConfusion⟩
  have hlog' : s'.log = [.sent (.taskAccepted taskId)] ++ s.log := hlog
  have hother : ∀ (i : ℕ) (e : Execution), s.executions[i]? = some e → e.taskId ≠ taskId :=
    fun i e he heq => hnew (heq ▸ h.begun i e he)
  refine ⟨fun id hne => ?_, fun i e he => ?_, fun i j e e' he he' => ?_,
    fun id hwaiting => ?_, fun i e he hopen => ?_, fun id hmem => ?_, ?_, ?_⟩
  · rw [hstatus] at hne
    rw [hlog]
    split_ifs at hne with hid
    · rw [hid]
      exact List.mem_cons_self
    · exact List.mem_cons_of_mem _ (h.accepted id hne)
  · rw [hexecutions] at he
    rw [hlog]
    exact List.mem_cons_of_mem _ (h.begun i e he)
  · rw [hexecutions] at he he'
    exact h.distinct i j e e' he he'
  · rw [hstatus] at hwaiting
    rw [hlog', cancelled_mem_append hentries, hexecutions]
    split_ifs at hwaiting with hid
    · rw [hid]
      exact ⟨hkept, hother⟩
    · exact h.waiting id hwaiting
  · rw [hexecutions] at he
    rw [hlog', answers_append hentries, hstatus, if_neg (hother i e he),
      cancelled_mem_append hentries]
    exact h.pending i e he hopen
  · rw [hlog', answers_append hentries] at hmem
    rw [hexecutions]
    exact h.answered id hmem
  · rw [hlog', answers_append hentries]
    exact h.single
  · rw [hlog']
    exact undone_append hentries h.undone

theorem Tracked.handleTaskOfferAccept (h : s.Tracked) {taskId : String} (offerId : String)
    (draws : Draws) (hnew : .sent (.taskAccepted taskId) ∉ s.log)
    (hkept : .cancelled taskId ∉ s.log) :
    (s.handleTaskOfferAccept taskId offerId draws).Tracked := by
  have hreject : ∀ reason, (s.respond (.taskRejected taskId reason)).Tracked := fun _ =>
    h.respond ⟨rfl, fun _ => Entry.noConfusion⟩
  unfold PythonTaskRunner.handleTaskOfferAccept
  rcases s.openOffers.get? offerId with _ | offer
  · exact hreject _
  dsimp only
  split_ifs
  · exact hreject _
  · exact hreject _
  · exact h.accept hnew hkept rfl (fun id => s.status_setTask taskId id { taskId }) rfl

/-- A cancel message is handled. -/
theorem Tracked.cancel (h : s.Tracked) {taskId : String}
    (hexecutions : s'.executions = s.executions)
    (hlog : s'.log = .cancelled taskId :: s.log)
    (hother : ∀ id, id ≠ taskId → s'.status id = s.status id)
    (hwaiting : s'.status taskId ≠ some .waitingForSettings)
    (haccepted : s'.status taskId ≠ none → s.status taskId ≠ none)
    (hpending : ∀ (i : ℕ) (e : Execution), s.executions[i]? = some e → e.taskId = taskId →
      ¬ e.Answered → s'.status taskId = some .aborting ∧ e.Failing) : s'.Tracked := by
  have hanswers : s'.log.filterMap Entry.answers = s.log.filterMap Entry.answers := by
    rw [hlog]
    rfl
  have hcancelled : ∀ id, id ≠ taskId → (.cancelled id ∈ s'.log ↔ .cancelled id ∈ s.log) := by
    intro id hne
    rw [hlog, List.mem_cons]
    exact or_iff_right fun heq => hne (Entry.cancelled.inj heq)
  refine ⟨fun id hne => ?_, fun i e he => ?_, fun i j e e' he he' => ?_,
    fun id hid => ?_, fun i e he hopen => ?_, fun id hmem => ?_, ?_, ?_⟩
  · rw [hlog]
    refine List.mem_cons_of_mem _ (h.accepted id ?_)
    by_cases hid : id = taskId
    · rw [hid] at hne ⊢
      exact haccepted hne
    · rwa [hother id hid] at hne
  · rw [hexecutions] at he
    rw [hlog]
    exact List.mem_cons_of_mem _ (h.begun i e he)
  · rw [hexecutions] at he he'
    exact h.distinct i j e e' he he'
  · have hne : id ≠ taskId := by
      rintro rfl
      exact hwaiting hid
    rw [hother id hne] at hid
    rw [hcancelled id hne, hexecutions]
    exact h.waiting id hid
  · rw [hexecutions] at he
    rw [hanswers]
    refine ⟨(h.pending i e he hopen).1, ?_⟩
    by_cases hid : e.taskId = taskId
    · rw [hid]
      exact .inr (hpending i e he hid hopen)
    · rw [hother _ hid, hcancelled _ hid]
      exact (h.pending i e he hopen).2
  · rw [hanswers] at hmem
    rw [hexecutions]
    exact h.answered id hmem
  · rw [hanswers]
    exact h.single
  · rw [hlog]
    exact List.pairwise_cons.2 ⟨fun _ _ _ hdone => (Option.not_mem_none _ hdone).elim, h.undone⟩

theorem status_eq {taskId : String} {task : TaskState}
    (h : s.runningTasks.get? taskId = some task) : s.status taskId = some task.status := by
  rw [status, h, Option.map_some]

theorem Tracked.handleTaskCancel (h : s.Tracked) {taskId : String} {draws : Draws}
    (hstops : s.status taskId = some .running →
      ∀ e ∈ s.executions, e.taskId = taskId → e.Failing ∨ e.Answered) :
    (s.handleTaskCancel taskId draws).Tracked := by
  unfold PythonTaskRunner.handleTaskCancel
  rcases htask : s.runningTasks.get? taskId with _ | task
  · have hnone : s.status taskId = none := by rw [status, htask, Option.map_none]
    simp only [htask]
    refine h.cancel rfl rfl (fun _ _ => rfl) ?_ id fun i e he hid hopen => ?_
    · show s.status taskId ≠ _
      rw [hnone]
      simp
    · have hpending := (h.pending i e he hopen).2
      rw [hid, hnone] at hpending
      rcases hpending with hpending | hpending <;> cases hpending.1
  have hsome := status_eq htask
  simp only [htask]
  rcases hstatus : task.status
  · rw [hstatus] at hsome
    have hgone : Tracked { s with
        log := .cancelled taskId :: s.log, runningTasks := s.runningTasks.erase taskId } := by
      have herase := s.status_erase taskId
      refine h.cancel rfl rfl (fun id hne => (herase id).trans (if_neg hne)) ?_ ?_ ?_
      · show status { s with runningTasks := s.runningTasks.erase taskId } taskId ≠ _
        rw [herase, if_pos rfl]
        simp
      · intro _
        rw [hsome]
        simp
      · exact fun i e he hid _ => absurd hid ((h.waiting taskId hsome).2 i e he)
    obtain ⟨openOffers, entries, hsent, hentries, -⟩ := sendOffers_spec
      { s with
        log := .cancelled taskId :: s.log, runningTasks := s.runningTasks.erase taskId } draws
    dsimp only
    rw [hsent]
    exact hgone.frame _ rfl (fun _ => rfl) rfl fun e he => neutral_offer (hentries e he)
  · rw [hstatus] at hsome
    have hset := s.status_setTask taskId
    refine h.cancel rfl rfl (fun id hne => (hset id { task with status := .aborting }).trans
      (if_neg hne)) ?_ ?_ fun i e he hid hopen => ⟨?_, ?_⟩
    · show (s.setTask taskId { task with status := .aborting }).status taskId ≠ _
      rw [hset, if_pos rfl]
      simp
    · intro _
      rw [hsome]
      simp
    · exact (hset taskId { task with status := .aborting }).trans (if_pos rfl)
    · exact (hstops hsome e (List.mem_of_getElem? he) hid).resolve_right hopen
  · rw [hstatus] at hsome
    refine h.cancel rfl rfl (fun _ _ => rfl) ?_ id fun i e he hid hopen => ?_
    · show s.status taskId ≠ _
      rw [hsome]
      simp
    · have hpending := (h.pending i e he hopen).2
      rw [hid, hsome] at hpending
      exact ⟨hsome, (hpending.resolve_left fun hrunning => by cases hrunning.1).2⟩

theorem Tracked.handleTaskSettings (h : s.Tracked) (taskId : String) (continueOnFail : Bool) :
    (s.handleTaskSettings taskId continueOnFail).Tracked := by
  unfold PythonTaskRunner.handleTaskSettings
  rcases htask : s.runningTasks.get? taskId with _ | task
  · exact h
  dsimp only
  split_ifs with hwaiting
  · have hsome : s.status taskId = some .waitingForSettings := by rw [status_eq htask, hwaiting]
    obtain ⟨hkept, hnone⟩ := h.waiting taskId hsome
    have haccepted := h.accepted taskId (by simp [hsome])
    have hset : ∀ id, (s.setTask taskId { task with status := .running }).status id =
        if id = taskId then some .running else s.status id := fun id => s.status_setTask taskId id _
    refine ⟨fun id hne => ?_, fun i e he => ?_, fun i j e e' he he' heq => ?_, fun id hid => ?_,
      fun i e he hopen => ?_, fun id hmem => ?_, h.single, h.undone⟩
    · by_cases hid : id = taskId
      · rw [hid]
        exact haccepted
      · exact h.accepted id (by rwa [← (hset id).trans (if_neg hid)])
    · rcases Places.getElem?_concat_eq_some.1 he with he | ⟨-, rfl⟩
      · exact h.begun i e he
      · exact haccepted
    · rcases Places.getElem?_concat_eq_some.1 he with he | ⟨hi, rfl⟩ <;>
        rcases Places.getElem?_concat_eq_some.1 he' with he' | ⟨hj, rfl⟩
      · exact h.distinct i j e e' he he' heq
      · exact absurd heq (hnone i e he)
      · exact absurd heq.symm (hnone j e' he')
      · rw [hi, hj]
    · have hid : (s.setTask taskId { task with status := .running }).status id = _ := hid
      rw [hset] at hid
      split_ifs at hid with hne
      · simp at hid
      · refine ⟨(h.waiting id hid).1, fun i e he => ?_⟩
        rcases Places.getElem?_concat_eq_some.1 he with he | ⟨-, rfl⟩
        · exact (h.waiting id hid).2 i e he
        · exact Ne.symm hne
    · rcases Places.getElem?_concat_eq_some.1 he with he | ⟨-, rfl⟩
      · have hpending := h.pending i e he hopen
        rw [← (hset e.taskId).trans (if_neg (hnone i e he))] at hpending
        exact hpending
      · refine ⟨fun hmem => ?_, .inl ⟨(hset taskId).trans (if_pos rfl), hkept⟩⟩
        obtain ⟨i, e, he, hid⟩ := h.answered taskId hmem
        exact hnone i e he hid
    · obtain ⟨i, e, he, hid⟩ := h.answered id hmem
      exact ⟨i, e, Places.getElem?_concat_of_some he _, hid⟩
  · exact h

theorem Tracked.handleMessage (h : s.Tracked) (hidle : s.handler = .idle) {message : BrokerMessage}
    {draws : Draws} (hnew : s.NewTask (.receive message draws))
    (hstops : s.CancelStops (.receive message draws)) :
    (s.handleMessage draws message).Tracked := by
  cases message with
  | infoRequest => exact h.respond ⟨rfl, fun _ => Entry.noConfusion⟩
  | runnerRegistered => exact h.frame [] rfl (fun _ => rfl) rfl (by simp)
  | taskOfferAccept taskId offerId => exact h.handleTaskOfferAccept offerId draws hnew.1 hnew.2
  | taskSettings taskId continueOnFail => exact h.handleTaskSettings taskId continueOnFail
  | taskCancel taskId reason => exact h.handleTaskCancel (hstops hidle)
  | rpcResponse => exact h

/-! ## Executions -/

/-- The stage of an execution changes; it stays unanswered only if it was, and fails if it did and
its task is cancelled. -/
theorem Tracked.setStage (h : s.Tracked) {i : ℕ} {e : Execution}
    (he : s.executions[i]? = some e) (stage : Stage)
    (hstage : ¬ Execution.Answered { e with stage } → ¬ e.Answered ∧
      (s.status e.taskId = some .aborting → e.Failing → Execution.Failing { e with stage })) :
    (s.setStage i stage).Tracked := by
  have hold : ∀ {j : ℕ} {e' : Execution}, (s.setStage i stage).executions[j]? = some e' →
      ∃ e₀, s.executions[j]? = some e₀ ∧ e₀.taskId = e'.taskId := by
    intro j e' he'
    obtain ⟨e₀, he₀, rfl⟩ := Places.getElem?_modify_eq_some.1 he'
    exact ⟨e₀, he₀, by split_ifs <;> rfl⟩
  refine ⟨h.accepted, fun j e' he' => ?_, fun j k e' e'' he' he'' heq => ?_,
    fun id hid => ⟨(h.waiting id hid).1, fun j e' he' => ?_⟩, fun j e' he' hopen => ?_,
    fun id hmem => ?_, h.single, h.undone⟩
  · obtain ⟨e₀, he₀, hid⟩ := hold he'
    exact hid ▸ h.begun j e₀ he₀
  · obtain ⟨e₀, he₀, hid⟩ := hold he'
    obtain ⟨e₁, he₁, hid'⟩ := hold he''
    exact h.distinct j k e₀ e₁ he₀ he₁ (by rw [hid, hid', heq])
  · obtain ⟨e₀, he₀, hid'⟩ := hold he'
    exact hid' ▸ (h.waiting id hid).2 j e₀ he₀
  · obtain ⟨e₀, he₀, rfl⟩ := Places.getElem?_modify_eq_some.1 he'
    by_cases hij : i = j
    · subst hij
      obtain rfl : e = e₀ := Option.some.inj (he.symm.trans he₀)
      rw [if_pos rfl] at hopen ⊢
      obtain ⟨hopen, hfailing⟩ := hstage hopen
      obtain ⟨hanswers, hpending⟩ := h.pending i e he hopen
      exact ⟨hanswers, hpending.imp id fun hstopped =>
        ⟨hstopped.1, hfailing hstopped.1 hstopped.2⟩⟩
    · rw [if_neg hij] at hopen ⊢
      exact h.pending j e₀ he₀ hopen
  · obtain ⟨j, e₀, he₀, hid⟩ := h.answered id hmem
    refine ⟨j, _, Places.getElem?_modify_eq_some.2 ⟨e₀, he₀, rfl⟩, ?_⟩
    rw [← hid]
    split_ifs <;> rfl

/-- An execution that is not answered sends its result or its error. -/
theorem Tracked.answer (h : s.Tracked) {i : ℕ} {e : Execution} (he : s.executions[i]? = some e)
    (hopen : ¬ e.Answered) {message : RunnerMessage}
    (hmessage : (Entry.sent message).answers = some e.taskId)
    (hdone : ∀ id ∈ (Entry.sent message).done, .cancelled id ∉ s.log) :
    ((s.sendMessage message).setStage i .answered).Tracked := by
  have hstage := h.setStage he .answered fun hne => absurd trivial hne
  have hanswers : (Entry.sent message :: s.log).filterMap Entry.answers =
      e.taskId :: s.log.filterMap Entry.answers := List.filterMap_cons_some hmessage
  have hcancelled : ∀ {id}, .cancelled id ∈ Entry.sent message :: s.log ↔ .cancelled id ∈ s.log := by
    simp
  refine ⟨fun id hne => List.mem_cons_of_mem _ (hstage.accepted id hne),
    fun j e' he' => List.mem_cons_of_mem _ (hstage.begun j e' he'), hstage.distinct,
    fun id hid => ⟨fun hmem => (hstage.waiting id hid).1 (hcancelled.1 hmem),
      (hstage.waiting id hid).2⟩,
    fun j e' he' hopen' => ?_, fun id hmem => ?_, ?_, ?_⟩
  · obtain ⟨hnone, hpending⟩ := hstage.pending j e' he' hopen'
    have hne : e'.taskId ≠ e.taskId := by
      intro heq
      have hi : (s.setStage i .answered).executions[i]? = some { e with stage := .answered } :=
        Places.getElem?_modify_self he _
      obtain rfl := hstage.distinct j i e' _ he' hi heq
      obtain rfl := Option.some.inj (hi.symm.trans he')
      exact hopen' trivial
    refine ⟨?_, hpending.imp (fun hruns => ⟨hruns.1, fun hmem => hruns.2 (hcancelled.1 hmem)⟩) id⟩
    show e'.taskId ∉ (Entry.sent message :: s.log).filterMap Entry.answers
    rw [hanswers]
    exact fun hmem => (List.mem_cons.1 hmem).elim hne hnone
  · have hmem : id ∈ (Entry.sent message :: s.log).filterMap Entry.answers := hmem
    rw [hanswers, List.mem_cons] at hmem
    rcases hmem with rfl | hmem
    · exact ⟨i, _, Places.getElem?_modify_self he _, rfl⟩
    · exact hstage.answered id hmem
  · show ((Entry.sent message :: s.log).filterMap Entry.answers).Nodup
    rw [hanswers]
    exact List.nodup_cons.2 ⟨(h.pending i e he hopen).1, h.single⟩
  · refine List.pairwise_cons.2 ⟨fun earlier hearlier id hid heq => ?_, h.undone⟩
    exact hdone id hid (heq ▸ hearlier)

theorem Tracked.sendError (h : s.Tracked) {i : ℕ} {e : Execution}
    (he : s.executions[i]? = some e) (hopen : ¬ e.Answered) (error : TaskError) :
    (s.sendError i e.taskId error).Tracked :=
  h.answer he hopen rfl fun _ hid => absurd hid (Option.not_mem_none _)

theorem Tracked.sendResult (h : s.Tracked) {i : ℕ} {e : Execution}
    (he : s.executions[i]? = some e) (hopen : ¬ e.Answered) (hok : ¬ e.Failing)
    (callId : String) (result : List Item) :
    ∀ left, (s.sendResult i e.taskId callId result left).Tracked
  | [] => by
    have hkept : .cancelled e.taskId ∉ s.log :=
      ((h.pending i e he hopen).2.resolve_right fun hstopped => hok hstopped.2).2
    refine h.answer he hopen rfl fun id hid => ?_
    rwa [← Option.some.inj hid]
  | params :: left => by
    have hsent : (s.sendMessage (.rpcCall callId e.taskId "logNodeOutput" params)).Tracked :=
      h.frame [_] rfl (fun _ => rfl) rfl fun _ hmem => by
        rw [List.mem_singleton.1 hmem]
        exact ⟨rfl, fun _ => Entry.noConfusion⟩
    exact hsent.setStage he _ fun _ => ⟨hopen, fun _ hfailing => absurd hfailing hok⟩

theorem Tracked.executeTask (h : s.Tracked) (i : ℕ) (failure : Option TaskError) :
    (s.executeTask i failure).Tracked := by
  unfold PythonTaskRunner.executeTask
  split
  · rename_i taskId continueOnFail he
    split
    · exact h.sendError he id _
    · rename_i task htask
      split
      · exact h.sendError he id _
      · have hset : (s.setTask taskId { task with process := some i }).Tracked := by
          refine h.frame [] rfl (fun id => ?_) rfl (by simp)
          rw [status_setTask]
          split_ifs with hid
          · rw [hid, status_eq htask]
          · rfl
        exact hset.setStage he _ fun _ => ⟨id, fun _ => False.elim⟩
  · exact h

theorem Tracked.startProcess (h : s.Tracked) (i : ℕ) : (s.startProcess i).Tracked := by
  unfold PythonTaskRunner.startProcess
  split
  · rename_i he
    exact h.setStage he _ fun _ => ⟨id, fun _ => False.elim⟩
  · exact h

/-- A process that does not exit with a result makes `execute_process` raise an error. -/
theorem executeProcess_eq_error (taskTimeout : ℕ) {how : ProcessEnd}
    (h : how.givesResult = false) : ∃ e, executeProcess taskTimeout false how = .error e := by
  suffices ∃ e, processResult taskTimeout how = .error e by
    obtain ⟨e, he⟩ := this
    exact ⟨e, by simp [executeProcess, he]⟩
  cases how with
  | failsToStart => exact ⟨_, rfl⟩
  | timesOut => exact ⟨_, rfl⟩
  | exits exitCode pipe =>
    simp only [processResult]
    split_ifs with hterm hkill hzero
    · exact ⟨_, rfl⟩
    · exact ⟨_, rfl⟩
    · exact ⟨_, rfl⟩
    · obtain rfl : exitCode = 0 := not_not.1 hzero
      cases pipe with
      | result items printArgs => cases h
      | _ => exact ⟨_, rfl⟩

theorem Tracked.endProcess (h : s.Tracked) {i : ℕ} {how : ProcessEnd}
    (hstops : s.CancelStops (.endProcess i how)) : (s.endProcess i how).Tracked := by
  unfold PythonTaskRunner.endProcess
  split
  · rename_i he
    split_ifs
    · exact h.setStage he _ fun _ => ⟨id, fun _ => False.elim⟩
    · exact h
  · rename_i taskId continueOnFail terminated he
    split_ifs with hstart
    · exact h
    · refine h.setStage he _ fun _ => ⟨id, fun haborting (hfail : continueOnFail = false) => ?_⟩
      subst hfail
      have hresult : how.givesResult = false :=
        Bool.eq_false_iff.2 fun hresult => hstops hresult _ he rfl haborting
      obtain ⟨e, herror⟩ := executeProcess_eq_error s.taskTimeout hresult
      rw [herror]
      exact trivial
  · exact h

/-- A task that is answered is gone. -/
theorem Tracked.finish (h : s.Tracked) {i : ℕ} {e : Execution} (he : s.executions[i]? = some e)
    (hanswered : e.Answered) :
    Tracked { s with runningTasks := s.runningTasks.erase e.taskId } := by
  have herase := s.status_erase e.taskId
  refine ⟨fun id hne => ?_, h.begun, h.distinct, fun id hid => ?_, fun j e' he' hopen => ?_,
    h.answered, h.single, h.undone⟩
  · rw [herase] at hne
    split_ifs at hne
    · exact absurd rfl hne
    · exact h.accepted id hne
  · rw [herase] at hid
    split_ifs at hid
    exact h.waiting id hid
  · have hne : e'.taskId ≠ e.taskId := by
      intro hid
      obtain rfl := h.distinct j i e' e he' he hid
      obtain rfl := Option.some.inj (he.symm.trans he')
      exact hopen hanswered
    rw [herase, if_neg hne]
    exact h.pending j e' he' hopen

theorem Tracked.resumeTask (h : s.Tracked) (i : ℕ) (callId : String) :
    (s.resumeTask i callId).Tracked := by
  unfold PythonTaskRunner.resumeTask
  split
  · rename_i he
    exact h.sendError he id _
  · rename_i he
    exact h.sendResult he id id callId _ _
  · rename_i he
    exact h.sendResult he id id callId _ _
  · rename_i he
    have hended := h.setStage he .ended fun hopen => absurd trivial hopen
    exact hended.finish (Places.getElem?_modify_self he _) trivial
  · exact h

theorem Tracked.resumeHandler (h : s.Tracked) (draws : Draws) :
    (s.resumeHandler draws).Tracked := by
  have hhandler : ∀ {s : PythonTaskRunner} {handler}, s.Tracked → Tracked { s with handler } :=
    fun h => h.frame [] rfl (fun _ => rfl) rfl (by simp)
  unfold PythonTaskRunner.resumeHandler
  split
  · exact h
  · exact hhandler h
  · rename_i left _
    obtain ⟨openOffers, entries, hsent, hentries, -⟩ := s.sendNextOffer_spec draws left
    dsimp only
    rw [hsent]
    exact h.frame _ rfl (fun _ => rfl) rfl fun e he => neutral_offer (hentries e he)
  · exact hhandler h
  · rename_i process _
    split_ifs with halive
    · refine hhandler ?_
      unfold isAlive Execution.isAlive at halive
      rcases he : s.executions[process]? with _ | ⟨taskId, continueOnFail, stage⟩
      · simp [he] at halive
      · cases stage <;> simp [he] at halive
        exact h.setStage he _ fun _ => ⟨id, fun _ => id⟩
    · exact hhandler h
  · split_ifs
    · exact h
    · exact hhandler h

theorem Tracked.step (h : s.Tracked) {event : Event} (hnew : s.NewTask event)
    (hstops : s.CancelStops event) : (s.step event).Tracked := by
  cases event with
  | receive message draws =>
    unfold PythonTaskRunner.step
    split_ifs with hidle
    · exact h.handleMessage hidle hnew hstops
    · exact h
  | resumeHandler draws => exact h.resumeHandler draws
  | offersLoop i draws => exact h.sendOffersLoop i draws
  | executeTask i failure => exact h.executeTask i failure
  | startProcess i => exact h.startProcess i
  | endProcess i how => exact h.endProcess hstops
  | resumeTask i callId => exact h.resumeTask i callId

/-! ## Runs -/

theorem tracked_initial (maxConcurrency taskTimeout : ℕ) :
    Tracked { maxConcurrency, taskTimeout } := by
  refine ⟨?_, ?_, ?_, ?_, ?_, ?_, List.nodup_nil, .nil⟩ <;> simp [status]

theorem roomy_initial (maxConcurrency taskTimeout : ℕ) :
    Roomy { maxConcurrency, taskTimeout } := ⟨Nat.zero_le _, Nat.zero_le _⟩

/-- In every run in which offers are counted when all that were counted before are sent, and in
which a cancellation comes when the process of the task is alive and ends it, the runner keeps
within its capacity, answers each task once, and answers none with a result that is cancelled. -/
theorem sound_of_orderly (maxConcurrency taskTimeout : ℕ) {events : List Event}
    (hnew : Runs.Meets step NewTask { maxConcurrency, taskTimeout } events)
    (h : Runs.Meets step Orderly { maxConcurrency, taskTimeout } events) :
    Runs.Along step Sound { maxConcurrency, taskTimeout } events := by
  have hinvariant := Runs.meets_along (I := fun s => s.Roomy ∧ s.Tracked)
    (fun s event hs hmeets => ⟨hs.1.step hmeets.2.alone, hs.2.step hmeets.1 hmeets.2.stops⟩)
    ⟨roomy_initial maxConcurrency taskTimeout, tracked_initial maxConcurrency taskTimeout⟩
    (hnew.and h)
  exact hinvariant.mono fun s hs =>
    ⟨hs.1.running_le, hs.1.open_le, hs.2.single, hs.2.undone⟩

/-- The draws of an offer with the given id, at the time zero. -/
def offer (offerId : String) : Draws where
  now _ := 0
  offerId := offerId
  jitter := 0
  sentAt := 0

/-- A task is accepted and gets its settings, and its process is started. -/
def taskRuns : List Event :=
  [.receive .runnerRegistered (offer "a"), .offersLoop 0 (offer "a"),
    .receive (.taskOfferAccept "t" "a") (offer "b"), .resumeHandler (offer "b"),
    .receive (.taskSettings "t" false) (offer "b"), .executeTask 0 none, .startProcess 0]

/-- It is cancelled then. -/
def cancelledTask : List Event :=
  taskRuns ++ [.receive (.taskCancel "t" "") (offer "b"), .resumeHandler (offer "b"),
    .endProcess 0 (.exits SIGTERM_EXIT_CODE .nothing), .resumeHandler (offer "b"),
    .resumeTask 0 "c", .resumeTask 0 "c", .offersLoop 0 (offer "b")]

theorem sound_cancelledTask :
    Runs.Along step Sound { maxConcurrency := 1, taskTimeout := 60 } cancelledTask :=
  sound_of_orderly 1 60 (by decide) (by decide)

/-- While the loop has two of three offers left to send, the one that is sent is accepted and its
task cancelled, which sends three more. -/
def overOffered : List Event :=
  [.receive .runnerRegistered (offer "a"), .offersLoop 0 (offer "a"),
    .receive (.taskOfferAccept "t" "a") (offer "b"), .resumeHandler (offer "b"),
    .receive (.taskCancel "t" "") (offer "b"), .resumeHandler (offer "c"),
    .resumeHandler (offer "d"), .offersLoop 0 (offer "e")]

/-- A task is cancelled before it has a process, and executed all the same. -/
def cancelledTooEarly : List Event :=
  [.receive .runnerRegistered (offer "a"), .offersLoop 0 (offer "a"),
    .receive (.taskOfferAccept "t" "a") (offer "b"), .resumeHandler (offer "b"),
    .receive (.taskSettings "t" false) (offer "b"), .receive (.taskCancel "t" "") (offer "b"),
    .resumeHandler (offer "b"), .executeTask 0 none, .startProcess 0,
    .endProcess 0 (.exits 0 (.result [] [])), .resumeTask 0 "c"]

theorem not_sound :
    ¬ Runs.Along step Sound { maxConcurrency := 3, taskTimeout := 60 } overOffered ∧
      ¬ Runs.Along step Sound { maxConcurrency := 1, taskTimeout := 60 } cancelledTooEarly :=
  ⟨fun h => absurd h.last.open_le (by decide), fun h => absurd h.last.undone (by decide)⟩

end PythonTaskRunner

end N8n
