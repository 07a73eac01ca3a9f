import Mathlib.Tactic
import N8n.Library.Runs
import N8n.ActiveWorkflows

/-!
# Orphans of an activation

An activation that fails does not take back what it has started: what the triggers before have
returned is forgotten, and crons stay. An activation of an active workflow forgets the triggers of
the one before.
-/

namespace N8n

open Fallible

variable {cronError : String → String → Option String}

namespace ScheduledTaskManager

variable (cronError) in
/-- Every registered cron has been accepted. -/
def Sound (s : ScheduledTaskManager) : Prop :=
  ∀ workflowId, ∀ ctx ∈ s.cronsOf workflowId, cronError ctx.expression ctx.timezone = none

variable (cronError) in
/-- What registrations for a workflow come to; `nothing` says that none has been accepted. -/
structure Registers (s s' : ScheduledTaskManager) (workflowId : String) (nothing : Prop) :
    Prop where
  sound : s.Sound cronError → s'.Sound cronError
  other : ∀ id ≠ workflowId, s'.cronsOf id = s.cronsOf id
  none_iff : s'.cronsOf workflowId = [] ↔ s.cronsOf workflowId = [] ∧ nothing

namespace Registers

variable {s s' s'' : ScheduledTaskManager} {workflowId : String} {p q : Prop}

theorem refl (hp : p) : Registers cronError s s workflowId p :=
  ⟨id, fun _ _ => rfl, (and_iff_left hp).symm⟩

theorem trans (h : Registers cronError s s' workflowId p)
    (h' : Registers cronError s' s'' workflowId q) :
    Registers cronError s s'' workflowId (p ∧ q) where
  sound hs := h'.sound (h.sound hs)
  other id hid := (h'.other id hid).trans (h.other id hid)
  none_iff := by rw [h'.none_iff, h.none_iff, and_assoc]

theorem congr (h : Registers cronError s s' workflowId p) (hpq : p ↔ q) :
    Registers cronError s s' workflowId q :=
  ⟨h.sound, h.other, by rw [h.none_iff, hpq]⟩

end Registers

variable {s : ScheduledTaskManager} {ctx : CronContext}

theorem cronsOf_set (crons : List CronContext) (workflowId id : String) :
    cronsOf ⟨s.cronsByWorkflow.set workflowId crons⟩ id =
      if id = workflowId then crons else s.cronsOf id := by
  unfold cronsOf
  rw [Dict.get?_set]
  split_ifs <;> rfl

theorem cronsOf_deregisterCrons (workflowId id : String) :
    (s.deregisterCrons workflowId).cronsOf id = if id = workflowId then [] else s.cronsOf id := by
  unfold deregisterCrons
  split_ifs with hnone hid hid
  · rw [hid, hnone]
  · rfl
  · simp [cronsOf, hid]
  · simp [cronsOf, Dict.get?_erase_of_ne _ hid]

variable (cronError) in
theorem registerCron_registers (s : ScheduledTaskManager) (ctx : CronContext) :
    Registers cronError s (s.registerCron cronError ctx).1 ctx.workflowId
      (cronError ctx.expression ctx.timezone ≠ none) := by
  unfold registerCron
  split_ifs with hmem
  · have hne : s.cronsOf ctx.workflowId ≠ [] := List.ne_nil_of_mem hmem
    exact ⟨id, fun _ _ => rfl, by simp only [hne, false_and]⟩
  · cases haccepted : cronError ctx.expression ctx.timezone with
    | some message => exact .refl (by simp)
    | none =>
      refine ⟨fun hs id => ?_, fun id hid => ?_, ?_⟩
      · simp only [cronsOf_set]
        split_ifs with hid
        · rw [List.forall_mem_append, List.forall_mem_singleton]
          exact ⟨hs _, haccepted⟩
        · exact hs id
      · simp only [cronsOf_set, if_neg hid]
      · simp [cronsOf_set]

theorem registerCrons_registers {workflowId : String} : ∀ {ctxs : List CronContext}
    (s : ScheduledTaskManager), (∀ ctx ∈ ctxs, ctx.workflowId = workflowId) →
      Registers cronError s (s.registerCrons cronError ctxs) workflowId
        (∀ ctx ∈ ctxs, cronError ctx.expression ctx.timezone ≠ none)
  | [], s, _ => .refl (by simp)
  | ctx :: ctxs, s, h => by
    rw [List.forall_mem_cons] at h
    obtain ⟨rfl, h⟩ := h
    exact ((registerCron_registers cronError s ctx).trans (registerCrons_registers _ h)).congr
      (by rw [List.forall_mem_cons])

/-- A cron that is registered already has been accepted before. -/
theorem registerCron_snd (ctx : CronContext) (hs : s.Sound cronError) :
    (s.registerCron cronError ctx).2 =
      match cronError ctx.expression ctx.timezone with
      | some message => .error message
      | none => .ok () := by
  unfold registerCron
  split_ifs with hmem
  · rw [hs _ ctx hmem]
  · cases cronError ctx.expression ctx.timezone <;> rfl

end ScheduledTaskManager

namespace ActiveWorkflows

open ScheduledTaskManager

variable {call : Activation} {s : ActiveWorkflows}

/-! ## Triggers -/

/-- The response of a trigger, with the number `n`. -/
def responseOf (n : ℕ) (run : TriggerRun) : Option TriggerResponse :=
  match run.result with
  | .responded hasCloseFunction => some { id := n, hasCloseFunction }
  | _ => none

/-- The responses of the triggers, numbered from `n`. -/
def responsesOf : ℕ → List TriggerRun → List TriggerResponse
  | _, [] => []
  | n, run :: runs =>
    (responseOf n run).toList ++ responsesOf (n + (responseOf n run).toList.length) runs

theorem responseOf_eq_some {n : ℕ} {run : TriggerRun} {response : TriggerResponse} :
    responseOf n run = some response ↔
      response.id = n ∧ run.result = .responded response.hasCloseFunction := by
  unfold responseOf
  cases run.result with
  | responded hasCloseFunction =>
    simp only [Option.some.injEq, TriggerResponse.ext_iff, TriggerResult.responded.injEq, eq_comm]
  | _ => simp

theorem mem_responsesOf {response : TriggerResponse} : ∀ {n : ℕ} {runs : List TriggerRun},
    response ∈ responsesOf n runs →
      n ≤ response.id ∧ response.id < n + (responsesOf n runs).length
  | n, run :: runs, h => by
    rw [responsesOf, List.mem_append, Option.mem_toList] at h
    rw [responsesOf, List.length_append]
    rcases h with h | h
    · have hlength := List.length_pos_of_mem (Option.mem_toList.2 h)
      obtain ⟨hid, -⟩ := responseOf_eq_some.1 h
      omega
    · have ih := mem_responsesOf h
      omega

theorem exists_closable_responsesOf : ∀ {n : ℕ} {runs : List TriggerRun},
    (∃ response ∈ responsesOf n runs, response.hasCloseFunction = true) ↔
      ∃ run ∈ runs, run.result = .responded true
  | n, [] => by simp [responsesOf]
  | n, run :: runs => by
    have hfirst : (∃ response ∈ (responseOf n run).toList, response.hasCloseFunction = true) ↔
        run.result = .responded true := by
      simp only [Option.mem_toList, responseOf_eq_some]
      constructor
      · rintro ⟨response, ⟨-, hresult⟩, hclose⟩
        rw [hresult, hclose]
      · intro hresult
        exact ⟨{ id := n, hasCloseFunction := true }, ⟨rfl, hresult⟩, rfl⟩
    rw [responsesOf, List.exists_mem_cons_iff, ← hfirst,
      ← exists_closable_responsesOf (n := n + (responseOf n run).toList.length)]
    simp only [List.mem_append, or_and_right, exists_or]

theorem responsesOf_eq_nil : ∀ {n : ℕ} {runs : List TriggerRun},
    (∀ run ∈ runs, run.fails = false) →
      (responsesOf n runs = [] ↔ ∀ run ∈ runs, run.result = .noResponse)
  | n, [], _ => by simp [responsesOf]
  | n, run :: runs, h => by
    rw [List.forall_mem_cons] at h ⊢
    have hfails := h.1
    unfold TriggerRun.fails at hfails
    rw [responsesOf, List.append_eq_nil_iff, responsesOf_eq_nil h.2]
    refine and_congr_left fun _ => ?_
    unfold responseOf
    cases hresult : run.result with
    | failed message => simp [hresult] at hfails
    | _ => simp

theorem responsesOf_append (runs' : List TriggerRun) : ∀ (n : ℕ) (runs : List TriggerRun),
    responsesOf n (runs ++ runs') =
      responsesOf n runs ++ responsesOf (n + (responsesOf n runs).length) runs'
  | n, [] => rfl
  | n, run :: runs => by
    rw [List.cons_append, responsesOf, responsesOf, responsesOf_append runs', List.append_assoc,
      List.length_append, Nat.add_assoc]

@[simp] theorem responsesOf_singleton (n : ℕ) (run : TriggerRun) :
    responsesOf n [run] = (responseOf n run).toList := List.append_nil _

/-- What the start of some triggers comes to: the responses that now run, the crons. -/
structure Started (cronError : String → String → Option String) (call : Activation)
    (s s' : ActiveWorkflows) (runs : List TriggerRun) : Prop where
  active : s'.activeWorkflows = s.activeWorkflows
  registers : Registers cronError s.scheduledTaskManager s'.scheduledTaskManager call.workflowId
    (∀ run ∈ runs, run.accepted cronError call = [])
  running : ∀ entry, entry ∈ s'.running ↔ entry ∈ s.running ∨
    entry.1 = call.workflowId ∧ entry.2 ∈ responsesOf s.nextResponse runs ∧ entry.2.hasCloseFunction
  next : s'.nextResponse = s.nextResponse + (responsesOf s.nextResponse runs).length

theorem accepted_eq_nil {run : TriggerRun} : run.accepted cronError call = [] ↔
    ∀ ctx ∈ run.crons.map (call.context run.nodeId),
      cronError ctx.expression ctx.timezone ≠ none := by
  simp [TriggerRun.accepted, Activation.context, List.filter_eq_nil_iff, Option.isNone_iff_eq_none]

variable (cronError call s) in
theorem runTrigger_started (run : TriggerRun) :
    Started cronError call s (runTrigger cronError call s run).1 [run] := by
  have hregisters : Registers cronError s.scheduledTaskManager
      (s.scheduledTaskManager.registerCrons cronError (run.crons.map (call.context run.nodeId)))
      call.workflowId (∀ r ∈ [run], r.accepted cronError call = []) := by
    refine (registerCrons_registers _ fun ctx hctx => ?_).congr ?_
    · obtain ⟨cron, -, rfl⟩ := List.mem_map.1 hctx
      exact call.own
    · rw [List.forall_mem_singleton, accepted_eq_nil]
  unfold runTrigger
  cases hresult : run.result with
  | responded hasCloseFunction =>
    refine ⟨rfl, hregisters, fun entry => ?_, by simp [responseOf, hresult]⟩
    simp only [responsesOf_singleton, Option.mem_toList, responseOf_eq_some, hresult,
      TriggerResult.responded.injEq]
    cases hasCloseFunction with
    | false =>
      refine (or_iff_left ?_).symm
      rintro ⟨-, ⟨-, hnot⟩, hclose⟩
      exact Bool.false_ne_true (hnot.trans hclose)
    | true =>
      simp only [if_true, List.mem_append, List.mem_singleton, Prod.ext_iff,
        TriggerResponse.ext_iff]
      refine or_congr_right ⟨fun ⟨hid, hn, hclose⟩ => ⟨hid, ⟨hn, hclose.symm⟩, hclose⟩, ?_⟩
      exact fun ⟨hid, ⟨hn, _⟩, hclose⟩ => ⟨hid, hn, hclose⟩
  | _ => exact ⟨rfl, hregisters, by simp [responseOf, hresult], by simp [responseOf, hresult]⟩

variable (cronError call s) in
theorem runTrigger_snd (run : TriggerRun) :
    if run.fails then ∃ message, (runTrigger cronError call s run).2 = .error message
    else (runTrigger cronError call s run).2 = .ok (responseOf s.nextResponse run) := by
  unfold runTrigger responseOf TriggerRun.fails
  cases run.result <;> simp

theorem Started.trans {s' s'' : ActiveWorkflows} {runs runs' : List TriggerRun}
    (h : Started cronError call s s' runs) (h' : Started cronError call s' s'' runs') :
    Started cronError call s s'' (runs ++ runs') where
  active := h'.active.trans h.active
  registers := (h.registers.trans h'.registers).congr (by rw [List.forall_mem_append])
  running entry := by
    rw [h'.running, h.running, responsesOf_append, ← h.next, List.mem_append]
    tauto
  next := by
    rw [h'.next, h.next, responsesOf_append, List.length_append]
    omega

variable (cronError call) in
/-- The triggers are started up to the first that fails. -/
theorem startTriggers_started : ∀ (s : ActiveWorkflows) (triggerResponses : List TriggerResponse)
    (runs : List TriggerRun),
    Started cronError call s (startTriggers cronError call s triggerResponses runs).1
      (reached TriggerRun.fails runs)
  | s, triggerResponses, [] =>
    ⟨rfl, .refl (by simp [reached]), by simp [reached, responsesOf, startTriggers], rfl⟩
  | s, triggerResponses, run :: runs => by
    have hrun := runTrigger_started cronError call s run
    have hsnd := runTrigger_snd cronError call s run
    unfold startTriggers reached
    rcases htrigger : runTrigger cronError call s run with ⟨s', outcome⟩
    rw [htrigger] at hrun hsnd
    split_ifs at hsnd ⊢
    · obtain ⟨message, rfl⟩ := hsnd
      exact hrun
    · obtain rfl := hsnd
      exact hrun.trans (startTriggers_started s' _ runs)

variable (cronError call) in
theorem startTriggers_snd : ∀ (s : ActiveWorkflows) (triggerResponses : List TriggerResponse)
    (runs : List TriggerRun),
    if runs.any TriggerRun.fails then
      ∃ error, (startTriggers cronError call s triggerResponses runs).2 = .error error
    else
      (startTriggers cronError call s triggerResponses runs).2 =
        .ok (triggerResponses ++ responsesOf s.nextResponse runs)
  | s, triggerResponses, [] => by simp [startTriggers, responsesOf]
  | s, triggerResponses, run :: runs => by
    have hnext := (runTrigger_started cronError call s run).next
    have hsnd := runTrigger_snd cronError call s run
    unfold startTriggers
    rcases htrigger : runTrigger cronError call s run with ⟨s', outcome⟩
    rw [htrigger] at hnext hsnd
    rw [List.any_cons]
    split_ifs at hsnd with hfails
    · obtain ⟨message, rfl⟩ := hsnd
      simp [hfails]
    · obtain rfl := hsnd
      have ih := startTriggers_snd s'
        (triggerResponses ++ (responseOf s.nextResponse run).toList) runs
      rw [hnext, responsesOf_singleton, List.append_assoc] at ih
      rwa [Bool.eq_false_of_not_eq_true hfails, Bool.false_or]

/-! ## Pollers -/

/-- The expressions are registered up to the first that is not accepted. -/
theorem registerPolls_registers (nodeId : String) : ∀ {manager : ScheduledTaskManager}
    (expressions : List String), manager.Sound cronError →
    Registers cronError manager (registerPolls cronError call nodeId manager expressions).1
      call.workflowId (expressions.takeWhile (PollRun.accepts cronError call) = []) ∧
    if expressions.any (!PollRun.accepts cronError call ·) then
      ∃ message, (registerPolls cronError call nodeId manager expressions).2 = .error message
    else (registerPolls cronError call nodeId manager expressions).2 = .ok ()
  | manager, [], _ => ⟨.refl rfl, rfl⟩
  | manager, expression :: expressions, hs => by
    unfold registerPolls
    rw [List.takeWhile_cons, List.any_cons]
    by_cases hshort : tooShort expression = true
    · have haccepts : PollRun.accepts cronError call expression = false := by
        simp [PollRun.accepts, hshort]
      simp only [hshort, haccepts, if_true, Bool.not_false, Bool.true_or]
      exact ⟨.refl rfl, _, rfl⟩
    · have hcron := registerCron_registers cronError manager
        (call.context nodeId { expression })
      have hsnd := registerCron_snd (call.context nodeId { expression }) hs
      rw [if_neg hshort]
      rcases hregister : manager.registerCron cronError (call.context nodeId { expression })
        with ⟨manager', outcome⟩
      rw [hregister] at hcron hsnd
      have hcontext : (call.context nodeId { expression }).workflowId = call.workflowId := call.own
      rw [hcontext] at hcron
      cases herror : cronError expression call.timezone with
      | some message =>
        have haccepts : PollRun.accepts cronError call expression = false := by
          simp [PollRun.accepts, herror]
        simp only [Activation.context, herror] at hcron hsnd
        obtain rfl : outcome = .error message := hsnd
        simp only [haccepts, Bool.not_false, Bool.true_or, if_true, Bool.false_eq_true, if_false]
        exact ⟨hcron.congr (by simp), message, rfl⟩
      | none =>
        have haccepts : PollRun.accepts cronError call expression = true := by
          simp [PollRun.accepts, hshort, herror]
        simp only [Activation.context, herror] at hcron hsnd
        obtain rfl : outcome = .ok () := hsnd
        have ih := registerPolls_registers nodeId expressions (hcron.sound hs)
        simp only [haccepts, Bool.not_true, Bool.false_or, if_true]
        exact ⟨(hcron.trans ih.1).congr (by simp), ih.2⟩

variable (call) in
theorem activatePolling_registers {manager : ScheduledTaskManager} (run : PollRun)
    (hs : manager.Sound cronError) :
    Registers cronError manager (activatePolling cronError call manager run).1 call.workflowId
      (run.accepted cronError call = []) ∧
    if run.fails cronError call then
      ∃ message, (activatePolling cronError call manager run).2 = .error message
    else (activatePolling cronError call manager run).2 = .ok () := by
  unfold activatePolling PollRun.accepted PollRun.fails
  cases run.test with
  | some message => exact ⟨.refl rfl, message, rfl⟩
  | none => exact registerPolls_registers run.nodeId run.cronExpressions hs

variable (call) in
/-- The pollers are activated up to the first that fails. -/
theorem activatePolls_registers (triggerResponses : List TriggerResponse) :
    ∀ {s : ActiveWorkflows} (runs : List PollRun), s.scheduledTaskManager.Sound cronError →
    Registers cronError s.scheduledTaskManager
      (activatePolls cronError call triggerResponses s runs).1.scheduledTaskManager call.workflowId
      (∀ run ∈ reached (PollRun.fails · cronError call) runs, run.accepted cronError call = [])
  | s, [], _ => .refl (by simp [reached])
  | s, run :: runs, hs => by
    obtain ⟨hrun, hsnd⟩ := activatePolling_registers call run hs
    unfold activatePolls reached
    rcases hpolling : activatePolling cronError call s.scheduledTaskManager run with
      ⟨manager, outcome⟩
    rw [hpolling] at hrun hsnd
    split_ifs at hsnd with hfails
    · obtain ⟨message, rfl⟩ := hsnd
      rw [if_pos hfails]
      refine Registers.congr (p := run.accepted cronError call = []) ?_ (by simp)
      dsimp only
      split_ifs <;> exact hrun
    · obtain rfl := hsnd
      rw [if_neg hfails]
      have ih := activatePolls_registers triggerResponses
        (s := { s with scheduledTaskManager := manager }) runs (hrun.sound hs)
      exact (hrun.trans ih).congr (by rw [List.forall_mem_cons])

variable (call) in
theorem activatePolls_active (triggerResponses : List TriggerResponse) :
    ∀ {s : ActiveWorkflows} (runs : List PollRun), s.scheduledTaskManager.Sound cronError →
    (activatePolls cronError call triggerResponses s runs).1.activeWorkflows =
      if runs.any (·.fails cronError call) ∧ triggerResponses = [] then
        s.activeWorkflows.erase call.workflowId
      else s.activeWorkflows
  | s, [], _ => rfl
  | s, run :: runs, hs => by
    obtain ⟨hrun, hsnd⟩ := activatePolling_registers call run hs
    unfold activatePolls
    rcases hpolling : activatePolling cronError call s.scheduledTaskManager run with
      ⟨manager, outcome⟩
    rw [hpolling] at hrun hsnd
    rw [List.any_cons]
    split_ifs at hsnd with hfails
    · obtain ⟨message, rfl⟩ := hsnd
      simp only [hfails, Bool.true_or, true_and]
      split_ifs <;> rfl
    · obtain rfl := hsnd
      rw [Bool.eq_false_of_not_eq_true hfails, Bool.false_or]
      exact activatePolls_active triggerResponses runs (hrun.sound hs)

variable (cronError call) in
theorem activatePolls_running (triggerResponses : List TriggerResponse) :
    ∀ (s : ActiveWorkflows) (runs : List PollRun),
    (activatePolls cronError call triggerResponses s runs).1.running = s.running ∧
    (activatePolls cronError call triggerResponses s runs).1.nextResponse = s.nextResponse
  | s, [] => ⟨rfl, rfl⟩
  | s, run :: runs => by
    unfold activatePolls
    rcases activatePolling cronError call s.scheduledTaskManager run with ⟨manager, message | _⟩
    · dsimp only
      split_ifs <;> exact ⟨rfl, rfl⟩
    · exact activatePolls_running triggerResponses _ runs

/-! ## Calls -/

variable (cronError) in
/-- What holds of every state, whether or not there are orphans in it. -/
structure WellFormed (s : ActiveWorkflows) : Prop where
  sound : s.scheduledTaskManager.Sound cronError
  fresh : ∀ workflowId, ∀ response ∈ s.triggerResponses workflowId, response.id < s.nextResponse
  closable : ∀ entry ∈ s.running, entry.2.hasCloseFunction = true

/-- The state after a call of `add`, by the outcome of the triggers. -/
theorem add_of_fails (h : call.triggers.any TriggerRun.fails = true) :
    (s.add cronError call).1 = (startTriggers cronError call s [] call.triggers).1 := by
  have hsnd := startTriggers_snd cronError call s [] call.triggers
  rw [if_pos h] at hsnd
  obtain ⟨error, hsnd⟩ := hsnd
  unfold add
  rcases hstart : startTriggers cronError call s [] call.triggers with ⟨s', outcome⟩
  rw [hstart] at hsnd
  obtain rfl : outcome = .error error := hsnd
  rfl

theorem add_of_not_fails (h : ¬ call.triggers.any TriggerRun.fails = true) :
    (s.add cronError call).1 =
      (activatePolls cronError call (responsesOf s.nextResponse call.triggers)
        { (startTriggers cronError call s [] call.triggers).1 with
          activeWorkflows := s.activeWorkflows.set call.workflowId
            (responsesOf s.nextResponse call.triggers) } call.polls).1 := by
  have hactive := (startTriggers_started cronError call s [] call.triggers).active
  have hsnd := startTriggers_snd cronError call s [] call.triggers
  rw [if_neg h, List.nil_append] at hsnd
  unfold add
  rcases hstart : startTriggers cronError call s [] call.triggers with ⟨s', outcome⟩
  rw [hstart] at hsnd hactive
  obtain rfl := hsnd
  rw [← hactive]

/-- What an activation whose triggers all start comes to. -/
structure Added (cronError : String → String → Option String) (call : Activation)
    (s s' : ActiveWorkflows) : Prop where
  registers : Registers cronError s.scheduledTaskManager s'.scheduledTaskManager call.workflowId
    ((∀ run ∈ call.triggers, run.accepted cronError call = []) ∧
      ∀ run ∈ reached (PollRun.fails · cronError call) call.polls, run.accepted cronError call = [])
  running : ∀ entry, entry ∈ s'.running ↔ entry ∈ s.running ∨ entry.1 = call.workflowId ∧
    entry.2 ∈ responsesOf s.nextResponse call.triggers ∧ entry.2.hasCloseFunction
  next : s'.nextResponse = s.nextResponse + (responsesOf s.nextResponse call.triggers).length
  get : ∀ id, s'.activeWorkflows.get? id =
    if id = call.workflowId then
      if call.polls.any (·.fails cronError call) ∧ responsesOf s.nextResponse call.triggers = [] then
        none
      else some (responsesOf s.nextResponse call.triggers)
    else s.activeWorkflows.get? id

theorem add_added (h : ¬ call.triggers.any TriggerRun.fails = true)
    (hsound : s.scheduledTaskManager.Sound cronError) :
    Added cronError call s (s.add cronError call).1 := by
  have hnone : ∀ run ∈ call.triggers, run.fails = false := by simpa using h
  have hstarted := startTriggers_started cronError call s [] call.triggers
  rw [reached_eq_self hnone] at hstarted
  rw [add_of_not_fails h]
  set s₁ := (startTriggers cronError call s [] call.triggers).1
  set responses := responsesOf s.nextResponse call.triggers
  set s₂ : ActiveWorkflows :=
    { s₁ with activeWorkflows := s.activeWorkflows.set call.workflowId responses }
  have hsound₂ : s₂.scheduledTaskManager.Sound cronError := hstarted.registers.sound hsound
  have hrunning := activatePolls_running cronError call responses s₂ call.polls
  have hactive := activatePolls_active call responses (s := s₂) call.polls hsound₂
  have hregisters := activatePolls_registers call responses call.polls hsound₂
  refine ⟨hstarted.registers.trans hregisters, fun entry => ?_,
    hrunning.2.trans hstarted.next, fun id => ?_⟩
  · rw [hrunning.1]
    exact hstarted.running entry
  · rw [hactive]
    by_cases hid : id = call.workflowId
    · rw [if_pos hid, hid]
      split_ifs
      · exact Dict.get?_erase_self _ _
      · exact Dict.get?_set_self _ _ _
    · rw [if_neg hid]
      split_ifs
      · exact (Dict.get?_erase_of_ne _ hid).trans (Dict.get?_set_of_ne _ hid _)
      · exact Dict.get?_set_of_ne _ hid _

theorem Added.responses {s' : ActiveWorkflows} (h : Added cronError call s s') (id : String) :
    s'.triggerResponses id = if id = call.workflowId then
      responsesOf s.nextResponse call.triggers else s.triggerResponses id := by
  unfold triggerResponses
  rw [h.get]
  split_ifs with hid hdeleted
  · rw [hdeleted.2, Option.getD_none]
  · rfl
  · rfl

theorem Added.active {s' : ActiveWorkflows} (h : Added cronError call s s') :
    s'.isActive call.workflowId = true ↔ ¬ (call.polls.any (·.fails cronError call) ∧
      responsesOf s.nextResponse call.triggers = []) := by
  unfold isActive
  rw [h.get, if_pos rfl]
  split_ifs with hdeleted
  · exact iff_of_false Bool.false_ne_true fun h => h hdeleted
  · exact iff_of_true rfl hdeleted

theorem Added.active_of_ne {s' : ActiveWorkflows} (h : Added cronError call s s') {id : String}
    (hid : id ≠ call.workflowId) : s'.isActive id = s.isActive id := by
  unfold isActive
  rw [h.get, if_neg hid]

theorem add_wellFormed (hs : s.WellFormed cronError) :
    (s.add cronError call).1.WellFormed cronError := by
  have hstarted := startTriggers_started cronError call s [] call.triggers
  by_cases h : call.triggers.any TriggerRun.fails = true
  · rw [add_of_fails h]
    refine ⟨hstarted.registers.sound hs.sound, fun id response hresponse => ?_,
      fun entry hentry => ?_⟩
    · have hold : response ∈ s.triggerResponses id := by
        unfold triggerResponses at hresponse ⊢
        rwa [hstarted.active] at hresponse
      have hlt := hs.fresh id response hold
      rw [hstarted.next]
      omega
    · rcases (hstarted.running entry).1 hentry with hold | ⟨-, -, hclose⟩
      · exact hs.closable entry hold
      · exact hclose
  · have hadded := add_added h hs.sound
    refine ⟨hadded.registers.sound hs.sound, fun id response hresponse => ?_,
      fun entry hentry => ?_⟩
    · rw [hadded.responses] at hresponse
      rw [hadded.next]
      split_ifs at hresponse
      · exact (mem_responsesOf hresponse).2
      · have hlt := hs.fresh id response hresponse
        omega
    · rcases (hadded.running entry).1 hentry with hold | ⟨-, -, hclose⟩
      · exact hs.closable entry hold
      · exact hclose

/-- A response that no workflow knows yet. -/
theorem not_mem_of_fresh (hs : s.WellFormed cronError) {runs : List TriggerRun}
    {response : TriggerResponse} (h : response ∈ responsesOf s.nextResponse runs) (id : String) :
    response ∉ s.triggerResponses id := by
  intro hmem
  have hlt := hs.fresh id response hmem
  have hle := (mem_responsesOf h).1
  omega

/-- Where a trigger fails, nothing is recorded. -/
theorem noOrphans_of_fails (hs : s.WellFormed cronError) (hno : s.NoOrphans)
    (h : call.triggers.any TriggerRun.fails = true) :
    (s.add cronError call).1.NoOrphans ↔
      (∀ run ∈ reached TriggerRun.fails call.triggers, run.result ≠ .responded true) ∧
      (s.isActive call.workflowId ∨
        ∀ run ∈ reached TriggerRun.fails call.triggers, run.accepted cronError call = []) := by
  rw [add_of_fails h]
  have hstarted := startTriggers_started cronError call s [] call.triggers
  set s' := (startTriggers cronError call s [] call.triggers).1
  have hresponses : ∀ id, s'.triggerResponses id = s.triggerResponses id := fun id => by
    unfold triggerResponses
    rw [hstarted.active]
  have hactive : ∀ id, s'.isActive id = s.isActive id := fun id => by
    unfold isActive
    rw [hstarted.active]
  constructor
  · intro hno'
    refine ⟨fun run hrun hresult => ?_, ?_⟩
    · obtain ⟨response, hmem, hclose⟩ :=
        (exists_closable_responsesOf (n := s.nextResponse)).2 ⟨run, hrun, hresult⟩
      have htracked := (hno'.triggers (call.workflowId, response)
        ((hstarted.running _).2 (.inr ⟨rfl, hmem, hclose⟩))).2
      rw [hresponses] at htracked
      exact not_mem_of_fresh hs hmem _ htracked
    · by_cases hnone : s'.scheduledTaskManager.cronsOf call.workflowId = []
      · exact .inr (hstarted.registers.none_iff.1 hnone).2
      · exact .inl ((hactive _).symm.trans (hno'.crons _ hnone))
  · rintro ⟨hresult, hcrons⟩
    refine ⟨fun entry hentry => ?_, fun id hid => ?_⟩
    · rw [hactive, hresponses]
      rcases (hstarted.running entry).1 hentry with hold | ⟨-, hmem, hclose⟩
      · exact hno.triggers entry hold
      · obtain ⟨run, hrun, hclosable⟩ := exists_closable_responsesOf.1 ⟨entry.2, hmem, hclose⟩
        exact absurd hclosable (hresult run hrun)
    · rw [hactive]
      by_cases hother : id = call.workflowId
      · subst hother
        rcases hcrons with hactive | hnone
        · exact hactive
        · refine hno.crons _ fun hold => hid ?_
          exact hstarted.registers.none_iff.2 ⟨hold, hnone⟩
      · rw [hstarted.registers.other id hother] at hid
        exact hno.crons id hid

/-- Where all triggers start, the workflow has the responses of these triggers only. -/
theorem noOrphans_of_not_fails (hs : s.WellFormed cronError) (hno : s.NoOrphans)
    (h : ¬ call.triggers.any TriggerRun.fails = true) :
    (s.add cronError call).1.NoOrphans ↔
      (∀ entry ∈ s.running, entry.1 ≠ call.workflowId) ∧
      (call.polls.any (·.fails cronError call) → (∀ run ∈ call.triggers, run.result = .noResponse) →
        s.scheduledTaskManager.cronsOf call.workflowId = [] ∧
        (∀ run ∈ call.triggers, run.accepted cronError call = []) ∧
        ∀ run ∈ reached (PollRun.fails · cronError call) call.polls,
          run.accepted cronError call = []) := by
  have hadded := add_added h hs.sound
  have hnil : responsesOf s.nextResponse call.triggers = [] ↔
      ∀ run ∈ call.triggers, run.result = .noResponse := responsesOf_eq_nil (by simpa using h)
  rw [← hnil, ← hadded.registers.none_iff]
  constructor
  · intro hno'
    refine ⟨fun entry hentry hfor => ?_, fun hfails hnone => ?_⟩
    · have hnew := (hno'.triggers entry ((hadded.running entry).2 (.inl hentry))).2
      rw [hadded.responses, if_pos hfor] at hnew
      exact not_mem_of_fresh hs hnew _ (hno.triggers entry hentry).2
    · by_contra hcron
      exact hadded.active.1 (hno'.crons _ hcron) ⟨hfails, hnone⟩
  · rintro ⟨hnone, hcrons⟩
    refine ⟨fun entry hentry => ?_, fun id hid => ?_⟩
    · rcases (hadded.running entry).1 hentry with hold | ⟨hfor, hmem, -⟩
      · have hne := hnone entry hold
        rw [hadded.active_of_ne hne, hadded.responses, if_neg hne]
        exact hno.triggers entry hold
      · rw [hadded.responses, if_pos hfor, hfor]
        exact ⟨hadded.active.2 fun hdeleted => List.ne_nil_of_mem hmem hdeleted.2, hmem⟩
    · by_cases hother : id = call.workflowId
      · subst hother
        exact hadded.active.2 fun hdeleted => hid (hcrons hdeleted.1 hdeleted.2)
      · rw [hadded.active_of_ne hother]
        rw [hadded.registers.other id hother] at hid
        exact hno.crons id hid

theorem add_noOrphans_iff (hs : s.WellFormed cronError) (hno : s.NoOrphans) :
    (s.add cronError call).1.NoOrphans ↔ s.KeepsTrack cronError (.add call) := by
  simp only [KeepsTrack]
  split_ifs with h
  · exact noOrphans_of_fails hs hno h
  · exact noOrphans_of_not_fails hs hno h

/-! ## Removal -/

/-- The loop closes the triggers up to one that cannot be closed. -/
theorem closeTriggers_frame (workflowId : String) (closing : TriggerResponse → Closing) :
    ∀ (s : ActiveWorkflows) (responses : List TriggerResponse),
      (closeTriggers workflowId closing s responses).1 =
        { s with running := (closeTriggers workflowId closing s responses).1.running }
  | s, [] => rfl
  | s, response :: responses => by
    unfold closeTriggers
    split_ifs
    · exact closeTriggers_frame workflowId closing s responses
    · cases closing response with
      | failed message => rfl
      | _ =>
        exact closeTriggers_frame workflowId closing
          { s with running := s.running.filter (· ≠ (workflowId, response)) } responses

theorem closeTriggers_subset (workflowId : String) (closing : TriggerResponse → Closing) :
    ∀ (s : ActiveWorkflows) (responses : List TriggerResponse),
      ∀ entry ∈ (closeTriggers workflowId closing s responses).1.running, entry ∈ s.running
  | s, [], entry, h => h
  | s, response :: responses, entry, h => by
    unfold closeTriggers at h
    split_ifs at h
    · exact closeTriggers_subset workflowId closing s responses entry h
    · cases hclosing : closing response with
      | failed message =>
        rw [hclosing] at h
        exact List.mem_of_mem_filter h
      | _ =>
        rw [hclosing] at h
        exact List.mem_of_mem_filter (closeTriggers_subset workflowId closing _ responses entry h)

/-- Once the loop is through, none of the triggers runs any more. -/
theorem closeTriggers_closed (workflowId : String) (closing : TriggerResponse → Closing) :
    ∀ (s : ActiveWorkflows) (responses : List TriggerResponse),
      (closeTriggers workflowId closing s responses).2 = .ok () →
      ∀ response ∈ responses, response.hasCloseFunction = true →
        (workflowId, response) ∉ (closeTriggers workflowId closing s responses).1.running
  | _, [], _ => by simp
  | s, first :: responses, hok => by
    rw [List.forall_mem_cons]
    unfold closeTriggers at hok ⊢
    split_ifs at hok ⊢ with hopen
    · refine ⟨fun hclose => ?_, closeTriggers_closed workflowId closing _ responses hok⟩
      rw [hclose] at hopen
      cases hopen
    · cases hclosing : closing first with
      | failed message =>
        rw [hclosing] at hok
        cases hok
      | _ =>
        rw [hclosing] at hok
        refine ⟨fun _ hmem => ?_, closeTriggers_closed workflowId closing _ responses hok⟩
        have hkept := closeTriggers_subset workflowId closing _ responses _ hmem
        simp at hkept

/-- What the removal of an active workflow comes to, by whether it succeeds. -/
structure Removed (s s' : ActiveWorkflows) (workflowId : String) (ok : Prop) : Prop where
  running : ∀ entry ∈ s'.running, entry ∈ s.running
  closed : ok → ∀ response ∈ s.triggerResponses workflowId, response.hasCloseFunction = true →
    (workflowId, response) ∉ s'.running
  manager : s'.scheduledTaskManager = s.scheduledTaskManager.deregisterCrons workflowId
  kept : ¬ ok → s'.activeWorkflows = s.activeWorkflows
  erased : ok → s'.activeWorkflows = s.activeWorkflows.erase workflowId
  next : s'.nextResponse = s.nextResponse

theorem remove_removed (workflowId : String) (closing : TriggerResponse → Closing)
    (hactive : s.isActive workflowId = true) :
    Removed s (s.remove workflowId closing).1 workflowId
      ((s.remove workflowId closing).2 = .ok true) := by
  set s₀ : ActiveWorkflows :=
    { s with scheduledTaskManager := s.scheduledTaskManager.deregisterCrons workflowId } with hs₀
  have hframe := closeTriggers_frame workflowId closing s₀ (s.triggerResponses workflowId)
  have hsubset := closeTriggers_subset workflowId closing s₀ (s.triggerResponses workflowId)
  have hclosed := closeTriggers_closed workflowId closing s₀ (s.triggerResponses workflowId)
  rcases hloop : closeTriggers workflowId closing s₀ (s.triggerResponses workflowId) with
    ⟨s₁, error | _⟩
  · have hremove : s.remove workflowId closing = (s₁, .error error) := by
      simp only [remove, hactive, Bool.not_true, Bool.false_eq_true, if_false]
      rw [← hs₀, show s₀.triggerResponses workflowId = s.triggerResponses workflowId from rfl,
        hloop]
    rw [hremove]
    rw [hloop] at hframe hsubset
    dsimp only at hframe ⊢
    rw [hframe]
    exact ⟨hsubset, nofun, rfl, fun _ => rfl, nofun, rfl⟩
  · have hremove : s.remove workflowId closing =
        ({ s₁ with activeWorkflows := s₁.activeWorkflows.erase workflowId }, .ok true) := by
      simp only [remove, hactive, Bool.not_true, Bool.false_eq_true, if_false]
      rw [← hs₀, show s₀.triggerResponses workflowId = s.triggerResponses workflowId from rfl,
        hloop]
    rw [hremove]
    rw [hloop] at hframe hsubset hclosed
    dsimp only at hframe hclosed ⊢
    rw [hframe]
    exact ⟨hsubset, fun _ => hclosed rfl, rfl, fun h => absurd rfl h, fun _ => rfl, rfl⟩

theorem remove_of_not_active (workflowId : String) (closing : TriggerResponse → Closing)
    (hactive : ¬ s.isActive workflowId = true) : s.remove workflowId closing = (s, .ok false) := by
  simp [remove, hactive]

theorem remove_wellFormed (hs : s.WellFormed cronError) (workflowId : String)
    (closing : TriggerResponse → Closing) :
    (s.remove workflowId closing).1.WellFormed cronError := by
  by_cases hactive : s.isActive workflowId = true
  · have hremoved := remove_removed workflowId closing hactive
    refine ⟨fun id ctx hctx => ?_, fun id response hresponse => ?_, fun entry hentry => ?_⟩
    · rw [hremoved.manager, cronsOf_deregisterCrons] at hctx
      split_ifs at hctx
      · cases hctx
      · exact hs.sound id ctx hctx
    · rw [hremoved.next]
      refine hs.fresh id response ?_
      unfold triggerResponses at hresponse ⊢
      by_cases hok : (s.remove workflowId closing).2 = .ok true
      · rw [hremoved.erased hok, Dict.get?_erase] at hresponse
        split_ifs at hresponse
        · cases hresponse
        · exact hresponse
      · rwa [hremoved.kept hok] at hresponse
    · exact hs.closable entry (hremoved.running entry hentry)
  · rwa [remove_of_not_active workflowId closing hactive]

/-- After a successful removal, what still runs is of other workflows. -/
theorem remove_removable (hs : s.WellFormed cronError) (hno : s.NoOrphans) : s.Removable := by
  intro workflowId closing hok
  by_cases hactive : s.isActive workflowId = true
  · have hremoved := remove_removed workflowId closing hactive
    refine ⟨fun entry hentry hfor => ?_, ?_⟩
    · obtain rfl := hfor
      have hold := hremoved.running entry hentry
      exact hremoved.closed hok entry.2 (hno.triggers entry hold).2 (hs.closable entry hold) hentry
    · rw [hremoved.manager, cronsOf_deregisterCrons, if_pos rfl]
  · rw [remove_of_not_active workflowId closing hactive] at hok
    cases hok

theorem remove_noOrphans (hs : s.WellFormed cronError) (hno : s.NoOrphans) (workflowId : String)
    (closing : TriggerResponse → Closing) : (s.remove workflowId closing).1.NoOrphans := by
  by_cases hactive : s.isActive workflowId = true
  · have hremoved := remove_removed workflowId closing hactive
    have hothers : ∀ id ≠ workflowId,
        (s.remove workflowId closing).1.activeWorkflows.get? id = s.activeWorkflows.get? id := by
      intro id hid
      by_cases hok : (s.remove workflowId closing).2 = .ok true
      · rw [hremoved.erased hok, Dict.get?_erase_of_ne _ hid]
      · rw [hremoved.kept hok]
    refine ⟨fun entry hentry => ?_, fun id hid => ?_⟩
    · have htracked := hno.triggers entry (hremoved.running entry hentry)
      unfold isActive triggerResponses at htracked ⊢
      by_cases hfor : entry.1 = workflowId
      · have hok : ¬ (s.remove workflowId closing).2 = .ok true := fun hok =>
          (remove_removable hs hno workflowId closing hok).1 entry hentry hfor
        rwa [hremoved.kept hok]
      · rwa [hothers entry.1 hfor]
    · rw [hremoved.manager, cronsOf_deregisterCrons] at hid
      split_ifs at hid with hfor
      · exact absurd rfl hid
      · have hisActive := hno.crons id hid
        unfold isActive at hisActive ⊢
        rwa [hothers id hfor]
  · rwa [remove_of_not_active workflowId closing hactive]

/-! ## Runs -/

theorem step_wellFormed (hs : s.WellFormed cronError) (call : ActivationCall) :
    (step cronError s call).WellFormed cronError := by
  cases call with
  | add call => exact add_wellFormed hs
  | remove workflowId closing => exact remove_wellFormed hs workflowId closing

theorem step_noOrphans_iff (hs : s.WellFormed cronError) (hno : s.NoOrphans)
    (call : ActivationCall) :
    (step cronError s call).NoOrphans ↔ s.KeepsTrack cronError call := by
  cases call with
  | add call => exact add_noOrphans_iff hs hno
  | remove workflowId closing =>
    exact iff_of_true (remove_noOrphans hs hno workflowId closing) trivial

/-- Along a run of calls, what runs is known to an active workflow that one removal can stop,
exactly when each activation keeps track. -/
theorem no_orphans_iff (cronError : String → String → Option String) (calls : List ActivationCall) :
    Runs.Along (step cronError) (fun s => s.NoOrphans ∧ s.Removable) {} calls ↔
      Runs.Meets (step cronError) (KeepsTrack cronError) {} calls := by
  refine Runs.along_iff_meets (G := fun _ _ => True)
    (I := fun s => s.WellFormed cronError ∧ s.NoOrphans)
    (fun s hs => ⟨hs.2, remove_removable hs.1 hs.2⟩)
    (fun s call hs _ hkeeps => ⟨step_wellFormed hs.1 call,
      (step_noOrphans_iff hs.1 hs.2 call).2 hkeeps⟩)
    (fun s call hs _ hkeeps h => hkeeps ((step_noOrphans_iff hs.1 hs.2 call).1 h.1))
    ⟨⟨nofun, nofun, nofun⟩, nofun, fun id hid => absurd rfl hid⟩
    (Runs.meets_of_forall fun _ _ => trivial)

/-- A workflow with two triggers, of which the second does not start. -/
def secondFails : Activation where
  workflowId := "workflow"
  id := "workflow"
  timezone := "UTC"
  triggers := [{ nodeId := "first", result := .responded true },
    { nodeId := "second", result := .failed "refused" }]
  polls := []
  own := rfl

/-- The first trigger is left running, of a workflow that is not active. -/
theorem second_fails_orphans_first : ¬ Runs.Along (step fun _ _ => none)
    (fun s => s.NoOrphans ∧ s.Removable) {} [.add secondFails] := by
  intro h
  have hno := h.last.1.triggers ("workflow", { id := 0, hasCloseFunction := true }) (by decide)
  exact absurd hno.1 (by decide)

end ActiveWorkflows

end N8n
