import Mathlib.Tactic
import N8n.Library.Runs
import N8n.ActiveExecutions

/-!
# The capacity of active executions

A release hangs on the promise of an entry, and only a call that finds the entry settles it. So a
throttle is lost where an entry is dropped before its promise has settled, and where a call of
`add` fails after the throttle.
-/

namespace N8n

namespace ActiveExecutions

variable {s : ActiveExecutions} {call : ℕ}

/-! ## Stages -/

/-- The call has taken its throttle, and has not failed. -/
def AddStage.isThrottled : AddStage → Bool
  | .saving _ | .added _ => true
  | _ => false

/-- The callback of the execution has run. -/
def AddStage.isReleased : AddStage → Bool
  | .added execution => execution.postExecutePromise = .handled
  | _ => false

theorem getElem?_setStage (s : ActiveExecutions) (call n : ℕ) (stage : AddStage) :
    (s.setStage call stage).calls[n]? =
      if n = call then s.calls[call]?.map fun c => { c with stage } else s.calls[n]? := by
  unfold setStage
  rw [List.getElem?_modify]
  split_ifs with h h' h'
  · rw [h]
    rfl
  · exact absurd h.symm h'
  · exact absurd h'.symm h
  · simp

theorem execution?_eq_some {execution : Execution} :
    s.execution? call = some execution ↔
      ∃ executionMode, s.calls[call]? = some ⟨executionMode, .added execution⟩ := by
  unfold execution?
  split
  · next executionMode execution' h => simp [h]
  · next h =>
    simp only [reduceCtorEq, false_iff, not_exists]
    exact fun executionMode hcall => h executionMode execution hcall

/-- The execution of a stage, once it has one. -/
def AddStage.execution? : AddStage → Option Execution
  | .added execution => some execution
  | _ => none

theorem execution?_setStage {mode : WorkflowExecuteMode} {old : AddStage}
    (hcall : s.calls[call]? = some ⟨mode, old⟩) (stage : AddStage) (n : ℕ) :
    (s.setStage call stage).execution? n =
      if n = call then stage.execution? else s.execution? n := by
  unfold execution?
  rw [getElem?_setStage, hcall]
  split_ifs
  · cases stage <;> rfl
  · rfl

theorem execution?_setStage_of_eq {mode : WorkflowExecuteMode} {old stage : AddStage}
    (hcall : s.calls[call]? = some ⟨mode, old⟩) (h : stage.execution? = old.execution?) (n : ℕ) :
    (s.setStage call stage).execution? n = s.execution? n := by
  rw [execution?_setStage hcall, h]
  split_ifs with hn
  · rw [hn]
    unfold execution?
    rw [hcall]
    cases old <;> rfl
  · rfl

/-- The call has the mode, and its stage has `P`. -/
def Counted (P : AddStage → Bool) (s : ActiveExecutions) (n : ℕ) (mode : WorkflowExecuteMode) :
    Prop :=
  ∃ stage, s.calls[n]? = some ⟨mode, stage⟩ ∧ P stage = true

theorem counted_self {P : AddStage → Bool} {mode mode' : WorkflowExecuteMode} {old : AddStage}
    (hcall : s.calls[call]? = some ⟨mode, old⟩) :
    Counted P s call mode' ↔ mode' = mode ∧ P old = true := by
  unfold Counted
  rw [hcall]
  constructor
  · rintro ⟨stage, hstage, hP⟩
    obtain ⟨rfl, rfl⟩ := AddCall.mk.inj (Option.some.inj hstage)
    exact ⟨rfl, hP⟩
  · rintro ⟨rfl, hP⟩
    exact ⟨old, rfl, hP⟩

theorem counted_setStage {P : AddStage → Bool} {mode mode' : WorkflowExecuteMode} {old : AddStage}
    (hcall : s.calls[call]? = some ⟨mode, old⟩) (stage : AddStage) (n : ℕ) :
    Counted P (s.setStage call stage) n mode' ↔
      if n = call then mode' = mode ∧ P stage = true else Counted P s n mode' := by
  by_cases hn : n = call
  · subst hn
    have hnew : (s.setStage n stage).calls[n]? = some ⟨mode, stage⟩ := by
      rw [getElem?_setStage, if_pos rfl, hcall]
      rfl
    rw [if_pos rfl, counted_self hnew]
  · unfold Counted
    rw [getElem?_setStage, if_neg hn, if_neg hn]

/-- A stage that counts as the old one does. -/
theorem counted_setStage_of_eq (P : AddStage → Bool) {mode mode' : WorkflowExecuteMode}
    {old : AddStage} (stage : AddStage) (hcall : s.calls[call]? = some ⟨mode, old⟩)
    (h : P stage = P old) (n : ℕ) :
    Counted P (s.setStage call stage) n mode' ↔ Counted P s n mode' := by
  rw [counted_setStage hcall]
  split_ifs with hn
  · rw [hn, counted_self hcall, h]
  · rfl

/-- What holds in every state that steps which keep the capacity lead to. -/
structure Sound (s : ActiveExecutions) : Prop where
  throttles : ∀ n mode, (n, mode) ∈ s.throttles ↔ Counted AddStage.isThrottled s n mode
  releases : ∀ n mode, (n, mode) ∈ s.releases ↔ Counted AddStage.isReleased s n mode
  once : (s.releases.map Prod.fst).Nodup
  entries : ∀ executionId n, s.activeExecutions.get? executionId = some n →
    ∃ execution, s.execution? n = some execution ∧ execution.executionId = executionId
  reach : ∀ n execution, s.execution? n = some execution →
    execution.postExecutePromise = .pending →
    s.activeExecutions.get? execution.executionId = some n

/-! ## Settling -/

theorem execution?_settle (s : ActiveExecutions) (call n : ℕ) :
    (s.settle call).execution? n =
      if n = call then (s.execution? call).map fun execution =>
        if execution.postExecutePromise = .pending then
          { execution with postExecutePromise := .settled } else execution
      else s.execution? n := by
  unfold settle
  cases hexecution : s.execution? call with
  | none =>
    dsimp only
    split_ifs with hn
    · rw [hn, hexecution]
      rfl
    · rfl
  | some execution =>
    obtain ⟨mode, hcall⟩ := execution?_eq_some.1 hexecution
    dsimp only
    split_ifs with hpending hn hn
    · rw [execution?_setStage hcall, if_pos hn]
      simp [hpending, AddStage.execution?]
    · rw [execution?_setStage hcall, if_neg hn]
    · rw [hn, hexecution]
      simp [hpending]
    · rfl

theorem settle_settles {n : ℕ} (hpending : s.PromiseIs call .pending) :
    (s.settle n).PromiseIs call .settled ↔ n = call := by
  obtain ⟨execution, hexecution, hstate⟩ := hpending
  rw [Option.mem_def] at hexecution
  unfold PromiseIs
  rw [execution?_settle]
  constructor
  · rintro ⟨execution', hexecution', hsettled⟩
    by_contra hne
    rw [if_neg (Ne.symm hne), hexecution] at hexecution'
    obtain rfl := Option.some.inj hexecution'
    rw [hstate] at hsettled
    cases hsettled
  · rintro rfl
    rw [if_pos rfl, hexecution, Option.map_some, if_pos hstate]
    exact ⟨_, rfl, rfl⟩

theorem not_settled_of_pending (hpending : s.PromiseIs call .pending) :
    ¬ s.PromiseIs call .settled := by
  rintro ⟨execution, hexecution, hsettled⟩
  obtain ⟨execution', hexecution', hpending⟩ := hpending
  obtain rfl := Option.some.inj (hexecution.symm.trans hexecution')
  rw [hpending] at hsettled
  cases hsettled

/-- A pending promise can be settled exactly when some id leads to it. -/
theorem reachable_iff (hpending : s.PromiseIs call .pending) :
    s.Reachable call ↔ ∃ executionId, s.activeExecutions.get? executionId = some call := by
  constructor
  · rintro ⟨executionId, h | h⟩
    · unfold finalizeExecution at h
      split at h
      · exact absurd h (not_settled_of_pending hpending)
      · next n hget => exact ⟨executionId, by rw [hget, (settle_settles hpending).1 h]⟩
    · unfold stopExecution at h
      split at h
      · exact absurd h (not_settled_of_pending hpending)
      · next n hget =>
        split_ifs at h
        · exact absurd h (not_settled_of_pending hpending)
        · exact ⟨executionId, by rw [hget, (settle_settles hpending).1 h]⟩
  · rintro ⟨executionId, hget⟩
    refine ⟨executionId, .inl ?_⟩
    unfold finalizeExecution
    rw [hget]
    exact (settle_settles hpending).2 rfl

/-! ## What is matched -/

/-- An entry leads to the execution of its own id, if to any. -/
theorem Sound.entry_id (hs : s.Sound) {executionId : String} {execution : Execution}
    (hget : s.activeExecutions.get? executionId = some call)
    (hexecution : s.execution? call = some execution) : execution.executionId = executionId := by
  obtain ⟨execution', hexecution', hid⟩ := hs.entries executionId call hget
  rw [hexecution] at hexecution'
  rw [Option.some.inj hexecution', hid]

theorem Sound.matched (hs : s.Sound) : s.Matched where
  once := hs.once
  throttled := by
    rintro ⟨n, mode⟩ hrelease
    obtain ⟨stage, hcall, hreleased⟩ := (hs.releases n mode).1 hrelease
    refine (hs.throttles n mode).2 ⟨stage, hcall, ?_⟩
    cases stage <;> simp_all [AddStage.isReleased, AddStage.isThrottled]
  held := by
    rintro ⟨n, mode⟩ hthrottle hnot
    obtain ⟨stage, hcall, hthrottled⟩ := (hs.throttles n mode).1 hthrottle
    rw [hs.releases, counted_self hcall] at hnot
    cases stage with
    | saving executionId => exact .inl ⟨mode, executionId, hcall⟩
    | added execution =>
      have hexecution : s.execution? n = some execution := execution?_eq_some.2 ⟨mode, hcall⟩
      cases hstate : execution.postExecutePromise with
      | pending =>
        have hpending : s.PromiseIs n .pending := ⟨execution, hexecution, hstate⟩
        exact .inr (.inl ⟨hpending, (reachable_iff hpending).2
          ⟨_, hs.reach n execution hexecution hstate⟩⟩)
      | settled => exact .inr (.inr ⟨execution, hexecution, hstate⟩)
      | handled => exact absurd ⟨rfl, by simp [AddStage.isReleased, hstate]⟩ hnot
    | _ => simp [AddStage.isThrottled] at hthrottled

/-- A throttle whose promise is pending, and to which no id leads, is lost. -/
theorem not_matched_of_unreachable (mode : WorkflowExecuteMode)
    (hthrottle : (call, mode) ∈ s.throttles)
    (hnot : (call, mode) ∉ s.releases) (hpending : s.PromiseIs call .pending)
    (hnone : ∀ executionId, s.activeExecutions.get? executionId ≠ some call) : ¬ s.Matched := by
  intro h
  rcases h.held (call, mode) hthrottle hnot with
    ⟨mode', executionId, hsaving⟩ | ⟨-, hreach⟩ | hsettled
  · obtain ⟨execution, hexecution, -⟩ := hpending
    obtain ⟨mode'', hadded⟩ := execution?_eq_some.1 hexecution
    rw [hsaving] at hadded
    cases hadded
  · obtain ⟨executionId, hget⟩ := (reachable_iff hpending).1 hreach
    exact hnone executionId hget
  · exact not_settled_of_pending hpending hsettled

/-! ## Steps that keep the capacity -/

/-- A call that has no execution, and gets none, goes on to another stage before the throttle. -/
theorem Sound.setStage (hs : s.Sound) {mode : WorkflowExecuteMode} {old stage : AddStage}
    (hcall : s.calls[call]? = some ⟨mode, old⟩) (hexecution : stage.execution? = old.execution?)
    (hthrottled : stage.isThrottled = old.isThrottled)
    (hreleased : stage.isReleased = old.isReleased) :
    (s.setStage call stage).Sound := by
  have hsame := execution?_setStage_of_eq hcall hexecution
  refine ⟨fun n mode' => ?_, fun n mode' => ?_, hs.once, fun executionId n hget => ?_,
    fun n execution hn hpending => ?_⟩
  · rw [counted_setStage_of_eq _ stage hcall hthrottled]
    exact hs.throttles n mode'
  · rw [counted_setStage_of_eq _ stage hcall hreleased]
    exact hs.releases n mode'
  · rw [hsame]
    exact hs.entries executionId n hget
  · rw [hsame] at hn
    exact hs.reach n execution hn hpending

/-- An execution changes, but it does not become pending or handled. -/
theorem Sound.setExecution (hs : s.Sound) {execution execution' : Execution}
    (hexecution : s.execution? call = some execution)
    (hid : execution'.executionId = execution.executionId)
    (hpending : execution'.postExecutePromise = .pending → execution.postExecutePromise = .pending)
    (hhandled : execution'.postExecutePromise = .handled ↔
      execution.postExecutePromise = .handled) :
    (s.setStage call (.added execution')).Sound := by
  obtain ⟨mode, hcall⟩ := execution?_eq_some.1 hexecution
  refine ⟨fun n mode' => ?_, fun n mode' => ?_, hs.once, fun executionId n hget => ?_,
    fun n other hn hother => ?_⟩
  · rw [counted_setStage_of_eq AddStage.isThrottled (.added execution') hcall rfl]
    exact hs.throttles n mode'
  · rw [counted_setStage_of_eq _ _ hcall (by simp only [AddStage.isReleased, hhandled])]
    exact hs.releases n mode'
  · obtain ⟨old, hold, holdId⟩ := hs.entries executionId n hget
    rw [execution?_setStage hcall]
    split_ifs with hn
    · subst hn
      obtain rfl := Option.some.inj (hexecution.symm.trans hold)
      exact ⟨execution', rfl, hid.trans holdId⟩
    · exact ⟨old, hold, holdId⟩
  · rw [execution?_setStage hcall] at hn
    split_ifs at hn with heq
    · subst heq
      obtain rfl := Option.some.inj hn
      rw [hid]
      exact hs.reach n execution hexecution (hpending hother)
    · exact hs.reach n other hn hother

theorem Sound.settle (hs : s.Sound) (call : ℕ) : (s.settle call).Sound := by
  unfold ActiveExecutions.settle
  split
  · next execution hexecution =>
    split_ifs with hpending
    · exact hs.setExecution hexecution rfl (fun _ => hpending) (by simp [hpending])
    · exact hs
  · exact hs

theorem Sound.finalizeExecution (hs : s.Sound) (executionId : String) :
    (s.finalizeExecution executionId).Sound := by
  unfold ActiveExecutions.finalizeExecution
  split
  · exact hs
  · exact hs.settle _

theorem Sound.setStatus (hs : s.Sound) (executionId : String) (status : ExecutionStatus) :
    (s.setStatus executionId status).Sound := by
  unfold ActiveExecutions.setStatus
  split
  · exact hs
  · split
    · exact hs
    · next execution hexecution => exact hs.setExecution hexecution rfl id Iff.rfl

/-- Only the number of the new call has another stage than before. -/
theorem Sound.add (hs : s.Sound) (executionMode : WorkflowExecuteMode)
    (executionId : Option String) : (s.add executionMode executionId).Sound := by
  have hnew : ∀ n, s.calls.length ≤ n →
      (s.add executionMode executionId).calls[n]? = none ∨
        ∃ stage : AddStage, stage.isThrottled = false ∧ stage.isReleased = false ∧
          stage.execution? = none ∧
          (s.add executionMode executionId).calls[n]? = some ⟨executionMode, stage⟩ := by
    intro n hn
    unfold ActiveExecutions.add
    rw [List.getElem?_append_right hn]
    cases hsub : n - s.calls.length with
    | zero => cases executionId <;> exact .inr ⟨_, rfl, rfl, rfl, rfl⟩
    | succ k => exact .inl rfl
  have hold : ∀ n, n < s.calls.length →
      (s.add executionMode executionId).calls[n]? = s.calls[n]? := fun n hn =>
    List.getElem?_append_left hn
  have hcounted : ∀ (P : AddStage → Bool), (∀ stage : AddStage, stage.isThrottled = false →
      stage.isReleased = false → P stage = false) → ∀ n mode,
      Counted P (s.add executionMode executionId) n mode ↔ Counted P s n mode := by
    intro P hP n mode
    rcases lt_or_ge n s.calls.length with hn | hn
    · unfold Counted
      rw [hold n hn]
    · have hnone : s.calls[n]? = none := List.getElem?_eq_none hn
      unfold Counted
      rw [hnone]
      rcases hnew n hn with h | ⟨stage, hthrottled, hreleased, -, h⟩
      · rw [h]
      · rw [h]
        simp only [Option.some.injEq, AddCall.mk.injEq, reduceCtorEq, false_and, exists_false,
          iff_false, not_exists, not_and]
        rintro _ ⟨-, rfl⟩
        simp [hP stage hthrottled hreleased]
  have hexecution : ∀ n, (s.add executionMode executionId).execution? n = s.execution? n := by
    intro n
    unfold ActiveExecutions.execution?
    rcases lt_or_ge n s.calls.length with hn | hn
    · rw [hold n hn]
    · have hnone : s.calls[n]? = none := List.getElem?_eq_none hn
      rw [hnone]
      rcases hnew n hn with h | ⟨stage, -, -, hstage, h⟩
      · rw [h]
      · rw [h]
        cases stage with
        | added execution => cases hstage
        | _ => rfl
  refine ⟨fun n mode => ?_, fun n mode => ?_, hs.once, fun id n hget => ?_,
    fun n execution hn => ?_⟩
  · rw [hcounted _ fun _ h _ => h]
    exact hs.throttles n mode
  · rw [hcounted _ fun _ _ h => h]
    exact hs.releases n mode
  · rw [hexecution]
    exact hs.entries id n hget
  · rw [hexecution] at hn
    exact hs.reach n execution hn

theorem Sound.created (hs : s.Sound) (call : ℕ) (executionId : Option String) :
    (s.created call executionId).Sound := by
  unfold ActiveExecutions.created
  split
  · next mode hcall => cases executionId <;> exact hs.setStage hcall rfl rfl rfl
  · exact hs

theorem Sound.throttled (hs : s.Sound) (call : ℕ) (through : Bool) :
    (s.throttled call through).Sound := by
  unfold ActiveExecutions.throttled
  split
  · next mode executionId hcall =>
    split_ifs
    · have hsame := execution?_setStage_of_eq (s := s) hcall
        (show AddStage.execution? (.saving executionId) = _ from rfl)
      refine ⟨fun n mode' => ?_, fun n mode' => ?_, hs.once, fun id n hget => ?_,
        fun n execution hn => ?_⟩
      · have hcounted :
            Counted AddStage.isThrottled (s.setStage call (.saving executionId)) n mode' ↔ _ :=
          counted_setStage hcall (.saving executionId) n
        refine Iff.trans ?_ hcounted.symm
        rw [List.mem_append, hs.throttles, List.mem_singleton, Prod.mk.injEq]
        split_ifs with hn
        · rw [hn, counted_self hcall]
          simp [AddStage.isThrottled]
        · simp [hn]
      · exact (hs.releases n mode').trans
          (counted_setStage_of_eq _ (.saving executionId) hcall rfl n).symm
      · obtain ⟨execution, hexecution, hid⟩ := hs.entries id n hget
        exact ⟨execution, (hsame n).trans hexecution, hid⟩
      · exact hs.reach n execution ((hsame n).symm.trans hn)
    · exact hs.setStage hcall rfl rfl rfl
  · exact hs

/-- An entry is taken away: its promise, if there is one, is not pending. -/
theorem Sound.erase (hs : s.Sound) {executionId : String} (hidle : s.Idle executionId) :
    Sound { s with activeExecutions := s.activeExecutions.erase executionId } where
  throttles := hs.throttles
  releases := hs.releases
  once := hs.once
  entries id n hget := by
    rw [Dict.get?_erase] at hget
    split_ifs at hget
    exact hs.entries id n hget
  reach n execution hexecution hpending := by
    have hget := hs.reach n execution hexecution hpending
    by_cases hid : execution.executionId = executionId
    · rw [hid] at hget
      exact absurd ⟨execution, hexecution, hpending⟩ (hidle n hget)
    · exact (Dict.get?_erase_of_ne _ hid).trans hget

theorem Sound.stopExecution (hs : s.Sound) {executionId : String}
    (hkeeps : s.KeepsCapacity (.stopExecution executionId)) :
    (s.stopExecution executionId).Sound := by
  unfold ActiveExecutions.stopExecution
  split
  · exact hs
  · next call hget =>
    split_ifs with hwaiting
    · obtain ⟨execution, hexecution, hstatus⟩ := Option.any_eq_true _ _ |>.1 hwaiting
      exact hs.erase (hkeeps call hget execution hexecution (of_decide_eq_true hstatus))
    · exact hs.settle call

theorem Sound.saved (hs : s.Sound) {call : ℕ} {ok : Bool}
    (hkeeps : s.KeepsCapacity (.saved call ok)) : (s.saved call ok).Sound := by
  unfold ActiveExecutions.saved
  split
  · next mode executionId hcall =>
    obtain ⟨rfl, hidle⟩ := hkeeps mode executionId hcall
    rw [if_pos rfl]
    have hexecution := execution?_setStage (s := s) hcall (.added { executionId })
    refine ⟨fun n mode' => ?_, fun n mode' => ?_, hs.once, fun id n hget => ?_,
      fun n execution hn hpending => ?_⟩
    · exact (hs.throttles n mode').trans
        (counted_setStage_of_eq _ (.added { executionId }) hcall rfl n).symm
    · exact (hs.releases n mode').trans
        (counted_setStage_of_eq _ (.added { executionId }) hcall rfl n).symm
    · change ∃ execution, (s.setStage call _).execution? n = some execution ∧ _
      change (s.activeExecutions.set executionId call).get? id = some n at hget
      rw [Dict.get?_set] at hget
      rw [hexecution]
      split_ifs at hget with hid
      · rw [if_pos (Option.some.inj hget).symm, hid]
        exact ⟨_, rfl, rfl⟩
      · obtain ⟨old, hold, holdId⟩ := hs.entries id n hget
        have hn : n ≠ call := by
          rintro rfl
          obtain ⟨mode', hadded⟩ := execution?_eq_some.1 hold
          rw [hcall] at hadded
          cases hadded
        rw [if_neg hn]
        exact ⟨old, hold, holdId⟩
    · change (s.setStage call _).execution? n = some execution at hn
      change (s.activeExecutions.set executionId call).get? execution.executionId = some n
      rw [hexecution] at hn
      split_ifs at hn with heq
      · obtain rfl := Option.some.inj hn
        rw [heq]
        exact Dict.get?_set_self _ _ _
      · have hget := hs.reach n execution hn hpending
        have hid : execution.executionId ≠ executionId := by
          rintro hid
          rw [hid] at hget
          exact hidle n hget ⟨execution, hn, hpending⟩
        exact (Dict.get?_set_of_ne _ hid _).trans hget
  · exact hs

/-- The callback runs: the release is made. -/
theorem Sound.release (hs : s.Sound) {mode : WorkflowExecuteMode} {execution : Execution}
    (hcall : s.calls[call]? = some ⟨mode, .added execution⟩)
    (hsettled : execution.postExecutePromise = .settled) :
    Sound { s.setStage call (.added { execution with postExecutePromise := .handled }) with
      releases := s.releases ++ [(call, mode)] } := by
  have hexecution := execution?_setStage (s := s) hcall
    (.added { execution with postExecutePromise := .handled })
  have hnot : ¬ Counted AddStage.isReleased s call mode := by
    rw [counted_self hcall]
    simp [AddStage.isReleased, hsettled]
  refine ⟨fun n mode' => ?_, fun n mode' => ?_, ?_, fun id n hget => ?_,
    fun n other hn hpending => ?_⟩
  · exact (hs.throttles n mode').trans (counted_setStage_of_eq _
      (.added { execution with postExecutePromise := .handled }) hcall rfl n).symm
  · refine Iff.trans ?_ (counted_setStage (P := AddStage.isReleased) hcall _ n).symm
    rw [List.mem_append, hs.releases, List.mem_singleton, Prod.mk.injEq]
    split_ifs with hn
    · rw [hn, counted_self hcall]
      simp [AddStage.isReleased, hsettled]
    · simp [hn]
  · rw [List.map_append, List.map_singleton]
    refine hs.once.append (List.nodup_singleton call) ?_
    rw [List.disjoint_singleton]
    rintro hmem
    obtain ⟨⟨n, mode'⟩, hrelease, rfl⟩ := List.mem_map.1 hmem
    obtain ⟨rfl, hreleased⟩ := (counted_self hcall).1 ((hs.releases n mode').1 hrelease)
    exact hnot ((counted_self hcall).2 ⟨rfl, hreleased⟩)
  · obtain ⟨old, hold, holdId⟩ := hs.entries id n hget
    change ∃ execution, (s.setStage call _).execution? n = some execution ∧ _
    rw [hexecution]
    split_ifs with hn
    · subst hn
      obtain rfl := Option.some.inj ((execution?_eq_some.2 ⟨mode, hcall⟩).symm.trans hold)
      exact ⟨_, rfl, holdId⟩
    · exact ⟨old, hold, holdId⟩
  · change (s.setStage call _).execution? n = some other at hn
    rw [hexecution] at hn
    split_ifs at hn
    · obtain rfl := Option.some.inj hn
      cases hpending
    · exact hs.reach n other hn hpending

/-- Only the promise of the call changes, which is no longer pending. -/
theorem idle_release {executionId : String} {mode : WorkflowExecuteMode} {execution : Execution}
    (hcall : s.calls[call]? = some ⟨mode, .added execution⟩)
    (hsettled : execution.postExecutePromise = .settled) :
    Idle { s.setStage call (.added { execution with postExecutePromise := .handled }) with
      releases := s.releases ++ [(call, mode)] } executionId ↔ s.Idle executionId := by
  have hexecution := execution?_setStage (s := s) hcall
    (.added { execution with postExecutePromise := .handled })
  refine forall₂_congr fun n _ => not_congr ?_
  change (∃ e ∈ (s.setStage call _).execution? n, _) ↔ _
  rw [hexecution]
  unfold PromiseIs
  split_ifs with hn
  · rw [hn, execution?_eq_some.2 ⟨mode, hcall⟩]
    simp [AddStage.execution?, hsettled]
  · rfl

theorem Sound.onSettled (hs : s.Sound) {call : ℕ} (hkeeps : s.KeepsCapacity (.onSettled call)) :
    (s.onSettled call).Sound := by
  unfold ActiveExecutions.onSettled
  split
  · next mode execution hcall =>
    by_cases hsettled : execution.postExecutePromise = .settled
    · rw [if_pos hsettled]
      dsimp only
      split_ifs with hwaiting
      · exact hs.release hcall hsettled
      · exact (hs.release hcall hsettled).erase ((idle_release hcall hsettled).2
          (hkeeps execution (execution?_eq_some.2 ⟨mode, hcall⟩) hsettled hwaiting))
    · rwa [if_neg hsettled]
  · exact hs

theorem Sound.step (hs : s.Sound) {event : ExecutionEvent} (hkeeps : s.KeepsCapacity event) :
    (s.step event).Sound := by
  cases event with
  | add executionMode executionId => exact hs.add executionMode executionId
  | created call executionId => exact hs.created call executionId
  | throttled call through => exact hs.throttled call through
  | saved call ok => exact hs.saved hkeeps
  | onSettled call => exact hs.onSettled hkeeps
  | setStatus executionId status => exact hs.setStatus executionId status
  | stopExecution executionId => exact hs.stopExecution hkeeps
  | finalizeExecution executionId => exact hs.finalizeExecution executionId

/-! ## Steps that lose capacity -/

/-- An entry whose promise is pending is gone after the step: nothing leads to it any more. -/
theorem not_matched_of_dropped (hs : s.Sound) {s' : ActiveExecutions} {executionId : String}
    (hidle : ¬ s.Idle executionId) (hthrottles : s'.throttles = s.throttles)
    (hreleases : ∀ n mode, s.PromiseIs n .pending → (n, mode) ∉ s.releases →
      (n, mode) ∉ s'.releases)
    (hpromise : ∀ n, s.activeExecutions.get? executionId = some n → s.PromiseIs n .pending →
      s'.PromiseIs n .pending)
    (hgone : ∀ n id, s.PromiseIs n .pending → s'.activeExecutions.get? id = some n →
      id ≠ executionId ∧ s.activeExecutions.get? id = some n) : ¬ s'.Matched := by
  unfold Idle at hidle
  push Not at hidle
  obtain ⟨n, hget, hpending⟩ := hidle
  obtain ⟨execution, hexecution, hstate⟩ := hpending
  obtain ⟨mode, hcall⟩ := execution?_eq_some.1 hexecution
  have hpending : s.PromiseIs n .pending := ⟨execution, hexecution, hstate⟩
  have hnot : (n, mode) ∉ s.releases := by
    rw [hs.releases, counted_self hcall]
    simp [AddStage.isReleased, hstate]
  refine not_matched_of_unreachable mode ?_ (hreleases n mode hpending hnot)
    (hpromise n hget hpending) fun id hid => ?_
  · rw [hthrottles, hs.throttles, counted_self hcall]
    exact ⟨rfl, rfl⟩
  · obtain ⟨hne, hold⟩ := hgone n id hpending hid
    exact hne ((hs.entry_id hold hexecution).symm.trans (hs.entry_id hget hexecution))

/-- A call whose stage is another one has no pending promise. -/
theorem ne_of_pending {n : ℕ} {mode : WorkflowExecuteMode} {stage : AddStage}
    (hcall : s.calls[call]? = some ⟨mode, stage⟩)
    (hstage : ∀ execution, stage.execution? = some execution →
      execution.postExecutePromise ≠ .pending)
    (hpending : s.PromiseIs n .pending) : n ≠ call := by
  rintro rfl
  obtain ⟨execution, hexecution, hstate⟩ := hpending
  obtain ⟨mode', hadded⟩ := execution?_eq_some.1 hexecution
  rw [hcall] at hadded
  obtain ⟨-, rfl⟩ := AddCall.mk.inj (Option.some.inj hadded)
  exact hstage execution rfl hstate

theorem saved_loses (hs : s.Sound) {ok : Bool} {mode : WorkflowExecuteMode} {executionId : String}
    (hcall : s.calls[call]? = some ⟨mode, .saving executionId⟩)
    (hlost : ¬ (ok = true ∧ s.Idle executionId)) : ¬ (s.saved call ok).Matched := by
  unfold saved
  rw [hcall]
  cases ok with
  | false =>
    simp only [Bool.false_eq_true, if_false]
    intro h
    have hthrottle : (call, mode) ∈ s.throttles :=
      (hs.throttles _ _).2 ((counted_self hcall).2 ⟨rfl, rfl⟩)
    have hnot : (call, mode) ∉ s.releases := by
      rw [hs.releases, counted_self hcall]
      exact fun h => Bool.false_ne_true h.2
    have hfailed : (s.setStage call .failed).calls[call]? = some ⟨mode, .failed⟩ := by
      rw [getElem?_setStage, if_pos rfl, hcall]
      rfl
    have hnone : ∀ state, ¬ (s.setStage call .failed).PromiseIs call state := by
      rintro state ⟨execution, hexecution, -⟩
      obtain ⟨mode', hadded⟩ := execution?_eq_some.1 hexecution
      rw [hfailed] at hadded
      cases hadded
    rcases h.held (call, mode) hthrottle hnot with ⟨mode', id, hsaving⟩ | ⟨hpending, -⟩ | hsettled
    · rw [hfailed] at hsaving
      cases hsaving
    · exact hnone _ hpending
    · exact hnone _ hsettled
  | true =>
    have hidle : ¬ s.Idle executionId := fun hidle => hlost ⟨rfl, hidle⟩
    have hne : ∀ n, s.PromiseIs n .pending → n ≠ call := fun n => ne_of_pending hcall nofun
    refine not_matched_of_dropped hs hidle rfl (fun _ _ _ h => h) (fun n _ hpending => ?_)
      fun n id hpending hget => ?_
    · change ∃ execution ∈ (s.setStage call _).execution? n, _
      rw [execution?_setStage hcall, if_neg (hne n hpending)]
      exact hpending
    · change (s.activeExecutions.set executionId call).get? id = some n at hget
      rw [Dict.get?_set] at hget
      split_ifs at hget with hid
      · exact absurd (Option.some.inj hget).symm (hne n hpending)
      · exact ⟨hid, hget⟩

theorem onSettled_loses (hs : s.Sound) {execution : Execution}
    (hexecution : s.execution? call = some execution)
    (hsettled : execution.postExecutePromise = .settled) (hwaiting : execution.status ≠ .waiting)
    (hidle : ¬ s.Idle execution.executionId) : ¬ (s.onSettled call).Matched := by
  obtain ⟨mode, hcall⟩ := execution?_eq_some.1 hexecution
  have hne : ∀ n, s.PromiseIs n .pending → n ≠ call := fun n =>
    ne_of_pending hcall fun execution' h => by
      obtain rfl := Option.some.inj h
      simp [hsettled]
  unfold onSettled
  simp only [hcall, hsettled, if_true, hwaiting, if_false]
  refine not_matched_of_dropped hs hidle rfl (fun n mode' hpending hnot hmem => ?_)
    (fun n _ hpending => ?_) fun n id hpending hget => ?_
  · rcases List.mem_append.1 hmem with hold | hnew
    · exact hnot hold
    · exact hne n hpending (Prod.mk.inj (List.mem_singleton.1 hnew)).1
  · change ∃ execution ∈ (s.setStage call _).execution? n, _
    rw [execution?_setStage hcall, if_neg (hne n hpending)]
    exact hpending
  · change (s.activeExecutions.erase execution.executionId).get? id = some n at hget
    rw [Dict.get?_erase] at hget
    split_ifs at hget with hid
    exact ⟨hid, hget⟩

theorem stopExecution_loses (hs : s.Sound) {executionId : String} {execution : Execution}
    (hget : s.activeExecutions.get? executionId = some call)
    (hexecution : s.execution? call = some execution) (hwaiting : execution.status = .waiting)
    (hidle : ¬ s.Idle executionId) : ¬ (s.stopExecution executionId).Matched := by
  unfold stopExecution
  simp only [hget, hexecution, Option.any_some, hwaiting, decide_true, if_true]
  refine not_matched_of_dropped hs hidle rfl (fun _ _ _ h => h) (fun _ _ h => h)
    fun n id _ hnew => ?_
  rw [Dict.get?_erase] at hnew
  split_ifs at hnew with hid
  exact ⟨hid, hnew⟩

theorem not_matched_of_not_keeps (hs : s.Sound) {event : ExecutionEvent}
    (hkeeps : ¬ s.KeepsCapacity event) : ¬ (s.step event).Matched := by
  cases event with
  | saved call ok =>
    simp only [KeepsCapacity, not_forall] at hkeeps
    obtain ⟨mode, executionId, hcall, hlost⟩ := hkeeps
    exact saved_loses hs hcall hlost
  | onSettled call =>
    simp only [KeepsCapacity, not_forall] at hkeeps
    obtain ⟨execution, hexecution, hsettled, hwaiting, hidle⟩ := hkeeps
    exact onSettled_loses hs hexecution hsettled hwaiting hidle
  | stopExecution executionId =>
    simp only [KeepsCapacity, not_forall] at hkeeps
    obtain ⟨call, hget, execution, hexecution, hwaiting, hidle⟩ := hkeeps
    exact stopExecution_loses hs hget hexecution hwaiting hidle
  | _ => exact absurd trivial hkeeps

/-- Along every interleaving, each throttle is released once or still held, exactly when each step
keeps the capacity. -/
theorem capacity_kept_iff (events : List ExecutionEvent) :
    Runs.Along step Matched {} events ↔ Runs.Meets step KeepsCapacity {} events := by
  refine Runs.along_iff_meets (G := fun _ _ => True) (I := Sound) (fun s hs => hs.matched)
    (fun s event hs _ hkeeps => hs.step hkeeps)
    (fun s event hs _ hkeeps => not_matched_of_not_keeps hs hkeeps)
    ⟨fun n mode => ?_, fun n mode => ?_, List.nodup_nil, nofun, nofun⟩
    (Runs.meets_of_forall fun _ _ => trivial)
  · simp [Counted]
  · simp [Counted]

/-- A webhook execution is stopped when it waits already, but has not settled. -/
def stoppedEarly : List ExecutionEvent :=
  [.add .webhook none, .created 0 (some "1"), .throttled 0 true, .saved 0 true,
    .setStatus "1" .waiting, .stopExecution "1"]

/-- Its capacity is never released: nothing leads to its promise any more. -/
theorem stopped_early_loses_capacity : ¬ Runs.Along step Matched {} stoppedEarly := by
  intro h
  have hpending : (Runs.run step {} stoppedEarly).PromiseIs 0 .pending :=
    ⟨{ executionId := "1", status := .waiting }, by decide, rfl⟩
  refine not_matched_of_unreachable .webhook (by decide) (by decide) hpending ?_ h.last
  intro executionId hget
  have hempty : (Runs.run step {} stoppedEarly).activeExecutions = .empty := by decide
  rw [hempty] at hget
  cases hget

end ActiveExecutions

end N8n
