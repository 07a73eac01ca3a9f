import N8n.Library.Runs
import N8n.QueueRecovery

/-!
# What queue recovery marks as crashed

An execution that is lost stays lost, so a recovery that finds only lost ones when it has read the
jobs marks no other. Nothing else keeps it from the executions that are on their way to the queue at
that time, or that have been completed since it has read the rows.
-/

namespace N8n

namespace ScalingService

variable {s : ScalingService} {id : String}

/-- The execution has a row, and nothing will be done about it. -/
structure Lost (s : ScalingService) (id : String) : Prop where
  known : (s.rows.get? id).isSome
  notLive : ¬ s.Live id

theorem get?_setStatus_of_ne {executionId : String} (h : id ≠ executionId)
    (status : ActiveExecutions.ExecutionStatus) :
    (s.setStatus executionId status).get? id = s.rows.get? id := by
  simp [setStatus, Dict.get?_mapEntries, h]

/-- No row is deleted. -/
theorem known_step (h : (s.rows.get? id).isSome) (e : Event) :
    ((s.step e).rows.get? id).isSome := by
  cases e with
  | createNewExecution executionId startedAt =>
    dsimp only [step, createNewExecution]
    split_ifs
    · rw [Dict.get?_set]
      split_ifs
      · rfl
      · exact h
    · exact h
  | addJob executionId => dsimp only [step, addJob]; split_ifs <;> exact h
  | failToAddJob executionId =>
    dsimp only [step, failToAddJob, setStatus]
    split_ifs
    · rwa [Dict.get?_mapEntries, Option.isSome_map]
    · exact h
  | setRunning executionId startedAt =>
    dsimp only [step, setRunning]
    split_ifs
    · rwa [Dict.get?_mapEntries, Option.isSome_map]
    · exact h
  | complete executionId status =>
    dsimp only [step, complete, setStatus]
    split_ifs
    · rwa [Dict.get?_mapEntries, Option.isSome_map]
    · exact h
  | removeJob executionId => dsimp only [step, removeJob]; split_ifs <;> exact h
  | loseJob executionId => exact h
  | startRecovery batchSize => exact h
  | findJobs recovery => dsimp only [step, findJobs]; split <;> exact h
  | markAsCrashed recovery =>
    dsimp only [step, markAsCrashed]
    split
    · rwa [Dict.get?_mapEntries, Option.isSome_map]
    · exact h

/-- An execution without a job, and with none to come, keeps its row until it is marked. -/
theorem step_frame (hknown : (s.rows.get? id).isSome) (henqueueing : id ∉ s.enqueueing)
    (hqueue : id ∉ s.queue) (e : Event) :
    id ∉ (s.step e).enqueueing ∧ id ∉ (s.step e).queue ∧
      ((s.step e).rows.get? id = s.rows.get? id ∨
        (s.step e).rows.get? id =
          (s.rows.get? id).map fun row => { row with status := .crashed }) := by
  have hsame : id ∉ s.enqueueing ∧ id ∉ s.queue ∧ (s.rows.get? id = s.rows.get? id ∨
      s.rows.get? id = (s.rows.get? id).map fun row => { row with status := .crashed }) :=
    ⟨henqueueing, hqueue, .inl rfl⟩
  have herase : ∀ {executionId} {ids : List String}, id ∉ ids → id ∉ ids.erase executionId :=
    fun hid hmem => hid (List.mem_of_mem_erase hmem)
  cases e with
  | createNewExecution executionId startedAt =>
    dsimp only [step, createNewExecution]
    split_ifs with hnew
    · have hne : id ≠ executionId := by
        rintro rfl
        rw [hnew] at hknown
        cases hknown
      exact ⟨by simp [henqueueing, hne], hqueue, .inl (Dict.get?_set_of_ne _ hne _)⟩
    · exact hsame
  | addJob executionId =>
    dsimp only [step, addJob]
    split_ifs with hmem
    · have hne : id ≠ executionId := fun heq => henqueueing (heq ▸ hmem)
      exact ⟨herase henqueueing, by simp [hqueue, hne], .inl rfl⟩
    · exact hsame
  | failToAddJob executionId =>
    dsimp only [step, failToAddJob]
    split_ifs with hmem
    · have hne : id ≠ executionId := fun heq => henqueueing (heq ▸ hmem)
      exact ⟨herase henqueueing, hqueue, .inl (get?_setStatus_of_ne hne _)⟩
    · exact hsame
  | setRunning executionId startedAt =>
    dsimp only [step, setRunning]
    split_ifs with hmem
    · have hne : id ≠ executionId := fun heq => hqueue (heq ▸ hmem)
      refine ⟨henqueueing, hqueue, .inl ?_⟩
      simp [Dict.get?_mapEntries, hne]
    · exact hsame
  | complete executionId status =>
    dsimp only [step, complete]
    split_ifs with hmem
    · have hne : id ≠ executionId := fun heq => hqueue (heq ▸ hmem.1)
      exact ⟨henqueueing, hqueue, .inl (get?_setStatus_of_ne hne _)⟩
    · exact hsame
  | removeJob executionId =>
    dsimp only [step, removeJob]
    split_ifs
    · exact ⟨henqueueing, herase hqueue, .inl rfl⟩
    · exact hsame
  | loseJob executionId => exact ⟨henqueueing, herase hqueue, .inl rfl⟩
  | startRecovery batchSize => exact hsame
  | findJobs recovery =>
    dsimp only [step, findJobs]
    split
    · exact hsame
    · exact hsame
  | markAsCrashed recovery =>
    dsimp only [step, markAsCrashed]
    split
    · refine ⟨henqueueing, hqueue, ?_⟩
      rw [Dict.get?_mapEntries]
      split_ifs
      · exact .inr rfl
      · exact .inl (by simp)
    · exact hsame

theorem Lost.step (h : s.Lost id) (e : Event) : (s.step e).Lost id := by
  obtain ⟨henqueueing, hqueue, hcompleted⟩ :
      id ∉ s.enqueueing ∧ id ∉ s.queue ∧ ¬ s.isCompleted id = true := by
    have hlive := h.notLive
    unfold Live at hlive
    tauto
  obtain ⟨henqueueing', hqueue', hrow⟩ := step_frame h.known henqueueing hqueue e
  refine ⟨known_step h.known e, ?_⟩
  have hcompleted' : ¬ (s.step e).isCompleted id = true := by
    unfold isCompleted at hcompleted ⊢
    rcases hrow with hrow | hrow
    · rwa [hrow]
    · rw [hrow]
      cases s.rows.get? id <;> simp [ActiveExecutions.ExecutionStatus.isFinal]
  rintro (hlive | hlive | hlive)
  · exact henqueueing' hlive
  · exact hqueue' hlive
  · exact hcompleted' hlive

theorem known_of_mem_inProgress {batchSize : ℕ} (h : id ∈ s.getInProgressExecutionIds batchSize) :
    (s.rows.get? id).isSome := by
  obtain ⟨⟨key, row⟩, hentry, rfl⟩ := List.mem_map.1 h
  have hmem := List.mem_of_mem_filter ((List.mem_insertionSort _).1 (List.mem_of_mem_take hentry))
  rw [Dict.mem_entries.1 hmem]
  rfl

/-- Every recovery has rows for what it has read, and is about to mark lost executions only. -/
structure Sound (s : ScalingService) : Prop where
  stored : ∀ storedIds, .stored storedIds ∈ s.recoveries → ∀ id ∈ storedIds, (s.rows.get? id).isSome
  marking : ∀ danglingIds, .marking danglingIds ∈ s.recoveries → ∀ id ∈ danglingIds, s.Lost id

/-- What a step adds to the recoveries is what has to be looked at. -/
theorem Sound.of_new {e : Event} (h : s.Sound)
    (hstored : ∀ storedIds, .stored storedIds ∈ (s.step e).recoveries →
      .stored storedIds ∈ s.recoveries ∨ ∀ id ∈ storedIds, (s.rows.get? id).isSome)
    (hmarking : ∀ danglingIds, .marking danglingIds ∈ (s.step e).recoveries →
      .marking danglingIds ∈ s.recoveries ∨ ∀ id ∈ danglingIds, s.Lost id) : (s.step e).Sound := by
  refine ⟨fun storedIds hmem id hid => ?_, fun danglingIds hmem id hid => ?_⟩
  · rcases hstored storedIds hmem with hold | hnew
    · exact known_step (h.stored storedIds hold id hid) e
    · exact known_step (hnew id hid) e
  · rcases hmarking danglingIds hmem with hold | hnew
    · exact (h.marking danglingIds hold id hid).step e
    · exact (hnew id hid).step e

theorem Sound.step {e : Event} (h : s.Sound) (he : s.ReadsOnlyLost e) : (s.step e).Sound := by
  have hsame : (s.step e).recoveries = s.recoveries → (s.step e).Sound := fun heq =>
    h.of_new (fun _ hmem => .inl (heq ▸ hmem)) fun _ hmem => .inl (heq ▸ hmem)
  cases e with
  | createNewExecution executionId startedAt =>
    exact hsame (by dsimp only [ScalingService.step, createNewExecution]; split_ifs <;> rfl)
  | addJob executionId =>
    exact hsame (by dsimp only [ScalingService.step, addJob]; split_ifs <;> rfl)
  | failToAddJob executionId =>
    exact hsame (by dsimp only [ScalingService.step, failToAddJob]; split_ifs <;> rfl)
  | setRunning executionId startedAt =>
    exact hsame (by dsimp only [ScalingService.step, setRunning]; split_ifs <;> rfl)
  | complete executionId status =>
    exact hsame (by dsimp only [ScalingService.step, complete]; split_ifs <;> rfl)
  | removeJob executionId =>
    exact hsame (by dsimp only [ScalingService.step, removeJob]; split_ifs <;> rfl)
  | loseJob executionId => exact hsame rfl
  | startRecovery batchSize =>
    refine h.of_new (fun storedIds hmem => ?_) fun danglingIds hmem => ?_
    · rcases List.mem_append.1 hmem with hold | hnew
      · exact .inl hold
      · have hnew := List.mem_singleton.1 hnew
        split_ifs at hnew
        obtain rfl := Recovery.stored.inj hnew
        exact .inr fun id => known_of_mem_inProgress
    · rcases List.mem_append.1 hmem with hold | hnew
      · exact .inl hold
      · have hnew := List.mem_singleton.1 hnew
        split_ifs at hnew
  | findJobs recovery =>
    cases hrecovery : s.recoveries[recovery]? with
    | none => exact hsame (by simp [ScalingService.step, findJobs, hrecovery])
    | some r =>
      cases r with
      | marking danglingIds => exact hsame (by simp [ScalingService.step, findJobs, hrecovery])
      | returned => exact hsame (by simp [ScalingService.step, findJobs, hrecovery])
      | stored storedIds =>
        have hlost : ∀ id ∈ s.danglingIds storedIds, s.Lost id := by
          intro id hid
          obtain ⟨hid, hqueue⟩ := List.mem_filter.1 hid
          have hqueue := of_decide_eq_true hqueue
          obtain ⟨henqueueing, hcompleted⟩ := he storedIds hrecovery id hid hqueue
          refine ⟨h.stored storedIds (List.mem_of_getElem? hrecovery) id hid, ?_⟩
          rintro (hlive | hlive | hlive)
          · exact henqueueing hlive
          · exact hqueue hlive
          · rw [hcompleted] at hlive
            cases hlive
        refine h.of_new (fun storedIds' hmem => ?_) fun danglingIds hmem => ?_
        · simp only [ScalingService.step, findJobs, hrecovery] at hmem
          rcases List.mem_or_eq_of_mem_set hmem with hold | hnew
          · exact .inl hold
          · split_ifs at hnew
        · simp only [ScalingService.step, findJobs, hrecovery] at hmem
          rcases List.mem_or_eq_of_mem_set hmem with hold | hnew
          · exact .inl hold
          · split_ifs at hnew
            obtain rfl := Recovery.marking.inj hnew
            exact .inr hlost
  | markAsCrashed recovery =>
    cases hrecovery : s.recoveries[recovery]? with
    | none => exact hsame (by simp [ScalingService.step, markAsCrashed, hrecovery])
    | some r =>
      cases r with
      | stored storedIds => exact hsame (by simp [ScalingService.step, markAsCrashed, hrecovery])
      | returned => exact hsame (by simp [ScalingService.step, markAsCrashed, hrecovery])
      | marking danglingIds =>
        have hlost := h.marking danglingIds (List.mem_of_getElem? hrecovery)
        refine h.of_new (fun storedIds hmem => ?_) fun danglingIds' hmem => ?_
        · simp only [ScalingService.step, markAsCrashed, hrecovery] at hmem
          rcases List.mem_or_eq_of_mem_set hmem with hold | hnew
          · exact .inl hold
          · split_ifs at hnew
        · simp only [ScalingService.step, markAsCrashed, hrecovery] at hmem
          rcases List.mem_or_eq_of_mem_set hmem with hold | hnew
          · exact .inl hold
          · split_ifs at hnew
            obtain rfl := Recovery.marking.inj hnew
            exact .inr fun id hid => hlost id (List.mem_of_mem_drop hid)

theorem Sound.crashesOnlyLost {e : Event} (h : s.Sound) : s.CrashesOnlyLost e := by
  cases e with
  | markAsCrashed recovery =>
    exact fun danglingIds hrecovery id hid =>
      (h.marking danglingIds (List.mem_of_getElem? hrecovery) id (List.mem_of_mem_take hid)).notLive
  | _ => trivial

/-- A job is lost, and the recovery finds its execution. -/
def lostRun : List Event :=
  [.createNewExecution "1" 0, .addJob "1", .loseJob "1", .startRecovery 100, .findJobs 0,
    .markAsCrashed 0]

end ScalingService

end N8n

/-!
# How many recoveries are scheduled

A chain is a timer that is pending or a callback that will schedule the next. Firing and scheduling
again keep the number of chains, so one that a stepdown misses, because its callback is running,
stays, and comes out as a timer when the callback is done.
-/

namespace N8n

namespace QueueRecoveryTimer

variable {s : QueueRecoveryTimer}

def chains (s : QueueRecoveryTimer) : ℕ := s.callbacks + s.timers.length

/-- The chains the instance should have in its role. -/
def due (s : QueueRecoveryTimer) : ℕ := if s.isLeader then 1 else 0

/-- The chain is the one due, and the handle of its timer is stored. -/
structure Chained (s : QueueRecoveryTimer) : Prop where
  due : s.chains = s.due
  stored : ∀ timer ∈ s.timers, s.timeout = some timer.handle

/-- There are more chains than are due. -/
def Excess (s : QueueRecoveryTimer) : Prop := s.due < s.chains

theorem Chained.oneChain (h : s.Chained) : s.OneChain := by
  intro hcallbacks
  have hdue := h.due
  unfold chains QueueRecoveryTimer.due at hdue
  split_ifs at hdue with hleader
  · exact ⟨by omega, fun hnot => absurd hleader (by simp [hnot])⟩
  · exact ⟨by omega, fun _ => List.length_eq_zero_iff.1 (by omega)⟩

/-! ## Each step on the chains -/

theorem length_clearTimeout (handle : ℕ) :
    (s.clearTimeout handle).timers.length =
      if s.timers.any (·.handle = handle) then s.timers.length - 1 else s.timers.length :=
  List.length_eraseP

theorem length_le_clearTimeout (handle : ℕ) :
    s.timers.length ≤ (s.clearTimeout handle).timers.length + 1 := by
  rw [length_clearTimeout]
  split_ifs <;> omega

theorem chains_takeover : s.takeover.chains = s.chains + 1 := by
  simp only [takeover, scheduleQueueRecovery, chains, List.length_append, List.length_singleton]
  omega

theorem chains_fire (handle : ℕ) : (s.fire handle).chains = s.chains := by
  unfold fire
  split_ifs with hany
  · have hlength := length_clearTimeout (s := s) handle
    rw [if_pos hany] at hlength
    obtain ⟨timer, htimer, -⟩ := List.any_eq_true.1 hany
    have hpos := List.length_pos_of_mem htimer
    change s.callbacks + 1 + (s.clearTimeout handle).timers.length =
      s.callbacks + s.timers.length
    omega
  · rfl

theorem chains_recovered (batchUsedUp : Option Bool) :
    (s.recovered batchUsedUp).chains = s.chains := by
  unfold recovered
  split_ifs with hcallbacks
  · rfl
  · simp only [scheduleQueueRecovery, chains, List.length_append, List.length_singleton]
    omega

theorem chains_stepdown : s.chains ≤ s.stepdown.chains + 1 ∧
    s.stepdown.callbacks = s.callbacks := by
  unfold stepdown stopQueueRecovery chains
  split
  · exact ⟨by dsimp only; omega, rfl⟩
  · rename_i timeout htimeout
    have hle := length_le_clearTimeout (s := { s with isLeader := false }) timeout
    refine ⟨?_, rfl⟩
    change s.callbacks + s.timers.length ≤ s.callbacks + _ + 1
    dsimp only at hle
    omega

/-! ## The one chain -/

theorem isLeader_stepdown : s.stepdown.isLeader = false := by
  unfold stepdown stopQueueRecovery
  split <;> rfl

theorem chained_takeover (hkeeps : s.KeepsChain .takeover) : s.takeover.Chained := by
  obtain ⟨htimers, hcallbacks⟩ := hkeeps
  refine ⟨?_, fun timer htimer => ?_⟩
  · rw [chains_takeover]
    simp [chains, htimers, hcallbacks, QueueRecoveryTimer.due, QueueRecoveryTimer.takeover,
      scheduleQueueRecovery]
  · simp only [QueueRecoveryTimer.takeover, scheduleQueueRecovery, htimers, List.nil_append,
      List.mem_singleton] at htimer ⊢
    rw [htimer]

/-- The one timer is the one whose handle is stored, so that it is cleared. -/
theorem Chained.stepdown (h : s.Chained) (hkeeps : s.KeepsChain .stepdown) :
    s.stepdown.Chained := by
  have hnone : s.stepdown.timers = [] := by
    have hlength : s.timers.length ≤ 1 := (h.oneChain hkeeps).1
    rcases htimers : s.timers with _ | ⟨timer, rest⟩
    · unfold QueueRecoveryTimer.stepdown stopQueueRecovery
      split
      · exact htimers
      · simp [clearTimeout, htimers]
    · have hrest : rest = [] := by
        rw [htimers, List.length_cons] at hlength
        exact List.length_eq_zero_iff.1 (by omega)
      have hstored := h.stored timer (by rw [htimers]; exact List.mem_cons_self)
      simp [QueueRecoveryTimer.stepdown, stopQueueRecovery, hstored, clearTimeout, htimers, hrest]
  refine ⟨?_, fun timer htimer => ?_⟩
  · have hcallbacks := chains_stepdown (s := s).2
    simp [chains, hnone, hcallbacks, show s.callbacks = 0 from hkeeps, QueueRecoveryTimer.due,
      isLeader_stepdown]
  · rw [hnone] at htimer
    cases htimer

theorem due_fire (handle : ℕ) : (s.fire handle).due = s.due := by
  unfold fire
  split_ifs <;> rfl

theorem due_recovered (batchUsedUp : Option Bool) : (s.recovered batchUsedUp).due = s.due := by
  unfold recovered
  split_ifs <;> rfl

theorem Chained.fire (h : s.Chained) (handle : ℕ) : (s.fire handle).Chained := by
  refine ⟨by rw [chains_fire, due_fire, h.due], fun timer htimer => ?_⟩
  unfold QueueRecoveryTimer.fire at htimer ⊢
  split_ifs at htimer ⊢
  · exact h.stored timer (List.mem_of_mem_eraseP htimer)
  · exact h.stored timer htimer

theorem Chained.recovered (h : s.Chained) (batchUsedUp : Option Bool) :
    (s.recovered batchUsedUp).Chained := by
  refine ⟨by rw [chains_recovered, due_recovered, h.due], fun timer htimer => ?_⟩
  by_cases hcallbacks : s.callbacks = 0
  · unfold QueueRecoveryTimer.recovered at htimer ⊢
    rw [if_pos hcallbacks] at htimer ⊢
    exact h.stored timer htimer
  · have htimers : s.timers = [] := by
      have hdue := h.due
      unfold chains QueueRecoveryTimer.due at hdue
      refine List.length_eq_zero_iff.1 ?_
      split_ifs at hdue <;> omega
    unfold QueueRecoveryTimer.recovered at htimer ⊢
    rw [if_neg hcallbacks] at htimer ⊢
    simp only [scheduleQueueRecovery, htimers, List.nil_append, List.mem_singleton] at htimer ⊢
    rw [htimer]

theorem Chained.step (h : s.Chained) {e : Event} (hkeeps : s.KeepsChain e) :
    (s.step e).Chained := by
  cases e with
  | takeover => exact chained_takeover hkeeps
  | stepdown => exact h.stepdown hkeeps
  | fire handle => exact h.fire handle
  | recovered batchUsedUp => exact h.recovered batchUsedUp

theorem chained_setupQueue (waitMs : ℕ) (isLeader : Bool) : (setupQueue waitMs isLeader).Chained := by
  cases isLeader with
  | false => exact ⟨rfl, fun _ htimer => (by cases htimer)⟩
  | true =>
    refine ⟨rfl, fun timer htimer => ?_⟩
    simp only [setupQueue, ↓reduceIte, scheduleQueueRecovery, List.nil_append,
      List.mem_singleton] at htimer ⊢
    rw [htimer]

/-! ## A chain too many -/

theorem excess_of_not_keepsChain (h : s.Chained) {e : Event} (hnot : ¬ s.KeepsChain e) :
    (s.step e).Excess := by
  have hdue := h.due
  unfold Excess
  cases e with
  | takeover =>
    have hpos : 0 < s.chains := by
      refine Nat.pos_of_ne_zero fun hzero => hnot ?_
      unfold chains at hzero
      exact ⟨List.length_eq_zero_iff.1 (by omega), by omega⟩
    change s.takeover.due < s.takeover.chains
    rw [chains_takeover, show s.takeover.due = 1 from rfl]
    omega
  | stepdown =>
    change s.stepdown.due < s.stepdown.chains
    have hzero : s.stepdown.due = 0 := by simp [due, isLeader_stepdown]
    have hcallbacks := chains_stepdown (s := s).2
    have hpos : s.callbacks ≠ 0 := hnot
    unfold chains
    omega
  | fire handle => exact absurd trivial hnot
  | recovered batchUsedUp => exact absurd trivial hnot

/-- The chain too many stays, as long as it is not seen. -/
theorem Excess.step (h : s.Excess) (hone : s.OneChain) (e : Event) : (s.step e).Excess := by
  unfold Excess at h ⊢
  cases e with
  | takeover =>
    change s.takeover.due < s.takeover.chains
    rw [chains_takeover, show s.takeover.due = 1 from rfl]
    omega
  | stepdown =>
    change s.stepdown.due < s.stepdown.chains
    have hzero : s.stepdown.due = 0 := by simp [due, isLeader_stepdown]
    obtain ⟨hchains, hcallbacks⟩ := chains_stepdown (s := s)
    rw [hzero]
    by_cases hnone : s.callbacks = 0
    · obtain ⟨hlength, hfollower⟩ := hone hnone
      unfold chains due at h
      split_ifs at h with hleader
      · omega
      · rw [hfollower (by simpa using hleader)] at h
        simp only [List.length_nil] at h
        omega
    · unfold chains
      omega
  | fire handle =>
    change (s.fire handle).due < (s.fire handle).chains
    rwa [chains_fire, due_fire]
  | recovered batchUsedUp =>
    change (s.recovered batchUsedUp).due < (s.recovered batchUsedUp).chains
    rwa [chains_recovered, due_recovered]

theorem Excess.not_oneChain (h : s.Excess) (hcallbacks : s.callbacks = 0) : ¬ s.OneChain := by
  intro hone
  obtain ⟨hlength, hfollower⟩ := hone hcallbacks
  unfold Excess chains due at h
  split_ifs at h with hleader
  · omega
  · rw [hfollower (by simpa using hleader)] at h
    simp only [List.length_nil] at h
    omega

theorem excess_run : ∀ {es : List Event} {s : QueueRecoveryTimer}, s.Excess →
    Runs.Along QueueRecoveryTimer.step OneChain s es →
      (Runs.run QueueRecoveryTimer.step s es).Excess
  | [], _, h, _ => h
  | e :: es, s, h, halong => by
    rw [Runs.run_cons]
    exact excess_run (h.step halong.1 e) halong.2

theorem meets_of_oneChain : ∀ {es : List Event} {s : QueueRecoveryTimer}, s.Chained →
    (Runs.run step s es).callbacks = 0 → Runs.Along step OneChain s es →
      Runs.Meets step KeepsChain s es
  | [], _, _, _, _ => trivial
  | e :: es, s, h, hended, halong => by
    have hkeeps : s.KeepsChain e := by
      by_contra hnot
      have hexcess := excess_run (excess_of_not_keepsChain h hnot) halong.2
      exact hexcess.not_oneChain hended halong.2.last
    exact ⟨hkeeps, meets_of_oneChain (h.step hkeeps) hended halong.2⟩

/-- Runs that take over without a chain and step down without a callback keep to one chain, and they
are all the runs that do and end with no callback running. -/
theorem one_chain_iff (waitMs : ℕ) (isLeader : Bool) (es : List Event) :
    (Runs.Meets step KeepsChain (setupQueue waitMs isLeader) es →
      Runs.Along step OneChain (setupQueue waitMs isLeader) es) ∧
    ((Runs.run step (setupQueue waitMs isLeader) es).callbacks = 0 →
      Runs.Along step OneChain (setupQueue waitMs isLeader) es →
        Runs.Meets step KeepsChain (setupQueue waitMs isLeader) es) := by
  have hstart := chained_setupQueue waitMs isLeader
  refine ⟨fun hmeets => ?_, fun hended halong => meets_of_oneChain hstart hended halong⟩
  exact (Runs.meets_along (fun _ _ h hkeeps => h.step hkeeps) hstart hmeets).mono
    fun _ h => h.oneChain

/-- The leader steps down while a recovery is running, which then schedules the next. -/
theorem follower_recovers : ¬ Runs.Along step OneChain (setupQueue 60000 true)
    [.fire 0, .stepdown, .recovered (some false)] := by
  intro h
  have hnone := (h.last rfl).2 rfl
  cases hnone

end QueueRecoveryTimer

end N8n
