import N8n.InsightsCollection
import N8n.Library.Places
import N8n.Library.Runs
import Mathlib.Tactic.SplitIfs

/-!
# Insights are conserved

Every event that was collected is in the buffer, in a flush in progress or inserted. Once the
shutdown has begun the buffer is taken whenever events come in, so that what it holds was put back
by flushes that failed since it was last taken.
-/

namespace N8n

namespace InsightsCollectionService

def Flush.inFlight (f : Flush) : List BufferedInsight :=
  if f.stage.isInProgress then f.bufferedInsightsToFlush else []

/-- The events of the flushes in progress. -/
def inFlight (s : InsightsCollectionService) : List BufferedInsight :=
  s.flushes.flatMap Flush.inFlight

/-- A flush has failed since the last one began. -/
def HasFailedSince (s : InsightsCollectionService) : Prop :=
  ∃ f ∈ s.flushes, f.stage = .failed s.flushes.length

/-- Each event is in one place. -/
structure Conserved (s : InsightsCollectionService) : Prop where
  refs : ∀ e ∈ s.collected, e.ref < s.collected.length
  nodup : s.collected.Nodup
  perm : s.collected.Perm (s.inserted ++ (s.bufferedInsights ++ s.inFlight))

/-- What the buffer holds once the shutdown has begun. -/
structure Drained (s : InsightsCollectionService) : Prop where
  initialized : s.shutdownStage ≠ .resolved → s.isInitialized
  saving : s.shutdownStage ≠ .notCalled → s.isAsynchronouslySavingInsights = false
  putBack : s.shutdownStage ≠ .notCalled → s.bufferedInsights ≠ [] → s.HasFailedSince

variable {s : InsightsCollectionService}

/-! ## The buffer as a set -/

theorem foldl_addTo : ∀ {events set : List BufferedInsight}, (set ++ events).Nodup →
    events.foldl addTo set = set ++ events
  | [], set, _ => (List.append_nil set).symm
  | e :: events, set, h => by
    have he : e ∉ set := fun hmem =>
      (List.nodup_append.1 h).2.2 e hmem e List.mem_cons_self rfl
    rw [List.append_cons] at h
    rw [List.foldl_cons, addTo, if_neg he, foldl_addTo h, ← List.append_cons]

/-! ## Conservation -/

/-- The fields that say where the events are. -/
theorem Conserved.congr {s' : InsightsCollectionService} (h : s.Conserved)
    (hcollected : s'.collected = s.collected) (hinserted : s'.inserted = s.inserted)
    (hbuffer : s'.bufferedInsights = s.bufferedInsights) (hflushes : s'.flushes = s.flushes) :
    s'.Conserved where
  refs := hcollected ▸ h.refs
  nodup := hcollected ▸ h.nodup
  perm := by
    rw [hcollected, hinserted, hbuffer, inFlight, hflushes]
    exact h.perm

theorem Conserved.collect (h : s.Conserved) (ctx : WorkflowExecuteAfterContext) (timestamp : ℤ)
    (insight : InsightType × ℤ) : (s.collect ctx timestamp insight).Conserved := by
  let event : BufferedInsight :=
    { ref := s.collected.length, type := insight.1, value := insight.2, timestamp
      workflowId := ctx.workflowId, workflowName := ctx.workflowName }
  have hnew : event ∉ s.collected := fun hmem => Nat.lt_irrefl _ (h.refs event hmem)
  have hbuffer : event ∉ s.bufferedInsights := fun hmem =>
    hnew (h.perm.mem_iff.2 (List.mem_append_right _ (List.mem_append_left _ hmem)))
  have hadd : addTo s.bufferedInsights event = s.bufferedInsights ++ [event] := if_neg hbuffer
  refine ⟨fun e he => ?_, ?_, ?_⟩
  · rw [InsightsCollectionService.collect, List.length_append]
    rcases List.mem_append.1 he with he | he
    · exact Nat.lt_add_right _ (h.refs e he)
    · rw [List.mem_singleton.1 he]
      exact Nat.lt_succ_self _
  · exact List.nodup_append.2 ⟨h.nodup, List.nodup_singleton _, fun e he e' he' heq => by
      obtain rfl := heq.trans (List.mem_singleton.1 he')
      exact hnew he⟩
  · show (s.collected ++ [event]).Perm
      (s.inserted ++ (addTo s.bufferedInsights event ++ s.inFlight))
    rw [hadd, List.perm_iff_count]
    intro e
    have := h.perm.count_eq e
    simp only [List.count_append] at this ⊢
    omega

theorem Conserved.flushEvents (h : s.Conserved) : s.flushEvents.Conserved := by
  unfold InsightsCollectionService.flushEvents scheduleFlushing cancelScheduledFlushing
  split_ifs with hinit hbuffer hinit'
  · exact h
  · exact h.congr rfl rfl rfl rfl
  · exact h
  · refine ⟨h.refs, h.nodup, ?_⟩
    simpa [inFlight, Flush.inFlight, FlushStage.isInProgress] using
      h.perm.trans (List.Perm.append_left _ List.perm_append_comm)

/-- What is in flight is that of the flush and that of the others. -/
theorem inFlight_setStage {flush : ℕ} {f : Flush} (h : s.flushes[flush]? = some f)
    (stage : FlushStage) : ∃ others, s.inFlight.Perm (f.inFlight ++ others) ∧
      (s.setStage flush stage).inFlight.Perm (({ f with stage } : Flush).inFlight ++ others) :=
  Places.flatMap_modify_perm Flush.inFlight h fun f => { f with stage }

theorem Conserved.setStage {flush : ℕ} {f : Flush} {stage : FlushStage} (h : s.Conserved)
    (hf : s.flushes[flush]? = some f) (hold : f.stage.isInProgress) (hnew : stage.isInProgress) :
    (s.setStage flush stage).Conserved := by
  obtain ⟨others, hbefore, hafter⟩ := inFlight_setStage hf stage
  refine ⟨h.refs, h.nodup, h.perm.trans ?_⟩
  refine ((hbefore.trans ?_).append_left _).append_left _
  rw [Flush.inFlight, if_pos hold]
  rw [Flush.inFlight, if_pos hnew] at hafter
  exact hafter.symm

theorem Conserved.endFlush (h : s.Conserved) (flush : ℕ) : (s.endFlush flush).Conserved := by
  refine h.congr ?_ ?_ ?_ ?_ <;>
    (unfold InsightsCollectionService.endFlush scheduleFlushing; split_ifs <;> rfl)

theorem Conserved.saveFlush {flush : ℕ} {f : Flush} (h : s.Conserved)
    (hf : s.flushes[flush]? = some f) (hold : f.stage.isInProgress) (events : List InsightsRaw) :
    (s.saveFlush flush f events).Conserved := by
  obtain ⟨others, hbefore, hafter⟩ := inFlight_setStage hf .saved
  rw [Flush.inFlight, if_pos hold] at hbefore
  have hsaved : Conserved { s.setStage flush .saved with
      insightsRaw := s.insightsRaw ++ events
      inserted := s.inserted ++ f.bufferedInsightsToFlush } := by
    refine ⟨h.refs, h.nodup, List.perm_iff_count.2 fun e => ?_⟩
    have hperm := h.perm.count_eq e
    have hbefore := hbefore.count_eq e
    have hafter : (s.setStage flush .saved).inFlight.count e = others.count e := hafter.count_eq e
    simp only [List.count_append] at hperm hbefore ⊢
    change s.collected.count e = s.inserted.count e + f.bufferedInsightsToFlush.count e +
      (s.bufferedInsights.count e + (s.setStage flush .saved).inFlight.count e)
    omega
  exact hsaved.endFlush flush

theorem Conserved.failFlush {flush : ℕ} {f : Flush} (h : s.Conserved)
    (hf : s.flushes[flush]? = some f) (hold : f.stage.isInProgress) :
    (s.failFlush flush f).Conserved := by
  obtain ⟨others, hbefore, hafter⟩ := inFlight_setStage hf (.failed s.flushes.length)
  rw [Flush.inFlight, if_pos hold] at hbefore
  have hnodup : (s.bufferedInsights ++ f.bufferedInsightsToFlush).Nodup := by
    have := (h.perm.trans ((hbefore.append_left _).append_left _)).nodup_iff.1 h.nodup
    rw [← List.append_assoc s.bufferedInsights] at this
    exact (List.nodup_append.1 (List.nodup_append.1 this).2.1).1
  have hfailed : Conserved { s.setStage flush (.failed s.flushes.length) with
      bufferedInsights := f.bufferedInsightsToFlush.foldl addTo s.bufferedInsights } := by
    refine ⟨h.refs, h.nodup, List.perm_iff_count.2 fun e => ?_⟩
    have hperm := h.perm.count_eq e
    have hbefore := hbefore.count_eq e
    have hafter : (s.setStage flush (.failed s.flushes.length)).inFlight.count e =
      others.count e := hafter.count_eq e
    rw [foldl_addTo hnodup]
    simp only [List.count_append] at hperm hbefore ⊢
    change s.collected.count e = s.inserted.count e +
      (s.bufferedInsights.count e + f.bufferedInsightsToFlush.count e +
        (s.setStage flush (.failed s.flushes.length)).inFlight.count e)
    omega
  exact hfailed.endFlush flush

/-! ## After the shutdown has begun -/

theorem HasFailedSince.setStage {flush : ℕ} {f : Flush} (h : s.HasFailedSince)
    (hf : s.flushes[flush]? = some f) (hold : f.stage.isInProgress) (stage : FlushStage) :
    (s.setStage flush stage).HasFailedSince := by
  obtain ⟨failed, hmem, hstage⟩ := h
  obtain ⟨k, hk⟩ := List.mem_iff_getElem?.1 hmem
  have hne : flush ≠ k := by
    rintro rfl
    obtain rfl := Option.some.inj (hk.symm.trans hf)
    rw [hstage] at hold
    cases hold
  refine ⟨failed, List.mem_iff_getElem?.2 ⟨k, ?_⟩, hstage.trans ?_⟩
  · exact Places.getElem?_modify_eq_some.2 ⟨failed, hk, if_neg hne⟩
  · rw [InsightsCollectionService.setStage, List.length_modify]

theorem Drained.congr {s' : InsightsCollectionService} (h : s.Drained)
    (hstage : s'.shutdownStage = s.shutdownStage) (hinit : s'.isInitialized = s.isInitialized)
    (hasync : s'.isAsynchronouslySavingInsights = s.isAsynchronouslySavingInsights)
    (hbuffer : s'.bufferedInsights = s.bufferedInsights) (hflushes : s'.flushes = s.flushes) :
    s'.Drained where
  initialized := by rw [hstage, hinit]; exact h.initialized
  saving := by rw [hstage, hasync]; exact h.saving
  putBack := by rw [hstage, hbuffer, HasFailedSince, hflushes]; exact h.putBack

theorem Drained.setStage {flush : ℕ} {f : Flush} (h : s.Drained)
    (hf : s.flushes[flush]? = some f) (hold : f.stage.isInProgress) (stage : FlushStage) :
    (s.setStage flush stage).Drained :=
  ⟨h.initialized, h.saving, fun hcalled hne => (h.putBack hcalled hne).setStage hf hold stage⟩

theorem Drained.endFlush (h : s.Drained) (flush : ℕ) : (s.endFlush flush).Drained := by
  refine h.congr ?_ ?_ ?_ ?_ ?_ <;>
    (unfold InsightsCollectionService.endFlush scheduleFlushing; split_ifs <;> rfl)

theorem Drained.saveFlush {flush : ℕ} {f : Flush} (h : s.Drained)
    (hf : s.flushes[flush]? = some f) (hold : f.stage.isInProgress) (events : List InsightsRaw) :
    (s.saveFlush flush f events).Drained := by
  have hstage := h.setStage hf hold .saved
  have hsaved : Drained { s.setStage flush .saved with
      insightsRaw := s.insightsRaw ++ events
      inserted := s.inserted ++ f.bufferedInsightsToFlush } :=
    ⟨hstage.initialized, hstage.saving, hstage.putBack⟩
  exact hsaved.endFlush flush

theorem Drained.failFlush {flush : ℕ} {f : Flush} (h : s.Drained)
    (hf : s.flushes[flush]? = some f) : (s.failFlush flush f).Drained := by
  have hfailed : Drained { s.setStage flush (.failed s.flushes.length) with
      bufferedInsights := f.bufferedInsightsToFlush.foldl addTo s.bufferedInsights } := by
    refine ⟨h.initialized, h.saving, fun _ _ => ?_⟩
    refine ⟨{ f with stage := .failed s.flushes.length }, ?_, ?_⟩
    · exact List.mem_of_getElem? (Places.getElem?_modify_self hf _)
    · simp [InsightsCollectionService.setStage]
  exact hfailed.endFlush flush

/-- A flush leaves the buffer empty. -/
theorem bufferedInsights_flushEvents (h : s.isInitialized) :
    s.flushEvents.bufferedInsights = [] := by
  unfold InsightsCollectionService.flushEvents scheduleFlushing
  simp only [h, Bool.not_true, Bool.false_eq_true, if_false, if_true]
  split_ifs with hbuffer
  · exact hbuffer
  · rfl

/-- What a flush leaves as it is. -/
theorem flushEvents_frame (s : InsightsCollectionService) :
    s.flushEvents.shutdownStage = s.shutdownStage ∧
      s.flushEvents.isInitialized = s.isInitialized ∧
      s.flushEvents.isAsynchronouslySavingInsights = s.isAsynchronouslySavingInsights := by
  unfold InsightsCollectionService.flushEvents scheduleFlushing cancelScheduledFlushing
  split_ifs <;> exact ⟨rfl, rfl, rfl⟩

theorem Drained.flushEvents (h : s.Drained) : s.flushEvents.Drained := by
  obtain ⟨hstage, hinit, hasync⟩ := flushEvents_frame s
  by_cases hinitialized : s.isInitialized
  · refine ⟨by rw [hstage, hinit]; exact h.initialized, by rw [hstage, hasync]; exact h.saving,
      fun _ hne => absurd (bufferedInsights_flushEvents hinitialized) hne⟩
  · have hsame : s.flushEvents = s := if_pos (by simpa using hinitialized)
    rw [hsame]
    exact h

/-! ## Handling an execution -/

structure Sound (s : InsightsCollectionService) : Prop extends Conserved s, Drained s

theorem Sound.flushEvents (h : s.Sound) : s.flushEvents.Sound :=
  ⟨h.toConserved.flushEvents, h.toDrained.flushEvents⟩

theorem Sound.flushFullBuffer (h : s.Sound) : s.flushFullBuffer.Sound := by
  unfold InsightsCollectionService.flushFullBuffer
  split_ifs
  · exact h.flushEvents
  · exact h

/-- What adding events leaves as it is, and keeps. -/
theorem foldl_collect (ctx : WorkflowExecuteAfterContext) (timestamp : ℤ) :
    ∀ (insights : List (InsightType × ℤ)) {s : InsightsCollectionService}, s.Conserved →
      (insights.foldl (·.collect ctx timestamp ·) s).Conserved ∧
        (insights.foldl (·.collect ctx timestamp ·) s).shutdownStage = s.shutdownStage ∧
        (insights.foldl (·.collect ctx timestamp ·) s).isInitialized = s.isInitialized ∧
        (insights.foldl (·.collect ctx timestamp ·) s).isAsynchronouslySavingInsights =
          s.isAsynchronouslySavingInsights
  | [], _, h => ⟨h, rfl, rfl, rfl⟩
  | insight :: insights, _, h =>
    foldl_collect ctx timestamp insights (h.collect ctx timestamp insight)

theorem Sound.handleWorkflowExecuteAfter (h : s.Sound) (ctx : WorkflowExecuteAfterContext)
    (timestamp : ℤ) : (s.handleWorkflowExecuteAfter ctx timestamp).Sound := by
  unfold InsightsCollectionService.handleWorkflowExecuteAfter
  split_ifs with hinit hskip hsaving
  · exact h
  · exact h
  all_goals
    simp only [Bool.not_eq_true', Bool.not_eq_false] at hinit hsaving
    obtain ⟨hconserved, hstage, hinitialized, hasync⟩ :=
      foldl_collect ctx timestamp (insightsOf ctx) h.toConserved
    generalize (insightsOf ctx).foldl (·.collect ctx timestamp ·) s = added at *
  · -- the buffer is taken at once
    obtain ⟨hstage', hinitialized', hasync'⟩ := flushEvents_frame added
    have hbuffer := bufferedInsights_flushEvents (hinitialized.trans hinit)
    have hconserved' := hconserved.flushEvents
    exact
      { hconserved'.congr rfl rfl rfl rfl with
        initialized := fun _ => hinitialized'.trans (hinitialized.trans hinit)
        saving := fun _ => hasync'.trans (hasync.trans hsaving)
        putBack := fun _ hne => absurd hbuffer hne }
  · -- the shutdown has not begun
    have hnot : added.shutdownStage = .notCalled := by
      by_contra hcalled
      rw [h.saving (hstage ▸ hcalled)] at hsaving
      cases hsaving
    refine Sound.flushFullBuffer { hconserved with
      initialized := fun _ => hinitialized.trans hinit
      saving := fun hcalled => absurd hnot hcalled
      putBack := fun hcalled => absurd hnot hcalled }

/-! ## A whole run -/

theorem Sound.resumeHandler (h : s.Sound) (handler : ℕ) : (s.resumeHandler handler).Sound := by
  unfold InsightsCollectionService.resumeHandler
  split
  · split_ifs
    · exact h
    · exact Sound.flushFullBuffer
        ⟨h.toConserved.congr rfl rfl rfl rfl, h.toDrained.congr rfl rfl rfl rfl rfl⟩
  · exact h

theorem Sound.timeout (h : s.Sound) : s.timeout.Sound := by
  unfold InsightsCollectionService.timeout
  split_ifs
  · exact Sound.flushEvents
      ⟨h.toConserved.congr rfl rfl rfl rfl, h.toDrained.congr rfl rfl rfl rfl rfl⟩
  · exact h

theorem Sound.setStage {flush : ℕ} {f : Flush} {stage : FlushStage} (h : s.Sound)
    (hf : s.flushes[flush]? = some f) (hold : f.stage.isInProgress) (hnew : stage.isInProgress) :
    (s.setStage flush stage).Sound :=
  ⟨h.toConserved.setStage hf hold hnew, h.toDrained.setStage hf hold stage⟩

theorem Sound.failFlush {flush : ℕ} {f : Flush} (h : s.Sound) (hf : s.flushes[flush]? = some f)
    (hold : f.stage.isInProgress) : (s.failFlush flush f).Sound :=
  ⟨h.toConserved.failFlush hf hold, h.toDrained.failFlush hf⟩

theorem Sound.foundSharedWorkflows (h : s.Sound) (flush : ℕ)
    (result : Option (List SharedWorkflow)) : (s.foundSharedWorkflows flush result).Sound := by
  unfold InsightsCollectionService.foundSharedWorkflows
  cases hf : s.flushes[flush]? with
  | none => exact h
  | some f =>
    by_cases hstage : f.stage = .findSharedWorkflows
    · have hold : f.stage.isInProgress := by rw [hstage]; rfl
      cases result with
      | none => simpa [hstage] using h.failFlush hf hold
      | some sharedWorkflows => simpa [hstage] using h.setStage hf hold rfl
    · simpa [hstage] using h

theorem Sound.upsertedMetadata (h : s.Sound) (flush : ℕ) (ok : Bool) :
    (s.upsertedMetadata flush ok).Sound := by
  unfold InsightsCollectionService.upsertedMetadata
  cases hf : s.flushes[flush]? with
  | none => exact h
  | some f =>
    cases hstage : f.stage with
    | upsertMetadata =>
      have hold : f.stage.isInProgress := by rw [hstage]; rfl
      cases ok with
      | true => simpa [hstage] using h.setStage hf hold rfl
      | false => simpa [hstage] using h.failFlush hf hold
    | _ => simpa [hstage] using h

theorem Sound.foundMetadata (h : s.Sound) (flush : ℕ) (result : Option (List InsightsMetadata)) :
    (s.foundMetadata flush result).Sound := by
  unfold InsightsCollectionService.foundMetadata
  cases hf : s.flushes[flush]? with
  | none => exact h
  | some f =>
    by_cases hstage : f.stage = .findMetadata
    · have hold : f.stage.isInProgress := by rw [hstage]; rfl
      cases result with
      | none => simpa [hstage] using h.failFlush hf hold
      | some metadata =>
        have hcached (cachedMetadata : Dict String InsightsMetadata) :
            Sound { s with cachedMetadata } :=
          ⟨h.toConserved.congr rfl rfl rfl rfl, h.toDrained.congr rfl rfl rfl rfl rfl⟩
        simp only [hstage, if_true]
        split
        · exact (hcached _).setStage hf hold rfl
        · exact (hcached _).failFlush hf hold
    · simpa [hstage] using h

theorem Sound.insertedRaw (h : s.Sound) (flush : ℕ) (ok : Bool) :
    (s.insertedRaw flush ok).Sound := by
  unfold InsightsCollectionService.insertedRaw
  cases hf : s.flushes[flush]? with
  | none => exact h
  | some f =>
    cases hstage : f.stage with
    | insertRaw events =>
      have hold : f.stage.isInProgress := by rw [hstage]; rfl
      have hsaved : (s.saveFlush flush f events).Sound :=
        ⟨h.toConserved.saveFlush hf hold events, h.toDrained.saveFlush hf hold events⟩
      cases ok with
      | true => simpa [hstage] using hsaved
      | false => simpa [hstage] using h.failFlush hf hold
    | _ => simpa [hstage] using h

theorem Sound.shutdown (h : s.Sound) : s.shutdown.Sound := by
  unfold InsightsCollectionService.shutdown
  split_ifs with hnot
  · have hinit : s.isInitialized := h.initialized (by rw [hnot]; decide)
    have hconserved : Conserved
        { s.cancelScheduledFlushing with isAsynchronouslySavingInsights := false } :=
      h.toConserved.congr rfl rfl rfl rfl
    obtain ⟨-, hinit', hasync⟩ := flushEvents_frame
      { s.cancelScheduledFlushing with isAsynchronouslySavingInsights := false }
    have hbuffer := bufferedInsights_flushEvents
      (s := { s.cancelScheduledFlushing with isAsynchronouslySavingInsights := false }) hinit
    exact
      { hconserved.flushEvents.congr rfl rfl rfl rfl with
        initialized := fun _ => hinit'.trans hinit
        saving := fun _ => hasync
        putBack := fun _ hne => absurd hbuffer hne }
  · exact h

theorem Sound.shutdownResolves (h : s.Sound) : s.shutdownResolves.Sound := by
  unfold InsightsCollectionService.shutdownResolves
  cases hstage : s.shutdownStage with
  | waits flushes =>
    by_cases hwaits : flushes.any s.isInProgress
    · simpa [hwaits] using h
    · have hcalled : s.shutdownStage ≠ .notCalled := by rw [hstage]; exact Shutdown.noConfusion
      simp only [hwaits]
      exact
        { h.toConserved.congr rfl rfl rfl rfl with
          initialized := fun hne => absurd rfl hne
          saving := fun _ => h.saving hcalled
          putBack := fun _ => h.putBack hcalled }
  | _ => exact h

theorem Sound.step (h : s.Sound) (e : Event) : (s.step e).Sound := by
  cases e with
  | workflowExecuteAfter ctx timestamp => exact h.handleWorkflowExecuteAfter ctx timestamp
  | resumeHandler handler => exact h.resumeHandler handler
  | timeout => exact h.timeout
  | foundSharedWorkflows flush result => exact h.foundSharedWorkflows flush result
  | upsertedMetadata flush ok => exact h.upsertedMetadata flush ok
  | foundMetadata flush result => exact h.foundMetadata flush result
  | insertedRaw flush ok => exact h.insertedRaw flush ok
  | shutdown => exact h.shutdown
  | shutdownResolves => exact h.shutdownResolves

theorem Sound.run : ∀ {es : List Event} {s : InsightsCollectionService}, s.Sound →
    (Runs.run InsightsCollectionService.step s es).Sound
  | [], _, h => h
  | e :: _, _, h => (h.step e).run

theorem sound_init (flushBatchSize : ℕ) :
    (InsightsCollectionService.init { flushBatchSize }).Sound where
  refs := by simp [InsightsCollectionService.init, scheduleFlushing]
  nodup := by simp [InsightsCollectionService.init, scheduleFlushing]
  perm := by simp [InsightsCollectionService.init, scheduleFlushing, inFlight]
  initialized := by simp [InsightsCollectionService.init, scheduleFlushing]
  saving := by simp [InsightsCollectionService.init, scheduleFlushing]
  putBack := by simp [InsightsCollectionService.init, scheduleFlushing]

end InsightsCollectionService

end N8n
