import N8n.Library.Places
import N8n.Library.Runs
import N8n.WaitTracker

/-!
# How often a wait is resumed

A resume takes the entry of its execution away before it asks the database, and the row is waiting
until the update of `ActiveExecutions.add`. A poll in between sets a second timer; the wait is
resumed once as long as no such timer fires in that time.
-/

namespace N8n

namespace WaitTracker

variable {s : WaitTracker}

/-- No execution has two resumes under way, and none that is still to call `run` has a predecessor
that has called it in the same wait. -/
structure Once (s : WaitTracker) : Prop where
  once : s.ResumesOnce
  logged : ∀ id wait, (id, wait) ∈ s.runs → ∃ row, s.rows.get? id = some row ∧ wait ≤ row.wait
  single : ∀ (i j : ℕ) (r r' : Resume), s.resumes[i]? = some r → s.resumes[j]? = some r' →
    r.executionId = r'.executionId → r.stage ≠ .ended → r'.stage ≠ .ended → i = j
  before : ∀ r ∈ s.resumes, r.stage = .finding ∨ r.stage = .gettingProject →
    ∀ wait, s.currentWait r.executionId = some wait → (r.executionId, wait) ∉ s.runs

theorem Once.of_eq {s' : WaitTracker} (h : s.Once) (hresumes : s'.resumes = s.resumes)
    (hrows : s'.rows = s.rows) (hruns : s'.runs = s.runs) : s'.Once := by
  obtain ⟨honce, hlogged, hsingle, hbefore⟩ := h
  refine ⟨?_, ?_, ?_, ?_⟩
  · unfold ResumesOnce
    rwa [hruns]
  · rwa [hruns, hrows]
  · rwa [hresumes]
  · unfold currentWait
    rwa [hresumes, hrows, hruns]

/-- Rows may change so long as no logged wait comes again. -/
theorem Once.of_rows {s' : WaitTracker} (h : s.Once) (hresumes : s'.resumes = s.resumes)
    (hruns : s'.runs = s.runs)
    (hrows : ∀ id row, s.rows.get? id = some row →
      ∃ row', s'.rows.get? id = some row' ∧ row.wait ≤ row'.wait)
    (hcurrent : ∀ id wait, s'.currentWait id = some wait →
      s.currentWait id = some wait ∨ (id, wait) ∉ s.runs) : s'.Once := by
  refine ⟨?_, fun id wait hlog => ?_, ?_, fun r hr hstage wait hwait => ?_⟩
  · unfold ResumesOnce
    rw [hruns]
    exact h.once
  · rw [hruns] at hlog
    obtain ⟨row, hrow, hle⟩ := h.logged id wait hlog
    obtain ⟨row', hrow', hle'⟩ := hrows id row hrow
    exact ⟨row', hrow', hle.trans hle'⟩
  · rw [hresumes]
    exact h.single
  · rw [hruns]
    rw [hresumes] at hr
    exact (hcurrent _ _ hwait).elim (h.before r hr hstage wait) id

/-! ## Resumes -/

theorem Once.startExecution (h : s.Once) {executionId : String}
    (hfirst : s.FirstResume executionId) : (s.startExecution executionId).Once := by
  obtain ⟨hended, hnew⟩ := hfirst
  refine ⟨h.once, h.logged, fun i j r r' hr hr' hid hstage hstage' => ?_,
    fun r hr hstage wait hwait => ?_⟩
  · rcases Places.getElem?_concat_eq_some.1 hr with hr | ⟨rfl, rfl⟩ <;>
      rcases Places.getElem?_concat_eq_some.1 hr' with hr' | ⟨rfl, rfl⟩
    · exact h.single i j r r' hr hr' hid hstage hstage'
    · exact absurd (hended r (List.mem_of_getElem? hr) hid) hstage
    · exact absurd (hended r' (List.mem_of_getElem? hr') hid.symm) hstage'
    · rfl
  · rcases List.mem_append.1 hr with hr | hr
    · exact h.before r hr hstage wait hwait
    · obtain rfl := List.mem_singleton.1 hr
      exact hnew wait hwait

theorem getElem?_setStage {resume i : ℕ} {stage : ResumeStage} {r : Resume}
    (h : (s.setStage resume stage).resumes[i]? = some r) :
    ∃ r₀, s.resumes[i]? = some r₀ ∧ r = if i = resume then { r₀ with stage } else r₀ := by
  obtain ⟨r₀, hr₀, heq⟩ := Places.getElem?_modify_eq_some.1 h
  refine ⟨r₀, hr₀, ?_⟩
  split_ifs at heq ⊢ with h1 h2 h2
  · exact heq.symm
  · omega
  · omega
  · exact heq.symm

/-- A resume that is under way, or before `run`, has been so before its stage is set. -/
theorem Once.setStage (h : s.Once) {resume : ℕ} {stage : ResumeStage}
    (hway : ∀ r, s.resumes[resume]? = some r → stage ≠ .ended → r.stage ≠ .ended)
    (hbefore : ∀ r, s.resumes[resume]? = some r → stage = .finding ∨ stage = .gettingProject →
      r.stage = .finding ∨ r.stage = .gettingProject) : (s.setStage resume stage).Once := by
  refine ⟨h.once, h.logged, fun i j r r' hr hr' hid hstage hstage' => ?_,
    fun r hr hstage wait hwait => ?_⟩
  · have hold : ∀ {i : ℕ} {r : Resume}, (s.setStage resume stage).resumes[i]? = some r →
        r.stage ≠ .ended →
        ∃ r₀, s.resumes[i]? = some r₀ ∧ r₀.executionId = r.executionId ∧ r₀.stage ≠ .ended := by
      intro i r hr hstage
      obtain ⟨r₀, hr₀, rfl⟩ := getElem?_setStage hr
      refine ⟨r₀, hr₀, ?_⟩
      split_ifs at hstage ⊢ with hi
      · subst hi
        exact ⟨rfl, hway r₀ hr₀ hstage⟩
      · exact ⟨rfl, hstage⟩
    obtain ⟨r₀, hr₀, hid₀, hstage₀⟩ := hold hr hstage
    obtain ⟨r₁, hr₁, hid₁, hstage₁⟩ := hold hr' hstage'
    exact h.single i j r₀ r₁ hr₀ hr₁ (by rw [hid₀, hid₁, hid]) hstage₀ hstage₁
  · obtain ⟨i, hi⟩ := List.mem_iff_getElem?.1 hr
    obtain ⟨r₀, hr₀, rfl⟩ := getElem?_setStage hi
    split_ifs at hstage hwait ⊢ with hres
    · subst hres
      exact h.before r₀ (List.mem_of_getElem? hr₀) (hbefore r₀ hr₀ hstage) wait hwait
    · exact h.before r₀ (List.mem_of_getElem? hr₀) hstage wait hwait

theorem Once.found (h : s.Once) (resume : ℕ) : (s.found resume).Once := by
  unfold WaitTracker.found
  split
  · rename_i executionId hresume
    refine h.setStage (fun r hr _ => ?_) fun r hr _ => ?_
    · rw [hresume] at hr
      obtain rfl := Option.some.inj hr
      exact fun hended => by cases hended
    · rw [hresume] at hr
      obtain rfl := Option.some.inj hr
      exact .inl rfl
  · exact h

theorem currentWait_eq_some {executionId : String} {wait : ℕ} :
    s.currentWait executionId = some wait ↔
      ∃ row, s.rows.get? executionId = some row ∧ row.status = .waiting ∧ row.wait = wait := by
  unfold currentWait
  cases s.rows.get? executionId with
  | none => simp
  | some row => simp

/-- The resume that calls `run` is the first in its wait. -/
theorem Once.run (h : s.Once) (resume : ℕ) : (s.run resume).Once := by
  unfold WaitTracker.run
  split
  · rename_i executionId hresume
    have hset : (s.setStage resume .running).Once := by
      refine h.setStage (fun r hr _ => ?_) fun r hr hstage => ?_
      · rw [hresume] at hr
        obtain rfl := Option.some.inj hr
        exact fun hended => by cases hended
      · rcases hstage with hstage | hstage <;> cases hstage
    cases hwait : s.currentWait executionId with
    | none => exact hset.of_eq rfl rfl (List.append_nil _)
    | some wait =>
      have hnot := h.before _ (List.mem_of_getElem? hresume) (.inr rfl) wait hwait
      refine ⟨?_, fun id w hlog => ?_, hset.single, fun r hr hstage w hw hlog => ?_⟩
      · refine List.nodup_append.2 ⟨h.once, List.nodup_singleton _, fun a ha b hb hab => ?_⟩
        obtain rfl := List.mem_singleton.1 hb
        obtain rfl := hab
        exact hnot ha
      · rcases List.mem_append.1 hlog with hlog | hlog
        · exact h.logged id w hlog
        · obtain ⟨rfl, rfl⟩ := Prod.mk.inj (List.mem_singleton.1 hlog)
          obtain ⟨row, hrow, -, hle⟩ := currentWait_eq_some.1 hwait
          exact ⟨row, hrow, hle.ge⟩
      · rcases List.mem_append.1 hlog with hlog | hlog
        · exact hset.before r hr hstage w hw hlog
        · -- another resume of the execution is under way only if it is this one
          obtain ⟨hid, -⟩ := Prod.mk.inj (List.mem_singleton.1 hlog)
          obtain ⟨i, hi⟩ := List.mem_iff_getElem?.1 hr
          obtain ⟨r₀, hr₀, rfl⟩ := getElem?_setStage hi
          split_ifs at hid hstage with hsame
          · rcases hstage with hstage | hstage <;> cases hstage
          · refine hsame (h.single i resume r₀ _ hr₀ hresume hid ?_ ?_)
            · rintro hended
              rcases hstage with hstage | hstage <;> rw [hended] at hstage <;> cases hstage
            · exact fun hended => by cases hended
  · exact h

/-! ## Rows -/

theorem Once.update (h : s.Once) (resume : ℕ) : (s.update resume).Once := by
  unfold WaitTracker.update
  split
  · rename_i executionId hresume
    have hset : (s.setStage resume .ended).Once := by
      refine h.setStage (fun r hr hended => absurd rfl hended) fun r hr hstage => ?_
      rcases hstage with hstage | hstage <;> cases hstage
    refine hset.of_rows rfl rfl (fun id row hrow => ?_) fun id wait hwait => ?_
    · have hrow : s.rows.get? id = some row := hrow
      refine ⟨_, (Dict.get?_mapEntries _ _ _).trans (congrArg _ hrow), ?_⟩
      split_ifs <;> exact le_rfl
    · obtain ⟨row, hrow, hstatus, hwait⟩ := currentWait_eq_some.1 hwait
      obtain ⟨row₀, hrow₀, rfl⟩ :=
        Option.map_eq_some_iff.1 ((Dict.get?_mapEntries _ _ _).symm.trans hrow)
      split_ifs at hstatus hwait with hid
      exact .inl (currentWait_eq_some.2 ⟨row₀, hrow₀, hstatus, hwait⟩)
  · exact h

theorem Once.save (h : s.Once) (executionId : String) (status : ActiveExecutions.ExecutionStatus) :
    (s.save executionId status).Once := by
  unfold WaitTracker.save
  by_cases hwaiting : status = .waiting
  · rw [if_pos hwaiting]
    exact h
  · rw [if_neg hwaiting]
    refine h.of_rows rfl rfl (fun id row hrow => ?_) fun id wait hwait => ?_
    · refine ⟨_, (Dict.get?_mapEntries _ _ _).trans (congrArg _ hrow), ?_⟩
      split_ifs <;> exact le_rfl
    · obtain ⟨row, hrow, hstatus, hwait⟩ := currentWait_eq_some.1 hwait
      obtain ⟨row₀, hrow₀, rfl⟩ :=
        Option.map_eq_some_iff.1 ((Dict.get?_mapEntries _ _ _).symm.trans hrow)
      split_ifs at hstatus hwait with hid
      · exact absurd hstatus hwaiting
      · exact .inl (currentWait_eq_some.2 ⟨row₀, hrow₀, hstatus, hwait⟩)

/-- An execution that is put to waiting begins a wait that is new. -/
theorem Once.putToWait (h : s.Once) (executionId : String) (workflowId : Option String)
    (waitTill : ℕ) : (s.putToWait executionId workflowId waitTill).Once := by
  have hset : ∀ {row' : Row}, (∀ row, s.rows.get? executionId = some row → row.wait < row'.wait) →
      Once { s with rows := s.rows.set executionId row' } := by
    intro row' hnew
    refine h.of_rows rfl rfl (fun id row hrow => ?_) fun id wait hwait => ?_
    · dsimp only
      rw [Dict.get?_set]
      split_ifs with hid
      · subst hid
        exact ⟨row', rfl, (hnew row hrow).le⟩
      · exact ⟨row, hrow, le_rfl⟩
    · obtain ⟨row, hrow, hstatus, hwait⟩ := currentWait_eq_some.1 hwait
      dsimp only at hrow
      rw [Dict.get?_set] at hrow
      split_ifs at hrow with hid
      · obtain rfl := Option.some.inj hrow
        refine .inr fun hlog => ?_
        obtain ⟨row₀, hrow₀, hle⟩ := h.logged id wait hlog
        have hlt := hnew row₀ (hid ▸ hrow₀)
        omega
      · exact .inl (currentWait_eq_some.2 ⟨row, hrow, hstatus, hwait⟩)
  unfold WaitTracker.putToWait
  cases hrow : s.rows.get? executionId with
  | none => exact hset fun row hsome => by rw [hrow] at hsome; cases hsome
  | some row =>
    dsimp only
    split_ifs
    · exact h
    · refine hset fun row₀ hsome => ?_
      rw [hrow] at hsome
      obtain rfl := Option.some.inj hsome
      exact Nat.lt_succ_self _

theorem foldl_setTimer_frame : ∀ (executionIds : List String) (s : WaitTracker),
    (executionIds.foldl setTimer s).resumes = s.resumes ∧
      (executionIds.foldl setTimer s).rows = s.rows ∧ (executionIds.foldl setTimer s).runs = s.runs
  | [], _ => ⟨rfl, rfl, rfl⟩
  | executionId :: executionIds, s => by
    obtain ⟨hresumes, hrows, hruns⟩ := foldl_setTimer_frame executionIds (s.setTimer executionId)
    rw [List.foldl_cons, hresumes, hrows, hruns]
    unfold setTimer
    split_ifs <;> exact ⟨rfl, rfl, rfl⟩

theorem Once.step (h : s.Once) {e : Event} (hfirst : s.ResumesFirst e) : (s.step e).Once := by
  cases e with
  | startTracking => exact h.of_eq rfl rfl rfl
  | stopTracking =>
    dsimp only [WaitTracker.step, stopTracking]
    split <;> exact h.of_eq rfl rfl rfl
  | tick interval =>
    dsimp only [WaitTracker.step, tick]
    split_ifs
    · exact h.of_eq rfl rfl rfl
    · exact h
  | query poll now =>
    dsimp only [WaitTracker.step, query]
    split
    · exact h.of_eq rfl rfl rfl
    · exact h
  | setTimers poll =>
    dsimp only [WaitTracker.step, setTimers]
    split
    · obtain ⟨hresumes, hrows, hruns⟩ := foldl_setTimer_frame _ s
      exact h.of_eq hresumes hrows hruns
    · exact h
  | stopExecution executionId =>
    dsimp only [WaitTracker.step, stopExecution]
    split
    · exact h
    · exact h.of_eq rfl rfl rfl
  | startExecution executionId => exact h.startExecution hfirst
  | fire timer =>
    dsimp only [WaitTracker.step, fire]
    split
    · rename_i executionId htimer
      have hgone : Once { s with timers := s.timers.erase timer } := h.of_eq rfl rfl rfl
      exact hgone.startExecution (hfirst executionId htimer)
    · exact h
  | found resume => exact h.found resume
  | run resume => exact h.run resume
  | update resume => exact h.update resume
  | fail resume =>
    refine h.setStage (fun r _ hended => absurd rfl hended) fun r _ hstage => ?_
    rcases hstage with hstage | hstage <;> cases hstage
  | putToWait executionId workflowId waitTill => exact h.putToWait executionId workflowId waitTill
  | save executionId status => exact h.save executionId status

/-- A poll, its timer and the resume of one execution. -/
def resumeRun : List Event :=
  [.putToWait "1" (some "w") 0, .startTracking, .query 0 0, .setTimers 0, .fire 1, .found 0,
    .run 0, .update 0]

end WaitTracker

end N8n
