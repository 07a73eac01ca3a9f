import N8n.Library.Runs
import N8n.WaitTracker

/-!
# Which waits have a timer

A stepdown clears the timers of the entries and keeps the entries, so that the next takeover has
entries without a timer, which no poll replaces. It also misses the timers of polls that come back
later.
-/

namespace N8n

namespace WaitTracker

variable {s : WaitTracker}

/-- What the timers depend on. -/
def clock (s : WaitTracker) : Bool × Dict String ℕ × Dict ℕ String × List ℕ × Option ℕ × ℕ :=
  (s.tracking, s.waitingExecutions, s.timers, s.intervals, s.mainTimer, s.nextTimer)

/-- A new timer is none of those that are pending. -/
def Fresh (s : WaitTracker) : Prop :=
  ∀ timer executionId, s.timers.get? timer = some executionId → timer < s.nextTimer

/-- The timers are live, and tracking has a main timer. -/
structure Timed (s : WaitTracker) : Prop where
  live : s.TimersLive
  fresh : s.Fresh
  main : s.tracking = true → s.mainTimer ≠ none

theorem Timed.of_clock {s' : WaitTracker} (h : s.Timed) (hclock : s'.clock = s.clock) :
    s'.Timed := by
  unfold clock at hclock
  simp only [Prod.mk.injEq] at hclock
  obtain ⟨htracking, hwaiting, htimers, hintervals, hmain, hnext⟩ := hclock
  obtain ⟨hlive, hfresh, hm⟩ := h
  refine ⟨?_, ?_, ?_⟩
  · unfold TimersLive at hlive ⊢
    rwa [htracking, hwaiting, htimers, hintervals]
  · unfold Fresh
    rwa [htimers, hnext]
  · rwa [htracking, hmain]

/-! ## Starting and stopping -/

theorem Timed.startTracking (h : s.Timed) (hkeeps : s.KeepsTimers .startTracking) :
    s.startTracking.Timed := by
  refine ⟨⟨fun _ executionId timer hentry => ?_, fun hnot => (by cases hnot)⟩,
    fun timer executionId htimer => (h.fresh timer executionId htimer).trans (Nat.lt_succ_self _),
    fun _ => Option.some_ne_none _⟩
  rcases hkeeps with htracking | hnone
  · exact h.live.1 htracking executionId timer hentry
  · have hnone := hnone executionId
    change s.waitingExecutions.get? executionId = some timer at hentry
    rw [hnone] at hentry
    cases hentry

theorem mem_entryTimers {timer : ℕ} : timer ∈ s.waitingExecutions.entries.map (·.2) ↔
    ∃ executionId, s.waitingExecutions.get? executionId = some timer := by
  simp only [List.mem_map, Prod.exists, exists_eq_right, Dict.mem_entries]

theorem Timed.stopTracking (h : s.Timed) (hkeeps : s.KeepsTimers .stopTracking) :
    s.stopTracking.Timed := by
  obtain ⟨hintervals, howned⟩ := hkeeps
  unfold WaitTracker.stopTracking
  cases hmain : s.mainTimer with
  | none =>
    have hnot : s.tracking = false := by
      by_contra htracking
      exact h.main (by simpa using htracking) hmain
    exact ⟨⟨fun htracking => (by cases htracking), fun _ => h.live.2 hnot⟩, h.fresh,
      fun htracking => (by cases htracking)⟩
  | some mainTimer =>
    dsimp only
    refine ⟨⟨fun htracking => (by cases htracking), fun _ => ⟨fun timer => ?_, ?_⟩⟩,
      fun timer executionId htimer => ?_, fun htracking => (by cases htracking)⟩
    · rw [Dict.get?_foldl_erase, List.map_id']
      split_ifs with hentry
      · rfl
      · refine Option.eq_none_iff_forall_ne_some.2 fun executionId htimer => ?_
        exact hentry (mem_entryTimers.2 ⟨executionId, howned timer executionId htimer⟩)
    · refine List.filter_eq_nil_iff.2 fun interval hinterval => ?_
      have heq := hintervals interval hinterval
      rw [hmain] at heq
      simp [Option.some.inj heq]
    · rw [Dict.get?_foldl_erase, List.map_id'] at htimer
      split_ifs at htimer
      exact h.fresh timer executionId htimer

/-! ## Polls -/

theorem setTimer_of_entry {executionId : String}
    (h : s.waitingExecutions.get? executionId ≠ none) : s.setTimer executionId = s := if_neg h

theorem foldl_setTimer_of_entries : ∀ {executionIds : List String},
    (∀ executionId ∈ executionIds, s.waitingExecutions.get? executionId ≠ none) →
      executionIds.foldl setTimer s = s
  | [], _ => rfl
  | executionId :: executionIds, h => by
    rw [List.foldl_cons, setTimer_of_entry (h executionId List.mem_cons_self)]
    exact foldl_setTimer_of_entries fun id hid => h id (List.mem_cons_of_mem _ hid)

theorem tracking_setTimer (executionId : String) :
    (s.setTimer executionId).tracking = s.tracking := by
  unfold setTimer
  split_ifs <;> rfl

theorem tracking_foldl_setTimer : ∀ (executionIds : List String) (s : WaitTracker),
    (executionIds.foldl setTimer s).tracking = s.tracking
  | [], _ => rfl
  | executionId :: executionIds, _ =>
    (tracking_foldl_setTimer executionIds _).trans (tracking_setTimer executionId)

theorem Fresh.setTimer (h : s.Fresh) (executionId : String) : (s.setTimer executionId).Fresh := by
  unfold WaitTracker.setTimer
  split_ifs
  · intro timer id htimer
    dsimp only at htimer ⊢
    rw [Dict.get?_set] at htimer
    split_ifs at htimer with heq
    · omega
    · exact (h timer id htimer).trans (Nat.lt_succ_self _)
  · exact h

theorem Timed.setTimer (h : s.Timed) (htracking : s.tracking = true) (executionId : String) :
    (s.setTimer executionId).Timed := by
  have hfresh := h.fresh.setTimer executionId
  unfold WaitTracker.setTimer at hfresh ⊢
  split_ifs at hfresh ⊢ with hnone
  · refine ⟨⟨fun _ id timer hentry => ?_, fun hnot => by simp [htracking] at hnot⟩, hfresh, h.main⟩
    dsimp only at hentry ⊢
    rw [Dict.get?_set] at hentry ⊢
    split_ifs at hentry with hid
    · obtain rfl := Option.some.inj hentry
      rw [if_pos rfl, hid]
    · have hold := h.live.1 htracking id timer hentry
      rw [if_neg (h.fresh timer id hold).ne, hold]
  · exact h

theorem Timed.foldl_setTimer : ∀ {executionIds : List String} {s : WaitTracker}, s.Timed →
    s.tracking = true → (executionIds.foldl WaitTracker.setTimer s).Timed
  | [], _, h, _ => h
  | executionId :: _, _, h, htracking =>
    (h.setTimer htracking executionId).foldl_setTimer
      ((tracking_setTimer executionId).trans htracking)

theorem Timed.setTimers (h : s.Timed) {poll : ℕ} (hkeeps : s.KeepsTimers (.setTimers poll)) :
    (s.setTimers poll).Timed := by
  unfold WaitTracker.setTimers
  split
  · rename_i executionIds hpoll
    rcases hkeeps with htracking | hentries
    · exact (h.foldl_setTimer htracking).of_clock rfl
    · have hsame := foldl_setTimer_of_entries (hentries executionIds hpoll)
      dsimp only
      rw [hsame]
      exact h.of_clock rfl
  · exact h

/-! ## Timers that go -/

theorem Timed.startExecution (h : s.Timed) (executionId : String) :
    (s.startExecution executionId).Timed := by
  refine ⟨⟨fun htracking id timer hentry => h.live.1 htracking id timer ?_, h.live.2⟩,
    h.fresh, h.main⟩
  change (s.waitingExecutions.erase executionId).get? id = some timer at hentry
  rw [Dict.get?_erase] at hentry
  split_ifs at hentry
  exact hentry

/-- The timer of an execution goes with its entry. -/
theorem Timed.erase (h : s.Timed) {timer : ℕ} {executionId : String}
    (htimer : s.tracking = true → s.timers.get? timer = some executionId) :
    Timed { s with
      timers := s.timers.erase timer
      waitingExecutions := s.waitingExecutions.erase executionId } := by
  have hsome : ∀ {t id}, (s.timers.erase timer).get? t = some id → s.timers.get? t = some id := by
    intro t id ht
    rw [Dict.get?_erase] at ht
    split_ifs at ht
    exact ht
  refine ⟨⟨fun htracking id t hentry => ?_, fun hnot => ⟨fun t => ?_, (h.live.2 hnot).2⟩⟩,
    fun t id ht => h.fresh t id (hsome ht), h.main⟩
  · dsimp only at hentry ⊢
    rw [Dict.get?_erase] at hentry ⊢
    split_ifs at hentry with hid
    have hold := h.live.1 htracking id t hentry
    have hne : t ≠ timer := by
      rintro rfl
      rw [htimer htracking] at hold
      exact hid (Option.some.inj hold).symm
    rw [if_neg hne, hold]
  · refine Option.eq_none_iff_forall_ne_some.2 fun id ht => ?_
    have hpending := hsome ht
    rw [(h.live.2 hnot).1] at hpending
    cases hpending

theorem Timed.step (h : s.Timed) {e : Event} (hkeeps : s.KeepsTimers e) : (s.step e).Timed := by
  cases e with
  | startTracking => exact h.startTracking hkeeps
  | stopTracking => exact h.stopTracking hkeeps
  | tick interval => exact h.of_clock (by dsimp only [WaitTracker.step, tick]; split_ifs <;> rfl)
  | query poll now => exact h.of_clock (by dsimp only [WaitTracker.step, query]; split <;> rfl)
  | setTimers poll => exact h.setTimers hkeeps
  | stopExecution executionId =>
    dsimp only [WaitTracker.step, stopExecution]
    split
    · exact h
    · rename_i timer hentry
      exact h.erase fun htracking => h.live.1 htracking executionId timer hentry
  | startExecution executionId => exact h.startExecution executionId
  | fire timer =>
    dsimp only [WaitTracker.step, fire]
    split
    · rename_i executionId htimer
      exact (h.erase fun _ => htimer).of_clock rfl
    · exact h
  | found resume => exact h.of_clock (by dsimp only [WaitTracker.step, found]; split <;> rfl)
  | run resume => exact h.of_clock (by dsimp only [WaitTracker.step, run]; split <;> rfl)
  | update resume => exact h.of_clock (by dsimp only [WaitTracker.step, update]; split <;> rfl)
  | fail resume => exact h.of_clock rfl
  | putToWait executionId workflowId waitTill =>
    exact h.of_clock (by
      dsimp only [WaitTracker.step, putToWait]
      split
      · rfl
      · split_ifs <;> rfl)
  | save executionId status =>
    exact h.of_clock (by dsimp only [WaitTracker.step, save]; split_ifs <;> rfl)

/-! ## Steps that leave a timer behind -/

theorem pending_setTimer (h : s.Fresh) {timer : ℕ} {id : String}
    (hpending : s.timers.get? timer = some id) (executionId : String) :
    (s.setTimer executionId).timers.get? timer = some id := by
  unfold setTimer
  split_ifs
  · exact (Dict.get?_set_of_ne _ (h timer id hpending).ne _).trans hpending
  · exact hpending

theorem pending_of_none {executionId : String}
    (h : s.waitingExecutions.get? executionId = none) :
    (s.setTimer executionId).timers.get? s.nextTimer = some executionId := by
  unfold setTimer
  rw [if_pos h]
  exact Dict.get?_set_self _ _ _

/-- A poll that finds an execution without an entry leaves a pending timer. -/
theorem exists_pending_foldl_setTimer : ∀ {executionIds : List String} {s : WaitTracker}, s.Fresh →
    ((∃ timer id, s.timers.get? timer = some id) ∨
      ∃ id ∈ executionIds, s.waitingExecutions.get? id = none) →
    ∃ timer id, (executionIds.foldl setTimer s).timers.get? timer = some id
  | [], _, _, h => h.resolve_right (by simp)
  | executionId :: executionIds, s, hfresh, h => by
    rw [List.foldl_cons]
    refine exists_pending_foldl_setTimer (hfresh.setTimer executionId) ?_
    rcases h with ⟨timer, id, hpending⟩ | ⟨id, hid, hnone⟩
    · exact .inl ⟨timer, id, pending_setTimer hfresh hpending executionId⟩
    · by_cases hsame : id = executionId
      · subst hsame
        exact .inl ⟨_, _, pending_of_none hnone⟩
      · refine .inr ⟨id, (List.mem_cons.1 hid).resolve_left hsame, ?_⟩
        unfold setTimer
        split_ifs
        · exact (Dict.get?_set_of_ne _ hsame _).trans hnone
        · exact hnone

theorem keepsTimers_of_startTracking (h : s.Timed) (hlive : s.startTracking.TimersLive) :
    s.KeepsTimers .startTracking := by
  cases htracking : s.tracking with
  | true => exact .inl htracking
  | false =>
    refine .inr fun executionId => Option.eq_none_iff_forall_ne_some.2 fun timer hentry => ?_
    have hpending : s.timers.get? timer = some executionId := hlive.1 rfl executionId timer hentry
    rw [(h.live.2 htracking).1] at hpending
    cases hpending

theorem keepsTimers_of_stopTracking (h : s.Timed) (hlive : s.stopTracking.TimersLive) :
    s.KeepsTimers .stopTracking := by
  unfold stopTracking at hlive
  cases htracking : s.tracking with
  | false =>
    obtain ⟨hnone, hintervals⟩ := h.live.2 htracking
    refine ⟨fun interval hinterval => ?_, fun timer executionId htimer => ?_⟩
    · rw [hintervals] at hinterval
      cases hinterval
    · rw [hnone] at htimer
      cases htimer
  | true =>
    obtain ⟨mainTimer, hmain⟩ := Option.ne_none_iff_exists'.1 (h.main htracking)
    rw [hmain] at hlive
    obtain ⟨hnone, hintervals⟩ := hlive.2 rfl
    refine ⟨fun interval hinterval => ?_, fun timer executionId htimer => ?_⟩
    · have hleft := List.filter_eq_nil_iff.1 hintervals interval hinterval
      have heq : interval = mainTimer := by simpa using hleft
      rw [hmain, heq]
    · have hgone := hnone timer
      dsimp only at hgone
      rw [Dict.get?_foldl_erase, List.map_id'] at hgone
      split_ifs at hgone with hentry
      · obtain ⟨id, hid⟩ := mem_entryTimers.1 hentry
        have hown := h.live.1 htracking id timer hid
        rw [htimer] at hown
        rwa [Option.some.inj hown]
      · rw [htimer] at hgone
        cases hgone

theorem keepsTimers_of_setTimers (h : s.Timed) {poll : ℕ}
    (hlive : (s.setTimers poll).TimersLive) : s.KeepsTimers (.setTimers poll) := by
  cases htracking : s.tracking with
  | true => exact .inl htracking
  | false =>
    refine .inr fun executionIds hpoll id hid hentry => ?_
    obtain ⟨timer, executionId, hpending⟩ :=
      exists_pending_foldl_setTimer h.fresh (.inr ⟨id, hid, hentry⟩)
    have hafter := (tracking_foldl_setTimer executionIds s).trans htracking
    unfold setTimers at hlive
    rw [hpoll] at hlive
    have hnone := (hlive.2 hafter).1 timer
    dsimp only at hnone
    rw [hpending] at hnone
    cases hnone

/-- Every tracked wait has a live timer, and none is pending while waits are not tracked, exactly in
the runs that start without entries, stop with every timer in reach and set none after a stop. -/
theorem timers_live_iff {rows : Dict String Row} {es : List Event} :
    Runs.Along step TimersLive { rows } es ↔ Runs.Meets step KeepsTimers { rows } es := by
  have hstart : Timed { rows } :=
    ⟨⟨fun htracking => (by cases htracking), fun _ => ⟨fun _ => rfl, rfl⟩⟩,
      fun _ _ htimer => (by cases htimer), fun htracking => (by cases htracking)⟩
  refine Runs.along_iff_meets (fun _ hs => hs.live) (fun s e hs _ hkeeps => hs.step hkeeps)
    (fun s e hs _ hnot hlive => hnot ?_) hstart
    (Runs.meets_of_forall (C := fun _ => True) fun _ _ => trivial)
  cases e with
  | startTracking => exact keepsTimers_of_startTracking hs hlive
  | stopTracking => exact keepsTimers_of_stopTracking hs hlive
  | setTimers poll => exact keepsTimers_of_setTimers hs hlive
  | _ => trivial

/-- A leader steps down while an execution waits for its timer, and takes over again. -/
theorem wait_lost_by_stepdown :
    ¬ Runs.Along step TimersLive {} [.putToWait "1" (some "w") 0, .startTracking, .query 0 0,
      .setTimers 0, .stopTracking, .startTracking] := by
  intro h
  have hpending := h.last.1 rfl "1" 1 (by decide)
  exact absurd hpending (by decide)

end WaitTracker

end N8n
