import N8n.Proofs.RunRecords
import N8n.Proofs.RetryBound

/-!
# The responses a resumed node is given

The results of the tools are collected in each turn of the outer loop, behind those of the turns
before, and a call that repeats a failed one at once is given none. So the calls of a resumed node
are given the same only where there is no second one, or no tool and none is repeated.
-/

namespace N8n

variable (w : Workflow) (t : Turn) (runIndex : ℕ) (executionData : ExecuteData)

/-! ## Calls that fail -/

namespace Attempt

/-- The node has thrown, its request is rejected, or the engine throws at its data. -/
def FailsIn (s : WorkflowExecute) (a : Attempt) : Prop :=
  match a.result with
  | .throws _ => True
  | .request request =>
    ({ s with waitTill := s.waitTill || a.waitTill }.handleEngineRequest w executionData.node request
      runIndex executionData).error.isSome = true
  | .response data => ¬ Accepts w t executionData data

/-- The state after a call that has failed. -/
def stateAfter (s : WorkflowExecute) (a : Attempt) : WorkflowExecute :=
  let s := { s with waitTill := s.waitTill || a.waitTill }
  match a.result with
  | .request request =>
    (s.handleEngineRequest w executionData.node request runIndex executionData).state.ranLast
      executionData
  | _ => s.ranLast executionData

end Attempt

/-- The state before a call, where all calls before it have failed. -/
def WorkflowExecute.stateBefore (s : WorkflowExecute) : ℕ → WorkflowExecute
  | 0 => s
  | k + 1 => (t.attempt k).stateAfter w runIndex executionData (s.stateBefore k)

/-- The call is given one response for each action, in order: the record at the action's run. -/
def GivenResponses (s : WorkflowExecute) (data : SubNodeExecutionData)
    (call : Option EngineResponse) : Prop :=
  ∃ response, call = some response ∧ response.metadata = data.metadata ∧
    List.Forall₂ (fun (subNode : SubNodeAction) (given : ActionResponse) =>
      given.action = subNode.action ∧
        (s.taskData subNode.nodeName)[subNode.runIndex]? = some given.data)
      data.actions response.actionResponses

/-- Before its last try the node returns no item with an error first, and where there are actions
its first call does not fail otherwise. -/
def FirstTrySucceeds (s : WorkflowExecute) (data : SubNodeExecutionData) : Prop :=
  ∀ k, k + 1 < executionData.node.maxExecutionTries →
    (∀ i < k, (t.attempt i).FailsIn w t runIndex executionData
      (s.stateBefore w t runIndex executionData i)) →
    ¬ (t.attempt k).ReturnsError ∧
      (data.actions ≠ [] → ¬ (t.attempt k).FailsIn w t runIndex executionData
        (s.stateBefore w t runIndex executionData k))

namespace Tries

/-! ## One call -/

variable {w t runIndex executionData}

theorem settle_caught (tries : Tries) {tries' : Tries}
    (h : tries.settle executionData = .caught tries') :
    tries'.state = tries.state.ranLast executionData ∧
      tries'.subNodeExecutionResults = tries.subNodeExecutionResults := by
  unfold settle at h
  split at h
  · cases h
    exact ⟨rfl, rfl⟩
  · dsimp only at h
    split at h
    · cases h
      refine ⟨?_, rfl⟩
      simp only [fail]
      split_ifs <;> rfl
    · split_ifs at h

theorem returned_caught {tries tries' : Tries} {data : Option (List Slot)}
    (h : tries.returned w t executionData data = .caught tries') :
    tries'.state = tries.state.ranLast executionData ∧
      tries'.subNodeExecutionResults = tries.subNodeExecutionResults := by
  unfold returned at h
  split at h
  · exact settle_caught { tries with nodeSuccessData := none } h
  · dsimp only at h
    split_ifs at h
    · split at h
      · exact settle_caught { tries with nodeSuccessData := some _ } h
      · cases h
        exact ⟨rfl, rfl⟩
    · exact settle_caught { tries with nodeSuccessData := some _ } h

variable (w t runIndex executionData) in
/-- How a call comes out. -/
inductive CallCase (s : WorkflowExecute) (results : EngineResponse) (a : Attempt) (last : Bool) :
    Try → Prop
  | again {tries} : a.ReturnsError → last = false → CallCase s results a last (.again tries)
  | failed {tries r} : ¬ (a.ReturnsError ∧ last = false) →
      a.FailsIn w t runIndex executionData s → r = .threw tries ∨ r = .caught tries →
      tries.state = a.stateAfter w runIndex executionData s →
      tries.subNodeExecutionResults = results → CallCase s results a last r
  | ended {outcome} : ¬ (a.ReturnsError ∧ last = false) →
      ¬ a.FailsIn w t runIndex executionData s → CallCase s results a last (.ended outcome)

theorem callRunNode_case (tries : Tries) (repeats last : Bool) :
    CallCase w t runIndex executionData tries.state tries.subNodeExecutionResults
      (t.attempt tries.calls.length) last
      (tries.callRunNode w t runIndex executionData repeats last) := by
  unfold callRunNode
  dsimp only
  generalize t.attempt tries.calls.length = a
  have hstate : (tries.called repeats a).state =
      { tries.state with waitTill := tries.state.waitTill || a.waitTill } := rfl
  have hresults : (tries.called repeats a).subNodeExecutionResults =
      tries.subNodeExecutionResults := rfl
  generalize tries.called repeats a = called at hstate hresults ⊢
  cases hresult : a.result with
  | throws message =>
    refine .failed ?_ ?_ (.inl rfl) ?_ hresults
    · rintro ⟨⟨data, hdata, -⟩, -⟩
      rw [hresult] at hdata
      cases hdata
    · simp only [Attempt.FailsIn, hresult]
    · simp only [Attempt.stateAfter, hresult, fail, hstate]
  | request request =>
    have hnot : ¬ (a.ReturnsError ∧ last = false) := by
      rintro ⟨⟨data, hdata, -⟩, -⟩
      rw [hresult] at hdata
      cases hdata
    dsimp only
    unfold requests
    dsimp only
    split
    · rename_i herror
      refine .ended hnot ?_
      simp only [Attempt.FailsIn, hresult]
      rw [← hstate, herror]
      simp
    · rename_i error herror
      refine .failed hnot ?_ (.inr rfl) ?_ hresults
      · simp only [Attempt.FailsIn, hresult]
        rw [← hstate, herror]
        rfl
      · simp only [Attempt.stateAfter, hresult, fail, hstate]
  | response data =>
    dsimp only
    split_ifs with hfailed
    · exact .again ⟨data, hresult, hfailed.1⟩ hfailed.2
    · have hnot : ¬ (a.ReturnsError ∧ last = false) := fun h =>
        hfailed ⟨h.1.nodeFailed hresult, h.2⟩
      obtain ⟨hsettled, -, -, haccepts⟩ := returned_spec w t executionData called data
      cases hreturned : called.returned w t executionData data with
      | again tries | threw tries =>
        rw [hreturned] at hsettled
        exact hsettled.elim
      | caught tries' =>
        rw [hreturned] at haccepts
        obtain ⟨hstate', hresults'⟩ := returned_caught hreturned
        refine .failed hnot ?_ (.inr rfl) ?_ (hresults'.trans hresults)
        · simp only [Attempt.FailsIn, hresult]
          exact fun h => by cases haccepts.2 h
        · simp only [Attempt.stateAfter, hresult]
          rw [hstate', hstate]
      | ended outcome =>
        rw [hreturned] at haccepts
        refine .ended hnot ?_
        simp only [Attempt.FailsIn, hresult]
        exact fun h => h (haccepts.1 rfl)

/-- Whatever becomes of a call, it has been given the results so far, or none. -/
theorem callRunNode_calls (tries : Tries) (repeats last : Bool) :
    (tries.callRunNode w t runIndex executionData repeats last).tries.calls =
      tries.calls ++ [if repeats then none else some tries.subNodeExecutionResults] := by
  have hcalls : (tries.called repeats (t.attempt tries.calls.length)).calls =
      tries.calls ++ [if repeats then none else some tries.subNodeExecutionResults] := rfl
  rw [← hcalls]
  unfold callRunNode
  dsimp only
  generalize tries.called repeats (t.attempt tries.calls.length) = called
  cases (t.attempt tries.calls.length).result with
  | throws message => rfl
  | request request =>
    dsimp only
    unfold requests
    dsimp only
    split <;> rfl
  | response data =>
    dsimp only
    split_ifs
    · rfl
    · exact (returned_spec w t executionData _ data).2.1

/-! ## Runs of the loops -/

theorem body_calls (maxTries tryIndex : ℕ) (repeats : Bool) (tries : Tries) :
    tries.calls <+: (body w t runIndex executionData maxTries tryIndex repeats tries).tries.calls := by
  unfold body
  split_ifs
  · rw [callRunNode_calls]
    exact List.prefix_append _ _
  · by_cases hpinned : tries.state.Pinned executionData
    · rw [(tryOnce_pinned w t runIndex executionData tries _ hpinned).2.1]
    · rw [tryOnce_of_not_pinned w t runIndex executionData tries _ hpinned, callRunNode_calls,
        (collectResults_eq executionData _).2]
      exact List.prefix_append _ _

/-- Calls are not taken back. -/
theorem calls_before (maxTries : ℕ) : ∀ (calls tryIndex : ℕ) (repeats : Bool) (tries : Tries),
    tries.calls <+: (runTries w t runIndex executionData maxTries calls tryIndex repeats
      tries).tries.calls
  | 0, _, _, _ => List.prefix_rfl
  | calls + 1, tryIndex, repeats, tries => by
    have hbody := @body_calls w t runIndex executionData maxTries tryIndex repeats tries
    rw [runTries_succ]
    split_ifs
    · exact List.prefix_rfl
    · cases hcase : body w t runIndex executionData maxTries tryIndex repeats tries with
      | again tries' | threw tries' | caught tries' =>
        rw [hcase] at hbody
        exact hbody.trans (calls_before maxTries calls _ _ tries')
      | ended outcome =>
        rw [hcase] at hbody
        exact hbody

/-- The calls of the next turn are among those of the run. -/
theorem body_calls_before (maxTries calls tryIndex : ℕ) (repeats : Bool) (tries : Tries)
    (hnext : ¬ (repeats = false ∧ ¬ tryIndex < maxTries)) :
    (body w t runIndex executionData maxTries tryIndex repeats tries).tries.calls <+:
      (runTries w t runIndex executionData maxTries (calls + 1) tryIndex repeats
        tries).tries.calls := by
  rw [runTries_succ, if_neg hnext]
  cases body w t runIndex executionData maxTries tryIndex repeats tries with
  | again tries' | threw tries' | caught tries' => exact calls_before maxTries calls _ _ tries'
  | ended outcome => exact List.prefix_rfl

/-- The inner loop makes a call without results. -/
theorem none_mem_runTries (maxTries calls tryIndex : ℕ) (tries : Tries) :
    none ∈ (runTries w t runIndex executionData maxTries (calls + 1) tryIndex true
      tries).tries.calls := by
  refine (body_calls_before maxTries calls tryIndex true tries (by simp)).subset ?_
  unfold body
  rw [if_pos rfl, callRunNode_calls]
  exact List.mem_append_right _ (List.mem_singleton_self _)

theorem runTries_of_failed {maxTries calls tryIndex : ℕ} {tries tries' : Tries}
    (hlt : tryIndex < maxTries)
    (h : tries.tryOnce w t runIndex executionData (tryIndex = maxTries - 1) = .threw tries' ∨
      tries.tryOnce w t runIndex executionData (tryIndex = maxTries - 1) = .caught tries') :
    runTries w t runIndex executionData maxTries (calls + 1) tryIndex false tries =
      runTries w t runIndex executionData maxTries calls (tryIndex + 1) false tries' := by
  rw [runTries, if_pos hlt]
  rcases h with h | h <;> rw [h]

end Tries

/-! ## The states between the calls -/

section Handled

variable {w t runIndex executionData}

theorem WorkflowExecute.prepareRequestedNodesForExecution_pinData (currentNode : Node) :
    ∀ (actions : List EngineAction) (s : WorkflowExecute),
      (prepareRequestedNodesForExecution w currentNode runIndex executionData s
        actions).state.pinData = s.pinData
  | [], _ => rfl
  | action :: actions, s => by
    unfold prepareRequestedNodesForExecution
    split
    · rfl
    · exact prepareRequestedNodesForExecution_pinData currentNode actions _

theorem WorkflowExecute.handleEngineRequest_pinData (s : WorkflowExecute) (currentNode : Node)
    (request : EngineRequest) :
    (s.handleEngineRequest w currentNode request runIndex executionData).state.pinData =
      s.pinData := by
  rw [(handleEngineRequest_adds s currentNode request runIndex executionData).pinData,
    handleRequest_state, prepareRequestedNodesForExecution_pinData]

theorem WorkflowExecute.length_taskData_handleEngineRequest (s : WorkflowExecute)
    (currentNode : Node) (request : EngineRequest) (nodeName : String) :
    (s.taskData nodeName).length ≤ ((s.handleEngineRequest w currentNode request runIndex
      executionData).state.taskData nodeName).length := by
  have hadds := (handleEngineRequest_adds (w := w) s currentNode request runIndex
    executionData).runData
  rw [handleRequest_state] at hadds
  refine (length_taskData_prepareRequestedNodesForExecution (w := w) currentNode runIndex
    executionData nodeName request.actions s).trans_eq ?_
  unfold taskData
  rw [hadds]

/-- A failed call takes neither pinned data nor records away. -/
theorem Attempt.stateAfter_keeps (a : Attempt) (s : WorkflowExecute) (nodeName : String) :
    (a.stateAfter w runIndex executionData s).pinData = s.pinData ∧
      (s.taskData nodeName).length ≤
        ((a.stateAfter w runIndex executionData s).taskData nodeName).length := by
  have hpin := fun request => @WorkflowExecute.handleEngineRequest_pinData w runIndex executionData
    { s with waitTill := s.waitTill || a.waitTill } executionData.node request
  have hlength := fun request =>
    @WorkflowExecute.length_taskData_handleEngineRequest w runIndex executionData
      { s with waitTill := s.waitTill || a.waitTill } executionData.node request nodeName
  unfold stateAfter
  cases a.result with
  | request request => exact ⟨hpin request, hlength request⟩
  | response data => exact ⟨rfl, le_rfl⟩
  | throws message => exact ⟨rfl, le_rfl⟩

theorem WorkflowExecute.stateBefore_keeps (s : WorkflowExecute) (nodeName : String) : ∀ k : ℕ,
    (s.stateBefore w t runIndex executionData k).pinData = s.pinData ∧
      (s.taskData nodeName).length ≤
        ((s.stateBefore w t runIndex executionData k).taskData nodeName).length
  | 0 => ⟨rfl, le_rfl⟩
  | k + 1 => by
    obtain ⟨hpin, hle⟩ := stateBefore_keeps s nodeName k
    obtain ⟨hpin', hle'⟩ := @Attempt.stateAfter_keeps w runIndex executionData (t.attempt k)
      (s.stateBefore w t runIndex executionData k) nodeName
    exact ⟨hpin'.trans hpin, hle.trans hle'⟩

end Handled

/-! ## The results of the actions -/

theorem forall₂_filterMap {α β : Type} {f : α → Option β} :
    ∀ {xs : List α}, (∀ x ∈ xs, (f x).isSome) →
      List.Forall₂ (fun x y => f x = some y) xs (xs.filterMap f)
  | [], _ => .nil
  | x :: xs, h => by
    obtain ⟨y, hy⟩ := Option.isSome_iff_exists.1 (h x List.mem_cons_self)
    rw [List.filterMap_cons_some hy]
    exact .cons hy (forall₂_filterMap fun x hx => h x (List.mem_cons_of_mem _ hx))

/-- The records of the actions, where they are there. -/
def actionResponses (s : WorkflowExecute) (data : SubNodeExecutionData) : List ActionResponse :=
  data.actions.filterMap fun subNode =>
    (s.taskData subNode.nodeName)[subNode.runIndex]?.map fun data =>
      { data, action := subNode.action }

/-- Each action has run. -/
def SubNodeExecutionData.HasRun (data : SubNodeExecutionData) (s : WorkflowExecute) : Prop :=
  ∀ subNode ∈ data.actions, ((s.taskData subNode.nodeName)[subNode.runIndex]?).isSome

instance (data : SubNodeExecutionData) (s : WorkflowExecute) : Decidable (data.HasRun s) :=
  inferInstanceAs (Decidable (∀ _ ∈ _, _))

section Responses

variable {s : WorkflowExecute} {data : SubNodeExecutionData}

theorem actionResponses_forall₂ (h : data.HasRun s) :
    List.Forall₂ (fun (subNode : SubNodeAction) (given : ActionResponse) =>
      given.action = subNode.action ∧
        (s.taskData subNode.nodeName)[subNode.runIndex]? = some given.data)
      data.actions (actionResponses s data) := by
  refine (forall₂_filterMap fun subNode hmem => ?_).imp fun subNode given hgiven => ?_
  · rw [Option.isSome_map]
    exact h subNode hmem
  · obtain ⟨record, hrecord, rfl⟩ := Option.map_eq_some_iff.1 hgiven
    exact ⟨rfl, hrecord⟩

theorem length_actionResponses (h : data.HasRun s) :
    (actionResponses s data).length = data.actions.length :=
  (actionResponses_forall₂ h).length_eq.symm

theorem HasRun.stateBefore (h : data.HasRun s) (k : ℕ) :
    data.HasRun (s.stateBefore w t runIndex executionData k) := by
  intro subNode hmem
  obtain ⟨record, hrecord⟩ := Option.isSome_iff_exists.1 (h subNode hmem)
  have hle := (@WorkflowExecute.stateBefore_keeps w t runIndex executionData s subNode.nodeName k).2
  have hlt := (List.getElem?_eq_some_iff.1 hrecord).1.trans_le hle
  rw [List.getElem?_eq_getElem hlt]
  rfl

end Responses

/-! ## The turns of the outer loop -/

namespace Tries

/-- The results with those of the actions behind them. -/
def collected (data : SubNodeExecutionData) (tries : Tries) : EngineResponse where
  actionResponses := tries.subNodeExecutionResults.actionResponses ++
    actionResponses tries.state data
  metadata := data.metadata

/-- So many calls have been made, one in each turn, and all have failed. -/
structure Before (s : WorkflowExecute) (data : SubNodeExecutionData) (k : ℕ) (tries : Tries) :
    Prop where
  calls : tries.calls.length = k
  state : tries.state = s.stateBefore w t runIndex executionData k
  results : tries.subNodeExecutionResults.actionResponses.length = k * data.actions.length

variable {w t runIndex executionData} {s : WorkflowExecute} {data : SubNodeExecutionData} {k : ℕ}
  {tries tries' : Tries}

theorem not_pinned_of_before (hpinned : ¬ s.Pinned executionData)
    (h : Before w t runIndex executionData s data k tries) : ¬ tries.state.Pinned executionData := by
  have hkeeps := (@WorkflowExecute.stateBefore_keeps w t runIndex executionData s "" k).1
  rw [← h.state] at hkeeps
  rwa [WorkflowExecute.pinned_congr hkeeps]

section

variable (hdata : executionData.metadata.bind (·.subNodeExecutionData) = some data)
  (hruns : data.HasRun s) (hpinned : ¬ s.Pinned executionData)

include hdata hpinned

/-- A turn makes a call with the results of all turns so far. -/
theorem tryOnce_before (h : Before w t runIndex executionData s data k tries) (last : Bool) :
    (tries.tryOnce w t runIndex executionData last).tries.calls =
        tries.calls ++ [some (tries.collected data)] ∧
      CallCase w t runIndex executionData tries.state (tries.collected data) (t.attempt k) last
        (tries.tryOnce w t runIndex executionData last) := by
  have hcollect : { tries with executionError := none }.collectResults executionData =
      { tries with
        executionError := none
        subNodeExecutionResults := tries.collected data } := by
    unfold collectResults
    rw [hdata]
    rfl
  rw [tryOnce_of_not_pinned w t runIndex executionData tries last (not_pinned_of_before hpinned h),
    hcollect]
  have hcase := @callRunNode_case w t runIndex executionData
    { tries with executionError := none, subNodeExecutionResults := tries.collected data } false
    last
  rw [h.calls] at hcase
  exact ⟨callRunNode_calls _ false last, hcase⟩

omit hdata hpinned in
include hruns in
theorem length_collected (h : Before w t runIndex executionData s data k tries) :
    (tries.collected data).actionResponses.length = (k + 1) * data.actions.length := by
  have hlength := length_actionResponses
    (HasRun.stateBefore w t runIndex executionData hruns k)
  rw [← h.state] at hlength
  unfold collected
  rw [List.length_append, h.results, hlength, Nat.succ_mul]

omit hdata hpinned in
include hruns in
/-- A turn that fails comes before the next. -/
theorem Before.next (h : Before w t runIndex executionData s data k tries)
    (hcalls : tries'.calls = tries.calls ++ [some (tries.collected data)])
    (hstate : tries'.state = (t.attempt k).stateAfter w runIndex executionData tries.state)
    (hresults : tries'.subNodeExecutionResults = tries.collected data) :
    Before w t runIndex executionData s data (k + 1) tries' where
  calls := by rw [hcalls, List.length_append, h.calls, List.length_singleton]
  state := by rw [hstate, h.state]; rfl
  results := by rw [hresults]; exact length_collected hruns h

omit hdata hpinned in
include hruns in
/-- The first call is given one response for each action, as any other without actions. -/
theorem given_collected_iff (h : Before w t runIndex executionData s data k tries) :
    GivenResponses s data (some (tries.collected data)) ↔ k = 0 ∨ data.actions = [] := by
  constructor
  · rintro ⟨response, heq, -, hforall⟩
    obtain rfl := Option.some.inj heq
    have hlength := hforall.length_eq
    rw [length_collected hruns h, Nat.succ_mul] at hlength
    have hzero : k * data.actions.length = 0 := by omega
    exact (Nat.mul_eq_zero.1 hzero).imp id List.length_eq_zero_iff.1
  · intro hfirst
    refine ⟨_, rfl, rfl, ?_⟩
    have hnil : tries.subNodeExecutionResults.actionResponses = [] := by
      refine List.length_eq_zero_iff.1 (h.results.trans ?_)
      rcases hfirst with rfl | hnone
      · exact Nat.zero_mul _
      · rw [hnone]
        rfl
    have hresponses := actionResponses_forall₂ hruns
    unfold collected
    rw [hnil, List.nil_append, h.state]
    rcases hfirst with rfl | hnone
    · exact hresponses
    · unfold actionResponses
      rw [hnone]
      exact .nil

include hruns

/-- Where the first try succeeds, each call is given the responses. -/
theorem runTries_given
    (hfirst : FirstTrySucceeds w t runIndex executionData s data) : ∀ (calls k : ℕ) (tries : Tries),
    Before w t runIndex executionData s data k tries →
    (∀ i < k, (t.attempt i).FailsIn w t runIndex executionData
      (s.stateBefore w t runIndex executionData i)) →
    (k < executionData.node.maxExecutionTries → k = 0 ∨ data.actions = []) →
    (∀ c ∈ tries.calls, GivenResponses s data c) →
    ∀ c ∈ (runTries w t runIndex executionData executionData.node.maxExecutionTries calls k false
      tries).tries.calls, GivenResponses s data c
  | 0, _, _, _, _, _, hgiven => hgiven
  | calls + 1, k, tries, hbefore, hfail, honce, hgiven => by
    by_cases hlt : k < executionData.node.maxExecutionTries
    swap
    · rw [runTries, if_neg hlt]
      exact hgiven
    obtain ⟨hcalls, hcase⟩ := tryOnce_before hdata hpinned hbefore
      (k = executionData.node.maxExecutionTries - 1)
    have hgiven' : ∀ c ∈ tries.calls ++ [some (tries.collected data)], GivenResponses s data c := by
      intro c hc
      rcases List.mem_append.1 hc with hc | hc
      · exact hgiven c hc
      · rw [List.mem_singleton.1 hc]
        exact (given_collected_iff hruns hbefore).2 (honce hlt)
    rw [← hcalls] at hgiven'
    generalize htry : tries.tryOnce w t runIndex executionData
      (k = executionData.node.maxExecutionTries - 1) = r at hcalls hcase hgiven'
    cases hcase with
    | again herror hlast =>
      have hne := of_decide_eq_false hlast
      exact absurd herror (hfirst k (by omega) hfail).1
    | @failed tries' _ _ hfails hr hstate hresults =>
      rw [runTries_of_failed hlt (by rw [htry]; exact hr)]
      have hcalls' : tries'.calls = tries.calls ++ [some (tries.collected data)] := by
        rcases hr with rfl | rfl <;> exact hcalls
      rw [hbefore.state] at hfails
      refine runTries_given hfirst calls (k + 1) tries'
        (hbefore.next hruns hcalls' hstate hresults) (fun i hi => ?_) (fun hlt' => .inr ?_) ?_
      · rcases Nat.lt_succ_iff_lt_or_eq.1 hi with hi | rfl
        · exact hfail i hi
        · exact hfails
      · by_contra hne
        exact (hfirst k hlt' hfail).2 hne hfails
      · rcases hr with rfl | rfl <;> exact hgiven'
    | ended _ _ =>
      rw [runTries, if_pos hlt, htry]
      exact hgiven'

/-- Where each call is given the responses, the first try has succeeded. -/
theorem firstTry_of_given : ∀ (calls k : ℕ) (tries : Tries),
    Before w t runIndex executionData s data k tries →
    2 * executionData.node.maxExecutionTries ≤ calls + k + 1 →
    (∀ c ∈ (runTries w t runIndex executionData executionData.node.maxExecutionTries calls k false
      tries).tries.calls, GivenResponses s data c) →
    ∀ k', k ≤ k' → k' + 1 < executionData.node.maxExecutionTries →
      (∀ i < k', (t.attempt i).FailsIn w t runIndex executionData
        (s.stateBefore w t runIndex executionData i)) →
      ¬ (t.attempt k').ReturnsError ∧ (data.actions ≠ [] →
        ¬ (t.attempt k').FailsIn w t runIndex executionData
          (s.stateBefore w t runIndex executionData k'))
  | 0, _, _, _, _, _, _, _, _, _ => by omega
  | calls + 1, k, tries, hbefore, hcount, hgiven, k', hle, hlt', hfail => by
    have hlt : k < executionData.node.maxExecutionTries := by omega
    obtain ⟨calls, rfl⟩ : ∃ c, calls = c + 1 := ⟨calls - 1, by omega⟩
    obtain ⟨hcalls, hcase⟩ := tryOnce_before hdata hpinned hbefore
      (k = executionData.node.maxExecutionTries - 1)
    have hlast : decide (k = executionData.node.maxExecutionTries - 1) = false :=
      decide_eq_false (by omega)
    generalize htry : tries.tryOnce w t runIndex executionData
      (k = executionData.node.maxExecutionTries - 1) = r at hcalls hcase
    cases hcase with
    | @again tries' herror _ =>
      rw [runTries, if_pos hlt, htry] at hgiven
      obtain ⟨response, hnone, -⟩ := hgiven none (none_mem_runTries _ calls k tries')
      cases hnone
    | @failed tries' _ hnot hfails hr hstate hresults =>
      have hcalls' : tries'.calls = tries.calls ++ [some (tries.collected data)] := by
        rcases hr with rfl | rfl <;> exact hcalls
      have hbefore' := hbefore.next hruns hcalls' hstate hresults
      rw [runTries_of_failed hlt (by rw [htry]; exact hr)] at hgiven
      have hnil : data.actions = [] := by
        -- the next call is given all responses twice
        have hnext := @body_calls_before w t runIndex executionData
          executionData.node.maxExecutionTries calls (k + 1) false tries' (fun h => h.2 (by omega))
        unfold body at hnext
        rw [if_neg Bool.false_ne_true, (tryOnce_before hdata hpinned hbefore' _).1] at hnext
        have hmem := hgiven _ (hnext.subset (List.mem_append_right _ (List.mem_singleton_self _)))
        exact ((given_collected_iff hruns hbefore').1 hmem).resolve_left (Nat.succ_ne_zero k)
      rcases Nat.eq_or_lt_of_le hle with rfl | hlt''
      · exact ⟨fun herror => hnot ⟨herror, hlast⟩, fun hne => absurd hnil hne⟩
      · exact firstTry_of_given (calls + 1) (k + 1) tries' hbefore' (by omega) hgiven k' hlt'' hlt'
          hfail
    | ended hnot hsucceeds =>
      rw [hbefore.state] at hsucceeds
      rcases Nat.eq_or_lt_of_le hle with rfl | hlt''
      · exact ⟨fun herror => hnot ⟨herror, hlast⟩, fun _ => hsucceeds⟩
      · exact absurd (hfail k hlt'') hsucceeds

end

end Tries

/-- Each call of a resumed node is given one response for each action, exactly if its data is pinned
or its first try succeeds, where it has more than one: without actions any but the last may fail,
unless it returns an item with an error. -/
theorem given_responses_iff (w : Workflow) (s : WorkflowExecute) (t : Turn) (runIndex : ℕ)
    (executionData : ExecuteData) {data : SubNodeExecutionData}
    (hdata : executionData.metadata.bind (·.subNodeExecutionData) = some data)
    (hruns : data.HasRun s) :
    (∀ c ∈ (s.executeNode w t runIndex executionData).tries.calls, GivenResponses s data c) ↔
      s.Pinned executionData ∨ FirstTrySucceeds w t runIndex executionData s data := by
  have hbefore : Tries.Before w t runIndex executionData s data 0 { state := s } :=
    ⟨rfl, rfl, (Nat.zero_mul _).symm⟩
  unfold WorkflowExecute.executeNode
  by_cases hpinned : s.Pinned executionData
  · refine iff_of_true ?_ (.inl hpinned)
    rw [Tries.runTries_pinned w t runIndex executionData _ _ _ { state := s } hpinned]
    exact fun c hc => absurd hc List.not_mem_nil
  rw [or_iff_right hpinned]
  constructor
  · intro hgiven k hlt hfail
    refine Tries.firstTry_of_given hdata hruns hpinned _ 0 _ hbefore ?_ hgiven k (Nat.zero_le k) hlt
      hfail
    unfold Node.maxCalls
    omega
  · intro hfirst
    exact Tries.runTries_given hdata hruns hpinned hfirst _ 0 _ hbefore
      (fun i hi => absurd hi (Nat.not_lt_zero i)) (fun _ => .inl rfl)
      fun c hc => absurd hc List.not_mem_nil

/-! ### A node with one tool -/

def searchResults : SubNodeExecutionData where
  actions := [
    { action := { nodeName := "Search", id := "call_1" }, nodeName := "Search", runIndex := 0 }]
  metadata := ""

def resumedEntry : ExecuteData :=
  { retriedEntry with
    metadata := some { nodeWasResumed := true, subNodeExecutionData := some searchResults } }

def searched : WorkflowExecute where
  nodeExecutionStack := []
  runData := Dict.empty.set "Search" [{ executionIndex := 0 }]

/-- The first call comes out so, and the others return an item. -/
def first (result : RunNodeResult) : Turn where
  attempt k :=
    { result := if k = 0 then result else .response (some [.items [{ json := .empty }]]) }

theorem given_where_first_succeeds :
    (searched.executeNode retriedWorkflow (first (.response (some [.items [{ json := .empty }]])))
        0 resumedEntry).tries.calls.length = 1 ∧
      ∀ c ∈ (searched.executeNode retriedWorkflow
        (first (.response (some [.items [{ json := .empty }]]))) 0 resumedEntry).tries.calls,
        GivenResponses searched searchResults c := by
  have hdata : resumedEntry.metadata.bind (·.subNodeExecutionData) = some searchResults := rfl
  refine ⟨by decide, ?_⟩
  refine (given_responses_iff retriedWorkflow searched _ 0 resumedEntry hdata (by decide)).2
    (.inr fun k hlt _ => ?_)
  have hmax : resumedEntry.node.maxExecutionTries = 2 := by decide
  obtain rfl : k = 0 := by omega
  refine ⟨fun ⟨data, hresult, hfailed⟩ => ?_, fun _ hfails => hfails ?_⟩
  · cases hresult
    exact absurd hfailed (by decide)
  · exact ⟨{ state := searched }, _, rfl⟩

/-- The second try of a node whose first has thrown is given the response of its tool twice. -/
theorem given_twice_where_first_throws :
    resumedEntry.metadata.bind (·.subNodeExecutionData) = some searchResults ∧
      searchResults.HasRun searched ∧
      ¬ ∀ c ∈ (searched.executeNode retriedWorkflow (first (.throws "timeout")) 0
        resumedEntry).tries.calls, GivenResponses searched searchResults c := by
  refine ⟨rfl, by decide, fun hgiven => ?_⟩
  have hcalls : (searched.executeNode retriedWorkflow (first (.throws "timeout")) 0
      resumedEntry).tries.calls[1]? = some (some
        { actionResponses := actionResponses searched searchResults ++
            actionResponses searched searchResults }) := by decide
  obtain ⟨response, heq, -, hforall⟩ := hgiven _ (List.mem_of_getElem? hcalls)
  obtain rfl := Option.some.inj heq
  exact absurd hforall.length_eq (by decide)

end N8n
