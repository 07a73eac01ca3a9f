import Mathlib.Tactic
import N8n.NodeExecution

/-!
# What the tries of a node keep

The tries change the state in three ways only: a node may put the execution to wait, the node is
noted as the last that ran, and a request is handled. What each of these keeps, all tries keep. And
the execution of a node ends without a record only after a call that has returned a request, or
neither data nor an error.
-/

namespace N8n

variable {w : Workflow} {t : Turn} {runIndex maxCalls : ℕ} {executionData : ExecuteData}
  {P : WorkflowExecute → Prop}

/-- What has `P` keeps it in each step of the tries. -/
structure Keeps (w : Workflow) (t : Turn) (runIndex : ℕ) (executionData : ExecuteData)
    (maxCalls : ℕ) (P : WorkflowExecute → Prop) : Prop where
  waits : ∀ s waitTill, P s → P { s with waitTill }
  ran : ∀ s, P s → P (s.ranLast executionData)
  request : ∀ s, ∀ k < maxCalls, ∀ request, (t.attempt k).result = .request request → P s →
    P (s.handleEngineRequest w executionData.node request runIndex executionData).state

/-- Some call of `runNode` has returned neither data nor an error. -/
def SomeNoData (t : Turn) (maxCalls : ℕ) : Prop :=
  ∃ k < maxCalls, (t.attempt k).result = .response none

/-- How the outcome has come about, in states that have `P`. -/
def NodeOutcome.Comes (w : Workflow) (t : Turn) (runIndex : ℕ) (executionData : ExecuteData)
    (maxCalls : ℕ) (P : WorkflowExecute → Prop) : NodeOutcome → Prop
  | .requested tries => ∃ k < maxCalls, ∃ request s₁, (t.attempt k).result = .request request ∧
      P s₁ ∧ s₁.handleEngineRequest w executionData.node request runIndex executionData =
        { state := tries.state }
  | .noData tries => P tries.state ∧ executionData.node.alwaysOutputData = false ∧ SomeNoData t maxCalls
  | .done tries => P tries.state

/-- So it goes on with at most so many calls, or it ends. -/
def Try.Comes (w : Workflow) (t : Turn) (runIndex : ℕ) (executionData : ExecuteData)
    (maxCalls : ℕ) (P : WorkflowExecute → Prop) (calls : ℕ) : Try → Prop
  | .again tries | .threw tries | .caught tries => P tries.state ∧ tries.calls.length ≤ calls
  | .ended outcome => outcome.Comes w t runIndex executionData maxCalls P

theorem eq_none_of_assignPairedItems {data : Option (List Slot)}
    (h : assignPairedItems data executionData = some none) : data = none := by
  unfold assignPairedItems at h
  split at h
  · rfl
  · cases h
  · cases h
  · simp only [] at h
    split_ifs at h <;> simp at h

theorem eq_none_of_outputDataAlways {data : Option (List Slot)}
    (h : outputDataAlways data executionData = some none) :
    data = none ∧ executionData.node.alwaysOutputData = false := by
  unfold outputDataAlways at h
  split_ifs at h with hfirst
  · obtain rfl := Option.some.inj h
    exact ⟨rfl, hfirst.resolve_left (by simp [firstItem, slotAt, Slot.list])⟩
  · simp at h

namespace Tries

theorem settle_comes (hP : Keeps w t runIndex executionData maxCalls P) (tries : Tries)
    (h : P tries.state) (hnone : tries.nodeSuccessData = none → SomeNoData t maxCalls) :
    (tries.settle executionData).Comes w t runIndex executionData maxCalls P
      tries.calls.length := by
  unfold settle
  split
  · exact ⟨hP.ran _ h, le_rfl⟩
  · rename_i nodeSuccessData hpaired
    simp only []
    have hran : P (if nodeSuccessData.isSome then tries.state.ranLast executionData
        else tries.state) := by
      split_ifs
      · exact hP.ran _ h
      · exact h
    generalize (if nodeSuccessData.isSome then tries.state.ranLast executionData
      else tries.state) = state at hran ⊢
    split
    · exact ⟨hP.ran _ hran, le_rfl⟩
    · rename_i always halways
      split_ifs with hdone
      · -- neither the node nor the engine has given it data
        rw [hdone.1] at halways
        obtain ⟨hdata, hnot⟩ := eq_none_of_outputDataAlways halways
        rw [hdata] at hpaired
        exact ⟨hran, hnot, hnone (eq_none_of_assignPairedItems hpaired)⟩
      · exact hran

theorem returned_comes (hP : Keeps w t runIndex executionData maxCalls P) (tries : Tries)
    (h : P tries.state) (data : Option (List Slot))
    (hnone : data = none → SomeNoData t maxCalls) :
    (tries.returned w t executionData data).Comes w t runIndex executionData maxCalls P
      tries.calls.length := by
  have hsettle : ∀ outputs, ({ tries with nodeSuccessData := some outputs }.settle
      executionData).Comes w t runIndex executionData maxCalls P tries.calls.length :=
    fun outputs => settle_comes hP { tries with nodeSuccessData := some outputs } h
      fun hnone => by cases hnone
  unfold returned
  split
  · exact settle_comes hP { tries with nodeSuccessData := none } h fun _ => hnone rfl
  · simp only []
    split_ifs
    · split
      · exact hsettle _
      · exact ⟨hP.ran _ h, le_rfl⟩
    · exact hsettle _

theorem requests_comes (hP : Keeps w t runIndex executionData maxCalls P) (tries : Tries)
    (h : P tries.state) {k : ℕ} (hk : k < maxCalls) {request : EngineRequest}
    (hresult : (t.attempt k).result = .request request) :
    (tries.requests w runIndex executionData request).Comes w t runIndex executionData maxCalls P
      tries.calls.length := by
  have hhandled := hP.request _ k hk request hresult h
  unfold requests
  simp only []
  generalize heq : tries.state.handleEngineRequest w executionData.node request runIndex
    executionData = handled at hhandled ⊢
  obtain ⟨state, error⟩ := handled
  cases error with
  | none => exact ⟨k, hk, request, tries.state, hresult, h, heq⟩
  | some error => exact ⟨hP.ran _ hhandled, le_rfl⟩

theorem callRunNode_comes (hP : Keeps w t runIndex executionData maxCalls P) (tries : Tries)
    (h : P tries.state) (hlt : tries.calls.length < maxCalls) (repeats last : Bool) :
    (tries.callRunNode w t runIndex executionData repeats last).Comes w t runIndex executionData
      maxCalls P (tries.calls.length + 1) := by
  have hlength : (tries.called repeats (t.attempt tries.calls.length)).calls.length =
      tries.calls.length + 1 := by simp [called]
  have hstate : P (tries.called repeats (t.attempt tries.calls.length)).state := hP.waits _ _ h
  unfold callRunNode
  simp only []
  rw [← hlength]
  generalize tries.called repeats (t.attempt tries.calls.length) = called at hlength hstate ⊢
  cases hresult : (t.attempt tries.calls.length).result with
  | throws error => exact ⟨hP.ran _ hstate, le_rfl⟩
  | request request => exact requests_comes hP called hstate hlt hresult
  | response data =>
    simp only []
    split_ifs
    · exact ⟨hstate, le_rfl⟩
    · exact returned_comes hP called hstate data fun hnone => ⟨_, hlt, by rw [hresult, hnone]⟩

theorem collectResults_eq (executionData : ExecuteData) (tries : Tries) :
    (tries.collectResults executionData).state = tries.state ∧
      (tries.collectResults executionData).calls = tries.calls := by
  unfold collectResults
  split <;> exact ⟨rfl, rfl⟩

theorem tryOnce_comes (hP : Keeps w t runIndex executionData maxCalls P) (tries : Tries)
    (h : P tries.state) (hlt : tries.calls.length < maxCalls) (last : Bool) :
    (tries.tryOnce w t runIndex executionData last).Comes w t runIndex executionData maxCalls P
      (tries.calls.length + 1) := by
  have hrun : (({ tries with executionError := none }.collectResults executionData).callRunNode w t
      runIndex executionData false last).Comes w t runIndex executionData maxCalls P
        (tries.calls.length + 1) := by
    obtain ⟨hstate, hcalls⟩ := collectResults_eq executionData { tries with executionError := none }
    have hcall := callRunNode_comes hP
      ({ tries with executionError := none }.collectResults executionData)
      (by rw [hstate]; exact h) (by rw [hcalls]; exact hlt) false last
    rwa [hcalls] at hcall
  unfold tryOnce
  dsimp only
  split
  · rename_i nodePinData _
    split_ifs
    · exact hrun
    · have hpinned := settle_comes hP
        { tries with executionError := none, nodeSuccessData := some [.items nodePinData] } h
        fun hnone => by cases hnone
      revert hpinned
      cases Tries.settle executionData
        { tries with executionError := none, nodeSuccessData := some [.items nodePinData] } with
      | again tries => exact fun ⟨h, hle⟩ => ⟨h, Nat.le_succ_of_le hle⟩
      | threw tries => exact fun ⟨h, hle⟩ => ⟨h, Nat.le_succ_of_le hle⟩
      | caught tries => exact fun ⟨h, hle⟩ => ⟨h, Nat.le_succ_of_le hle⟩
      | ended outcome => exact id
  · exact hrun

theorem runTries_comes (hP : Keeps w t runIndex executionData maxCalls P) (maxTries : ℕ) :
    ∀ (calls tryIndex : ℕ) (repeats : Bool) (tries : Tries), P tries.state →
      tries.calls.length + calls ≤ maxCalls →
      (runTries w t runIndex executionData maxTries calls tryIndex repeats tries).Comes w t runIndex
        executionData maxCalls P
  | 0, _, _, _, h, _ => h
  | calls + 1, tryIndex, false, tries, h, hcalls => by
    have htry := tryOnce_comes hP tries h (by omega) (tryIndex = maxTries - 1)
    unfold runTries
    split_ifs
    · revert htry
      cases tries.tryOnce w t runIndex executionData (tryIndex = maxTries - 1) with
      | again tries => exact fun ⟨h, hle⟩ => runTries_comes hP maxTries calls _ _ _ h (by omega)
      | threw tries => exact fun ⟨h, hle⟩ => runTries_comes hP maxTries calls _ _ _ h (by omega)
      | caught tries => exact fun ⟨h, hle⟩ => runTries_comes hP maxTries calls _ _ _ h (by omega)
      | ended outcome => exact id
    · exact h
  | calls + 1, tryIndex, true, tries, h, hcalls => by
    have htry := callRunNode_comes hP tries h (by omega) true (tryIndex + 1 = maxTries - 1)
    unfold runTries
    revert htry
    cases tries.callRunNode w t runIndex executionData true (tryIndex + 1 = maxTries - 1) with
    | again tries => exact fun ⟨h, hle⟩ => runTries_comes hP maxTries calls _ _ _ h (by omega)
    | threw tries => exact fun ⟨h, hle⟩ => runTries_comes hP maxTries calls _ _ _ h (by omega)
    | caught tries => exact fun ⟨h, hle⟩ => runTries_comes hP maxTries calls _ _ _ h (by omega)
    | ended outcome => exact id

end Tries

/-- What holds before a node is executed, and is kept in each step, holds when it has been. -/
theorem WorkflowExecute.executeNode_comes {s : WorkflowExecute}
    (hP : Keeps w t runIndex executionData executionData.node.maxCalls P) (h : P s) :
    (s.executeNode w t runIndex executionData).Comes w t runIndex executionData
      executionData.node.maxCalls P :=
  Tries.runTries_comes hP _ _ _ _ { state := s } h (by simp only [List.length_nil, Nat.zero_add,
    le_refl])

end N8n
