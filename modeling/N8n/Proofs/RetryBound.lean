import N8n.Proofs.NodeExecution

/-!
# The bound on the tries of a node

The two loops over the tries share a counter. The inner one counts a try after its call, so a call
of it that throws is counted once only, for itself and the failed one that it repeats.
-/

namespace N8n

variable {w : Workflow} {t : Turn} {runIndex : ℕ} {executionData : ExecuteData}

/-! ## Calls -/

namespace Attempt

def Throws (a : Attempt) : Prop := ∃ message, a.result = .throws message

/-- The item returned first has an error. -/
def ReturnsError (a : Attempt) : Prop := ∃ data, a.result = .response data ∧ nodeFailed data = true

theorem Throws.of_response {a : Attempt} {data : Option (List Slot)} (h : a.Throws)
    (hresult : a.result = .response data) : False := by
  obtain ⟨message, hthrows⟩ := h
  rw [hthrows] at hresult
  cases hresult

theorem ReturnsError.nodeFailed {a : Attempt} {data : Option (List Slot)} (h : a.ReturnsError)
    (hresult : a.result = .response data) : N8n.nodeFailed data = true := by
  obtain ⟨data', hresponse, hfailed⟩ := h
  rw [hresult] at hresponse
  rwa [RunNodeResult.response.inj hresponse]

end Attempt

/-- The engine makes an outcome of the data. -/
def Accepts (w : Workflow) (t : Turn) (executionData : ExecuteData) (data : Option (List Slot)) :
    Prop :=
  ∃ (tries : Tries) (outcome : NodeOutcome),
    tries.returned w t executionData data = .ended outcome

/-- It throws, returns an item with an error first, or returns data that the engine throws at. -/
def Attempt.Fails (w : Workflow) (t : Turn) (executionData : ExecuteData) (a : Attempt) : Prop :=
  a.Throws ∨ a.ReturnsError ∨ ∃ data, a.result = .response data ∧ ¬ Accepts w t executionData data

/-- Pinned data stands in for the node. -/
def WorkflowExecute.Pinned (s : WorkflowExecute) (executionData : ExecuteData) : Prop :=
  (s.pinData.get? executionData.node.name).isSome ∧ executionData.node.disabled ≠ some true

theorem WorkflowExecute.pinned_congr {s s' : WorkflowExecute} (h : s.pinData = s'.pinData) :
    s.Pinned executionData ↔ s'.Pinned executionData := by
  unfold WorkflowExecute.Pinned
  rw [h]

/-- Among so many calls one throws right after one that returns an error. -/
def ThrowsAfterError (t : Turn) (calls : ℕ) : Prop :=
  ∃ k, k + 1 < calls ∧ (t.attempt k).ReturnsError ∧ (t.attempt (k + 1)).Throws

/-- All tries fail, and one of them throws right after one that returns an error. -/
def WastesTry (w : Workflow) (t : Turn) (executionData : ExecuteData) (maxTries : ℕ) : Prop :=
  (∀ k < maxTries, (t.attempt k).Fails w t executionData) ∧ ThrowsAfterError t maxTries

theorem ThrowsAfterError.mono {calls calls' : ℕ} (h : ThrowsAfterError t calls)
    (hle : calls ≤ calls') : ThrowsAfterError t calls' := by
  obtain ⟨k, hk, herror, hthrows⟩ := h
  exact ⟨k, hk.trans_le hle, herror, hthrows⟩

/-! ## One call -/

def Try.tries : Try → Tries
  | .again tries | .threw tries | .caught tries => tries
  | .ended outcome => outcome.tries

/-- The engine is done with the data, or has thrown. -/
def Try.Settled : Try → Prop
  | .again _ | .threw _ => False
  | .caught _ | .ended _ => True

def Try.isEnded : Try → Bool
  | .ended _ => true
  | _ => false

namespace Tries

theorem settle_isEnded (tries : Tries) (executionData : ExecuteData) :
    (tries.settle executionData).isEnded =
      ((assignPairedItems tries.nodeSuccessData executionData).bind
        (outputDataAlways · executionData)).isSome := by
  unfold settle
  cases assignPairedItems tries.nodeSuccessData executionData with
  | none => rfl
  | some data =>
    rw [Option.bind_some]
    dsimp only
    cases outputDataAlways data executionData with
    | none => rfl
    | some data =>
      dsimp only
      split_ifs <;> rfl

/-- The engine makes no call for what it has, and leaves the pinned data. -/
theorem settle_spec (tries : Tries) (executionData : ExecuteData) :
    (tries.settle executionData).Settled ∧
      (tries.settle executionData).tries.calls = tries.calls ∧
      (tries.settle executionData).tries.state.pinData = tries.state.pinData := by
  unfold settle
  cases assignPairedItems tries.nodeSuccessData executionData with
  | none => exact ⟨trivial, rfl, rfl⟩
  | some data =>
    have hpinned : (if data.isSome then tries.state.ranLast executionData
        else tries.state).pinData = tries.state.pinData := by
      split_ifs <;> rfl
    dsimp only
    generalize (if data.isSome then tries.state.ranLast executionData else tries.state) = state
      at hpinned ⊢
    cases outputDataAlways data executionData with
    | none => exact ⟨trivial, rfl, hpinned⟩
    | some data =>
      dsimp only
      split_ifs <;> exact ⟨trivial, rfl, hpinned⟩

variable (w t runIndex executionData)

theorem returned_spec (tries : Tries) (data : Option (List Slot)) :
    (tries.returned w t executionData data).Settled ∧
      (tries.returned w t executionData data).tries.calls = tries.calls ∧
      (tries.returned w t executionData data).tries.state.pinData = tries.state.pinData ∧
      ((tries.returned w t executionData data).isEnded = true ↔
        Accepts w t executionData data) := by
  have hended : ∀ tries' : Tries, (tries'.returned w t executionData data).isEnded =
      (tries.returned w t executionData data).isEnded := by
    intro tries'
    cases data with
    | none =>
      unfold returned
      rw [settle_isEnded, settle_isEnded]
    | some data =>
      unfold returned
      dsimp only
      split_ifs
      · cases (handleNodeErrorOutput w t executionData data).error with
        | none => rw [settle_isEnded, settle_isEnded]
        | some error => rfl
      · rw [settle_isEnded, settle_isEnded]
  have hiff : (tries.returned w t executionData data).isEnded = true ↔
      Accepts w t executionData data := by
    constructor
    · intro h
      cases hreturned : tries.returned w t executionData data with
      | ended outcome => exact ⟨tries, outcome, hreturned⟩
      | again _ | threw _ | caught _ =>
        rw [hreturned] at h
        cases h
    · rintro ⟨tries', outcome, houtcome⟩
      rw [← hended tries', houtcome]
      rfl
  have hrest : (tries.returned w t executionData data).Settled ∧
      (tries.returned w t executionData data).tries.calls = tries.calls ∧
      (tries.returned w t executionData data).tries.state.pinData = tries.state.pinData := by
    cases data with
    | none => exact settle_spec { tries with nodeSuccessData := none } executionData
    | some data =>
      unfold returned
      dsimp only
      split_ifs
      · cases (handleNodeErrorOutput w t executionData data).error with
        | none => exact settle_spec { tries with nodeSuccessData := some _ } executionData
        | some error => exact ⟨trivial, rfl, rfl⟩
      · exact settle_spec { tries with nodeSuccessData := some data } executionData
  exact ⟨hrest.1, hrest.2.1, hrest.2.2, hiff⟩

/-- How a call goes on. -/
def Continues (a : Attempt) (last : Bool) : Try → Prop
  | .again _ => a.ReturnsError ∧ last = false
  | .threw _ => a.Throws
  | .caught _ => ∃ data, a.result = .response data ∧ (nodeFailed data = true → last = true) ∧
      ¬ Accepts w t executionData data
  | .ended _ => ∃ data, a.result = .response data ∧ (nodeFailed data = true → last = true) ∧
      Accepts w t executionData data

theorem callRunNode_spec (tries : Tries) (repeats last : Bool)
    (hno : ∀ request, (t.attempt tries.calls.length).result ≠ .request request) :
    (tries.callRunNode w t runIndex executionData repeats last).tries.calls.length =
        tries.calls.length + 1 ∧
      (tries.callRunNode w t runIndex executionData repeats last).tries.state.pinData =
        tries.state.pinData ∧
      Continues w t executionData (t.attempt tries.calls.length) last
        (tries.callRunNode w t runIndex executionData repeats last) := by
  have hlength : (tries.called repeats (t.attempt tries.calls.length)).calls.length =
      tries.calls.length + 1 := by simp [called]
  have hpinned : (tries.called repeats (t.attempt tries.calls.length)).state.pinData =
      tries.state.pinData := rfl
  unfold callRunNode
  dsimp only
  generalize tries.called repeats (t.attempt tries.calls.length) = called at hlength hpinned ⊢
  cases hresult : (t.attempt tries.calls.length).result with
  | request request => exact absurd hresult (hno request)
  | throws message => exact ⟨hlength, hpinned, message, hresult⟩
  | response data =>
    dsimp only
    split_ifs with hfailed
    · exact ⟨hlength, hpinned, ⟨data, hresult, hfailed.1⟩, hfailed.2⟩
    · have hlast : nodeFailed data = true → last = true := fun h =>
        Bool.not_eq_false _ ▸ fun hnot => hfailed ⟨h, hnot⟩
      obtain ⟨hsettled, hcalls, hpin, haccepts⟩ :=
        returned_spec w t executionData called data
      refine ⟨hcalls ▸ hlength, hpin.trans hpinned, ?_⟩
      cases hreturned : called.returned w t executionData data with
      | again tries | threw tries =>
        rw [hreturned] at hsettled
        exact hsettled.elim
      | caught tries =>
        rw [hreturned] at haccepts
        exact ⟨data, hresult, hlast, fun h => by cases haccepts.2 h⟩
      | ended outcome =>
        rw [hreturned] at haccepts
        exact ⟨data, hresult, hlast, haccepts.1 rfl⟩

theorem tryOnce_of_not_pinned (tries : Tries) (last : Bool)
    (hpinned : ¬ tries.state.Pinned executionData) :
    tries.tryOnce w t runIndex executionData last =
      ({ tries with executionError := none }.collectResults executionData).callRunNode w t runIndex
        executionData false last := by
  unfold tryOnce
  dsimp only
  cases hpin : tries.state.pinData.get? executionData.node.name with
  | none => rfl
  | some nodePinData =>
    refine if_pos (by_contra fun hdisabled => hpinned ⟨?_, hdisabled⟩)
    rw [hpin]
    rfl

/-- The body of the loop makes a call, unless data is pinned. -/
theorem tryOnce_spec (tries : Tries) (last : Bool)
    (hno : ∀ request, (t.attempt tries.calls.length).result ≠ .request request)
    (hpinned : ¬ tries.state.Pinned executionData) :
    (tries.tryOnce w t runIndex executionData last).tries.calls.length = tries.calls.length + 1 ∧
      (tries.tryOnce w t runIndex executionData last).tries.state.pinData = tries.state.pinData ∧
      Continues w t executionData (t.attempt tries.calls.length) last
        (tries.tryOnce w t runIndex executionData last) := by
  obtain ⟨hstate, hcalls⟩ := collectResults_eq executionData { tries with executionError := none }
  have hcall := callRunNode_spec w t runIndex executionData
    ({ tries with executionError := none }.collectResults executionData) false last
    (by rw [hcalls]; exact hno)
  rw [hcalls, hstate] at hcall
  rw [tryOnce_of_not_pinned w t runIndex executionData tries last hpinned]
  exact hcall

theorem tryOnce_pinned (tries : Tries) (last : Bool) (hpinned : tries.state.Pinned executionData) :
    (tries.tryOnce w t runIndex executionData last).Settled ∧
      (tries.tryOnce w t runIndex executionData last).tries.calls = tries.calls ∧
      (tries.tryOnce w t runIndex executionData last).tries.state.pinData =
        tries.state.pinData := by
  obtain ⟨hsome, hdisabled⟩ := hpinned
  obtain ⟨nodePinData, hpin⟩ := Option.isSome_iff_exists.1 hsome
  unfold tryOnce
  dsimp only
  rw [hpin]
  dsimp only
  rw [if_neg hdisabled]
  exact settle_spec { tries with executionError := none, nodeSuccessData := some _ } executionData

variable {w t executionData} in
theorem Continues.fails {a : Attempt} {last : Bool} {r : Try}
    (h : Continues w t executionData a last r) (hr : r.isEnded = false) :
    a.Fails w t executionData := by
  cases r with
  | again tries => exact .inr (.inl h.1)
  | threw tries => exact .inl h
  | caught tries =>
    obtain ⟨data, hresult, -, hnot⟩ := h
    exact .inr (.inr ⟨data, hresult, hnot⟩)
  | ended outcome => cases hr

/-! ## Runs of the loops -/

/-- A run of the loops makes no call for pinned data. -/
theorem runTries_pinned (maxTries : ℕ) : ∀ (calls tryIndex : ℕ) (tries : Tries),
    tries.state.Pinned executionData →
      (runTries w t runIndex executionData maxTries calls tryIndex false tries).tries.calls =
        tries.calls
  | 0, _, _, _ => rfl
  | calls + 1, tryIndex, tries, hpinned => by
    obtain ⟨hsettled, hcalls, hpin⟩ := tryOnce_pinned w t runIndex executionData tries
      (tryIndex = maxTries - 1) hpinned
    unfold runTries
    split_ifs
    · cases htry : tries.tryOnce w t runIndex executionData (tryIndex = maxTries - 1) with
      | again tries' | threw tries' =>
        rw [htry] at hsettled
        exact hsettled.elim
      | ended outcome =>
        rw [htry] at hcalls
        exact hcalls
      | caught tries' =>
        rw [htry] at hcalls hpin
        have hpinned' := (WorkflowExecute.pinned_congr hpin).2 hpinned
        exact (runTries_pinned maxTries calls (tryIndex + 1) tries' hpinned').trans hcalls
    · rfl

/-- The body of either loop. -/
def body (maxTries tryIndex : ℕ) (repeats : Bool) (tries : Tries) : Try :=
  if repeats then
    tries.callRunNode w t runIndex executionData true (tryIndex + repeats.toNat = maxTries - 1)
  else tries.tryOnce w t runIndex executionData (tryIndex + repeats.toNat = maxTries - 1)

theorem runTries_succ (maxTries calls tryIndex : ℕ) (repeats : Bool) (tries : Tries) :
    runTries w t runIndex executionData maxTries (calls + 1) tryIndex repeats tries =
      if repeats = false ∧ ¬ tryIndex < maxTries then .done tries
      else
        match body w t runIndex executionData maxTries tryIndex repeats tries with
        | .again tries =>
          runTries w t runIndex executionData maxTries calls (tryIndex + repeats.toNat) true tries
        | .threw tries =>
          runTries w t runIndex executionData maxTries calls (tryIndex + 1) false tries
        | .caught tries =>
          runTries w t runIndex executionData maxTries calls (tryIndex + 1 + repeats.toNat) false
            tries
        | .ended outcome => outcome := by
  cases repeats with
  | false =>
    rw [runTries, body]
    by_cases h : tryIndex < maxTries
    · simp only [h, Bool.toNat_false, Nat.add_zero, not_true_eq_false, and_false, if_true, if_false]
      rfl
    · simp only [h, not_false_eq_true, and_true, if_true, if_false]
  | true =>
    rw [runTries, body, if_neg (by simp)]
    rfl

theorem body_spec (hno : ∀ k request, (t.attempt k).result ≠ .request request)
    (maxTries tryIndex : ℕ) (repeats : Bool) (tries : Tries)
    (hpinned : ¬ tries.state.Pinned executionData) :
    (body w t runIndex executionData maxTries tryIndex repeats tries).tries.calls.length =
        tries.calls.length + 1 ∧
      ¬ (body w t runIndex executionData maxTries tryIndex repeats tries).tries.state.Pinned
        executionData ∧
      Continues w t executionData (t.attempt tries.calls.length)
        (tryIndex + repeats.toNat = maxTries - 1)
        (body w t runIndex executionData maxTries tryIndex repeats tries) := by
  unfold body
  split_ifs
  · obtain ⟨hlength, hpin, hcontinues⟩ := callRunNode_spec w t runIndex executionData tries true
      (tryIndex + repeats.toNat = maxTries - 1) (hno _)
    exact ⟨hlength, mt (WorkflowExecute.pinned_congr hpin).1 hpinned, hcontinues⟩
  · obtain ⟨hlength, hpin, hcontinues⟩ := tryOnce_spec w t runIndex executionData tries
      (tryIndex + repeats.toNat = maxTries - 1) (hno _) hpinned
    exact ⟨hlength, mt (WorkflowExecute.pinned_congr hpin).1 hpinned, hcontinues⟩

/-- Calls are not taken back. -/
theorem le_runTries_calls (hno : ∀ k request, (t.attempt k).result ≠ .request request)
    (maxTries : ℕ) : ∀ (calls tryIndex : ℕ) (repeats : Bool) (tries : Tries),
      ¬ tries.state.Pinned executionData → tries.calls.length ≤
        (runTries w t runIndex executionData maxTries calls tryIndex repeats tries).tries.calls.length
  | 0, _, _, _, _ => le_rfl
  | calls + 1, tryIndex, repeats, tries, hpinned => by
    obtain ⟨hlength, hpin, -⟩ :=
      body_spec w t runIndex executionData hno maxTries tryIndex repeats tries hpinned
    rw [runTries_succ]
    split_ifs
    · exact le_rfl
    · cases hbody : body w t runIndex executionData maxTries tryIndex repeats tries with
      | again tries' | threw tries' | caught tries' =>
        rw [hbody] at hlength hpin
        exact ((Nat.le_succ _).trans hlength.ge).trans
          (le_runTries_calls hno maxTries calls _ _ tries' hpin)
      | ended outcome =>
        rw [hbody] at hlength
        exact (Nat.le_succ _).trans hlength.ge

/-- As long as no call has been wasted, there are no more calls than tries. -/
theorem runTries_calls_le (hno : ∀ k request, (t.attempt k).result ≠ .request request)
    {maxTries : ℕ} (hwaste : ¬ WastesTry w t executionData maxTries) :
    ∀ (calls tryIndex : ℕ) (repeats : Bool) (tries : Tries), ¬ tries.state.Pinned executionData →
      (∀ k < tries.calls.length, (t.attempt k).Fails w t executionData) →
      tries.calls.length ≤ tryIndex + repeats.toNat ∨ ThrowsAfterError t tries.calls.length →
      (repeats = true → tryIndex + 1 < maxTries ∧
        ∃ k, tries.calls.length = k + 1 ∧ (t.attempt k).ReturnsError) →
      tries.calls.length ≤ maxTries →
        (runTries w t runIndex executionData maxTries calls tryIndex repeats
          tries).tries.calls.length ≤ maxTries
  | 0, _, _, _, _, _, _, _, hle => hle
  | calls + 1, tryIndex, repeats, tries, hpinned, hfail, hcount, hrepeats, hle => by
    obtain ⟨hlength, hpin, hcontinues⟩ :=
      body_spec w t runIndex executionData hno maxTries tryIndex repeats tries hpinned
    rw [runTries_succ]
    split_ifs with hdone
    · exact hle
    · -- the call is one of the first
      have hlt : tries.calls.length < maxTries := by
        refine lt_of_le_of_ne hle fun heq => ?_
        rw [heq] at hfail hcount
        have hmax := hcount.resolve_right fun hthrows => hwaste ⟨hfail, hthrows⟩
        cases repeats with
        | false =>
          rw [Bool.toNat_false] at hmax
          exact hdone ⟨rfl, by omega⟩
        | true =>
          have hindex := (hrepeats rfl).1
          rw [Bool.toNat_true] at hmax
          omega
      have hindex : tryIndex + repeats.toNat < maxTries := by
        cases repeats with
        | false => exact not_not.1 fun hnot => hdone ⟨rfl, hnot⟩
        | true => exact (hrepeats rfl).1
      have hmono : ThrowsAfterError t tries.calls.length →
          ThrowsAfterError t (tries.calls.length + 1) := fun h => h.mono (Nat.le_succ _)
      have hfail' (hr : (body w t runIndex executionData maxTries tryIndex repeats tries).isEnded =
          false) : ∀ k < tries.calls.length + 1, (t.attempt k).Fails w t executionData := by
        intro k hk
        rcases Nat.lt_succ_iff_lt_or_eq.1 hk with hk | rfl
        · exact hfail k hk
        · exact hcontinues.fails hr
      cases hbody : body w t runIndex executionData maxTries tryIndex repeats tries with
      | again tries' =>
        rw [hbody] at hlength hpin hcontinues hfail'
        obtain ⟨herror, hlast⟩ := hcontinues
        have hnext : tryIndex + repeats.toNat ≠ maxTries - 1 := of_decide_eq_false hlast
        change tries'.calls.length = _ at hlength
        refine runTries_calls_le hno hwaste calls _ true tries' hpin ?_ ?_ ?_ ?_ <;> rw [hlength]
        · exact hfail' rfl
        · exact hcount.imp (fun h => Nat.succ_le_succ h) hmono
        · exact fun _ => ⟨by omega, _, rfl, herror⟩
        · exact hlt
      | threw tries' =>
        rw [hbody] at hlength hpin hcontinues hfail'
        change tries'.calls.length = _ at hlength
        refine runTries_calls_le hno hwaste calls _ false tries' hpin ?_ ?_ ?_ ?_ <;> rw [hlength]
        · exact hfail' rfl
        · cases repeats with
          | false => exact hcount.imp (fun h => Nat.succ_le_succ h) hmono
          | true =>
            obtain ⟨-, k, hk, herror⟩ := hrepeats rfl
            rw [hk] at hcontinues ⊢
            exact .inr ⟨k, Nat.lt_succ_self _, herror, hcontinues⟩
        · exact fun h => (by cases h)
        · exact hlt
      | caught tries' =>
        rw [hbody] at hlength hpin hcontinues hfail'
        change tries'.calls.length = _ at hlength
        refine runTries_calls_le hno hwaste calls _ false tries' hpin ?_ ?_ ?_ ?_ <;> rw [hlength]
        · exact hfail' rfl
        · exact hcount.imp (fun h => by rw [Bool.toNat_false]; omega) hmono
        · exact fun h => (by cases h)
        · exact hlt
      | ended outcome =>
        rw [hbody] at hlength
        exact hlength.le.trans hlt

/-- The next call that throws after an error is still to come, and is counted once only. -/
def Ahead (t : Turn) (maxTries calls : ℕ) (repeats : Bool) : Prop :=
  ∃ k, k + 1 < maxTries ∧ (t.attempt k).ReturnsError ∧ (t.attempt (k + 1)).Throws ∧
    (calls ≤ k ∨ (calls = k + 1 ∧ repeats = true))

/-- Where all tries fail and a call is wasted, there is one call more than tries. -/
theorem lt_runTries_calls (hno : ∀ k request, (t.attempt k).result ≠ .request request)
    {maxTries : ℕ} (hfail : ∀ k < maxTries, (t.attempt k).Fails w t executionData) :
    ∀ (calls tryIndex : ℕ) (repeats : Bool) (tries : Tries), ¬ tries.state.Pinned executionData →
      tryIndex + repeats.toNat < tries.calls.length ∨
        (tryIndex + repeats.toNat = tries.calls.length ∧
          Ahead t maxTries tries.calls.length repeats) →
      tries.calls.length ≤ maxTries → maxTries < tries.calls.length + calls →
        maxTries < (runTries w t runIndex executionData maxTries calls tryIndex repeats
          tries).tries.calls.length
  | 0, _, _, _, _, _, hle, hcalls => absurd hle (by omega)
  | calls + 1, tryIndex, repeats, tries, hpinned, hcount, hle, hcalls => by
    obtain ⟨hlength, hpin, hcontinues⟩ :=
      body_spec w t runIndex executionData hno maxTries tryIndex repeats tries hpinned
    have hindex : tryIndex + repeats.toNat < maxTries := by
      rcases hcount with h | ⟨h, k, hk, -, -, hahead⟩ <;> omega
    rw [runTries_succ, if_neg fun h => h.2 ((Nat.le_add_right _ _).trans_lt hindex)]
    by_cases hmax : tries.calls.length = maxTries
    · -- this call is the one more
      cases hbody : body w t runIndex executionData maxTries tryIndex repeats tries with
      | again tries' | threw tries' | caught tries' =>
        rw [hbody] at hlength hpin
        change tries'.calls.length = _ at hlength
        exact (Nat.lt_of_lt_of_le (by omega)
          (le_runTries_calls w t runIndex executionData hno maxTries calls _ _ tries' hpin))
      | ended outcome =>
        rw [hbody] at hlength
        change outcome.tries.calls.length = _ at hlength
        exact (by omega : maxTries < outcome.tries.calls.length)
    · have hlt : tries.calls.length < maxTries := lt_of_le_of_ne hle hmax
      have hcalls' : maxTries < tries.calls.length + 1 + calls := by omega
      -- before the next one ahead the inner loop is left only by a throw
      have hnotLast : ∀ {k}, tries.calls.length ≤ k → k + 1 < maxTries →
          tryIndex + repeats.toNat = tries.calls.length →
          tryIndex + repeats.toNat ≠ maxTries - 1 := by omega
      cases hbody : body w t runIndex executionData maxTries tryIndex repeats tries with
      | again tries' =>
        rw [hbody] at hlength hpin hcontinues
        change tries'.calls.length = _ at hlength
        refine lt_runTries_calls hno hfail calls _ true tries' hpin ?_ ?_ ?_ <;> rw [hlength]
        · refine hcount.imp (fun h => Nat.succ_lt_succ h) fun ⟨h, k, hk, herror, hthrows, hahead⟩ =>
            ⟨congrArg (· + 1) h, k, hk, herror, hthrows, ?_⟩
          rcases hahead with hle | ⟨heq, -⟩
          · rcases Nat.lt_or_eq_of_le hle with hlt | heq
            · exact .inl hlt
            · exact .inr ⟨congrArg (· + 1) heq, rfl⟩
          · obtain ⟨data, hresult, -⟩ := hcontinues.1
            exact ((heq ▸ hthrows).of_response hresult).elim
        · exact hlt
        · exact hcalls'
      | threw tries' =>
        rw [hbody] at hlength hpin hcontinues
        change tries'.calls.length = _ at hlength
        refine lt_runTries_calls hno hfail calls _ false tries' hpin ?_ ?_ ?_ <;> rw [hlength]
        · rcases hcount with h | ⟨h, k, hk, herror, hthrows, hahead⟩
          · exact .inl (by rw [Bool.toNat_false]; omega)
          · cases repeats with
            | true => exact .inl (by rw [Bool.toNat_true] at h; rw [Bool.toNat_false]; omega)
            | false =>
              have hle := hahead.resolve_right fun h => by cases h.2
              rcases Nat.lt_or_eq_of_le hle with hlt | heq
              · exact .inr ⟨congrArg (· + 1) h, k, hk, herror, hthrows, .inl hlt⟩
              · obtain ⟨data, hresult, -⟩ := herror
                exact (Attempt.Throws.of_response hcontinues (heq ▸ hresult)).elim
        · exact hlt
        · exact hcalls'
      | caught tries' =>
        rw [hbody] at hlength hpin hcontinues
        obtain ⟨data, hresult, hlast, -⟩ := hcontinues
        change tries'.calls.length = _ at hlength
        refine lt_runTries_calls hno hfail calls _ false tries' hpin ?_ ?_ ?_ <;> rw [hlength]
        · rcases hcount with h | ⟨h, k, hk, herror, hthrows, hahead⟩
          · exact .inl (by rw [Bool.toNat_false]; omega)
          · rcases hahead with hle | ⟨heq, -⟩
            · rcases Nat.lt_or_eq_of_le hle with hlt | heq
              · exact .inr ⟨by rw [Bool.toNat_false]; omega, k, hk, herror, hthrows, .inl hlt⟩
              · have hfailed := (heq ▸ herror).nodeFailed hresult
                exact absurd (of_decide_eq_true (hlast hfailed)) (hnotLast hle hk h)
            · exact ((heq ▸ hthrows).of_response hresult).elim
        · exact hlt
        · exact hcalls'
      | ended outcome =>
        rw [hbody] at hcontinues
        obtain ⟨data, hresult, hlast, haccepts⟩ := hcontinues
        rcases hfail _ hlt with hthrows | herror | ⟨data', hresult', hnot⟩
        · exact (hthrows.of_response hresult).elim
        · have hindex := of_decide_eq_true (hlast (herror.nodeFailed hresult))
          rcases hcount with h | ⟨h, k, hk, -, hthrows, hahead⟩
          · omega
          · rcases hahead with hle | ⟨heq, -⟩
            · exact absurd hindex (hnotLast hle hk h)
            · exact ((heq ▸ hthrows).of_response hresult).elim
        · rw [hresult] at hresult'
          exact absurd (RunNodeResult.response.inj hresult' ▸ haccepts) hnot

end Tries

/-- A node is called no more often than it has tries, exactly if its data is pinned, or one of its
tries does not fail, or none of them throws right after one that returns an error. -/
theorem retry_bound_iff (w : Workflow) (s : WorkflowExecute) (t : Turn) (runIndex : ℕ)
    (executionData : ExecuteData)
    (hno : ∀ k request, (t.attempt k).result ≠ .request request) :
    (s.executeNode w t runIndex executionData).tries.calls.length ≤
        executionData.node.maxExecutionTries ↔
      s.Pinned executionData ∨
        ¬ WastesTry w t executionData executionData.node.maxExecutionTries := by
  unfold WorkflowExecute.executeNode
  by_cases hpinned : s.Pinned executionData
  · rw [Tries.runTries_pinned w t runIndex executionData _ _ _ { state := s } hpinned]
    exact iff_of_true (Nat.zero_le _) (.inl hpinned)
  · rw [or_iff_right hpinned]
    constructor
    · rintro hle ⟨hfail, hthrows⟩
      obtain ⟨k, hk, herror, hthrow⟩ := hthrows
      refine absurd hle (Nat.not_le.2 ?_)
      refine Tries.lt_runTries_calls w t runIndex executionData hno hfail _ _ _ _ hpinned
        (.inr ⟨rfl, k, hk, herror, hthrow, .inl (Nat.zero_le k)⟩) (Nat.zero_le _) ?_
      unfold Node.maxCalls
      simp only [List.length_nil]
      omega
    · intro hwaste
      refine Tries.runTries_calls_le w t runIndex executionData hno hwaste _ _ _ _ hpinned ?_ ?_ ?_
        (Nat.zero_le _)
      · exact fun k hk => absurd hk (Nat.not_lt_zero k)
      · exact .inl (Nat.zero_le _)
      · exact fun h => (by cases h)

def retriedNode : Node where
  name := "HTTP Request"
  type := ""
  retryOnFail := true
  maxTries := some 2

def retriedWorkflow : Workflow where
  nodes := Dict.empty.set "HTTP Request" retriedNode
  connectionsBySourceNode := .empty

def retriedEntry : ExecuteData where
  node := retriedNode
  data := Dict.empty.set .main [.items [{ json := .empty }]]
  source := none

/-- The first call returns an error, and so do those after the second. -/
def failing (second : RunNodeResult) : Turn where
  attempt k :=
    { result := if k = 1 then second else
        .response (some [.items [{ json := Dict.empty.set "error" (.string "failed") }]]) }

/-- A second call that returns no data is the last. -/
theorem two_calls_of_two :
    (WorkflowExecute.executeNode retriedWorkflow { nodeExecutionStack := [] }
      (failing (.response none)) 0 retriedEntry).tries.calls.length ≤
        retriedNode.maxExecutionTries :=
  (retry_bound_iff retriedWorkflow { nodeExecutionStack := [] } (failing (.response none)) 0
    retriedEntry (fun k request => by unfold failing; dsimp only; split_ifs <;> simp)).2
    (.inr fun h => by
      obtain ⟨-, k, hk, -, message, hthrows⟩ := h
      unfold failing at hthrows
      dsimp only at hthrows
      split_ifs at hthrows)

/-- The second call throws, and a third is made. -/
theorem third_call_of_two :
    ¬ (WorkflowExecute.executeNode retriedWorkflow { nodeExecutionStack := [] }
      (failing (.throws "timeout")) 0 retriedEntry).tries.calls.length ≤
        retriedNode.maxExecutionTries := by
  decide

end N8n
