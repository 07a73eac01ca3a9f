import N8n.Library.Runs
import N8n.MultiMainSetup

/-!
# Who leads while the key is held

The set-if-absent of an instance fails when the key holds its own host id as well, after a restart
or from overlapping checks, and makes it a follower. From then on it renews the key without looking
at its role.
-/

namespace N8n

namespace MultiMainSetup

variable {s : MultiMainSetup} {m : Main} {hostId : String} {call : ℕ} {stage : Stage}

theorem Call.Trying.inFlight {c : Call} (h : c.Trying) : c.InFlight := by
  rcases h with h | ⟨ok, h⟩ <;> simp [InFlight, h]

/-- The instance is leader, or one of its calls is trying to become leader. -/
def Main.LeadsOrTries (m : Main) : Prop := m.instanceRole = .leader ∨ ∃ c ∈ m.calls, c.Trying

/-- The holder of the key leads or tries to. -/
def Held (s : MultiMainSetup) : Prop :=
  ∀ hostId m, s.leaderKey = some hostId → s.mains.get? hostId = some m → m.LeadsOrTries

theorem Held.holderLeads (h : s.Held) : s.HolderLeads := by
  intro hostId m hkey hm hreturned
  rcases h hostId m hkey hm with hleader | ⟨c, hc, htrying⟩
  · exact hleader
  · exact absurd htrying.inFlight (hreturned c hc)

/-! ## Stages -/

theorem getElem?_setStage (m : Main) (call i : ℕ) (stage : Stage) :
    (m.setStage call stage).calls[i]? =
      (m.calls[i]?).map fun c => if call = i then { c with stage } else c := by
  unfold Main.setStage
  rw [List.getElem?_modify]
  split_ifs <;> rfl

theorem exists_trying_setStage {i : ℕ} {c : Call} (hne : i ≠ call) (hc : m.calls[i]? = some c)
    (htrying : c.Trying) : ∃ c ∈ (m.setStage call stage).calls, c.Trying := by
  refine ⟨c, List.mem_of_getElem? (i := i) ?_, htrying⟩
  simp [getElem?_setStage, hc, hne.symm]

theorem trying_setStage {c : Call} (hc : m.calls[call]? = some c)
    (htrying : ({ c with stage } : Call).Trying) :
    ∃ c ∈ (m.setStage call stage).calls, c.Trying := by
  refine ⟨{ c with stage }, List.mem_of_getElem? (i := call) ?_, htrying⟩
  simp [getElem?_setStage, hc]

/-- A call that is not trying may move on. -/
theorem Main.LeadsOrTries.setStage (h : m.LeadsOrTries) {c : Call} (hc : m.calls[call]? = some c)
    (hnot : ¬ c.Trying) : (m.setStage call stage).LeadsOrTries := by
  refine h.imp_right fun ⟨c', hc', htrying⟩ => ?_
  obtain ⟨i, hi⟩ := List.mem_iff_getElem?.1 hc'
  refine exists_trying_setStage (fun hsame => hnot ?_) hi htrying
  rw [← hsame, hi] at hc
  exact Option.some.inj hc ▸ htrying

theorem Main.LeadsOrTries.append (h : m.LeadsOrTries) (checking : Bool) (calls : List Call) :
    Main.LeadsOrTries { m with checking, calls := m.calls ++ calls } :=
  h.imp_right fun ⟨c, hc, htrying⟩ => ⟨c, List.mem_append_left calls hc, htrying⟩

theorem exists_other_of_trying {calls : List Call} (hcalls : m.calls = calls)
    (h : ∃ c ∈ (m.setStage call .done).calls, c.Trying) :
    ∃ i c', i ≠ call ∧ calls[i]? = some c' ∧ c'.Trying := by
  obtain ⟨c, hc, htrying⟩ := h
  obtain ⟨i, hi⟩ := List.mem_iff_getElem?.1 hc
  rw [getElem?_setStage, hcalls] at hi
  obtain ⟨c', hc', rfl⟩ := Option.map_eq_some_iff.1 hi
  split_ifs at htrying with hsame
  · rcases htrying with hset | ⟨ok, hdone⟩
    · cases hset
    · cases hdone
  · exact ⟨i, c', Ne.symm hsame, hc', htrying⟩

/-! ## Steps -/

theorem get?_setMain (s : MultiMainSetup) (hostId id : String) (m : Main) :
    (s.setMain hostId m).mains.get? id = if id = hostId then some m else s.mains.get? id :=
  Dict.get?_set _ _ _ _

/-- A step of one instance that leaves the key to its holder. -/
theorem Held.setMain (h : s.Held) (hm : s.leaderKey = some hostId → m.LeadsOrTries) :
    (s.setMain hostId m).Held := by
  intro id m' hkey hm'
  rw [get?_setMain] at hm'
  split_ifs at hm' with hid
  · subst hid
    obtain rfl := Option.some.inj hm'
    exact hm hkey
  · exact h id m' hkey hm'

theorem Held.execute (h : s.Held) (hostId : String) (call : ℕ) : (s.execute hostId call).Held := by
  unfold MultiMainSetup.execute
  cases hm : s.mains.get? hostId with
  | none => exact h
  | some m =>
    have hmain := fun hkey => h hostId m hkey hm
    dsimp only
    split
    · rename_i hc
      exact h.setMain fun hkey => (hmain hkey).setStage hc (by simp [Call.Trying])
    · rename_i hc
      intro id m' hkey hm'
      have hm' : (s.setMain hostId _).mains.get? id = some m' := hm'
      rw [get?_setMain] at hm'
      split_ifs at hm' with hid
      · obtain rfl := Option.some.inj hm'
        exact .inr (trying_setStage hc (.inr ⟨_, rfl⟩))
      · -- the key was not vacant, or it would hold this host id
        cases hold : s.leaderKey with
        | none =>
          rw [hold] at hkey
          exact absurd (Option.some.inj hkey).symm hid
        | some leaderId =>
          rw [hold] at hkey
          exact h id m' (hold.trans hkey) hm'
    · rename_i hc
      exact h.setMain fun hkey => (hmain hkey).setStage hc (by simp [Call.Trying])
    · exact fun id m' hkey => by cases hkey
    · exact h

/-- With any other answer the instance is leader, or it goes on trying, or nothing changes. -/
theorem leadsOrTries_gotLeader {c : Call} {leaderId : Option String} (hm : m.LeadsOrTries)
    (hc : m.calls[call]? = some c) (hstage : c.stage = .got leaderId)
    (hkeeps : m.BecomesFollower hostId c.stage →
      ∃ i c', i ≠ call ∧ m.calls[i]? = some c' ∧ c'.Trying) :
    (m.gotLeader hostId call leaderId).LeadsOrTries := by
  have hnot : ¬ c.Trying := by simp [Call.Trying, hstage]
  cases leaderId with
  | none => exact .inr (trying_setStage hc (.inl rfl))
  | some leaderId =>
    dsimp only [Main.gotLeader]
    split_ifs with hself hleader
    · exact hm.setStage hc hnot
    · obtain ⟨i, c', hne, hc', htrying⟩ :=
        hkeeps (.inr ⟨leaderId, hstage, hself, hleader⟩)
      exact .inr (exists_trying_setStage (m := m.stepDown) hne hc' htrying)
    · exact hm.setStage hc hnot

theorem leadsOrTries_triedToBecomeLeader {c : Call} {isInit ok : Bool}
    (hstage : c.stage = .setDone ok)
    (hkeeps : m.BecomesFollower hostId c.stage →
      ∃ i c', i ≠ call ∧ m.calls[i]? = some c' ∧ c'.Trying) :
    (m.triedToBecomeLeader call isInit ok).LeadsOrTries := by
  cases ok with
  | true => exact .inl rfl
  | false =>
    obtain ⟨i, c', hne, hc', htrying⟩ := hkeeps (.inl hstage)
    exact .inr (exists_trying_setStage
      (m := { m.markAsFollower with checking := m.checking || isInit }) hne hc' htrying)

theorem Held.answer (h : s.Held) (hkeeps : s.KeepsLeader (.answer hostId call)) :
    (s.answer hostId call).Held := by
  unfold MultiMainSetup.answer
  cases hm : s.mains.get? hostId with
  | none => exact h
  | some m =>
    have hmain := fun hkey => h hostId m hkey hm
    dsimp only
    split
    · rename_i hc
      exact h.setMain fun hkey =>
        leadsOrTries_gotLeader (hmain hkey) hc rfl (hkeeps m _ hkey hm hc)
    · rename_i hc
      exact h.setMain fun hkey => leadsOrTries_triedToBecomeLeader rfl (hkeeps m _ hkey hm hc)
    · rename_i hc
      exact h.setMain fun hkey => (hmain hkey).setStage hc (by simp [Call.Trying])
    · rename_i hc
      exact h.setMain fun hkey => (hmain hkey).setStage hc (by simp [Call.Trying])
    · exact h

theorem Held.step (h : s.Held) {e : Event} (hkeeps : s.KeepsLeader e) : (s.step e).Held := by
  cases e with
  | start hostId => exact h.setMain fun _ => .inr ⟨_, List.mem_singleton_self _, .inl rfl⟩
  | crash hostId =>
    intro id m hkey hm
    have hm : (s.mains.erase hostId).get? id = some m := hm
    rw [Dict.get?_erase] at hm
    split_ifs at hm
    exact h id m hkey hm
  | tick hostId =>
    dsimp only [MultiMainSetup.step, tick]
    cases hm : s.mains.get? hostId with
    | none => exact h
    | some m =>
      dsimp only
      split_ifs
      · exact h.setMain fun hkey => (h hostId m hkey hm).append m.checking _
      · exact h
  | shutdown hostId =>
    dsimp only [MultiMainSetup.step, shutdown]
    cases hm : s.mains.get? hostId with
    | none => exact h
    | some m =>
      dsimp only
      split_ifs
      · exact h.setMain fun hkey => (h hostId m hkey hm).append false _
      · exact h.setMain fun hkey => h hostId m hkey hm
  | execute hostId call => exact h.execute hostId call
  | answer hostId call => exact h.answer hkeeps
  | expire => exact fun id m hkey => by cases hkey

/-- A holder that becomes a follower with an answer does not lead, so another call has to try. -/
theorem keepsLeader_of_held (h : (s.answer hostId call).Held) :
    s.KeepsLeader (.answer hostId call) := by
  intro m c hkey hm hc hfollower
  have hleads : ∀ {m'}, s.answer hostId call = s.setMain hostId m' → m'.LeadsOrTries := by
    intro m' heq
    rw [heq] at h
    exact h hostId m' hkey (by rw [get?_setMain, if_pos rfl])
  obtain ⟨stage, isInit⟩ := c
  rcases hfollower with hstage | ⟨leaderId, hstage, hother, hleader⟩
  · obtain rfl : stage = .setDone false := hstage
    have hafter : (m.triedToBecomeLeader call isInit false).LeadsOrTries :=
      hleads (by simp only [answer, hm, hc])
    exact exists_other_of_trying rfl (hafter.resolve_left fun hrole => by cases hrole)
  · obtain rfl : stage = .got (some leaderId) := hstage
    have hafter : (m.gotLeader hostId call (some leaderId)).LeadsOrTries :=
      hleads (by simp only [answer, hm, hc])
    simp only [Main.gotLeader, hother, hleader, if_false, if_true] at hafter
    exact exists_other_of_trying rfl (hafter.resolve_left fun hrole => by cases hrole)

/-- The holder of the key leads or tries to, exactly in the runs in which no holder becomes a
follower by an answer that comes while none of its other calls is trying. -/
theorem held_iff {es : List Event} :
    Runs.Along step Held {} es ↔ Runs.Meets step KeepsLeader {} es := by
  have hstart : Held {} := fun _ _ hkey => by cases hkey
  refine Runs.along_iff_meets (fun _ hs => hs) (fun s e hs _ hkeeps => hs.step hkeeps)
    (fun s e hs _ hnot hheld => hnot ?_) hstart
    (Runs.meets_of_forall (C := fun _ => True) fun _ _ => trivial)
  cases e with
  | answer hostId call => exact keepsLeader_of_held hheld
  | _ => trivial

/-- In such a run the holder of the key is leader whenever its calls have returned. -/
theorem holder_leads {es : List Event} (h : Runs.Meets step KeepsLeader {} es) :
    Runs.Along step HolderLeads {} es :=
  (held_iff.2 h).mono fun _ hs => hs.holderLeads

/-- A first instance becomes leader, and a second one follower. -/
def twoMains : List Event :=
  [.start "main-a", .start "main-b", .execute "main-a" 0, .execute "main-b" 0, .answer "main-a" 0,
    .answer "main-b" 0]

theorem first_main_leads : Runs.Along step HolderLeads {} twoMains := by
  have hkeeps : Runs.Meets step KeepsLeader {} twoMains := by
    refine ⟨trivial, trivial, trivial, trivial, fun m c _ hm hc hfollower => ?_,
      fun m c hkey => ?_, trivial⟩
    · obtain rfl := Option.some.inj hm
      obtain rfl := Option.some.inj hc
      rcases hfollower with hfollower | ⟨_, hfollower, -⟩ <;> cases hfollower
    · exact absurd hkey (by decide)
  exact holder_leads hkeeps

/-- A leader comes back with its host id before the key expires. -/
theorem restarted_holder_follows :
    ¬ Runs.Along step HolderLeads {} [.start "main-a", .execute "main-a" 0, .answer "main-a" 0,
      .start "main-a", .execute "main-a" 0, .answer "main-a" 0, .tick "main-a",
      .execute "main-a" 1, .answer "main-a" 1, .execute "main-a" 1, .answer "main-a" 1] := by
  intro h
  have hleads := h.last "main-a" _ (by decide) rfl (by unfold Call.InFlight; decide)
  exact absurd hleads (by decide)

end MultiMainSetup

end N8n
