import Mathlib.Tactic
import N8n.Library.Runs
import N8n.TestWebhooks

/-!
# Test webhooks of one workflow and those of others

To deactivate the webhooks of a workflow is to delete them at the third party and then to delete the
whole hash. So the others keep their registrations only as long as they have none.
-/

namespace N8n

namespace TestWebhooks

variable {workflowId : String} {s : TestWebhooks}

/-! ## Effects in order -/

theorem orderly_concat {effects : List WebhookEffect} {effect : WebhookEffect} :
    Orderly workflowId (effects ++ [effect]) ↔ Orderly workflowId effects ∧
      ∀ registration, effect = .removed registration →
        registration.workflowId = workflowId ∧ .deleteWebhook registration.webhook ∈ effects := by
  constructor
  · intro h
    refine ⟨fun before registration after heq => ?_, fun registration heq => ?_⟩
    · exact h before registration (after ++ [effect]) (by rw [heq]; simp)
    · exact h effects registration [] (by rw [heq])
  · rintro ⟨heffects, heffect⟩ before registration after heq
    rcases List.eq_nil_or_concat after with rfl | ⟨after', last, rfl⟩
    · obtain ⟨rfl, hlast⟩ := List.append_inj' heq rfl
      exact heffect registration (List.singleton_inj.1 hlast)
    · rw [List.concat_eq_append, ← List.cons_append, ← List.append_assoc] at heq
      obtain ⟨rfl, -⟩ := List.append_inj' heq rfl
      exact heffects before registration after' rfl

/-- To delete webhooks at the third party is to remove nothing. -/
theorem orderly_append_deletes : ∀ (webhooks : List WebhookData) (effects : List WebhookEffect),
    Orderly workflowId (effects ++ webhooks.map .deleteWebhook) ↔ Orderly workflowId effects
  | [], effects => by rw [List.map_nil, List.append_nil]
  | webhook :: webhooks, effects => by
    have ih := orderly_append_deletes webhooks (effects ++ [.deleteWebhook webhook])
    rw [List.map_cons, ← List.singleton_append, ← List.append_assoc, ih, orderly_concat]
    exact and_iff_left fun registration heq => by cases heq

theorem orderly_append_removed : ∀ (registrations : List TestWebhookRegistration)
    (effects : List WebhookEffect),
    Orderly workflowId (effects ++ registrations.map .removed) ↔ Orderly workflowId effects ∧
      ∀ registration ∈ registrations, registration.workflowId = workflowId ∧
        .deleteWebhook registration.webhook ∈ effects
  | [], effects => by simp
  | registration :: registrations, effects => by
    have ih := orderly_append_removed registrations (effects ++ [.removed registration])
    rw [List.map_cons, ← List.singleton_append, ← List.append_assoc, ih, orderly_concat]
    simp [and_assoc]

/-! ## One registration -/

theorem mem_getAllRegistrations {registration : TestWebhookRegistration} :
    registration ∈ s.getAllRegistrations ↔ ∃ key, s.registrations.get? key = some registration := by
  simp only [getAllRegistrations, List.mem_map, Prod.exists, exists_eq_right, Dict.mem_entries]

theorem register_orderly_iff {registration : TestWebhookRegistration}
    (hfor : registration.workflowId = workflowId) :
    Orderly workflowId (s.register registration).effects ↔
      Orderly workflowId s.effects ∧ s.Owns workflowId registration.webhook.key := by
  unfold register
  rw [orderly_append_removed]
  refine and_congr_right fun _ => ?_
  simp only [List.mem_filter, Option.mem_toList, hfor, decide_eq_true_eq]
  constructor
  · intro h old hold
    by_contra hne
    exact hne (h old ⟨hold, hne⟩).1
  · rintro h old ⟨hold, hne⟩
    exact absurd (h old hold) hne

theorem owns_register {registration : TestWebhookRegistration}
    (hfor : registration.workflowId = workflowId)
    (howns : s.Owns workflowId registration.webhook.key) (key : String) :
    (s.register registration).Owns workflowId key ↔ s.Owns workflowId key := by
  unfold Owns register
  simp only [Dict.get?_set]
  split_ifs with hkey
  · refine ⟨fun _ => hkey ▸ howns, fun _ => ?_⟩
    rintro _ ⟨⟩
    exact hfor
  · rfl

/-! ## Deactivation -/

theorem mem_webhooksOf {registration : TestWebhookRegistration}
    (hmem : registration ∈ s.getAllRegistrations) (hfor : registration.workflowId = workflowId) :
    registration.webhook ∈ s.webhooksOf workflowId :=
  List.mem_filter.2 ⟨List.mem_map_of_mem hmem, decide_eq_true (registration.owned.trans hfor)⟩

variable (workflowId s) in
theorem deactivateWebhooks_orderly_iff (deletion : Option ℕ) :
    Orderly workflowId (s.deactivateWebhooks workflowId deletion).1.effects ↔
      Orderly workflowId s.effects ∧
        ((∃ registration ∈ s.getAllRegistrations, registration.workflowId = workflowId) →
          deletion.isSome ∨ ∀ key, s.Owns workflowId key) := by
  unfold deactivateWebhooks
  split_ifs with hnone
  · refine (and_iff_left ?_).symm
    rintro ⟨registration, hmem, hfor⟩
    have hwebhook := mem_webhooksOf hmem hfor
    rw [hnone] at hwebhook
    exact absurd hwebhook List.not_mem_nil
  · have hsome : ∃ registration ∈ s.getAllRegistrations, registration.workflowId = workflowId := by
      obtain ⟨webhook, hwebhook⟩ := List.exists_mem_of_ne_nil _ hnone
      obtain ⟨hmem, hof⟩ := List.mem_filter.1 hwebhook
      obtain ⟨registration, hregistration, rfl⟩ := List.mem_map.1 hmem
      exact ⟨registration, hregistration, registration.owned.symm.trans (of_decide_eq_true hof)⟩
    cases deletion with
    | some count =>
      simp only [Option.isSome_some, true_or, implies_true, and_true]
      exact orderly_append_deletes _ _
    | none =>
      simp only [deregisterAll, hsome, forall_const, Option.isSome_none, Bool.false_eq_true,
        false_or]
      rw [orderly_append_removed, orderly_append_deletes]
      refine and_congr_right fun _ =>
        ⟨fun h key registration hget => ?_, fun h registration hmem => ?_⟩
      · exact (h registration (mem_getAllRegistrations.2 ⟨key, hget⟩)).1
      · obtain ⟨key, hget⟩ := mem_getAllRegistrations.1 hmem
        have hfor := h key registration hget
        exact ⟨hfor, List.mem_append_right _ (List.mem_map_of_mem (mem_webhooksOf hmem hfor))⟩

/-! ## The calls -/

/-- A registered webhook is a test webhook, so no path is ever taken. -/
theorem pathTaken_eq_false (call : NeedsWebhook) (webhook : NodeWebhook)
    (registrationByKey : TestWebhookRegistration) :
    call.pathTaken webhook registrationByKey = false := by
  simp [NeedsWebhook.pathTaken, registrationByKey.test]

/-- Each webhook of the loop is registered in order if its key is not another workflow's; if one
cannot be created, there is the deactivation as well. -/
theorem registerWebhooks_orderly_iff (call : NeedsWebhook) (hfor : call.workflowId = workflowId) :
    ∀ (webhooks : List NodeWebhook) {s : TestWebhooks},
      Orderly workflowId (registerWebhooks call s webhooks).1.effects ↔
        Orderly workflowId s.effects ∧
          (∀ webhook ∈ attempted call webhooks,
            s.Owns workflowId (call.registration webhook none).webhook.key) ∧
          ((∃ webhook ∈ attempted call webhooks, call.creation webhook = none) →
            call.deletion.isSome ∨ ∀ key, s.Owns workflowId key)
  | [], s => by simp [registerWebhooks, attempted]
  | webhook :: webhooks, s => by
    have htaken : ((s.registrations.get? (toKey webhook.httpMethod webhook.path
        webhook.webhookId)).any (call.pathTaken webhook)) = false := by
      cases s.registrations.get? (toKey webhook.httpMethod webhook.path webhook.webhookId) with
      | none => rfl
      | some registrationByKey => exact pathTaken_eq_false call webhook registrationByKey
    unfold registerWebhooks attempted
    simp only [htaken, Bool.false_eq_true, if_false]
    by_cases hrun : webhook.node ∈ call.runData
    · simp [hrun]
    · rw [if_neg hrun, if_neg hrun]
      cases hcreation : call.creation webhook with
      | none =>
        have hown : (call.registration webhook none).workflowId = workflowId := hfor
        have hhas : ∃ registration ∈
            (s.register (call.registration webhook none)).getAllRegistrations,
            registration.workflowId = workflowId :=
          ⟨_, mem_getAllRegistrations.2 ⟨_, Dict.get?_set_self _ _ _⟩, hown⟩
        have hdeactivate := deactivateWebhooks_orderly_iff workflowId
          (s.register (call.registration webhook none)) call.deletion
        rw [register_orderly_iff hown] at hdeactivate
        simp only [hhas, forall_const] at hdeactivate
        simp only [Option.isNone_none, if_true, List.mem_singleton, forall_eq, exists_eq_left,
          hcreation, forall_const, hfor]
        rw [hdeactivate, and_assoc]
        refine and_congr_right fun _ => and_congr_right fun howns => or_congr_right ?_
        exact forall_congr' fun key => owns_register hown howns key
      | some staticData =>
        have hown : ∀ staticData, (call.registration webhook staticData).workflowId = workflowId :=
          fun _ => hfor
        simp only [Option.isNone_some, Bool.false_eq_true, if_false]
        rw [registerWebhooks_orderly_iff call hfor webhooks, register_orderly_iff (hown staticData),
          register_orderly_iff (hown none), List.forall_mem_cons, List.exists_mem_cons_iff,
          hcreation]
        by_cases howns : s.Owns workflowId (call.registration webhook none).webhook.key
        · have howns₁ := owns_register (hown none) howns
          have howns₂ := owns_register (hown staticData) ((howns₁ _).2 howns)
          have hagain : s.Owns workflowId (call.registration webhook staticData).webhook.key :=
            howns
          simp only [howns₁, howns₂, howns, hagain, and_true, true_and, reduceCtorEq, false_or]
        · simp only [howns, and_false, false_and]

/-- What a call for the workflow removes is in order exactly under the condition. -/
theorem step_orderly_iff {call : WebhookCall} (hs : Orderly workflowId s.effects)
    (hfor : s.IsFor workflowId call) :
    Orderly workflowId (s.step call).effects ↔ s.KeepsToItself workflowId call := by
  cases call with
  | needsWebhook call =>
    simp only [step, needsWebhook, KeepsToItself]
    split_ifs with hid hlisten
    · simp [hs, hid]
    · simp [hs, hlisten, attempted]
    · rw [registerWebhooks_orderly_iff call hfor]
      simp only [hs, hid, true_and, false_or]
  | executeWebhook call =>
    simp only [step, executeWebhook, KeepsToItself]
    cases hrequested : s.requested call with
    | none => simp [hs]
    | some registration =>
      have hhas : ∃ registration ∈ s.getAllRegistrations, registration.workflowId = workflowId := by
        obtain ⟨webhook, -, hget⟩ := Option.bind_eq_some_iff.1 hrequested
        exact ⟨registration, mem_getAllRegistrations.2 ⟨_, hget⟩, hfor registration hrequested⟩
      have hid : registration.workflowId = workflowId := hfor registration hrequested
      simp only [Option.mem_def, Option.some.injEq, forall_eq']
      split_ifs with hnode hreplied helsewhere
      · exact iff_of_true hs fun hyes => by simp [hyes] at hnode
      · exact iff_of_true hs fun _ hnot => absurd hreplied hnot
      · exact iff_of_true hs fun _ _ hnot => absurd helsewhere hnot
      · rw [hid, deactivateWebhooks_orderly_iff]
        refine (and_iff_right hs).trans ⟨fun h _ _ _ => h hhas, fun h _ => h ?_ hreplied helsewhere⟩
        simpa using hnode
  | cancelWebhook cancelledId deletion =>
    obtain rfl : cancelledId = workflowId := hfor
    simp only [step, cancelWebhook, KeepsToItself]
    split_ifs with hhas
    · rw [deactivateWebhooks_orderly_iff]
      exact and_iff_right hs
    · simp only [List.any_eq_true, decide_eq_true_eq] at hhas
      simp [hs, hhas]

/-- A workflow listens for a GET request on a path. -/
def listenOn (workflowId path : String) : NeedsWebhook where
  userId := "owner"
  workflowId
  webhooks := [{ node := "Webhook", httpMethod := .get, path }]

/-- The registration of the second workflow. -/
def secondRegistered : Dict String TestWebhookRegistration :=
  (needsWebhook {} (listenOn "second" "b")).1.registrations

end TestWebhooks

end N8n
