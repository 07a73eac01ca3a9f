import N8n.Library.FirstBest
import N8n.WebhookService

/-!
# Which dynamic webhook answers a path

The service takes the first webhook with the most static segments out of those whose static segments
are in the request, wherever they are. A template that matches position by position is among these,
so the answer is right exactly when no other is before it.
-/

namespace N8n

/-- A path with a first segment in front. -/
theorem pathElements_addressed {webhookId : List Char} (h : '/' ∉ webhookId) (path : List Char) :
    pathElements (webhookId ++ '/' :: path) = webhookId :: pathElements path :=
  List.splitOn_append_cons_self_of_not_mem h path

namespace WebhookEntity

variable {w : WebhookEntity}

theorem Fits.occurs {segments : List (List Char)} (h : w.Fits segments) : w.Occurs segments := by
  have hall : ∀ {template segments : List (List Char)},
      List.Forall₂ (fun t s => isParameter t = true ∨ t = s) template segments →
      ∀ t ∈ template, isParameter t = false → t ∈ segments := by
    intro template segments h
    induction h with
    | nil => exact fun t ht => absurd ht List.not_mem_nil
    | @cons t s _ _ hfirst _ ih =>
      rw [List.forall_mem_cons]
      refine ⟨fun hstatic => ?_, fun u hu hstatic => List.mem_cons_of_mem s (ih u hu hstatic)⟩
      rcases hfirst with hparameter | rfl
      · rw [hparameter] at hstatic
        cases hstatic
      · exact List.mem_cons_self
  intro s hs
  obtain ⟨hmem, hstatic⟩ := List.mem_filter.1 hs
  exact hall h s hmem (by simpa using hstatic)

theorem pathLength_of_webhookId {id : String} (h : w.webhookId = some id) :
    w.pathLength = some w.segments.length := by
  rw [w.measured, h]
  rfl

end WebhookEntity

namespace WebhookRepository

open WebhookEntity

variable {segments : List (List Char)}

/-! ## The best match -/

/-- The `reduce` finds the first of the most static webhooks, and their number of segments. -/
theorem foldl_eq_argmax (ws : List WebhookEntity) :
    ws.foldl (fun (acc : Option WebhookEntity × ℕ) dw =>
      if (∀ s ∈ dw.staticSegments, s ∈ segments) ∧ acc.2 < dw.staticSegments.length then
        (some dw, dw.staticSegments.length)
      else if dw.staticSegments.length = 0 ∧ acc.1 = none then (some dw, acc.2)
      else acc) (none, 0) =
    let best := (ws.filter (·.Occurs segments)).argmax staticCount
    (best, (best.map staticCount).getD 0) := by
  induction ws using List.reverseRecOn with
  | nil => rfl
  | append_singleton ws w ih =>
    have hoccurs_iff : (∀ s ∈ w.staticSegments, s ∈ segments) ↔ w.Occurs segments := Iff.rfl
    rw [List.foldl_append, ih, List.filter_append]
    simp only [List.foldl_cons, List.foldl_nil, hoccurs_iff]
    by_cases hoccurs : w.Occurs segments
    · have hlast : [w].filter (·.Occurs segments) = [w] := by simp [hoccurs]
      rw [hlast, List.argmax_concat]
      cases hbest : (ws.filter (·.Occurs segments)).argmax staticCount with
      | none =>
        by_cases hzero : w.staticSegments.length = 0
        · simp [hoccurs, hzero, staticCount]
        · simp [hoccurs, Nat.pos_of_ne_zero hzero, staticCount]
      | some best =>
        by_cases hlt : best.staticSegments.length < w.staticSegments.length
        · simp [hoccurs, hlt, staticCount]
        · simp [hlt, staticCount]
    · have hpos : w.staticSegments.length ≠ 0 := fun hzero =>
        hoccurs (by simp [WebhookEntity.Occurs, List.length_eq_zero_iff.1 hzero])
      simp [hoccurs, hpos]

theorem bestMatch_eq_argmax (ws : List WebhookEntity) :
    bestMatch segments ws = (ws.filter (·.Occurs segments)).argmax staticCount :=
  congrArg Prod.fst (foldl_eq_argmax ws)

variable (r : WebhookRepository)

theorem mem_rows {w : WebhookEntity} :
    w ∈ r.rows ↔ r.findOneBy w.method w.webhookPath = some w := by
  unfold rows findOneBy
  constructor
  · rintro hmem
    obtain ⟨⟨key, v⟩, hentry, rfl⟩ := List.mem_map.1 hmem
    have hget := Dict.mem_entries.1 hentry
    rwa [r.keyed key v hget] at hget
  · exact fun hget => List.mem_map.2 ⟨_, Dict.mem_entries.2 hget, rfl⟩

/-- No row comes twice. -/
theorem rows_nodup : r.rows.Nodup := by
  refine List.Nodup.of_map (fun w => (w.method, w.webhookPath)) ?_
  have hkeys : r.rows.map (fun w => (w.method, w.webhookPath)) = r.table.entries.map Prod.fst := by
    unfold rows
    rw [List.map_map]
    exact List.map_congr_left fun entry hentry =>
      (r.keyed entry.1 entry.2 (Dict.mem_entries.1 hentry)).symm
  rw [hkeys]
  exact r.table.nodup

theorem dynamicWebhooks_nodup (path : String) (method : Option HttpMethod) :
    (r.dynamicWebhooks path method).Nodup := r.rows_nodup.filter _

/-- The webhook that is found has more static segments than the others, or comes first. -/
theorem findDynamicWebhook_eq_some {path : String} {method : Option HttpMethod}
    {w : WebhookEntity} :
    r.findDynamicWebhook path method = some w ↔
      w ∈ r.dynamicWebhooks path method ∧ w.Occurs (otherSegments path) ∧
      ∀ v ∈ r.dynamicWebhooks path method, v.Occurs (otherSegments path) → v ≠ w →
        v.staticCount < w.staticCount ∨
          v.staticCount = w.staticCount ∧ [w, v].Sublist (r.dynamicWebhooks path method) := by
  have hnodup := r.dynamicWebhooks_nodup path method
  unfold findDynamicWebhook
  rw [bestMatch_eq_argmax, FirstBest.argmax_eq_some_iff_before (hnodup.filter _), List.mem_filter,
    decide_eq_true_eq, and_assoc]
  refine and_congr_right fun _ => and_congr_right fun hoccurs => ?_
  constructor
  · intro h v hv hvoccurs hne
    refine (h v (List.mem_filter.2 ⟨hv, decide_eq_true hvoccurs⟩) hne).imp_right ?_
    exact fun ⟨heq, hbefore⟩ => ⟨heq, hbefore.trans List.filter_sublist⟩
  · intro h v hv hne
    obtain ⟨hv, hvoccurs⟩ := List.mem_filter.1 hv
    have hvoccurs := of_decide_eq_true hvoccurs
    refine (h v hv hvoccurs hne).imp_right fun ⟨heq, hbefore⟩ => ⟨heq, ?_⟩
    simpa [hoccurs, hvoccurs] using hbefore.filter (·.Occurs (otherSegments path))

theorem exists_findDynamicWebhook {path : String} {method : Option HttpMethod} {v : WebhookEntity}
    (hv : v ∈ r.dynamicWebhooks path method) (hoccurs : v.Occurs (otherSegments path)) :
    ∃ w, r.findDynamicWebhook path method = some w ∧ v.staticCount ≤ w.staticCount := by
  unfold findDynamicWebhook
  rw [bestMatch_eq_argmax]
  have hmem : v ∈ (r.dynamicWebhooks path method).filter (·.Occurs (otherSegments path)) :=
    List.mem_filter.2 ⟨hv, decide_eq_true hoccurs⟩
  cases hbest : ((r.dynamicWebhooks path method).filter
      (·.Occurs (otherSegments path))).argmax staticCount with
  | none =>
    rw [List.argmax_eq_none.1 hbest] at hmem
    cases hmem
  | some w => exact ⟨w, rfl, List.le_of_mem_argmax hmem hbest⟩

/-- The dynamic webhooks of a path are right exactly when those that match by position are
preferred. -/
theorem answersByPosition_iff (path : String) (method : Option HttpMethod) :
    r.AnswersByPosition path method ↔ r.PrefersPosition path method := by
  constructor
  · rintro ⟨hfits, -⟩ v hv hoccurs hnot
    obtain ⟨w, hw, -⟩ := r.exists_findDynamicWebhook hv hoccurs
    obtain ⟨hmem, -, hbest⟩ := r.findDynamicWebhook_eq_some.1 hw
    have hwfits := hfits w hw
    have hne : v ≠ w := fun h => hnot (h ▸ hwfits)
    exact ⟨w, hmem, hwfits, hbest v hv hoccurs hne⟩
  · intro hprefers
    refine ⟨fun w hw => ?_, fun v hv hfits => r.exists_findDynamicWebhook hv hfits.occurs⟩
    by_contra hnot
    obtain ⟨hmem, hoccurs, hbest⟩ := r.findDynamicWebhook_eq_some.1 hw
    obtain ⟨v, hv, hvfits, hbefore⟩ := hprefers w hmem hoccurs hnot
    have hne : v ≠ w := fun h => hnot (h ▸ hvfits)
    rcases hbest v hv hvfits.occurs hne with hlt | ⟨heq, hafter⟩
    · rcases hbefore with hlt' | ⟨heq', -⟩ <;> omega
    · rcases hbefore with hlt' | ⟨-, hbefore⟩
      · omega
      · exact FirstBest.not_before_of_before (r.dynamicWebhooks_nodup path method) hbefore hafter

/-! ## Test webhooks -/

theorem uuidSegment_addressed {id : String} (hid : '/' ∉ id.toList) (path : List Char) :
    uuidSegment (id ++ "/" ++ String.ofList path) = id := by
  have h := pathElements_addressed hid path
  simp [uuidSegment, h]

theorem otherSegments_addressed {id : String} (hid : '/' ∉ id.toList) (path : List Char) :
    otherSegments (id ++ "/" ++ String.ofList path) = pathElements path := by
  have h := pathElements_addressed hid path
  simp [otherSegments, h]

theorem rows_upsert_empty (w : WebhookEntity) : (empty.upsert w).rows = [w] := rfl

theorem matchesTestWebhooks : MatchesTestWebhooks := by
  intro w id registration path hid hslash hpath hlength
  have hall : (empty.upsert w).dynamicWebhooks (id ++ "/" ++ String.ofList path) (some w.method) =
      [w] := by
    unfold dynamicWebhooks findBy
    rw [rows_upsert_empty, uuidSegment_addressed hslash, otherSegments_addressed hslash,
      List.filter_cons_of_pos, List.filter_nil]
    simp [hid, pathLength_of_webhookId hid, hlength]
  rw [findDynamicWebhook_eq_some, hall, otherSegments_addressed hslash]
  have hstatic : (pathElements registration.webhook.path.toList).filter
      (fun element => ¬ [':'].isPrefixOf element) = w.staticSegments := by
    rw [hpath]
    refine List.filter_congr fun element _ => ?_
    unfold isParameter
    cases [':'].isPrefixOf element <;> rfl
  have haccepts : TestWebhooks.getActiveWebhookFromRegistration path registration =
      if w.Occurs (pathElements path) then some registration.webhook else none := by
    unfold TestWebhooks.getActiveWebhookFromRegistration
    dsimp only
    rw [hstatic]
    rfl
  rw [haccepts]
  by_cases hoccurs : w.Occurs (pathElements path)
  · rw [if_pos hoccurs]
    simp [hoccurs]
  · rw [if_neg hoccurs]
    simp [hoccurs]

/-- Dynamic webhooks answer the paths that they match by position, and the most static one first,
exactly when a webhook whose static segments are elsewhere in the path comes behind such a one. -/
theorem answers_by_position_iff (path : String) (method : Option HttpMethod) :
    r.AnswersByPosition path method ∧ MatchesTestWebhooks ↔ r.PrefersPosition path method := by
  rw [and_iff_left matchesTestWebhooks]
  exact r.answersByPosition_iff path method

/-- A webhook for the posts of a user. -/
def userPosts : WebhookEntity where
  workflowId := "workflow"
  webhookPath := "user/:id"
  method := .get
  node := "Webhook"
  webhookId := some "5f0c"
  pathLength := some 2
  measured := rfl
  addressed _ := rfl

/-- It answers a path with its segments the other way round. -/
theorem swapped_not_by_position :
    ¬ ((empty.upsert userPosts).AnswersByPosition "5f0c/7/user" (some .get) ∧
      MatchesTestWebhooks) := by
  rintro ⟨⟨hfits, -⟩, -⟩
  have hfound : (empty.upsert userPosts).findDynamicWebhook "5f0c/7/user" (some .get) =
      some userPosts := by decide
  have hfirst : userPosts.Fits ["7".toList, "user".toList] := hfits userPosts hfound
  have hsegments : userPosts.segments = ["user".toList, ":id".toList] := by decide
  rw [Fits, hsegments, List.forall₂_cons] at hfirst
  exact absurd hfirst.1 (by decide)

end WebhookRepository

end N8n
