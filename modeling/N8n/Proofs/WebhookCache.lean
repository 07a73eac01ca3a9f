import N8n.Proofs.WebhookMatching
import N8n.Library.Runs

/-!
# The cache before the table of webhooks

A webhook is cached under its unique path when it is stored and under the path of the request when
it is found, and removed from the cache under its unique path only. The two differ for every path
with a colon, and the answer to the one need not be the webhook in either place.
-/

namespace N8n

theorem webhookCacheKey_inj {method method' : HttpMethod} {path path' : String} :
    webhookCacheKey method path = webhookCacheKey method' path' ↔
      method = method' ∧ path = path' := by
  constructor
  · intro h
    have hlist := congrArg String.toList h
    unfold webhookCacheKey at hlist
    simp only [String.toList_append] at hlist
    cases method <;> cases method' <;>
      simp [HttpMethod.text] at hlist <;> exact ⟨rfl, String.toList_inj.1 hlist⟩
  · rintro ⟨rfl, rfl⟩
    rfl

namespace WebhookEntity

variable {w v : WebhookEntity}

theorem cacheKey_eq_iff {method : HttpMethod} {path : String} :
    webhookCacheKey method path = w.cacheKey ↔ method = w.method ∧ path = w.uniquePath :=
  webhookCacheKey_inj

theorem uniquePath_of_not_mem (h : ':' ∉ w.webhookPath.toList) : w.uniquePath = w.webhookPath :=
  if_neg h

theorem uniquePath_of_mem (h : ':' ∈ w.webhookPath.toList) :
    w.uniquePath = w.webhookId.getD "" ++ "/" ++ w.webhookPath := if_pos h

theorem mem_uniquePath : ':' ∈ w.uniquePath.toList ↔ ':' ∈ w.webhookPath.toList := by
  by_cases h : ':' ∈ w.webhookPath.toList
  · simp [uniquePath_of_mem h, h]
  · rw [uniquePath_of_not_mem h]

theorem uniquePath_ne (h : ':' ∈ w.webhookPath.toList) : w.uniquePath ≠ w.webhookPath := by
  intro heq
  have hlength := congrArg (·.toList.length) heq
  simp only [uniquePath_of_mem h, String.toList_append, List.length_append] at hlength
  simp at hlength

end WebhookEntity

namespace WebhookRepository

open WebhookEntity

variable {r : WebhookRepository}

theorem mem_rows_upsert {v w : WebhookEntity} : v ∈ (r.upsert w).rows ↔
    v = w ∨ v ∈ r.rows ∧ (v.method, v.webhookPath) ≠ (w.method, w.webhookPath) := by
  rw [mem_rows, mem_rows]
  unfold findOneBy upsert
  rw [Dict.get?_set]
  split_ifs with hkey
  · simp [hkey, eq_comm]
  · simp only [ne_eq, hkey, not_false_eq_true, and_true, iff_or_self]
    rintro rfl
    exact absurd rfl hkey

theorem rows_removeOf (workflowId : String) :
    (r.removeOf workflowId).rows = r.rows.filter (·.workflowId ≠ workflowId) := by
  unfold rows removeOf
  rw [List.filter_map]
  rfl

theorem findStaticWebhook_eq_some {method : HttpMethod} {path : String} {w : WebhookEntity} :
    r.findStaticWebhook method path = some w ↔
      w ∈ r.rows ∧ w.method = method ∧ w.webhookPath = path := by
  rw [mem_rows]
  unfold findStaticWebhook
  constructor
  · intro h
    have hkey := r.keyed _ _ h
    rw [Prod.mk.injEq] at hkey
    rw [← hkey.1, ← hkey.2]
    exact ⟨h, rfl, rfl⟩
  · rintro ⟨h, rfl, rfl⟩
    exact h

theorem mem_rows_of_lookup {method : HttpMethod} {path : String} {w : WebhookEntity}
    (h : r.lookup method path = some w) : w ∈ r.rows := by
  rcases Option.or_eq_some_iff.1 h with h | ⟨-, h⟩
  · exact (findStaticWebhook_eq_some.1 h).1
  · exact List.mem_of_mem_filter (r.findDynamicWebhook_eq_some.1 h).1

/-- A dynamic webhook that answers its unique path starts it with its id. -/
theorem webhookId_of_lookup {w : WebhookEntity} (hcolon : ':' ∈ w.webhookPath.toList)
    (h : r.lookup w.method w.uniquePath = some w) :
    w.webhookId = some (uuidSegment w.uniquePath) := by
  rcases Option.or_eq_some_iff.1 h with h | ⟨-, h⟩
  · exact absurd (findStaticWebhook_eq_some.1 h).2.2.symm (uniquePath_ne hcolon)
  · have hmem := (r.findDynamicWebhook_eq_some.1 h).1
    exact (of_decide_eq_true (List.mem_filter.1 hmem).2).1

/-- The unique path tells the rows of two tables apart as the primary key does. -/
theorem webhookPath_eq_of_uniquePath_eq {r' : WebhookRepository} {v w : WebhookEntity}
    (hpath : v.uniquePath = w.uniquePath) (hv : r.lookup v.method v.uniquePath = some v)
    (hw : r'.lookup w.method w.uniquePath = some w) : v.webhookPath = w.webhookPath := by
  by_cases hcolon : ':' ∈ v.webhookPath.toList
  · have hcolon' : ':' ∈ w.webhookPath.toList := by rwa [← mem_uniquePath, ← hpath, mem_uniquePath]
    have hid : v.webhookId = w.webhookId := by
      rw [webhookId_of_lookup hcolon hv, webhookId_of_lookup hcolon' hw, hpath]
    rw [uniquePath_of_mem hcolon, uniquePath_of_mem hcolon', hid] at hpath
    simpa using hpath
  · have hcolon' : ':' ∉ w.webhookPath.toList := by rwa [← mem_uniquePath, ← hpath, mem_uniquePath]
    rwa [uniquePath_of_not_mem hcolon, uniquePath_of_not_mem hcolon'] at hpath

section Fewer

variable {r' : WebhookRepository} {p : WebhookEntity → Bool} {method : HttpMethod} {path : String}
  {w : WebhookEntity} (hrows : r'.rows = r.rows.filter p)

include hrows

theorem dynamicWebhooks_of_fewer (method : Option HttpMethod) :
    r'.dynamicWebhooks path method = (r.dynamicWebhooks path method).filter p := by
  unfold dynamicWebhooks findBy
  rw [hrows, List.filter_comm]

theorem findStaticWebhook_of_fewer (h : r'.findStaticWebhook method path = some w) :
    r.findStaticWebhook method path = some w := by
  rw [findStaticWebhook_eq_some, hrows] at h
  exact findStaticWebhook_eq_some.2 ⟨List.mem_of_mem_filter h.1, h.2⟩

/-- A webhook that stays in the table goes on answering what it has answered. -/
theorem lookup_of_fewer (h : r.lookup method path = some w) (hw : p w = true) :
    r'.lookup method path = some w := by
  unfold lookup at h ⊢
  rw [Option.or_eq_some_iff] at h ⊢
  rcases h with h | ⟨hnone, h⟩
  · rw [findStaticWebhook_eq_some] at h
    refine .inl (findStaticWebhook_eq_some.2 ⟨?_, h.2⟩)
    rw [hrows]
    exact List.mem_filter.2 ⟨h.1, hw⟩
  · refine .inr ⟨Option.eq_none_iff_forall_ne_some.2 fun v hv => ?_, ?_⟩
    · rw [findStaticWebhook_of_fewer hrows hv] at hnone
      cases hnone
    · unfold findDynamicWebhook at h ⊢
      rw [bestMatch_eq_argmax] at h ⊢
      rw [dynamicWebhooks_of_fewer hrows, List.filter_comm]
      exact FirstBest.argmax_filter ((r.dynamicWebhooks_nodup path _).filter _) h hw

end Fewer

end WebhookRepository

namespace WebhookService

variable {s : WebhookService}

theorem findWebhook_eq (s : WebhookService) (method : HttpMethod) (path : String) :
    (s.findWebhook method path).1 =
      (s.cache.get? (webhookCacheKey method path)).or (s.repository.lookup method path) := by
  unfold findWebhook WebhookRepository.lookup
  cases s.cache.get? (webhookCacheKey method path) with
  | some cached => rfl
  | none => cases s.repository.findStaticWebhook method path <;> rfl

/-- Every webhook is cached under its unique path, and else only under a path that it has to the
letter; the table too finds it at its unique path. -/
structure Coherent (s : WebhookService) : Prop where
  own : ∀ w ∈ s.repository.rows, s.cache.get? w.cacheKey = some w
  cached : ∀ key w, s.cache.get? key = some w → w ∈ s.repository.rows ∧
    (key = w.cacheKey ∨ key = webhookCacheKey w.method w.webhookPath)
  found : s.repository.EachAtUniquePath

theorem Coherent.answersFromTable (h : s.Coherent) : s.AnswersFromTable := by
  have hanswer : ∀ method path,
      (s.findWebhook method path).1 = s.repository.lookup method path := by
    intro method path
    rw [findWebhook_eq]
    cases hcached : s.cache.get? (webhookCacheKey method path) with
    | none => rfl
    | some w =>
      obtain ⟨hw, hkey | hkey⟩ := h.cached _ w hcached
      · obtain ⟨rfl, rfl⟩ := webhookCacheKey_inj.1 hkey
        exact (h.found w hw).symm
      · obtain ⟨rfl, rfl⟩ := webhookCacheKey_inj.1 hkey
        have hstatic : s.repository.findStaticWebhook w.method w.webhookPath = some w :=
          WebhookRepository.findStaticWebhook_eq_some.2 ⟨hw, rfl, rfl⟩
        simp [WebhookRepository.lookup, hstatic]
  exact fun method path => ⟨hanswer method path, fun w hw =>
    WebhookRepository.mem_rows_of_lookup (hanswer method path ▸ hw)⟩

/-- Two webhooks that are answers to the same unique path are one. -/
theorem eq_of_cacheKey_eq {r : WebhookRepository} (h : r.EachAtUniquePath) {v w : WebhookEntity}
    (hv : v ∈ r.rows) (hw : w ∈ r.rows) (hkey : v.cacheKey = w.cacheKey) : v = w := by
  obtain ⟨hmethod, hpath⟩ := WebhookEntity.cacheKey_eq_iff.1 hkey
  have hfound := h v hv
  rw [hmethod, hpath, h w hw] at hfound
  exact (Option.some.inj hfound).symm

theorem Coherent.storeWebhook (h : s.Coherent) {w : WebhookEntity}
    (hkeeps : s.KeepsCache (.storeWebhook w)) : (s.storeWebhook w).Coherent := by
  obtain ⟨heach, hreplaced⟩ := hkeeps
  have hmem : w ∈ (s.repository.upsert w).rows := WebhookRepository.mem_rows_upsert.2 (.inl rfl)
  refine ⟨fun v hv => ?_, fun key v hv => ?_, heach⟩
  · change (s.cache.set w.cacheKey w).get? v.cacheKey = some v
    rw [Dict.get?_set]
    split_ifs with hkey
    · rw [eq_of_cacheKey_eq heach hv hmem hkey]
    · rcases WebhookRepository.mem_rows_upsert.1 hv with rfl | ⟨hold, -⟩
      · exact absurd rfl hkey
      · exact h.own v hold
  · change (s.cache.set w.cacheKey w).get? key = some v at hv
    rw [Dict.get?_set] at hv
    split_ifs at hv with hkey
    · obtain rfl := Option.some.inj hv
      exact ⟨hmem, .inl hkey⟩
    · obtain ⟨hold, hat⟩ := h.cached key v hv
      refine ⟨WebhookRepository.mem_rows_upsert.2 ?_, hat⟩
      by_cases hprimary : (v.method, v.webhookPath) = (w.method, w.webhookPath)
      · -- the row that is replaced is not cached any more
        by_contra hne
        obtain ⟨hmethod, hpath⟩ := Prod.mk.inj hprimary
        have hstored := (s.repository.mem_rows).1 hold
        rw [hmethod, hpath] at hstored
        obtain ⟨hunique, hspelled⟩ := hreplaced v hstored fun hvw => hne (.inl hvw)
        have hown : key ≠ v.cacheKey := fun hown => hkey <| by
          rw [hown, WebhookEntity.cacheKey, WebhookEntity.cacheKey, hmethod, hunique]
        have hliteral := hat.resolve_left hown
        by_cases hcolon : ':' ∈ v.webhookPath.toList
        · rw [hliteral, hspelled hcolon] at hv
          cases hv
        · exact hown (by rw [hliteral, WebhookEntity.cacheKey,
            WebhookEntity.uniquePath_of_not_mem hcolon])
      · exact .inr ⟨hold, hprimary⟩

theorem Coherent.deleteWorkflowWebhooks (h : s.Coherent) {workflowId : String}
    (hkeeps : s.KeepsCache (.deleteWorkflowWebhooks workflowId)) :
    (s.deleteWorkflowWebhooks workflowId).Coherent := by
  have hrows := s.repository.rows_removeOf workflowId
  have hleft : ∀ {w}, w ∈ (s.repository.removeOf workflowId).rows ↔
      w ∈ s.repository.rows ∧ w.workflowId ≠ workflowId := by
    intro w
    rw [hrows, List.mem_filter, decide_eq_true_eq]
  have hgone : ∀ {w}, w ∈ s.repository.findByWorkflowId workflowId ↔
      w ∈ s.repository.rows ∧ w.workflowId = workflowId := by
    intro w
    unfold WebhookRepository.findByWorkflowId
    rw [List.mem_filter, decide_eq_true_eq]
  refine ⟨fun w hw => ?_, fun key w hw => ?_, fun w hw => ?_⟩
  · obtain ⟨hw, hother⟩ := hleft.1 hw
    refine (Dict.get?_foldl_erase _ _ _ _).trans ((if_neg fun hdeleted => ?_).trans (h.own w hw))
    obtain ⟨v, hv, hkey⟩ := List.mem_map.1 hdeleted
    obtain ⟨hv, hworkflow⟩ := hgone.1 hv
    rw [eq_of_cacheKey_eq h.found hw hv hkey.symm] at hother
    exact hother hworkflow
  · obtain ⟨hkept, hcached⟩ :=
      Option.ite_none_left_eq_some.1 ((Dict.get?_foldl_erase _ _ _ _).symm.trans hw)
    obtain ⟨hrow, hat⟩ := h.cached key w hcached
    refine ⟨hleft.2 ⟨hrow, fun hworkflow => ?_⟩, hat⟩
    have hdeleted := hgone.2 ⟨hrow, hworkflow⟩
    have hliteral := hat.resolve_left fun hown => hkept (List.mem_map.2 ⟨w, hdeleted, hown.symm⟩)
    by_cases hcolon : ':' ∈ w.webhookPath.toList
    · rw [hliteral, hkeeps w hdeleted hcolon] at hcached
      cases hcached
    · refine hkept (List.mem_map.2 ⟨w, hdeleted, ?_⟩)
      rw [hliteral, WebhookEntity.cacheKey, WebhookEntity.uniquePath_of_not_mem hcolon]
  · obtain ⟨hw, hother⟩ := hleft.1 hw
    exact WebhookRepository.lookup_of_fewer hrows (h.found w hw) (decide_eq_true hother)

theorem Coherent.populateCache (h : s.Coherent) : s.populateCache.Coherent := by
  have hfold := fun key => Dict.get?_foldl_set_cases WebhookEntity.cacheKey id key
    s.repository.getStaticWebhooks s.cache
  refine ⟨fun w hw => ?_, fun key w hw => ?_, h.found⟩
  · rcases hfold w.cacheKey with ⟨v, hv, hkey, hget⟩ | ⟨-, hget⟩
    · exact hget.trans (congrArg some
        (eq_of_cacheKey_eq h.found hw (List.mem_of_mem_filter hv) hkey.symm).symm)
    · exact hget.trans (h.own w hw)
  · rcases hfold key with ⟨v, hv, hkey, hget⟩ | ⟨-, hget⟩
    · obtain rfl := Option.some.inj (hget.symm.trans hw)
      exact ⟨List.mem_of_mem_filter hv, .inl hkey.symm⟩
    · exact h.cached key w (hget.symm.trans hw)

theorem Coherent.findWebhook (h : s.Coherent) (method : HttpMethod) (path : String) :
    (s.findWebhook method path).2.Coherent := by
  unfold WebhookService.findWebhook
  cases hcached : s.cache.get? (webhookCacheKey method path) with
  | some cached => exact h
  | none =>
    cases hstatic : s.repository.findStaticWebhook method path with
    | none => exact h
    | some v =>
      obtain ⟨hv, rfl, rfl⟩ := WebhookRepository.findStaticWebhook_eq_some.1 hstatic
      refine ⟨fun w hw => ?_, fun key w hw => ?_, h.found⟩
      · have hne : w.cacheKey ≠ webhookCacheKey v.method v.webhookPath := by
          intro hkey
          rw [← hkey, h.own w hw] at hcached
          cases hcached
        exact (Dict.get?_set_of_ne _ hne _).trans (h.own w hw)
      · dsimp only at hw
        rw [Dict.get?_set] at hw
        split_ifs at hw with hkey
        · obtain rfl := Option.some.inj hw
          exact ⟨hv, .inr hkey⟩
        · exact h.cached key w hw

theorem lookup_of_cached (h : s.AnswersFromTable) {method : HttpMethod} {path : String}
    {w : WebhookEntity} (hcached : s.cache.get? (webhookCacheKey method path) = some w) :
    s.repository.lookup method path = some w := by
  rw [← (h method path).1, findWebhook_eq, hcached, Option.some_or]

theorem keepsCache_of_storeWebhook (h : s.Coherent) {w : WebhookEntity}
    (hanswers : (s.storeWebhook w).AnswersFromTable) : s.KeepsCache (.storeWebhook w) := by
  have hcache : ∀ key, (s.storeWebhook w).cache.get? key =
      if key = w.cacheKey then some w else s.cache.get? key := fun _ => Dict.get?_set _ _ _ _
  have hself : (s.repository.upsert w).lookup w.method w.uniquePath = some w :=
    lookup_of_cached hanswers ((hcache _).trans (if_pos rfl))
  refine ⟨fun v hv => ?_, fun v hv hne => ?_⟩
  · rcases WebhookRepository.mem_rows_upsert.1 hv with rfl | ⟨hold, hprimary⟩
    · exact hself
    · have hkey : v.cacheKey ≠ w.cacheKey := by
        intro hkey
        obtain ⟨hmethod, hpath⟩ := WebhookEntity.cacheKey_eq_iff.1 hkey
        exact hprimary (Prod.ext hmethod
          (WebhookRepository.webhookPath_eq_of_uniquePath_eq hpath (h.found v hold) hself))
      exact lookup_of_cached hanswers
        ((hcache _).trans ((if_neg hkey).trans (h.own v hold)))
  · obtain ⟨hold, hmethod, hpath⟩ := WebhookRepository.findStaticWebhook_eq_some.1 hv
    have hgone : v ∉ (s.repository.upsert w).rows := by
      rw [WebhookRepository.mem_rows_upsert, hmethod, hpath]
      simp [hne]
    have hkey : v.cacheKey = w.cacheKey := by
      by_contra hkey
      exact hgone (WebhookRepository.mem_rows_of_lookup (lookup_of_cached hanswers
        ((hcache _).trans ((if_neg hkey).trans (h.own v hold)))))
    refine ⟨(WebhookEntity.cacheKey_eq_iff.1 hkey).2, fun hcolon => ?_⟩
    refine Option.eq_none_iff_forall_ne_some.2 fun x hx => ?_
    have hx' := lookup_of_cached h.answersFromTable hx
    have hspelled : webhookCacheKey v.method v.webhookPath ≠ w.cacheKey := by
      rw [← hkey]
      exact fun heq =>
        WebhookEntity.uniquePath_ne hcolon (WebhookEntity.cacheKey_eq_iff.1 heq).2.symm
    have hstatic : s.repository.findStaticWebhook v.method v.webhookPath = some v :=
      WebhookRepository.findStaticWebhook_eq_some.2 ⟨hold, rfl, rfl⟩
    have hxv : x = v := by
      rw [WebhookRepository.lookup, hstatic] at hx'
      exact (Option.some.inj hx').symm
    subst hxv
    exact hgone (WebhookRepository.mem_rows_of_lookup (lookup_of_cached hanswers
      ((hcache _).trans ((if_neg hspelled).trans hx))))

theorem keepsCache_of_deleteWorkflowWebhooks (h : s.Coherent) {workflowId : String}
    (hanswers : (s.deleteWorkflowWebhooks workflowId).AnswersFromTable) :
    s.KeepsCache (.deleteWorkflowWebhooks workflowId) := by
  intro v hv hcolon
  refine Option.eq_none_iff_forall_ne_some.2 fun x hx => ?_
  obtain ⟨hrow, hworkflow⟩ := List.mem_filter.1 hv
  have hxv : x = v := by
    have hx' := lookup_of_cached h.answersFromTable hx
    rw [WebhookRepository.lookup, WebhookRepository.findStaticWebhook_eq_some.2
      ⟨hrow, rfl, rfl⟩] at hx'
    exact (Option.some.inj hx').symm
  subst hxv
  have hkept : (s.deleteWorkflowWebhooks workflowId).cache.get?
      (webhookCacheKey x.method x.webhookPath) = some x := by
    refine (Dict.get?_foldl_erase _ _ _ _).trans ((if_neg fun hdeleted => ?_).trans hx)
    obtain ⟨u, hu, hkey⟩ := List.mem_map.1 hdeleted
    have hux : u = x := by
      have hown := h.own u (List.mem_of_mem_filter hu)
      rw [hkey, hx] at hown
      exact (Option.some.inj hown).symm
    subst hux
    exact WebhookEntity.uniquePath_ne hcolon (WebhookEntity.cacheKey_eq_iff.1 hkey.symm).2.symm
  have hleft := WebhookRepository.mem_rows_of_lookup (lookup_of_cached hanswers hkept)
  change x ∈ (s.repository.removeOf workflowId).rows at hleft
  rw [WebhookRepository.rows_removeOf, List.mem_filter, decide_eq_true_eq] at hleft
  exact hleft.2 (of_decide_eq_true hworkflow)

/-- The cache changes no answer exactly as long as every webhook is what is found at its unique
path, and none that goes has been cached for a request that spells its template out. -/
theorem cache_never_changes_answers_iff {calls : List Call} :
    Runs.Along step AnswersFromTable {} calls ↔ Runs.Meets step KeepsCache {} calls := by
  have hempty : Coherent {} := by
    refine ⟨fun w hw => ?_, fun key w hw => ?_, fun w hw => ?_⟩
    · exact absurd hw List.not_mem_nil
    · cases hw
    · exact absurd hw List.not_mem_nil
  refine Runs.along_iff_meets (fun _ hs => hs.answersFromTable) (fun s call hs _ hkeeps => ?_)
    (fun s call hs _ hnot hanswers => hnot ?_) hempty
    (Runs.meets_of_forall (C := fun _ => True) fun _ _ => trivial)
  · cases call with
    | storeWebhook w => exact hs.storeWebhook hkeeps
    | deleteWorkflowWebhooks workflowId => exact hs.deleteWorkflowWebhooks hkeeps
    | populateCache => exact hs.populateCache
    | findWebhook method path => exact hs.findWebhook method path
  · cases call with
    | storeWebhook w => exact keepsCache_of_storeWebhook hs hanswers
    | deleteWorkflowWebhooks workflowId => exact keepsCache_of_deleteWorkflowWebhooks hs hanswers
    | populateCache => trivial
    | findWebhook method path => trivial

/-- A webhook whose path has a colon and no parameter. -/
def orderUrn : WebhookEntity where
  workflowId := "workflow"
  webhookPath := "urn:order"
  method := .post
  node := "Webhook"
  measured := rfl
  addressed h := by cases h

/-- It is stored, called and deleted, and answers the next call all the same. -/
theorem deleted_webhook_answers :
    ¬ Runs.Along step AnswersFromTable {} [.storeWebhook orderUrn, .findWebhook .post "urn:order",
      .deleteWorkflowWebhooks "workflow"] := by
  intro h
  have hfound := (h.last .post "urn:order").2 orderUrn (by decide)
  exact absurd hfound (by decide)

end WebhookService

end N8n

/-!
# What a webhook does to the requests of the others

A webhook that is stored replaces the row with its method and template, whatever the ids, and is
found for requests with its static segments in other places. It takes no request from the others
when its path has no colon.
-/

namespace N8n

namespace WebhookRepository

open WebhookEntity

variable {r : WebhookRepository} {method : HttpMethod} {path : String}

theorem rows_removeAt : (r.removeAt method path).rows =
    r.rows.filter fun v => (v.method, v.webhookPath) ≠ (method, path) := by
  have hkey : ∀ entry ∈ r.table.entries,
      decide (entry.1 ≠ (method, path)) =
        decide ((entry.2.method, entry.2.webhookPath) ≠ (method, path)) := by
    intro entry hentry
    rw [r.keyed entry.1 entry.2 (Dict.mem_entries.1 hentry)]
  change (r.table.entries.filter fun entry => decide (entry.1 ≠ (method, path))).map (·.2) =
    (r.table.entries.map (·.2)).filter _
  rw [List.filter_map, List.filter_congr hkey]
  rfl

theorem rows_removeAt_upsert (w : WebhookEntity) :
    (r.removeAt w.method w.webhookPath).rows =
      ((r.upsert w).removeAt w.method w.webhookPath).rows :=
  congrArg (List.map Prod.snd)
    (Dict.filter_setEntry (w.method, w.webhookPath) w r.table.entries).symm

theorem findDynamicWebhook_eq_none {method : Option HttpMethod} :
    r.findDynamicWebhook path method = none ↔
      ∀ w ∈ r.dynamicWebhooks path method, ¬ w.Occurs (otherSegments path) := by
  unfold findDynamicWebhook
  rw [bestMatch_eq_argmax, List.argmax_eq_none, List.filter_eq_nil_iff]
  simp

section Fewer

variable {r' : WebhookRepository} {p : WebhookEntity → Bool} (hrows : r'.rows = r.rows.filter p)

include hrows

/-- Rows that are not the answer can go. -/
theorem lookup_eq_of_fewer (h : ∀ w, r.lookup method path = some w → p w = true) :
    r'.lookup method path = r.lookup method path := by
  cases hanswer : r.lookup method path with
  | some w => exact lookup_of_fewer hrows hanswer (h w hanswer)
  | none =>
    obtain ⟨hstatic, hdynamic⟩ := Option.or_eq_none_iff.1 hanswer
    refine Option.or_eq_none_iff.2 ⟨?_, findDynamicWebhook_eq_none.2 fun w hw => ?_⟩
    · refine Option.eq_none_iff_forall_ne_some.2 fun v hv => ?_
      rw [findStaticWebhook_of_fewer hrows hv] at hstatic
      cases hstatic
    · rw [dynamicWebhooks_of_fewer hrows] at hw
      exact findDynamicWebhook_eq_none.1 hdynamic w (List.mem_of_mem_filter hw)

end Fewer

theorem takes_iff {w : WebhookEntity} :
    r.Takes w method path ↔ (r.upsert w).lookup method path = some w := by
  have hstatic : (r.upsert w).findStaticWebhook method path =
      if (method, path) = (w.method, w.webhookPath) then some w
      else r.findStaticWebhook method path := Dict.get?_set _ _ _ _
  unfold Takes lookup
  rw [← findDynamicWebhook_eq_some, hstatic]
  split_ifs with hliteral
  · simp [hliteral]
  · simp only [hliteral, false_or, Option.or_eq_some_iff]
    refine ⟨.inr, fun h => h.resolve_left fun hfound => hliteral ?_⟩
    obtain ⟨-, rfl, rfl⟩ := findStaticWebhook_eq_some.1 hfound
    rfl

theorem lookup_upsert_of_not_takes {w : WebhookEntity} (h : ¬ r.Takes w method path) :
    (r.upsert w).lookup method path =
      (r.removeAt w.method w.webhookPath).lookup method path := by
  rw [takes_iff] at h
  have hrows : (r.removeAt w.method w.webhookPath).rows = (r.upsert w).rows.filter
      fun v => (v.method, v.webhookPath) ≠ (w.method, w.webhookPath) :=
    (rows_removeAt_upsert w).trans rows_removeAt
  refine (lookup_eq_of_fewer hrows fun v hv => ?_).symm
  rcases mem_rows_upsert.1 (mem_rows_of_lookup hv) with rfl | ⟨-, hne⟩
  · exact absurd hv h
  · exact decide_eq_true hne

theorem lookup_removeAt_of_not_replaced {w : WebhookEntity}
    (h : ∀ v, r.lookup method path = some v → v ∉ r.findOneBy w.method w.webhookPath) :
    (r.removeAt w.method w.webhookPath).lookup method path = r.lookup method path := by
  refine lookup_eq_of_fewer rows_removeAt fun v hv => decide_eq_true fun hkey => h v hv ?_
  obtain ⟨hmethod, hpath⟩ := Prod.mk.inj hkey
  rw [← hmethod, ← hpath]
  exact r.mem_rows.1 (mem_rows_of_lookup hv)

end WebhookRepository

namespace WebhookService

variable {s : WebhookService} {w : WebhookEntity} {method : HttpMethod} {path : String}

theorem keepsRoute_iff : s.KeepsRoute w method path ↔ s.Leaves w method path := by
  have hafter : ((s.storeWebhook w).findWebhook method path).1 =
      (if webhookCacheKey method path = w.cacheKey then some w
        else s.cache.get? (webhookCacheKey method path)).or
          ((s.repository.upsert w).lookup method path) := by
    have hcache : (s.storeWebhook w).cache.get? (webhookCacheKey method path) =
        if webhookCacheKey method path = w.cacheKey then some w
        else s.cache.get? (webhookCacheKey method path) := Dict.get?_set _ _ _ _
    rw [findWebhook_eq, hcache]
    rfl
  unfold KeepsRoute
  rw [hafter]
  split_ifs with hkey
  · rw [Option.some_or]
    exact ⟨fun h => ⟨fun _ => h, fun hne => absurd hkey hne, fun hne => absurd hkey hne⟩,
      fun h => h.cached hkey⟩
  · rw [findWebhook_eq]
    cases hcached : s.cache.get? (webhookCacheKey method path) with
    | some cached =>
      have hsome : s.cache.get? (webhookCacheKey method path) ≠ none := by
        rw [hcached]
        exact Option.some_ne_none cached
      rw [Option.some_or, Option.some_or]
      exact ⟨fun _ => ⟨fun h => absurd h hkey, fun _ h => absurd h hsome,
        fun _ h => absurd h hsome⟩, fun _ => rfl⟩
    | none =>
      rw [Option.none_or, Option.none_or]
      by_cases htakes : s.repository.Takes w method path
      · rw [WebhookRepository.takes_iff.1 htakes]
        exact ⟨fun h => ⟨fun heq => absurd heq hkey, fun _ _ _ => h,
          fun _ _ hnot => absurd htakes hnot⟩, fun h => h.searched hkey hcached htakes⟩
      · rw [WebhookRepository.lookup_upsert_of_not_takes htakes]
        constructor
        · refine fun h => ⟨fun heq => absurd heq hkey, fun _ _ ht => absurd ht htakes, ?_⟩
          intro _ _ _ v _ hv
          rwa [hv] at h
        · intro h
          by_cases hreplaced : ∃ v ∈ s.repository.findOneBy w.method w.webhookPath,
              s.repository.lookup method path = some v
          · obtain ⟨v, hv, hanswer⟩ := hreplaced
            rw [hanswer]
            exact h.replaced hkey hcached htakes v hv hanswer
          · rw [WebhookRepository.lookup_removeAt_of_not_replaced fun v hanswer hv =>
              hreplaced ⟨v, hv, hanswer⟩]
            rfl

/-- The webhook for the posts of a user in a second workflow. -/
def otherUserPosts : WebhookEntity :=
  { WebhookRepository.userPosts with workflowId := "other workflow", webhookId := some "9e41" }

end WebhookService

end N8n
