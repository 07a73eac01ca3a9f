import Mathlib.Tactic
import N8n.InsightsCompaction

/-!
# Compaction loses nothing

A batch is taken out of the tables and its sums are added, by periods that lie in the weeks of their
rows. So for each week the total stays the same, whatever is compacted in whatever order.
-/

namespace Dict

variable {κ α : Type*} [DecidableEq κ]

theorem sum_entries_set (f : κ × α → ℤ) (d : Dict κ α) (k : κ) (v : α) :
    ((d.set k v).entries.map f).sum = f (k, v) + ((d.erase k).entries.map f).sum :=
  ((set_entries_perm d k v).map f).sum_eq

theorem sum_entries (f : κ × α → ℤ) {d : Dict κ α} {k : κ} {v : α} (h : d.get? k = some v) :
    (d.entries.map f).sum = f (k, v) + ((d.erase k).entries.map f).sum :=
  ((entries_perm h).map f).sum_eq

theorem perm_of_get?_eq {d d' : Dict κ α} (h : ∀ k, d.get? k = d'.get? k) :
    d.entries.Perm d'.entries := by
  refine (List.perm_ext_iff_of_nodup d.nodup.of_map d'.nodup.of_map).2 fun e => ?_
  rw [mem_entries, mem_entries, h]

end Dict

namespace N8n

namespace InsightsTables

variable {arrange : List RowToCompact → List RowToCompact} {t : InsightsTables}

/-! ## Periods -/

theorem week_periodStartExpr (periodUnit : PeriodUnit) (time : ℤ) :
    periodStartExpr .week (periodStartExpr periodUnit time) = periodStartExpr .week time := by
  cases periodUnit <;> simp only [periodStartExpr] <;> omega

theorem periodStartExpr_idem (periodUnit : PeriodUnit) (time : ℤ) :
    periodStartExpr periodUnit (periodStartExpr periodUnit time) =
      periodStartExpr periodUnit time := by
  cases periodUnit <;> simp only [periodStartExpr] <;> omega

theorem week_le (time : ℤ) : periodStartExpr .week time ≤ time := by
  simp only [periodStartExpr]
  omega

variable (insights : Insights)

def Insights.worthAt (insight : PeriodKey × ℤ) : ℤ :=
  insights.worth insight.1.metaId insight.1.type insight.1.periodStart insight.2

theorem worthAt_add (key : PeriodKey) (a b : ℤ) :
    insights.worthAt (key, a + b) = insights.worthAt (key, a) + insights.worthAt (key, b) := by
  unfold Insights.worthAt Insights.worth
  split_ifs <;> simp

theorem worthAt_zero (key : PeriodKey) : insights.worthAt (key, 0) = 0 := by
  unfold Insights.worthAt Insights.worth
  split_ifs <;> rfl

/-- A period is in the week of its rows. -/
theorem worthAt_periodKey (periodUnit : PeriodUnit) (row : RowToCompact) :
    insights.worthAt (periodKey periodUnit row, row.value) = insights.worthOf row := by
  simp only [Insights.worthAt, Insights.worthOf, Insights.worth, periodKey, week_periodStartExpr]

/-! ## Sums of a batch -/

theorem valueAt_cons (periodUnit : PeriodUnit) (row : RowToCompact) (rows : List RowToCompact)
    (key : PeriodKey) : valueAt periodUnit (row :: rows) key =
      (if key = periodKey periodUnit row then row.value else 0) + valueAt periodUnit rows key := by
  unfold valueAt
  rw [List.filter_cons]
  by_cases h : periodKey periodUnit row = key
  · rw [if_pos (decide_eq_true h), if_pos h.symm, List.map_cons, List.sum_cons]
  · rw [if_neg (by simpa using h), if_neg (Ne.symm h), zero_add]

theorem sum_worthAt_valueAt (periodUnit : PeriodUnit) {keys : List PeriodKey}
    (hnodup : keys.Nodup) :
    ∀ {rows : List RowToCompact}, (∀ row ∈ rows, periodKey periodUnit row ∈ keys) →
      (keys.map fun key => insights.worthAt (key, valueAt periodUnit rows key)).sum =
        (rows.map insights.worthOf).sum
  | [], _ => by simp [valueAt, worthAt_zero]
  | row :: rows, hkeys => by
    have ih := sum_worthAt_valueAt periodUnit hnodup fun row' h =>
      hkeys row' (List.mem_cons_of_mem _ h)
    have hone : (keys.map fun key => if key = periodKey periodUnit row then
        insights.worthAt (key, row.value) else 0).sum = insights.worthOf row := by
      rw [List.sum_map_ite_eq, List.count_eq_one_of_mem hnodup (hkeys row List.mem_cons_self)]
      simp [worthAt_periodKey]
    have hsplit : ∀ key, insights.worthAt (key, valueAt periodUnit (row :: rows) key) =
        (if key = periodKey periodUnit row then insights.worthAt (key, row.value) else 0) +
          insights.worthAt (key, valueAt periodUnit rows key) := by
      intro key
      rw [valueAt_cons, worthAt_add]
      split_ifs
      · rfl
      · rw [worthAt_zero]
    rw [List.map_congr_left fun key _ => hsplit key, List.sum_map_add, hone, ih, List.map_cons,
      List.sum_cons]

theorem sum_getAggregationQuery (periodUnit : PeriodUnit) (rows : List RowToCompact) :
    ((getAggregationQuery periodUnit rows).map insights.worthAt).sum =
      (rows.map insights.worthOf).sum := by
  rw [getAggregationQuery, List.map_map]
  exact sum_worthAt_valueAt insights periodUnit (List.nodup_dedup _) fun row hrow =>
    List.mem_dedup.2 (List.mem_map_of_mem hrow)

/-! ## Upserts -/

theorem upsert_insightsRaw (t : InsightsTables) (insight : PeriodKey × ℤ) :
    (t.upsert insight).insightsRaw = t.insightsRaw := by
  unfold upsert
  split <;> rfl

theorem upsert_nextRawId (t : InsightsTables) (insight : PeriodKey × ℤ) :
    (t.upsert insight).nextRawId = t.nextRawId := by
  unfold upsert
  split <;> rfl

theorem get?_upsert (t : InsightsTables) (insight : PeriodKey × ℤ) (key : PeriodKey) :
    (t.upsert insight).insightsByPeriod.get? key =
      if key = insight.1 then
        some (((t.insightsByPeriod.get? key).map fun row =>
          { row with value := row.value + insight.2 }).getD ⟨t.nextPeriodId, insight.2⟩)
      else t.insightsByPeriod.get? key := by
  unfold upsert
  cases hrow : t.insightsByPeriod.get? insight.1 with
  | none =>
    simp only [Dict.get?_set]
    split_ifs with hkey
    · rw [hkey, hrow]
      rfl
    · rfl
  | some row =>
    simp only [Dict.get?_set]
    split_ifs with hkey
    · rw [hkey, hrow]
      rfl
    · rfl

/-- What some rows of the periods are worth. -/
def Insights.sumOf (entries : List (PeriodKey × PeriodRow)) : ℤ :=
  (entries.map fun entry => insights.worthOf (periodRow entry)).sum

def periodTotal (t : InsightsTables) : ℤ :=
  (t.insightsByPeriod.entries.map fun entry => insights.worthOf (periodRow entry)).sum

theorem periodTotal_upsert (t : InsightsTables) (insight : PeriodKey × ℤ) :
    periodTotal insights (t.upsert insight) =
      periodTotal insights t + insights.worthAt insight := by
  unfold periodTotal upsert
  cases hrow : t.insightsByPeriod.get? insight.1 with
  | none =>
    simp only [Dict.sum_entries_set, Dict.erase_entries_of_none hrow]
    exact add_comm _ _
  | some row =>
    simp only [Dict.sum_entries_set, Dict.sum_entries _ hrow]
    have hadd := worthAt_add insights insight.1 row.value insight.2
    simp only [Insights.worthAt] at hadd
    simp only [Insights.worthOf, periodRow, Insights.worthAt]
    omega

theorem foldl_upsert_insightsRaw : ∀ (insightsToAdd : List (PeriodKey × ℤ)) (t : InsightsTables),
    (insightsToAdd.foldl upsert t).insightsRaw = t.insightsRaw
  | [], _ => rfl
  | insight :: rest, t => by
    rw [List.foldl_cons, foldl_upsert_insightsRaw rest, upsert_insightsRaw]

theorem periodTotal_foldl_upsert : ∀ (insightsToAdd : List (PeriodKey × ℤ)) (t : InsightsTables),
    periodTotal insights (insightsToAdd.foldl upsert t) =
      periodTotal insights t + (insightsToAdd.map insights.worthAt).sum
  | [], _ => by simp
  | insight :: rest, t => by
    rw [List.foldl_cons, periodTotal_foldl_upsert rest, periodTotal_upsert, List.map_cons,
      List.sum_cons, add_assoc]

/-! ## Batches -/

theorem oldest_perm (harrange : ∀ rows, (arrange rows).Perm rows) (compactionBatchSize : ℕ)
    (rows : List RowToCompact) : (oldest arrange compactionBatchSize rows).Subperm rows := by
  have hordered : ((arrange rows).mergeSort fun row row' =>
      row.periodStart ≤ row'.periodStart).Perm rows :=
    (List.mergeSort_perm _ _).trans (harrange rows)
  unfold oldest
  simp only []
  split_ifs
  · exact hordered.subperm
  · exact (List.take_sublist _ _).subperm.trans hordered.subperm

/-- A batch that is not full has all rows. -/
theorem mem_oldest_of_length_ne (harrange : ∀ rows, (arrange rows).Perm rows)
    {compactionBatchSize : ℕ} {rows : List RowToCompact}
    (hlength : (oldest arrange compactionBatchSize rows).length ≠ compactionBatchSize)
    {row : RowToCompact} (hrow : row ∈ rows) : row ∈ oldest arrange compactionBatchSize rows := by
  have hordered : ((arrange rows).mergeSort fun row row' =>
      row.periodStart ≤ row'.periodStart).Perm rows :=
    (List.mergeSort_perm _ _).trans (harrange rows)
  unfold oldest at hlength ⊢
  simp only [] at hlength ⊢
  split_ifs at hlength ⊢ with hzero
  · exact hordered.mem_iff.2 hrow
  · rw [List.length_take] at hlength
    rw [List.take_of_length_le (by omega)]
    exact hordered.mem_iff.2 hrow

/-- The rows with the ids of a batch are those of the batch. -/
theorem filter_ids_perm {rows batch : List RowToCompact} (hids : (rows.map (·.id)).Nodup)
    (hbatch : batch.Subperm rows) :
    (rows.filter fun row => row.id ∈ batch.map (·.id)).Perm batch := by
  have hnodup : rows.Nodup := hids.of_map
  have hbatchNodup : batch.Nodup := by
    obtain ⟨rows', hperm, hsublist⟩ := hbatch
    exact hperm.nodup_iff.1 (hnodup.sublist hsublist)
  refine (List.perm_ext_iff_of_nodup (hnodup.filter _) hbatchNodup).2 fun row => ?_
  rw [List.mem_filter, decide_eq_true_eq, List.mem_map]
  constructor
  · rintro ⟨hrow, row', hrow', hid⟩
    exact List.inj_on_of_nodup_map hids (hbatch.subset hrow') hrow hid ▸ hrow'
  · intro hrow
    exact ⟨hbatch.subset hrow, row, hrow, rfl⟩

/-- Exactly the rows of a batch are deleted. -/
theorem deleted_perm {β : Type*} (row : β → RowToCompact) (entries : List β)
    {batch : List RowToCompact} (hids : (entries.map fun entry => (row entry).id).Nodup)
    (hbatch : batch.Subperm (entries.map row)) :
    ((entries.filter fun entry => (row entry).id ∈ batch.map (·.id)).map row).Perm batch := by
  have hrows : ((entries.map row).filter fun r => r.id ∈ batch.map (·.id)).Perm batch :=
    filter_ids_perm (by rwa [List.map_map]) hbatch
  rwa [List.filter_map] at hrows

theorem length_deleted {β : Type*} (row : β → RowToCompact) (entries : List β)
    {batch : List RowToCompact} (hids : (entries.map fun entry => (row entry).id).Nodup)
    (hbatch : batch.Subperm (entries.map row)) :
    (entries.filter fun entry => (row entry).id ∈ batch.map (·.id)).length = batch.length :=
  (List.length_map row).symm.trans (deleted_perm row entries hids hbatch).length_eq

/-- What is left of a table when a batch is deleted. -/
theorem sum_deleted {β : Type*} (row : β → RowToCompact) (entries : List β)
    {batch : List RowToCompact} (hids : (entries.map fun entry => (row entry).id).Nodup)
    (hbatch : batch.Subperm (entries.map row)) :
    ((entries.filter fun entry => (row entry).id ∉ batch.map (·.id)).map
      fun entry => insights.worthOf (row entry)).sum + (batch.map insights.worthOf).sum =
      (entries.map fun entry => insights.worthOf (row entry)).sum := by
  rw [← ((deleted_perm row entries hids hbatch).map insights.worthOf).sum_eq, List.map_map,
    add_comm]
  exact List.sum_map_filter_add_sum_map_filter_not (fun entry => (row entry).id ∈ batch.map (·.id))
    (fun entry => insights.worthOf (row entry)) entries

/-! ## Soundness -/

theorem periodUnit_of_mem_getAggregationQuery {periodUnit : PeriodUnit} {rows : List RowToCompact}
    {insight : PeriodKey × ℤ} (h : insight ∈ getAggregationQuery periodUnit rows) :
    insight.1.periodUnit = periodUnit ∧
      periodStartExpr periodUnit insight.1.periodStart = insight.1.periodStart := by
  obtain ⟨key, hkey, rfl⟩ := List.mem_map.1 h
  obtain ⟨row, -, rfl⟩ := List.mem_map.1 (List.mem_dedup.1 hkey)
  exact ⟨rfl, periodStartExpr_idem _ _⟩

/-- A row after an upsert is an old one, or has its value changed, or is the new one. -/
theorem get?_upsert_cases {insight : PeriodKey × ℤ} {key : PeriodKey} {row : PeriodRow}
    (h : (t.upsert insight).insightsByPeriod.get? key = some row) :
    (∃ old, t.insightsByPeriod.get? key = some old ∧ row.id = old.id) ∨
      key = insight.1 ∧ t.insightsByPeriod.get? key = none ∧ row.id = t.nextPeriodId := by
  rw [get?_upsert] at h
  split_ifs at h with hkey
  · obtain rfl := Option.some.inj h
    cases hold : t.insightsByPeriod.get? key with
    | none => exact .inr ⟨hkey, rfl, rfl⟩
    | some old => exact .inl ⟨old, rfl, rfl⟩
  · exact .inl ⟨row, h, rfl⟩

theorem nextPeriodId_upsert (t : InsightsTables) (insight : PeriodKey × ℤ) :
    (t.upsert insight).nextPeriodId = t.nextPeriodId +
      if (t.insightsByPeriod.get? insight.1).isSome then 0 else 1 := by
  unfold upsert
  cases t.insightsByPeriod.get? insight.1 <;> rfl

theorem Sound.upsert (h : t.Sound) {insight : PeriodKey × ℤ}
    (hstart : periodStartExpr insight.1.periodUnit insight.1.periodStart = insight.1.periodStart) :
    (t.upsert insight).Sound := by
  have hnext := nextPeriodId_upsert t insight
  have hnew : t.insightsByPeriod.get? insight.1 = none →
      (t.upsert insight).nextPeriodId = t.nextPeriodId + 1 := fun hnone => by
    rw [hnext, hnone]
    rfl
  refine ⟨fun id hid => ?_, fun key row hrow => ?_, fun key row key' row' hrow hrow' hid => ?_,
    fun key row hrow => ?_⟩
  · rw [upsert_insightsRaw] at hid
    rw [upsert_nextRawId]
    exact h.rawIds id hid
  · rcases get?_upsert_cases hrow with ⟨old, hold, hid⟩ | ⟨rfl, hnone, hid⟩
    · have hlt := h.periodIds key old hold
      omega
    · rw [hid, hnew hnone]
      exact Nat.lt_succ_self _
  · rcases get?_upsert_cases hrow with ⟨old, hold, heq⟩ | ⟨rfl, hnone, heq⟩ <;>
      rcases get?_upsert_cases hrow' with ⟨old', hold', heq'⟩ | ⟨rfl, hnone', heq'⟩
    · exact h.oneId key old key' old' hold hold' (by rw [← heq, hid, heq'])
    · have hlt := h.periodIds key old hold
      omega
    · have hlt := h.periodIds key' old' hold'
      omega
    · rfl
  · rcases get?_upsert_cases hrow with ⟨old, hold, -⟩ | ⟨rfl, -, -⟩
    · exact h.starts key old hold
    · exact hstart

theorem Sound.foldl_upsert : ∀ {insightsToAdd : List (PeriodKey × ℤ)} {t : InsightsTables},
    t.Sound → (∀ insight ∈ insightsToAdd,
      periodStartExpr insight.1.periodUnit insight.1.periodStart = insight.1.periodStart) →
    (insightsToAdd.foldl InsightsTables.upsert t).Sound
  | [], _, h, _ => h
  | insight :: rest, t, h, hstarts => by
    rw [List.foldl_cons]
    exact Sound.foldl_upsert (h.upsert (hstarts insight List.mem_cons_self)) fun insight' hmem =>
      hstarts insight' (List.mem_cons_of_mem _ hmem)

/-- Fewer rows. -/
theorem Sound.of_subset {t' : InsightsTables} (h : t.Sound) (hraw : t'.nextRawId = t.nextRawId)
    (hperiod : t'.nextPeriodId = t.nextPeriodId)
    (hrawRows : ∀ id, (t'.insightsRaw.get? id).isSome → (t.insightsRaw.get? id).isSome)
    (hperiodRows : ∀ key row, t'.insightsByPeriod.get? key = some row →
      t.insightsByPeriod.get? key = some row) : t'.Sound where
  rawIds id hid := hraw ▸ h.rawIds id (hrawRows id hid)
  periodIds key row hrow := hperiod ▸ h.periodIds key row (hperiodRows key row hrow)
  oneId key row key' row' hrow hrow' := h.oneId key row key' row' (hperiodRows key row hrow)
    (hperiodRows key' row' hrow')
  starts key row hrow := h.starts key row (hperiodRows key row hrow)

theorem Sound.deleteBatch (h : t.Sound) (sourceTable : SourceTable) (ids : List ℕ) :
    (t.deleteBatch sourceTable ids).Sound := by
  cases sourceTable with
  | insightsRaw =>
    refine h.of_subset rfl rfl (fun id hid => ?_) fun _ _ hrow => hrow
    rw [InsightsTables.deleteBatch, Dict.get?_filterKeys] at hid
    split_ifs at hid
    · exact hid
    · cases hid
  | insightsByPeriod =>
    refine h.of_subset rfl rfl (fun _ hid => hid) fun key row hrow => ?_
    rw [InsightsTables.deleteBatch, Dict.get?_filter, Option.filter_eq_some_iff] at hrow
    exact hrow.1

theorem Sound.compact (h : t.Sound) (sourceTable : SourceTable) (rows : List RowToCompact)
    (periodUnit : PeriodUnit) :
    (t.compactSourceDataIntoInsightPeriod sourceTable rows periodUnit).1.Sound := by
  refine Sound.deleteBatch (h.foldl_upsert fun insight hmem => ?_) _ _
  obtain ⟨hunit, hstart⟩ := periodUnit_of_mem_getAggregationQuery hmem
  rw [hunit, hstart]

/-! ## Totals of a compaction -/

/-- The rows with the ids are not in periods of the unit. -/
structure Apart (t : InsightsTables) (ids : List ℕ) (periodUnit : PeriodUnit) : Prop where
  rows : ∀ key row, t.insightsByPeriod.get? key = some row → key.periodUnit = periodUnit →
    row.id ∉ ids
  given : ∀ id ∈ ids, id < t.nextPeriodId

theorem Apart.upsert {ids : List ℕ} {periodUnit : PeriodUnit} (h : t.Apart ids periodUnit)
    {insight : PeriodKey × ℤ} (hunit : insight.1.periodUnit = periodUnit) :
    (t.upsert insight).Apart ids periodUnit ∧ ∀ key,
      ((t.upsert insight).insightsByPeriod.get? key).filter (·.id ∈ ids) =
        (t.insightsByPeriod.get? key).filter (·.id ∈ ids) := by
  have hnew : t.nextPeriodId ∉ ids := fun hmem => (h.given _ hmem).false
  refine ⟨⟨fun key row hrow hkey => ?_, fun id hid => ?_⟩, fun key => ?_⟩
  · rcases get?_upsert_cases hrow with ⟨old, hold, heq⟩ | ⟨-, -, heq⟩
    · exact heq ▸ h.rows key old hold hkey
    · exact heq ▸ hnew
  · rw [nextPeriodId_upsert]
    exact Nat.lt_add_right _ (h.given id hid)
  · rw [get?_upsert]
    split_ifs with hkey
    · have hnotMem : ∀ row, t.insightsByPeriod.get? key = some row → row.id ∉ ids := fun row hrow =>
        h.rows key row hrow (hkey ▸ hunit)
      cases hrow : t.insightsByPeriod.get? key with
      | none => simp [hnew]
      | some row =>
        have hid := hnotMem row hrow
        simp [Option.filter_some, hid]
    · rfl

theorem Apart.foldl_upsert {ids : List ℕ} {periodUnit : PeriodUnit} :
    ∀ {insightsToAdd : List (PeriodKey × ℤ)} {t : InsightsTables}, t.Apart ids periodUnit →
      (∀ insight ∈ insightsToAdd, insight.1.periodUnit = periodUnit) → ∀ key,
      ((insightsToAdd.foldl InsightsTables.upsert t).insightsByPeriod.get? key).filter
        (·.id ∈ ids) = (t.insightsByPeriod.get? key).filter (·.id ∈ ids)
  | [], _, _, _, _ => rfl
  | insight :: rest, t, h, hunits, key => by
    obtain ⟨hapart, hsame⟩ := h.upsert (hunits insight List.mem_cons_self)
    rw [List.foldl_cons, Apart.foldl_upsert hapart fun insight' hmem =>
      hunits insight' (List.mem_cons_of_mem _ hmem), hsame]

theorem Sound.nodup_ids (h : t.Sound) :
    (t.insightsByPeriod.entries.map fun entry => (periodRow entry).id).Nodup := by
  refine List.Nodup.map_on ?_ t.insightsByPeriod.nodup.of_map
  rintro ⟨key, row⟩ hmem ⟨key', row'⟩ hmem' hid
  have hrow := Dict.mem_entries.1 hmem
  obtain rfl := h.oneId key row key' row' hrow (Dict.mem_entries.1 hmem') hid
  rw [Option.some.inj (hrow.symm.trans (Dict.mem_entries.1 hmem'))]

theorem total_eq (t : InsightsTables) : t.total insights =
    (t.insightsRaw.entries.map fun entry => insights.worthOf (rawRow entry)).sum +
      periodTotal insights t := rfl

theorem insightsRaw_compact_raw (t : InsightsTables) (rows : List RowToCompact)
    (periodUnit : PeriodUnit) :
    (t.compactSourceDataIntoInsightPeriod .insightsRaw rows periodUnit).1.insightsRaw =
      t.insightsRaw.filterKeys (· ∉ rows.map (·.id)) := by
  rw [← foldl_upsert_insightsRaw (getAggregationQuery periodUnit rows) t]
  rfl

/-- The sums of a batch of raw rows take their place. -/
theorem total_compact_raw (t : InsightsTables) {rows : List RowToCompact}
    (hrows : rows.Subperm (t.insightsRaw.entries.map rawRow)) (periodUnit : PeriodUnit) :
    (t.compactSourceDataIntoInsightPeriod .insightsRaw rows periodUnit).1.total insights =
      t.total insights := by
  have hids : (t.insightsRaw.entries.map fun entry => (rawRow entry).id).Nodup :=
    t.insightsRaw.nodup
  have hdeleted : ((t.insightsRaw.filterKeys (· ∉ rows.map (·.id))).entries.map
      fun entry => insights.worthOf (rawRow entry)).sum + (rows.map insights.worthOf).sum =
        (t.insightsRaw.entries.map fun entry => insights.worthOf (rawRow entry)).sum :=
    sum_deleted insights rawRow t.insightsRaw.entries hids hrows
  have hperiods : periodTotal insights
      (t.compactSourceDataIntoInsightPeriod .insightsRaw rows periodUnit).1 =
        periodTotal insights t + (rows.map insights.worthOf).sum := by
    rw [← sum_getAggregationQuery insights periodUnit, ← periodTotal_foldl_upsert]
    rfl
  rw [total_eq, total_eq, hperiods, insightsRaw_compact_raw]
  omega

/-- The periods of a unit. -/
def ofUnit (t : InsightsTables) (periodUnit : PeriodUnit) : Dict PeriodKey PeriodRow :=
  t.insightsByPeriod.filterKeys (·.periodUnit = periodUnit)

theorem ofUnit_subperm (t : InsightsTables) (periodUnit : PeriodUnit) :
    ((ofUnit t periodUnit).entries.map periodRow).Subperm
      (t.insightsByPeriod.entries.map periodRow) :=
  (List.filter_sublist.map _).subperm

/-- The sums of a batch go to other periods than its rows are in. -/
theorem Sound.apart (h : t.Sound) {rows : List RowToCompact} {from_ into : PeriodUnit}
    (hne : from_ ≠ into) (hrows : rows.Subperm ((ofUnit t from_).entries.map periodRow)) :
    t.Apart (rows.map (·.id)) into := by
  constructor
  · intro key row hrow hkey hid
    obtain ⟨row', hrow', heq⟩ := List.mem_map.1 hid
    obtain ⟨⟨key'', row''⟩, hmem, rfl⟩ := List.mem_map.1 (hrows.subset hrow')
    obtain ⟨hmem, hfrom⟩ := List.mem_filter.1 hmem
    obtain rfl := h.oneId key'' row'' key row (Dict.mem_entries.1 hmem) hrow heq
    exact hne ((of_decide_eq_true hfrom).symm.trans hkey)
  · intro id hid
    obtain ⟨row', hrow', rfl⟩ := List.mem_map.1 hid
    obtain ⟨⟨key, row⟩, hmem, rfl⟩ := List.mem_map.1 (hrows.subset hrow')
    exact h.periodIds key row (Dict.mem_entries.1 (List.mem_filter.1 hmem).1)

/-- What is deleted after the sums have been added is what was there before. -/
theorem Apart.deleted_perm {ids : List ℕ} {into : PeriodUnit} (h : t.Apart ids into)
    (rows : List RowToCompact) :
    (((getAggregationQuery into rows).foldl InsightsTables.upsert t).insightsByPeriod.filter
      (·.id ∈ ids)).entries.Perm (t.insightsByPeriod.filter (·.id ∈ ids)).entries :=
  Dict.perm_of_get?_eq fun key => by
    rw [Dict.get?_filter, Dict.get?_filter, h.foldl_upsert fun insight hmem =>
      (periodUnit_of_mem_getAggregationQuery hmem).1]

/-- The sums of a batch of periods take their place. -/
theorem Sound.total_compact_period (h : t.Sound) {rows : List RowToCompact}
    {from_ into : PeriodUnit} (hne : from_ ≠ into)
    (hrows : rows.Subperm ((ofUnit t from_).entries.map periodRow)) :
    (t.compactSourceDataIntoInsightPeriod .insightsByPeriod rows into).1.total insights =
      t.total insights := by
  set ids := rows.map (·.id) with hids
  set added := (getAggregationQuery into rows).foldl InsightsTables.upsert t with hadded
  have hadd : periodTotal insights added =
      periodTotal insights t + (rows.map insights.worthOf).sum := by
    rw [← sum_getAggregationQuery insights into, ← periodTotal_foldl_upsert]
  have hbefore : insights.sumOf (t.insightsByPeriod.filter (·.id ∈ ids)).entries +
      insights.sumOf (t.insightsByPeriod.filter (·.id ∉ ids)).entries = periodTotal insights t :=
    List.sum_map_filter_add_sum_map_filter_not
      (fun entry : PeriodKey × PeriodRow => entry.2.id ∈ ids) _ _
  have hafter : insights.sumOf (added.insightsByPeriod.filter (·.id ∈ ids)).entries +
      periodTotal insights (added.deleteBatch .insightsByPeriod ids) = periodTotal insights added :=
    List.sum_map_filter_add_sum_map_filter_not
      (fun entry : PeriodKey × PeriodRow => entry.2.id ∈ ids) _ _
  have hdeleted : insights.sumOf (t.insightsByPeriod.filter (·.id ∉ ids)).entries +
      (rows.map insights.worthOf).sum = periodTotal insights t :=
    sum_deleted insights periodRow t.insightsByPeriod.entries h.nodup_ids
      (hrows.trans (ofUnit_subperm t from_))
  have hsum : insights.sumOf (added.insightsByPeriod.filter (·.id ∈ ids)).entries =
      insights.sumOf (t.insightsByPeriod.filter (·.id ∈ ids)).entries :=
    (((h.apart hne hrows).deleted_perm rows).map
      fun entry => insights.worthOf (periodRow entry)).sum_eq
  have hraw : (added.deleteBatch .insightsByPeriod ids).insightsRaw = t.insightsRaw :=
    foldl_upsert_insightsRaw _ _
  have hresult : (t.compactSourceDataIntoInsightPeriod .insightsByPeriod rows into).1 =
      added.deleteBatch .insightsByPeriod ids := rfl
  rw [hresult, total_eq, total_eq, hraw]
  omega

/-! ## Runs -/

theorem raw_subperm (harrange : ∀ rows, (arrange rows).Perm rows) (t : InsightsTables)
    (compactionBatchSize : ℕ) : (t.getRawInsightsBatchQuery arrange compactionBatchSize).Subperm
      (t.insightsRaw.entries.map rawRow) :=
  oldest_perm harrange _ _

theorem period_subperm (harrange : ∀ rows, (arrange rows).Perm rows) (t : InsightsTables)
    (from_ : PeriodUnit) (compactionBatchSize : ℕ) (before : ℤ) :
    (t.getPeriodInsightsBatchQuery arrange from_ compactionBatchSize before).Subperm
      ((ofUnit t from_).entries.map periodRow) := by
  refine (oldest_perm harrange _ _).trans (List.Sublist.subperm (List.Sublist.map _ ?_))
  refine List.monotone_filter_right _ fun entry hentry => ?_
  exact (Bool.and_eq_true_iff.1 hentry).1

theorem Sound.insertRaw (h : t.Sound) (row : InsightsRawRow) : (t.insertRaw row).Sound := by
  refine ⟨fun id hid => ?_, h.periodIds, h.oneId, h.starts⟩
  rw [InsightsTables.insertRaw, Dict.get?_set] at hid
  show id < t.nextRawId + 1
  split_ifs at hid with hnew
  · omega
  · have hlt := h.rawIds id hid
    omega

theorem Sound.total_insertRaw (h : t.Sound) (row : InsightsRawRow) :
    (t.insertRaw row).total insights =
      t.total insights + insights.worth row.metaId row.type row.timestamp row.value := by
  have hnone : t.insightsRaw.get? t.nextRawId = none := by
    by_contra hsome
    exact (h.rawIds _ (Option.isSome_iff_ne_none.2 hsome)).false
  rw [total_eq, total_eq, InsightsTables.insertRaw, Dict.sum_entries_set,
    Dict.erase_entries_of_none hnone]
  simp only [Insights.worthOf, rawRow, periodTotal]
  ring

theorem Sound.pruneOldData (h : t.Sound) (thresholdDate : ℤ) :
    (t.pruneOldData thresholdDate).Sound := by
  refine h.of_subset rfl rfl (fun _ hid => hid) fun key row hrow => ?_
  rw [InsightsTables.pruneOldData, Dict.get?_filterKeys] at hrow
  split_ifs at hrow
  exact hrow

theorem total_pruneOldData (t : InsightsTables) {thresholdDate : ℤ}
    (hspares : thresholdDate < insights.week) :
    (t.pruneOldData thresholdDate).total insights = t.total insights := by
  have hsplit : insights.sumOf (t.insightsByPeriod.entries.filter
        (·.1.periodStart ≤ thresholdDate)) +
      periodTotal insights (t.pruneOldData thresholdDate) = periodTotal insights t := by
    refine Eq.trans ?_ (List.sum_map_filter_add_sum_map_filter_not
      (fun entry : PeriodKey × PeriodRow => entry.1.periodStart ≤ thresholdDate)
      (fun entry => insights.worthOf (periodRow entry)) t.insightsByPeriod.entries)
    simp only [Insights.sumOf, periodTotal, InsightsTables.pruneOldData, Dict.filterKeys,
      decide_not]
  have hnothing : insights.sumOf (t.insightsByPeriod.entries.filter
      (·.1.periodStart ≤ thresholdDate)) = 0 := by
    refine List.sum_eq_zero fun worth hworth => ?_
    obtain ⟨entry, hmem, rfl⟩ := List.mem_map.1 hworth
    have hold := of_decide_eq_true (List.mem_filter.1 hmem).2
    have hweek := week_le entry.1.periodStart
    -- what is deleted is in an older week
    refine if_neg fun hin => ?_
    have hstart : periodStartExpr .week entry.1.periodStart = insights.week := hin.2.2
    omega
  have hraw : (t.pruneOldData thresholdDate).insightsRaw = t.insightsRaw := rfl
  rw [total_eq, total_eq, hraw]
  omega

theorem Sound.step (h : t.Sound) (config : InsightsConfig) (e : Event) :
    (t.step arrange config e).Sound := by
  cases e with
  | insertRaw row => exact h.insertRaw row
  | compactRawToHour => exact h.compact _ _ _
  | compactHourToDay today => exact h.compact _ _ _
  | compactDayToWeek today => exact h.compact _ _ _
  | pruneOldData thresholdDate => exact h.pruneOldData thresholdDate

theorem Sound.total_step (h : t.Sound) (harrange : ∀ rows, (arrange rows).Perm rows)
    (config : InsightsConfig) {e : Event} (hspares : e.Spares insights.week) :
    (t.step arrange config e).total insights = t.total insights + inserted insights [e] := by
  cases e with
  | insertRaw row =>
    refine (h.total_insertRaw insights row).trans ?_
    simp [inserted]
  | compactRawToHour =>
    refine (total_compact_raw insights t (raw_subperm harrange t _) .hour).trans ?_
    simp [inserted]
  | compactHourToDay today =>
    refine (h.total_compact_period insights (by decide) (period_subperm harrange t _ _ _)).trans ?_
    simp [inserted]
  | compactDayToWeek today =>
    refine (h.total_compact_period insights (by decide) (period_subperm harrange t _ _ _)).trans ?_
    simp [inserted]
  | pruneOldData thresholdDate =>
    refine (total_pruneOldData insights t hspares).trans ?_
    simp [inserted]

theorem inserted_cons (e : Event) (es : List Event) :
    inserted insights (e :: es) = inserted insights [e] + inserted insights es := by
  simp [inserted]

/-- Along a run, each insight is counted in its week until the week is pruned, in whatever units the
tables have it. -/
theorem weeks_conserved (h : t.Sound) (harrange : ∀ rows, (arrange rows).Perm rows)
    (config : InsightsConfig) (es : List Event) (hspares : ∀ e ∈ es, e.Spares insights.week) :
    (Runs.run (step arrange config) t es).Sound ∧
      (Runs.run (step arrange config) t es).total insights =
        t.total insights + inserted insights es := by
  induction es generalizing t with
  | nil => exact ⟨h, by simp [inserted]⟩
  | cons e es ih =>
    obtain ⟨hsound, htotal⟩ := ih (h.step config e) fun e' he' =>
      hspares e' (List.mem_cons_of_mem _ he')
    refine ⟨hsound, ?_⟩
    rw [Runs.run_cons, htotal, h.total_step insights harrange config (hspares e List.mem_cons_self),
      inserted_cons insights e es, add_assoc]

/-! ## All batches -/

def size (t : InsightsTables) : ℕ := t.insightsRaw.size + t.insightsByPeriod.size

theorem size_foldl_upsert : ∀ (insightsToAdd : List (PeriodKey × ℤ)) (t : InsightsTables),
    (insightsToAdd.foldl upsert t).insightsByPeriod.size ≤
      t.insightsByPeriod.size + insightsToAdd.length
  | [], _ => le_rfl
  | insight :: rest, t => by
    have hone : (t.upsert insight).insightsByPeriod.size ≤ t.insightsByPeriod.size + 1 := by
      unfold upsert
      split <;> exact Dict.size_set_le _ _ _
    have hrest := size_foldl_upsert rest (t.upsert insight)
    rw [List.foldl_cons, List.length_cons]
    omega

theorem length_getAggregationQuery_le (periodUnit : PeriodUnit) (rows : List RowToCompact) :
    (getAggregationQuery periodUnit rows).length ≤ rows.length := by
  rw [getAggregationQuery, List.length_map]
  exact (List.dedup_sublist _).length_le.trans_eq (List.length_map _)

theorem length_filter_not_add {β : Type*} (p : β → Bool) (l : List β) :
    (l.filter fun b => !p b).length + (l.filter p).length = l.length := by
  rw [add_comm, ← List.length_append, (List.filter_append_perm p l).length_eq]

theorem size_raw_compact (t : InsightsTables) {rows : List RowToCompact}
    (hrows : rows.Subperm (t.insightsRaw.entries.map rawRow)) (periodUnit : PeriodUnit) :
    (t.compactSourceDataIntoInsightPeriod .insightsRaw rows periodUnit).1.insightsRaw.size +
      rows.length = t.insightsRaw.size := by
  have hids : (t.insightsRaw.entries.map fun entry => (rawRow entry).id).Nodup :=
    t.insightsRaw.nodup
  have hall := length_filter_not_add (fun entry : ℕ × InsightsRawRow =>
    decide ((rawRow entry).id ∈ rows.map (·.id))) t.insightsRaw.entries
  rw [length_deleted rawRow _ hids hrows] at hall
  rw [insightsRaw_compact_raw]
  refine Eq.trans ?_ hall
  simp only [Dict.size, Dict.filterKeys, decide_not]
  rfl

theorem size_compact_raw (t : InsightsTables) {rows : List RowToCompact}
    (hrows : rows.Subperm (t.insightsRaw.entries.map rawRow)) (periodUnit : PeriodUnit) :
    (t.compactSourceDataIntoInsightPeriod .insightsRaw rows periodUnit).1.size ≤ t.size := by
  have hraw := size_raw_compact t hrows periodUnit
  have hperiod := size_foldl_upsert (getAggregationQuery periodUnit rows) t
  have hgroups := length_getAggregationQuery_le periodUnit rows
  have hsame : (t.compactSourceDataIntoInsightPeriod .insightsRaw rows
      periodUnit).1.insightsByPeriod =
        ((getAggregationQuery periodUnit rows).foldl upsert t).insightsByPeriod := rfl
  unfold size
  rw [hsame]
  omega

theorem Sound.size_compact_period (h : t.Sound) {rows : List RowToCompact} {from_ into : PeriodUnit}
    (hne : from_ ≠ into) (hrows : rows.Subperm ((ofUnit t from_).entries.map periodRow)) :
    (t.compactSourceDataIntoInsightPeriod .insightsByPeriod rows into).1.size ≤ t.size := by
  have hperiod := size_foldl_upsert (getAggregationQuery into rows) t
  have hgroups := length_getAggregationQuery_le into rows
  have hdeleted := ((h.apart hne hrows).deleted_perm rows).length_eq
  have hbatch : (t.insightsByPeriod.filter (·.id ∈ rows.map (·.id))).entries.length = rows.length :=
    length_deleted periodRow _ h.nodup_ids (hrows.trans (ofUnit_subperm t from_))
  have hleft : ((t.compactSourceDataIntoInsightPeriod .insightsByPeriod rows
      into).1.insightsByPeriod.size + (((getAggregationQuery into rows).foldl InsightsTables.upsert
        t).insightsByPeriod.filter (·.id ∈ rows.map (·.id))).entries.length) =
      ((getAggregationQuery into rows).foldl InsightsTables.upsert t).insightsByPeriod.size := by
    refine Eq.trans ?_ (length_filter_not_add (fun entry : PeriodKey × PeriodRow =>
      decide (entry.2.id ∈ rows.map (·.id))) _)
    simp only [← decide_not]
    rfl
  have hraw : (t.compactSourceDataIntoInsightPeriod .insightsByPeriod rows into).1.insightsRaw =
      t.insightsRaw := foldl_upsert_insightsRaw _ _
  unfold size
  rw [hraw]
  omega

/-- A period of a unit that is not compacted into stays, unless it is deleted. -/
theorem get?_compact_of_ne {rows : List RowToCompact} {into : PeriodUnit} {key : PeriodKey}
    (hne : key.periodUnit ≠ into) :
    (t.compactSourceDataIntoInsightPeriod .insightsByPeriod rows into).1.insightsByPeriod.get? key =
      (t.insightsByPeriod.get? key).filter (·.id ∉ rows.map (·.id)) := by
  have hsame : ∀ {insightsToAdd : List (PeriodKey × ℤ)} {t : InsightsTables},
      (∀ insight ∈ insightsToAdd, insight.1.periodUnit = into) →
      (insightsToAdd.foldl upsert t).insightsByPeriod.get? key = t.insightsByPeriod.get? key := by
    intro insightsToAdd
    induction insightsToAdd with
    | nil => exact fun _ => rfl
    | cons insight rest ih =>
      intro t hunits
      rw [List.foldl_cons, ih fun insight' hmem => hunits insight' (List.mem_cons_of_mem _ hmem),
        get?_upsert, if_neg]
      rintro rfl
      exact hne (hunits insight List.mem_cons_self)
  refine (Dict.get?_filter _ _ _).trans ?_
  rw [hsame fun insight hmem => (periodUnit_of_mem_getAggregationQuery hmem).1]

theorem Sound.size_ofUnit_compact (h : t.Sound) {rows : List RowToCompact} {from_ into : PeriodUnit}
    (hne : from_ ≠ into) (hrows : rows.Subperm ((ofUnit t from_).entries.map periodRow)) :
    (ofUnit (t.compactSourceDataIntoInsightPeriod .insightsByPeriod rows into).1 from_).size +
      rows.length = (ofUnit t from_).size := by
  have hperm : (ofUnit (t.compactSourceDataIntoInsightPeriod .insightsByPeriod rows
      into).1 from_).entries.Perm
        ((ofUnit t from_).filter (·.id ∉ rows.map (·.id))).entries := by
    refine Dict.perm_of_get?_eq fun key => ?_
    rw [Dict.get?_filter, ofUnit, ofUnit, Dict.get?_filterKeys, Dict.get?_filterKeys]
    split_ifs with hkey
    · have hkeyUnit : key.periodUnit = from_ := of_decide_eq_true hkey
      exact get?_compact_of_ne (hkeyUnit ▸ hne)
    · rfl
  have hids : ((ofUnit t from_).entries.map fun entry => (periodRow entry).id).Nodup :=
    h.nodup_ids.sublist (List.filter_sublist.map _)
  have hall := length_filter_not_add (fun entry : PeriodKey × PeriodRow =>
    decide ((periodRow entry).id ∈ rows.map (·.id))) (ofUnit t from_).entries
  rw [length_deleted periodRow _ hids hrows] at hall
  refine Eq.trans (congrArg (· + rows.length) hperm.length_eq) (Eq.trans ?_ hall)
  simp only [Dict.filter, decide_not]
  rfl

/-- What compaction does not change, and the tables do not grow. -/
structure Progress (t t' : InsightsTables) : Prop where
  sound : t'.Sound
  total : ∀ insights : Insights, t'.total insights = t.total insights
  size : t'.size ≤ t.size

theorem Sound.progress (h : t.Sound) : Progress t t := ⟨h, fun _ => rfl, le_rfl⟩

theorem Progress.trans {t₁ t₂ t₃ : InsightsTables} (h : Progress t₁ t₂) (h' : Progress t₂ t₃) :
    Progress t₁ t₃ :=
  ⟨h'.sound, fun insights => (h'.total insights).trans (h.total insights), h'.size.trans h.size⟩

theorem Sound.progress_raw (h : t.Sound) (harrange : ∀ rows, (arrange rows).Perm rows)
    (config : InsightsConfig) : Progress t (t.compactRawToHour arrange config).1 :=
  ⟨h.compact _ _ _, fun insights => total_compact_raw insights t (raw_subperm harrange t _) _,
    size_compact_raw t (raw_subperm harrange t _) _⟩

theorem Sound.progress_period (h : t.Sound) (harrange : ∀ rows, (arrange rows).Perm rows)
    {from_ into : PeriodUnit} (hne : from_ ≠ into) (compactionBatchSize : ℕ) (before : ℤ) :
    Progress t (t.compactSourceDataIntoInsightPeriod .insightsByPeriod
      (t.getPeriodInsightsBatchQuery arrange from_ compactionBatchSize before) into).1 :=
  have hrows := period_subperm harrange t from_ compactionBatchSize before
  ⟨h.compact _ _ _, fun insights => h.total_compact_period insights hne hrows,
    h.size_compact_period hne hrows⟩

/-- The loop over the batches of a table ends with a batch that is not full. -/
theorem compactBatches_eq (inv : InsightsTables → Prop) {config : InsightsConfig}
    (compact : InsightsTables → InsightsTables × ℕ) (count : InsightsTables → ℕ)
    (hbatch : 0 < config.compactionBatchSize) (hkeeps : ∀ t, inv t → inv (compact t).1)
    (hcount : ∀ t, inv t → count (compact t).1 + (compact t).2 = count t) {fuel : ℕ}
    (hfuel : count t < fuel) (h : inv t) :
    ∃ last, inv last ∧ (compact last).2 ≠ config.compactionBatchSize ∧
      compactBatches config compact fuel t = some (compact last).1 := by
  have hless : ∀ t, inv t → decide ((compact t).2 = config.compactionBatchSize) = true →
      count (compact t).1 < count t := fun t ht hfull => by
    have hsum := hcount t ht
    rw [of_decide_eq_true hfull] at hsum
    omega
  obtain ⟨last, hlast, hends, heq⟩ := DoWhile.doWhile_eq
    (fun t => ((compact t).1, decide ((compact t).2 = config.compactionBatchSize))) count hkeeps
    hless hfuel h
  exact ⟨last, hlast, of_decide_eq_false hends, heq⟩

theorem Sound.compactBatches_raw (h : t.Sound) (harrange : ∀ rows, (arrange rows).Perm rows)
    {config : InsightsConfig} (hbatch : 0 < config.compactionBatchSize) {fuel : ℕ}
    (hfuel : t.size < fuel) :
    ∃ t', compactBatches config (compactRawToHour · arrange config) fuel t = some t' ∧
      Progress t t' ∧ t'.insightsRaw.entries = [] := by
  obtain ⟨last, hlast, hends, heq⟩ := compactBatches_eq (Progress t)
    (compactRawToHour · arrange config) (fun t => t.insightsRaw.size) hbatch
    (fun t₁ h₁ => h₁.trans (h₁.sound.progress_raw harrange config))
    (fun t₁ _ => size_raw_compact t₁ (raw_subperm harrange t₁ _) _)
    (Nat.lt_of_le_of_lt (Nat.le_add_right _ _) hfuel) h.progress
  refine ⟨_, heq, hlast.trans (hlast.sound.progress_raw harrange config), ?_⟩
  refine List.eq_nil_iff_forall_not_mem.2 fun ⟨id, row⟩ hmem => ?_
  have hget := Dict.mem_entries.1 hmem
  have hraw : (last.compactRawToHour arrange config).1.insightsRaw = last.insightsRaw.filterKeys
      (· ∉ (last.getRawInsightsBatchQuery arrange config.compactionBatchSize).map (·.id)) :=
    insightsRaw_compact_raw _ _ _
  rw [hraw, Dict.get?_filterKeys] at hget
  split_ifs at hget with hnot
  -- the last batch was not full, so it had the row
  refine of_decide_eq_true hnot (List.mem_map.2 ⟨rawRow (id, row), ?_, rfl⟩)
  exact mem_oldest_of_length_ne harrange hends (List.mem_map_of_mem (Dict.mem_entries.2 hget))

/-- All periods of the unit that are old are compacted. -/
theorem Sound.compactBatches_period (h : t.Sound) (harrange : ∀ rows, (arrange rows).Perm rows)
    {config : InsightsConfig} (hbatch : 0 < config.compactionBatchSize) {from_ into : PeriodUnit}
    (hne : from_ ≠ into) (before : ℤ) {fuel : ℕ} (hfuel : t.size < fuel) :
    ∃ t', compactBatches config (fun t => t.compactSourceDataIntoInsightPeriod .insightsByPeriod
        (t.getPeriodInsightsBatchQuery arrange from_ config.compactionBatchSize before) into)
          fuel t = some t' ∧
      Progress t t' ∧ t'.insightsRaw = t.insightsRaw ∧
      (∀ key row, t'.insightsByPeriod.get? key = some row → key.periodUnit = from_ →
        before ≤ key.periodStart) ∧
      ∀ key row, t'.insightsByPeriod.get? key = some row → key.periodUnit ≠ into →
        t.insightsByPeriod.get? key = some row := by
  have hkeep : ∀ {t₁ : InsightsTables} {rows : List RowToCompact} {key : PeriodKey}
      {row : PeriodRow}, (t₁.compactSourceDataIntoInsightPeriod .insightsByPeriod rows
        into).1.insightsByPeriod.get? key = some row → key.periodUnit ≠ into →
      t₁.insightsByPeriod.get? key = some row ∧ row.id ∉ rows.map (·.id) := by
    intro t₁ rows key row hrow hkey
    rw [get?_compact_of_ne hkey, Option.filter_eq_some_iff, decide_eq_true_eq] at hrow
    exact hrow
  let inv (t₁ : InsightsTables) : Prop := Progress t t₁ ∧ t₁.insightsRaw = t.insightsRaw ∧
    ∀ key row, t₁.insightsByPeriod.get? key = some row → key.periodUnit ≠ into →
      t.insightsByPeriod.get? key = some row
  have hstep : ∀ t₁, inv t₁ → inv (t₁.compactSourceDataIntoInsightPeriod .insightsByPeriod
      (t₁.getPeriodInsightsBatchQuery arrange from_ config.compactionBatchSize before) into).1 := by
    rintro t₁ ⟨hprogress, hraw, hsame⟩
    refine ⟨hprogress.trans (hprogress.sound.progress_period harrange hne _ _),
      (foldl_upsert_insightsRaw _ _).trans hraw, fun key row hrow hkey => ?_⟩
    exact hsame key row (hkeep hrow hkey).1 hkey
  have hcount : (ofUnit t from_).size < fuel := by
    have hle : (ofUnit t from_).size ≤ t.insightsByPeriod.size := List.length_filter_le _ _
    unfold size at hfuel
    omega
  obtain ⟨last, hlast, hends, heq⟩ := compactBatches_eq inv
    (fun t => t.compactSourceDataIntoInsightPeriod .insightsByPeriod
      (t.getPeriodInsightsBatchQuery arrange from_ config.compactionBatchSize before) into)
    (fun t => (ofUnit t from_).size) hbatch hstep
    (fun t₁ h₁ => h₁.1.sound.size_ofUnit_compact hne (period_subperm harrange t₁ _ _ _)) hcount
    ⟨h.progress, rfl, fun _ _ hrow _ => hrow⟩
  obtain ⟨hprogress, hraw, hsame⟩ := hstep last hlast
  refine ⟨_, heq, hprogress, hraw, fun key row hrow hkey => ?_, hsame⟩
  obtain ⟨hget, hnot⟩ := hkeep hrow (hkey ▸ hne)
  by_contra hold
  -- the last batch was not full, so it had the period
  refine hnot (List.mem_map.2 ⟨periodRow (key, row), ?_, rfl⟩)
  refine mem_oldest_of_length_ne harrange hends (List.mem_map_of_mem (List.mem_filter.2 ?_))
  exact ⟨Dict.mem_entries.2 hget, by simpa [hkey] using hold⟩

theorem sound_empty : ({} : InsightsTables).Sound where
  rawIds _ hid := by cases hid
  periodIds _ _ hrow := by cases hrow
  oneId _ _ _ _ hrow := by cases hrow
  starts _ _ hrow := by cases hrow

def oneByOne : InsightsConfig := { compactionBatchSize := 1 }

/-- Two executions in one hour, one of which is compacted to the end before the other. -/
def twoRuns : List Event :=
  [.insertRaw ⟨1, .runtimeMs, 10, 7200⟩, .compactRawToHour, .compactHourToDay 8640000,
    .insertRaw ⟨1, .runtimeMs, 5, 7300⟩, .compactRawToHour, .compactDayToWeek 86400000,
    .pruneOldData (-864000)]

theorem twoRuns_conserved : (Runs.run (step List.reverse oneByOne) {} twoRuns).Sound ∧
    (Runs.run (step List.reverse oneByOne) {} twoRuns).total ⟨1, .runtimeMs, -259200⟩ = 15 := by
  obtain ⟨hsound, htotal⟩ := weeks_conserved ⟨1, .runtimeMs, -259200⟩ sound_empty
    List.reverse_perm oneByOne twoRuns (by simp [twoRuns, Event.Spares])
  exact ⟨hsound, htotal.trans (by decide)⟩

end InsightsTables

end N8n
