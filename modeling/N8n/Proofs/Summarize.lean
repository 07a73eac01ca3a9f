import Mathlib.Data.List.Forall2
import N8n.Summarize
import N8n.Proofs.FieldMatching

/-!
# The flattened groups part the items

The maps of maps flatten to one entry for each tuple of split values, whose aggregates are those of
the items with this tuple.
-/

namespace N8n

namespace Summarize

variable {rt : ItemRuntime} {options : SummarizeOptions} {fieldsToSummarize : List Aggregation}
  {convertKeysToString : Bool} {splitKeys : List String} {items : List IndexedItem}

/-! ## Grouping by one field -/

/-- What an item is grouped under, unless it is skipped. -/
def groupKey (rt : ItemRuntime) (options : SummarizeOptions) (convertKeysToString : Bool)
    (splitKey : String) (item : IndexedItem) : Option SplitValue :=
  let value := splitValue rt options convertKeysToString item splitKey
  if options.skipEmptySplitFields && value.isEmpty then none else some value

theorem groupedItems_eq (firstSplitKey : String) :
    groupedItems rt options convertKeysToString firstSplitKey items =
      Grouping.groupBy (groupKey rt options convertKeysToString firstSplitKey) items := by
  unfold groupedItems Grouping.groupBy
  congr 1
  funext groups item
  unfold Grouping.addTo groupKey
  dsimp only
  split_ifs <;> rfl

abbrev groupKeys (rt : ItemRuntime) (options : SummarizeOptions) (convertKeysToString : Bool)
    (splitKeys : List String) : List (IndexedItem → Option SplitValue) :=
  splitKeys.map (groupKey rt options convertKeysToString)

theorem isKept_cons {item : IndexedItem} (splitKey : String) (splitKeys : List String) :
    IsKept rt options convertKeysToString (splitKey :: splitKeys) item ↔
      (options.skipEmptySplitFields &&
        (splitValue rt options convertKeysToString item splitKey).isEmpty) = false ∧
      IsKept rt options convertKeysToString splitKeys item := by
  unfold IsKept splitTuple
  rw [List.map_cons, List.forall_mem_cons]

/-- An item that is kept is grouped under its tuple. -/
theorem tuple_groupKeys (item : IndexedItem) : ∀ splitKeys : List String,
    Grouping.tuple (groupKeys rt options convertKeysToString splitKeys) item =
      if IsKept rt options convertKeysToString splitKeys item then
        some (splitTuple rt options convertKeysToString splitKeys item)
      else none
  | [] => by
    simp [Grouping.tuple, IsKept, splitTuple]
  | splitKey :: splitKeys => by
    rw [groupKeys, List.map_cons, Grouping.tuple, tuple_groupKeys item splitKeys]
    unfold groupKey
    dsimp only
    by_cases hskip : (options.skipEmptySplitFields &&
        (splitValue rt options convertKeysToString item splitKey).isEmpty) = true
    · have hnot : ¬ IsKept rt options convertKeysToString (splitKey :: splitKeys) item := fun h => by
        rw [((isKept_cons splitKey splitKeys).1 h).1] at hskip
        cases hskip
      rw [if_pos hskip, if_neg hnot]
      rfl
    · rw [if_neg hskip]
      have hkept : IsKept rt options convertKeysToString (splitKey :: splitKeys) item ↔
          IsKept rt options convertKeysToString splitKeys item := by
        rw [isKept_cons, and_iff_right (Bool.eq_false_iff.2 hskip)]
      by_cases hrest : IsKept rt options convertKeysToString splitKeys item
      · rw [if_pos hrest, if_pos (hkept.2 hrest)]
        rfl
      · rw [if_neg hrest, if_neg (mt hkept.1 hrest)]
        rfl

theorem filter_tuple_eq (tuple : List SplitValue) :
    (items.filter fun item =>
      Grouping.tuple (groupKeys rt options convertKeysToString splitKeys) item = some tuple) =
      itemsOf rt options convertKeysToString splitKeys items tuple := by
  unfold itemsOf keptItems
  rw [List.filter_filter]
  refine List.filter_congr fun item _ => ?_
  rw [tuple_groupKeys]
  split_ifs with hkept <;> simp [hkept]

/-! ## Flattening -/

theorem flattenSplits_eq (fieldName : String) : ∀ splits : List (SplitValue × NestedAggregationResult),
    flattenSplits fieldName splits = splits.flatMap fun split =>
      (flattenAggregationResultToArray split.2).map (writeSplitValue fieldName split.1)
  | [] => by
    rw [flattenSplits]
    rfl
  | (value, innerResult) :: splits => by
    rw [flattenSplits, flattenSplits_eq fieldName splits]
    rfl

/-- The values of a tuple are written back, that of the last field first. -/
def writeBack : List String → List SplitValue → AggregationResult → AggregationResult
  | fieldName :: fieldNames, value :: values, v =>
    writeSplitValue fieldName value (writeBack fieldNames values v)
  | _, _, v => v

/-- The entries are those of the groups by all fields. -/
theorem flatten_aggregateAndSplitData : ∀ (splitKeys : List String) (items : List IndexedItem),
    flattenAggregationResultToArray
      (aggregateAndSplitData rt options fieldsToSummarize convertKeysToString splitKeys items) =
      (Grouping.nested (aggregateData rt options fieldsToSummarize)
        (groupKeys rt options convertKeysToString splitKeys) items).map fun r =>
          writeBack splitKeys r.1 r.2
  | [], items => by
    rw [aggregateAndSplitData, flattenAggregationResultToArray]
    rfl
  | splitKey :: splitKeys, items => by
    rw [aggregateAndSplitData, flattenAggregationResultToArray, flattenSplits_eq, groupedItems_eq,
      List.flatMap_map]
    unfold groupKeys
    rw [List.map_cons, Grouping.nested, List.map_flatMap]
    refine List.flatMap_congr fun e _ => ?_
    rw [flatten_aggregateAndSplitData splitKeys e.2, List.map_map, List.map_map]
    rfl

/-! ## The properties of an entry -/

theorem pairedItems_writeBack : ∀ (fieldNames : List String) (values : List SplitValue)
    (v : AggregationResult), (writeBack fieldNames values v).pairedItems = v.pairedItems
  | [], _, _ => rfl
  | _ :: _, [], _ => rfl
  | _ :: fieldNames, _ :: values, v => pairedItems_writeBack fieldNames values v

theorem lookup_writeSplitValue (fieldName : String) (value : SplitValue) (v : AggregationResult)
    (name : CodeUnits) : (writeSplitValue fieldName value v).returnData.lookup name =
      if normalizeFieldName fieldName ≠ protoName ∧ name = normalizeFieldName fieldName then
        some value.value
      else v.returnData.lookup name := by
  unfold writeSplitValue FieldMatching.assign
  dsimp only
  split_ifs with hproto hname hname
  · exact absurd hproto hname.1
  · rfl
  · rw [FieldMatching.lookup_setEntry, if_pos hname.2]
  · rw [FieldMatching.lookup_setEntry, if_neg fun h => hname ⟨hproto, h⟩]

/-- The other properties are as they were. -/
theorem lookup_writeBack_of_notMem {name : CodeUnits} : ∀ {fieldNames : List String}
    (values : List SplitValue) (v : AggregationResult), name ∉ fieldNames.map normalizeFieldName →
      (writeBack fieldNames values v).returnData.lookup name = v.returnData.lookup name
  | [], _, _, _ => rfl
  | _ :: _, [], _, _ => rfl
  | fieldName :: fieldNames, value :: values, v, h => by
    rw [List.map_cons, List.mem_cons, not_or] at h
    rw [writeBack, lookup_writeSplitValue, if_neg fun hname => h.1 hname.2]
    exact lookup_writeBack_of_notMem values v h.2

/-- Each split field has its value. -/
theorem lookup_writeBack : ∀ {fieldNames : List String} {values : List SplitValue}
    (v : AggregationResult), (fieldNames.map normalizeFieldName).Nodup →
      ∀ split ∈ fieldNames.zip values, normalizeFieldName split.1 ≠ protoName →
        (writeBack fieldNames values v).returnData.lookup (normalizeFieldName split.1) =
          some split.2.value
  | [], _, _, _, _, h, _ => by
    cases h
  | _ :: _, [], _, _, _, h, _ => by
    cases h
  | fieldName :: fieldNames, value :: values, v, hnodup, split, hsplit, hproto => by
    rw [List.map_cons, List.nodup_cons] at hnodup
    rw [writeBack, lookup_writeSplitValue]
    rcases List.mem_cons.1 hsplit with rfl | hsplit
    · rw [if_pos ⟨hproto, rfl⟩]
    · have hmem : normalizeFieldName split.1 ∈ fieldNames.map normalizeFieldName :=
        List.mem_map_of_mem (List.of_mem_zip hsplit).1
      have hne : normalizeFieldName split.1 ≠ normalizeFieldName fieldName :=
        fun hname => hnodup.1 (hname ▸ hmem)
      rw [if_neg (mt And.right hne)]
      exact lookup_writeBack v hnodup.2 split hsplit hproto

/-- Of aggregations with one name the last counts. -/
theorem lookup_aggregateData (data : List IndexedItem) {aggregation : Aggregation}
    {after : List Aggregation} (before : List Aggregation)
    (hlast : aggregationKey aggregation ∉ after.map aggregationKey) :
    (aggregateData rt options (before ++ aggregation :: after) data).returnData.lookup
        (aggregationKey aggregation) = some (aggregate rt options data aggregation) := by
  have hafter : ∀ (after : List Aggregation) (returnData : Json) (name : CodeUnits),
      name ∉ after.map aggregationKey →
        (after.foldl (fun returnData aggregation =>
          Dict.setEntry (aggregationKey aggregation) (aggregate rt options data aggregation)
            returnData) returnData).lookup name = returnData.lookup name := by
    intro after
    induction after with
    | nil => exact fun _ _ _ => rfl
    | cons next after ih =>
      intro returnData name hname
      rw [List.map_cons, List.mem_cons, not_or] at hname
      rw [List.foldl_cons, ih _ name hname.2, FieldMatching.lookup_setEntry, if_neg hname.1]
  unfold aggregateData
  dsimp only
  rw [List.foldl_append, List.foldl_cons, hafter after _ _ hlast, FieldMatching.lookup_setEntry,
    if_pos rfl]

/-! ## The entries -/

/-- With items in separate entries and fields of different names, there is one entry for each tuple,
and without fields to split by there is one in any case. -/
theorem partitions (rt : ItemRuntime) (options : SummarizeOptions)
    (fieldsToSummarize : List Aggregation) (convertKeysToString : Bool) (splitKeys : List String)
    (items : List IndexedItem) (hformat : options.outputFormat = .separateItems)
    (hnames : (splitKeys.map normalizeFieldName).Nodup)
    (hdiffer : ∀ aggregation ∈ fieldsToSummarize,
      aggregationKey aggregation ∉ splitKeys.map normalizeFieldName) :
    Partitions rt options fieldsToSummarize convertKeysToString splitKeys
      (fun tuple => splitKeys = [] ∧ tuple = [] ∨
        IsTuple rt options convertKeysToString splitKeys items tuple) items
      (flattenAggregationResultToArray
        (aggregateAndSplitData rt options fieldsToSummarize convertKeysToString splitKeys items)) := by
  have htuple (tuple : List SplitValue) : (∃ item ∈ items,
      Grouping.tuple (groupKeys rt options convertKeysToString splitKeys) item = some tuple) ↔
        IsTuple rt options convertKeysToString splitKeys items tuple := by
    unfold IsTuple keptItems
    refine exists_congr fun item => ?_
    rw [tuple_groupKeys, List.mem_filter, and_assoc]
    refine and_congr_right fun _ => ?_
    split_ifs with hkept <;> simp [hkept]
  refine ⟨_, Grouping.nodup_nested (aggregateData rt options fieldsToSummarize)
    (groupKeys rt options convertKeysToString splitKeys) items, fun tuple => ?_, ?_, ?_⟩
  · dsimp only
    rw [← htuple, List.mem_map]
    constructor
    · rintro ⟨⟨ks, v⟩, hnested, rfl⟩
      refine (Grouping.mem_nested.1 hnested).1.imp_left fun ⟨hnil, hks⟩ => ?_
      exact ⟨List.map_eq_nil_iff.1 hnil, hks⟩
    · intro h
      refine ⟨(tuple, _), Grouping.mem_nested.2 ⟨h.imp_left fun ⟨hnil, ht⟩ => ?_, rfl⟩, rfl⟩
      exact ⟨List.map_eq_nil_iff.2 hnil, ht⟩
  · rw [flatten_aggregateAndSplitData, List.forall₂_map_left_iff, List.forall₂_map_right_iff,
      List.forall₂_same]
    rintro ⟨tuple, v⟩ hnested
    obtain ⟨-, rfl⟩ := Grouping.mem_nested.1 hnested
    rw [filter_tuple_eq]
    refine ⟨?_, fun before aggregation after hsplit hlast => ?_, ?_⟩
    · rw [pairedItems_writeBack, aggregateData, hformat]
    · have hagg : aggregation ∈ fieldsToSummarize := by
        rw [hsplit]
        simp
      rw [lookup_writeBack_of_notMem _ _ (hdiffer aggregation hagg)]
      subst hsplit
      exact lookup_aggregateData _ before hlast
    · exact lookup_writeBack _ hnames
  · have hpaired : ((Grouping.nested (aggregateData rt options fieldsToSummarize)
        (groupKeys rt options convertKeysToString splitKeys) items).flatMap fun r =>
          (writeBack splitKeys r.1 r.2).pairedItems.getD []) =
        (((Grouping.nested (aggregateData rt options fieldsToSummarize)
          (groupKeys rt options convertKeysToString splitKeys) items).map Prod.fst).flatMap fun ks =>
            items.filter fun item => Grouping.tuple
              (groupKeys rt options convertKeysToString splitKeys) item = some ks).map
          IndexedItem.itemIndex := by
      rw [List.flatMap_map, List.map_flatMap]
      refine List.flatMap_congr fun ⟨tuple, v⟩ hnested => ?_
      obtain ⟨-, rfl⟩ := Grouping.mem_nested.1 hnested
      rw [pairedItems_writeBack, aggregateData, hformat]
      rfl
    have hkept : (items.filter fun item => (Grouping.tuple
        (groupKeys rt options convertKeysToString splitKeys) item).isSome) =
          keptItems rt options convertKeysToString splitKeys items := by
      refine List.filter_congr fun item _ => ?_
      rw [tuple_groupKeys]
      split_ifs with hkept <;> simp [hkept]
    rw [flatten_aggregateAndSplitData, List.flatMap_map, hpaired, ← hkept]
    exact (Grouping.nested_perm _ _ items).map _

def separateItems : SummarizeOptions := ⟨true, .separateItems, true⟩

def countA : Aggregation := ⟨.count, "a", false, none, none⟩

/-- Of three items the second is skipped. -/
def itemsA : List IndexedItem :=
  [⟨[(units "a", .boolean true)], 0⟩, ⟨[(units "a", .null)], 1⟩, ⟨[(units "a", .boolean true)], 2⟩]

theorem partitions_itemsA : Partitions MergeByFields.asciiItems separateItems [countA] false ["a"]
    (fun tuple => ["a"] = [] ∧ tuple = [] ∨
      IsTuple MergeByFields.asciiItems separateItems false ["a"] itemsA tuple) itemsA
    (flattenAggregationResultToArray (aggregateAndSplitData MergeByFields.asciiItems separateItems
      [countA] false ["a"] itemsA)) :=
  partitions MergeByFields.asciiItems separateItems [countA] false ["a"] itemsA rfl
    (by decide +kernel) (by decide +kernel)

/-- Without fields to split by and without items there is an entry, but no tuple. -/
theorem not_partitions_nil : ¬ Partitions MergeByFields.asciiItems separateItems [countA] false []
    (IsTuple MergeByFields.asciiItems separateItems false [] []) []
    (flattenAggregationResultToArray (aggregateAndSplitData MergeByFields.asciiItems separateItems
      [countA] false [] [])) := by
  rintro ⟨tuples, -, hmem, hentries, -⟩
  rw [aggregateAndSplitData, flattenAggregationResultToArray] at hentries
  cases hentries with
  | cons hgroup hrest =>
    obtain ⟨item, hitem, -⟩ := (hmem _).1 List.mem_cons_self
    cases hitem

end Summarize

end N8n
