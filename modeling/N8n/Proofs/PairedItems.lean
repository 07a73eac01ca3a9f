import N8n.PairedItems
import Mathlib.Data.List.MinMax
import Mathlib.Data.List.ReduceOption

/-!
# When paired items resolve as they should

A call is a point of a trace: it has arrived at the destination, has failed, or goes on with the
calls for the paired items of its item. Sources refer to earlier runs, so the calls end, and on the
whole way back the result is right exactly when no item is missing, no item is a dead end, and no
branch that agrees with itself hides another.
-/

namespace N8n

namespace WorkflowDataProxy

variable {ι : Type} (s : WorkflowDataProxy ι) (destinationNodeName : String)

/-! ## The sources of a call -/

section Sources

variable {s} {destinationNodeName}

theorem Outputs.eq {call : Call} {sourceData sourceData' : SourceData}
    {outputData outputData' : List ι}
    (h : s.Outputs call sourceData outputData) (h' : s.Outputs call sourceData' outputData') :
    sourceData' = sourceData ∧ outputData' = outputData := by
  obtain rfl := Option.some.inj (h.1.symm.trans h'.1)
  exact ⟨rfl, Option.some.inj (h'.2.symm.trans h.2)⟩

theorem Outputs.arrives_iff {call : Call} {sourceData : SourceData} {outputData : List ι}
    (h : s.Outputs call sourceData outputData) (item : ι) :
    s.Arrives destinationNodeName call item ↔ sourceData.previousNode = destinationNodeName ∧
      outputData[call.pairedItem.item]? = some item := by
  constructor
  · rintro ⟨sourceData', outputData', h', harrives⟩
    obtain ⟨rfl, rfl⟩ := h.eq h'
    exact harrives
  · exact fun harrives => ⟨_, _, h, harrives⟩

theorem Outputs.goes_iff {call : Call} {sourceData : SourceData} {outputData : List ι}
    (h : s.Outputs call sourceData outputData) (next : Call) :
    s.Goes destinationNodeName call next ↔ sourceData.previousNode ≠ destinationNodeName ∧
      ∃ item, outputData[call.pairedItem.item]? = some item ∧
        next ∈ nextCalls sourceData (((s.getTaskData sourceData).map (·.source)).getD [])
          (normalizePairedItem (s.pairedItem item)) := by
  constructor
  · rintro ⟨sourceData', outputData', item, h', hne, hitem, hnext⟩
    obtain ⟨rfl, rfl⟩ := h.eq h'
    exact ⟨hne, item, hitem, hnext⟩
  · rintro ⟨hne, item, hitem, hnext⟩
    exact ⟨_, _, item, h, hne, hitem, hnext⟩

theorem Outputs.missing_iff {call : Call} {sourceData : SourceData} {outputData : List ι}
    (h : s.Outputs call sourceData outputData) :
    s.Missing destinationNodeName call ↔ sourceData.previousNode ≠ destinationNodeName ∧
      outputData[call.pairedItem.item]? = none := by
  rw [List.getElem?_eq_none_iff]
  constructor
  · rintro ⟨sourceData', outputData', h', hmissing⟩
    obtain ⟨rfl, rfl⟩ := h.eq h'
    exact hmissing
  · exact fun hmissing => ⟨_, _, h, hmissing⟩

theorem nextCalls_eq_nil_iff {sourceData : SourceData} {sourceArray : List (Option SourceData)}
    {nextPairedItems : List PairedItemData} :
    nextCalls sourceData sourceArray nextPairedItems = [] ↔
      ∀ nextPairedItem ∈ nextPairedItems, sourceArray.length ≤ nextPairedItem.input.getD 0 := by
  unfold nextCalls
  rw [List.flatMap_eq_nil_iff]
  refine forall₂_congr fun nextPairedItem _ => ?_
  dsimp only
  split_ifs with hlen
  · exact iff_of_true rfl hlen
  · simpa using hlen

theorem Outputs.deadEnd_iff {call : Call} {sourceData : SourceData} {outputData : List ι}
    (h : s.Outputs call sourceData outputData) :
    s.DeadEnd destinationNodeName call ↔ sourceData.previousNode ≠ destinationNodeName ∧
      ∃ item, outputData[call.pairedItem.item]? = some item ∧
        normalizePairedItem (s.pairedItem item) ≠ [] ∧
        nextCalls sourceData (((s.getTaskData sourceData).map (·.source)).getD [])
          (normalizePairedItem (s.pairedItem item)) = [] := by
  simp only [nextCalls_eq_nil_iff]
  constructor
  · rintro ⟨sourceData', outputData', item, h', hne, hitem, hpaired, hnone⟩
    obtain ⟨rfl, rfl⟩ := h.eq h'
    exact ⟨hne, item, hitem, hpaired, hnone⟩
  · rintro ⟨hne, item, hitem, hpaired, hnone⟩
    exact ⟨_, _, item, h, hne, hitem, hpaired, hnone⟩

/-- The source of a next call is one that the run of the call names. -/
theorem mem_sourcesOf_of_next {task : ProxyTask ι} {source sourceData : SourceData} {item : ι}
    {next : Call} (hitem : item ∈ task.main.reduceOption.flatten)
    (hnext : next ∈ nextCalls sourceData task.source (normalizePairedItem (s.pairedItem item)))
    (hsource : next.sourceData = some source) : source ∈ s.sourcesOf task := by
  obtain ⟨nextPairedItem, hmem, hnext⟩ := List.mem_flatMap.1 hnext
  dsimp only at hnext
  split_ifs at hnext with hlen
  · cases hnext
  obtain rfl := List.mem_singleton.1 hnext
  unfold ProxyData.sourcesOf
  rw [List.mem_append]
  cases hover : nextPairedItem.sourceOverwrite with
  | some overwrite =>
    obtain rfl : overwrite = source := by simpa [Call.sourceData, hover] using hsource
    exact .inr (List.mem_flatMap.2 ⟨item, hitem, List.mem_filterMap.2 ⟨_, hmem, hover⟩⟩)
  | none =>
    have hjoin : task.source[nextPairedItem.input.getD 0]?.join = some source := by
      simpa [Call.sourceData, hover] using hsource
    exact .inl (List.reduceOption_mem_iff.2
      (List.mem_of_getElem? (Option.join_eq_some_iff.1 hjoin)))

end Sources

/-! ## Earlier runs -/

section Rank

/-- One more than the index of the run that a call reads, and 0 for pinned data. -/
def rank (call : Call) : ℕ :=
  (((call.sourceData.bind s.runOf).map (·.executionIndex + 1)).getD 0)

variable {s} {destinationNodeName}

theorem runOf_mem {source : SourceData} {task : ProxyTask ι} (h : s.runOf source = some task) :
    ∃ tasks ∈ s.runData.get? source.previousNode, task ∈ tasks := by
  obtain ⟨tasks, htasks, htask⟩ := Option.bind_eq_some_iff.1 h
  exact ⟨tasks, htasks, List.mem_of_getElem? htask⟩

/-- The chain goes back to earlier runs. -/
theorem rank_lt_of_goes {call next : Call} (h : s.Goes destinationNodeName call next) :
    s.rank next < s.rank call := by
  obtain ⟨sourceData, outputData, item, ⟨hsource, hread⟩, -, hitem, hnext⟩ := h
  obtain ⟨task, htask, hmain⟩ := Option.bind_eq_some_iff.1 hread
  rw [htask] at hnext
  change next ∈ nextCalls sourceData task.source _ at hnext
  cases hrun : s.runOf sourceData with
  | none =>
    -- pinned data has no sources
    have hnil : task.source = [] := by
      unfold getTaskData at htask
      rw [hrun, Option.none_or] at htask
      obtain ⟨pinData, -, rfl⟩ := Option.map_eq_some_iff.1 htask
      rfl
    rw [hnil, nextCalls_eq_nil_iff.2 fun _ _ => Nat.zero_le _] at hnext
    cases hnext
  | some run =>
    obtain rfl : run = task := by
      unfold getTaskData at htask
      rw [hrun, Option.some_or] at htask
      exact Option.some.inj htask
    obtain ⟨tasks, htasks, hmem⟩ := runOf_mem hrun
    have hrank : s.rank call = run.executionIndex + 1 := by
      unfold rank
      rw [hsource, Option.bind_some, hrun]
      rfl
    have houtput : some outputData ∈ run.main :=
      List.mem_of_getElem? (Option.join_eq_some_iff.1 hmain)
    have houtputs : item ∈ run.main.reduceOption.flatten := List.mem_flatten.2
      ⟨outputData, List.reduceOption_mem_iff.2 houtput, List.mem_of_getElem? hitem⟩
    rw [hrank]
    unfold rank
    cases hbefore : next.sourceData.bind s.runOf with
    | none => exact Nat.succ_pos _
    | some before =>
      obtain ⟨source, hnextSource, hbefore⟩ := Option.bind_eq_some_iff.1 hbefore
      exact Nat.succ_lt_succ (s.earlier _ tasks htasks run hmem source
        (mem_sourcesOf_of_next houtputs hnext hnextSource) before hbefore)

theorem rank_lt_stackSize (call : Call) : s.rank call < s.stackSize := by
  unfold rank stackSize
  cases hrun : call.sourceData.bind s.runOf with
  | none => exact Nat.succ_pos _
  | some task =>
    obtain ⟨source, -, hrun⟩ := Option.bind_eq_some_iff.1 hrun
    obtain ⟨tasks, htasks, hmem⟩ := runOf_mem hrun
    have hall : task ∈ s.runData.entries.flatMap (·.2) :=
      List.mem_flatMap.2 ⟨_, Dict.mem_entries.2 htasks, hmem⟩
    have hle := List.le_max_of_le' 0 (List.mem_map_of_mem (f := (·.executionIndex)) hall) le_rfl
    rw [List.foldr_map] at hle
    exact Nat.add_lt_add_right (Nat.lt_succ_of_le hle) 1

end Rank

/-! ## A call as a point of a trace -/

section Stations

variable (usedMethodName : PairedItemMethod)

/-- What a call comes to, before the calls for its paired items. -/
def station (call : Call) : Trace.Station Call ι ProxyError :=
  match call.sourceData with
  | none => .failed (.expression (.pairedItemNotFound destinationNodeName call.nodeBeforeLast))
  | some sourceData =>
    match getNodeOutput (s.getTaskData sourceData) sourceData with
    | none =>
      .failed (.expression (.missingOutput (sourceData.previousNodeOutput.getD 0)
        sourceData.previousNode call.nodeBeforeLast))
    | some outputData =>
      match outputData[call.pairedItem.item]? with
      | none =>
        if sourceData.previousNode = destinationNodeName then
          .failed (.expression (.invalidPairedItem sourceData.previousNode))
        else .failed (.typeError "pairedItem")
      | some item =>
        if sourceData.previousNode = destinationNodeName then .arrived item
        else if normalizePairedItem (s.pairedItem item) = [] then
          .failed (.expression (.missingPairedItem sourceData.previousNode usedMethodName
            (s.getPinDataIfManualExecution sourceData.previousNode).isSome))
        else .branches (nextCalls sourceData (((s.getTaskData sourceData).map (·.source)).getD [])
          (normalizePairedItem (s.pairedItem item)))

/-- The error where the branches do not agree. -/
def ambiguous (call : Call) : ProxyError :=
  .expression (.multipleItemsFound destinationNodeName call.pairedItem.item)

variable {s} {destinationNodeName} {usedMethodName}

/-- A call without an output fails with an `ExpressionError`. -/
theorem failed_of_not_outputs {call : Call}
    (h : ∀ sourceData outputData, ¬ s.Outputs call sourceData outputData) :
    ∃ error, s.station destinationNodeName usedMethodName call = .failed (.expression error) := by
  unfold station
  cases hsource : call.sourceData with
  | none => exact ⟨_, rfl⟩
  | some sourceData =>
    dsimp only
    cases houtput : getNodeOutput (s.getTaskData sourceData) sourceData with
    | none => exact ⟨_, rfl⟩
    | some outputData => exact absurd ⟨hsource, houtput⟩ (h sourceData outputData)

theorem Outputs.station_eq {call : Call} {sourceData : SourceData} {outputData : List ι}
    (h : s.Outputs call sourceData outputData) :
    s.station destinationNodeName usedMethodName call =
      match outputData[call.pairedItem.item]? with
      | none =>
        if sourceData.previousNode = destinationNodeName then
          .failed (.expression (.invalidPairedItem sourceData.previousNode))
        else .failed (.typeError "pairedItem")
      | some item =>
        if sourceData.previousNode = destinationNodeName then .arrived item
        else if normalizePairedItem (s.pairedItem item) = [] then
          .failed (.expression (.missingPairedItem sourceData.previousNode usedMethodName
            (s.getPinDataIfManualExecution sourceData.previousNode).isSome))
        else .branches (nextCalls sourceData (((s.getTaskData sourceData).map (·.source)).getD [])
          (normalizePairedItem (s.pairedItem item))) := by
  unfold station
  rw [h.1]
  dsimp only
  rw [h.2]

theorem arrives_iff (call : Call) (item : ι) :
    Trace.Arrives (s.station destinationNodeName usedMethodName) call item ↔
      s.Arrives destinationNodeName call item := by
  by_cases houtputs : ∃ sourceData outputData, s.Outputs call sourceData outputData
  · obtain ⟨sourceData, outputData, h⟩ := houtputs
    unfold Trace.Arrives
    rw [h.arrives_iff, h.station_eq]
    cases outputData[call.pairedItem.item]? <;> dsimp only <;> split_ifs <;> simp [*]
  · push Not at houtputs
    obtain ⟨error, hfailed⟩ := failed_of_not_outputs houtputs
    refine iff_of_false ?_ ?_
    · unfold Trace.Arrives
      rw [hfailed]
      exact nofun
    · rintro ⟨sourceData, outputData, h, -⟩
      exact houtputs sourceData outputData h

theorem goes_iff (call next : Call) :
    Trace.Parent (s.station destinationNodeName usedMethodName) call next ↔
      s.Goes destinationNodeName call next := by
  by_cases houtputs : ∃ sourceData outputData, s.Outputs call sourceData outputData
  · obtain ⟨sourceData, outputData, h⟩ := houtputs
    unfold Trace.Parent
    rw [h.goes_iff, h.station_eq]
    cases hitem : outputData[call.pairedItem.item]? with
    | none => dsimp only; split_ifs <;> simp
    | some item =>
      dsimp only
      split_ifs with hnode hpaired
      · simp [hnode]
      · simp [hpaired, nextCalls]
      · simp [hnode]
  · push Not at houtputs
    obtain ⟨error, hfailed⟩ := failed_of_not_outputs houtputs
    refine iff_of_false ?_ ?_
    · rintro ⟨points, hpoints, -⟩
      cases hfailed.symm.trans hpoints
    · rintro ⟨sourceData, outputData, item, h, -⟩
      exact houtputs sourceData outputData h

variable (usedMethodName) in
theorem arrives_eq :
    Trace.Arrives (s.station destinationNodeName usedMethodName) = s.Arrives destinationNodeName :=
  funext₂ fun call item => propext (arrives_iff call item)

variable (usedMethodName) in
theorem goes_eq :
    Trace.Parent (s.station destinationNodeName usedMethodName) = s.Goes destinationNodeName :=
  funext₂ fun call next => propext (goes_iff call next)

/-- The error is an `ExpressionError`. -/
def IsExpression (e : ProxyError) : Prop := ∃ error, e = .expression error

/-- A call fails with an `ExpressionError`, unless its item is missing. -/
theorem failed_proper_iff (call : Call) :
    (∀ e, s.station destinationNodeName usedMethodName call = .failed e → IsExpression e) ↔
      ¬ s.Missing destinationNodeName call := by
  unfold IsExpression
  by_cases houtputs : ∃ sourceData outputData, s.Outputs call sourceData outputData
  · obtain ⟨sourceData, outputData, h⟩ := houtputs
    rw [h.missing_iff, h.station_eq]
    cases outputData[call.pairedItem.item]? with
    | none => dsimp only; split_ifs with hnode <;> simp [hnode]
    | some item => dsimp only; split_ifs <;> simp
  · push Not at houtputs
    obtain ⟨error, hfailed⟩ := failed_of_not_outputs houtputs
    refine iff_of_true (fun e he => ⟨error, ?_⟩) ?_
    · exact Trace.Station.failed.inj (he.symm.trans hfailed)
    · rintro ⟨sourceData, outputData, h, -⟩
      exact houtputs sourceData outputData h

theorem type_of_failed {call : Call} {error : PairedItemError}
    (h : s.station destinationNodeName usedMethodName call = .failed (.expression error)) :
    error.type ≠ "paired_item_no_connection" := by
  unfold station at h
  cases hsource : call.sourceData with
  | none =>
    rw [hsource] at h
    cases h
    simp [PairedItemError.type]
  | some sourceData =>
    rw [hsource] at h
    dsimp only at h
    cases houtput : getNodeOutput (s.getTaskData sourceData) sourceData with
    | none =>
      rw [houtput] at h
      cases h
      simp [PairedItemError.type]
    | some outputData =>
      rw [houtput] at h
      dsimp only at h
      cases hitem : outputData[call.pairedItem.item]? with
      | none =>
        rw [hitem] at h
        dsimp only at h
        split_ifs at h <;> cases h
        simp [PairedItemError.type]
      | some item =>
        rw [hitem] at h
        dsimp only at h
        split_ifs at h
        cases h
        simp [PairedItemError.type]

theorem no_branches_iff (call : Call) :
    s.station destinationNodeName usedMethodName call = .branches [] ↔
      s.DeadEnd destinationNodeName call := by
  by_cases houtputs : ∃ sourceData outputData, s.Outputs call sourceData outputData
  · obtain ⟨sourceData, outputData, h⟩ := houtputs
    rw [h.deadEnd_iff, h.station_eq]
    cases outputData[call.pairedItem.item]? with
    | none => dsimp only; split_ifs <;> simp
    | some item => dsimp only; split_ifs <;> simp [*]
  · push Not at houtputs
    obtain ⟨error, hfailed⟩ := failed_of_not_outputs houtputs
    refine iff_of_false (fun hnone => ?_) ?_
    · cases hfailed.symm.trans hnone
    · rintro ⟨sourceData, outputData, item, h, -⟩
      exact houtputs sourceData outputData h

end Stations

/-! ## The result of a call -/

section Results

theorem result?_eq_found : @result? ι = Trace.found := by
  funext result
  cases result <;> rfl

theorem all_not_isOk_iff {results : List (Except ProxyError ι)} :
    results.all (!isOk ·) ↔ results.filterMap Trace.found = [] := by
  rw [List.all_eq_true, List.filterMap_eq_nil_iff]
  refine forall₂_congr fun result _ => ?_
  cases result <;> simp [isOk, Trace.found]

variable [DecidableEq ι]

/-- The check for no match comes after one that catches it already. -/
theorem matchResults_eq (call : Call) (sourceData : SourceData)
    (sourceArray : List (Option SourceData)) (results : List (Except ProxyError ι)) :
    matchResults destinationNodeName call sourceData sourceArray results =
      Trace.merge (ambiguous destinationNodeName call) (.typeError "error") results := by
  unfold matchResults Trace.merge ambiguous
  simp only [all_not_isOk_iff, result?_eq_found]
  cases hfound : results.filterMap Trace.found with
  | nil => rcases results with _ | ⟨error | item, results⟩ <;> simp
  | cons first rest => simp

variable (usedMethodName : PairedItemMethod)

theorem getPairedItemWithin_eq : ∀ (stack : ℕ) (call : Call),
    s.getPairedItemWithin destinationNodeName usedMethodName stack call =
      Trace.resolve (s.station destinationNodeName usedMethodName) (ambiguous destinationNodeName)
        (.typeError "error") .rangeError stack call
  | 0, _ => rfl
  | stack + 1, call => by
    unfold getPairedItemWithin Trace.resolve station
    have ih := funext (getPairedItemWithin_eq stack)
    cases call.sourceData with
    | none => rfl
    | some sourceData =>
      dsimp only
      cases getNodeOutput (s.getTaskData sourceData) sourceData with
      | none => rfl
      | some outputData =>
        dsimp only
        cases outputData[call.pairedItem.item]? with
        | none => dsimp only; split_ifs <;> rfl
        | some item =>
          dsimp only
          split_ifs
          · rfl
          · rfl
          · rw [matchResults_eq, ih]
            rfl

theorem getPairedItem_follows :
    Trace.Follows (s.station destinationNodeName usedMethodName) (ambiguous destinationNodeName)
      (.typeError "error") (s.getPairedItem destinationNodeName usedMethodName) := by
  have hrank : ∀ call next, Trace.Parent (s.station destinationNodeName usedMethodName) call next →
      s.rank next < s.rank call := fun call next h => rank_lt_of_goes ((goes_iff call next).1 h)
  unfold getPairedItem
  rw [funext (getPairedItemWithin_eq s destinationNodeName usedMethodName s.stackSize)]
  exact Trace.resolve_follows hrank s.rank_lt_stackSize

end Results

/-! ## Ancestry -/

section Ancestry

variable {s} {destinationNodeName} {usedMethodName : PairedItemMethod} {call : Call}

theorem resolves_iff_right {result : Except ProxyError ι} :
    s.Resolves destinationNodeName call result ↔
      Trace.Right (s.station destinationNodeName usedMethodName) IsExpression call result := by
  unfold Resolves Trace.Right IsExpression
  rw [arrives_eq, goes_eq]
  refine and_congr_right fun _ => imp_congr_right fun _ => ?_
  constructor
  · rintro ⟨error, rfl⟩
    exact ⟨_, rfl, error, rfl⟩
  · rintro ⟨_, rfl, error, rfl⟩
    exact ⟨error, rfl⟩

theorem sound_iff :
    Trace.Sound (s.station destinationNodeName usedMethodName) (.typeError "error") IsExpression
        call ↔
      ¬ s.Missing destinationNodeName call ∧ ¬ s.DeadEnd destinationNodeName call ∧
        ¬ Trace.Hides (s.Arrives destinationNodeName) (s.Goes destinationNodeName) call := by
  unfold Trace.Sound
  rw [failed_proper_iff, no_branches_iff, arrives_eq, goes_eq]
  refine and_congr_right fun _ => and_congr_left fun _ => ?_
  simp [IsExpression]

variable [DecidableEq ι]

/-- The item that is the end of every chain is always returned. -/
theorem getPairedItem_eq_ok_of_unique {item : ι}
    (h : Trace.Unique (s.Arrives destinationNodeName) (s.Goes destinationNodeName) call item) :
    s.getPairedItem destinationNodeName usedMethodName call = .ok item := by
  rw [← arrives_eq usedMethodName, ← goes_eq usedMethodName] at h
  exact Trace.eq_ok_of_unique (s.getPairedItem_follows destinationNodeName usedMethodName)
    (fun call next h => rank_lt_of_goes ((goes_iff call next).1 h)) h

/-- An item that is returned is the end of some chain. -/
theorem reaches_of_getPairedItem {item : ι}
    (h : s.getPairedItem destinationNodeName usedMethodName call = .ok item) :
    Trace.Reaches (s.Arrives destinationNodeName) (s.Goes destinationNodeName) call item := by
  rw [← arrives_eq usedMethodName, ← goes_eq usedMethodName]
  exact Trace.reaches_of_eq_ok (s.getPairedItem_follows destinationNodeName usedMethodName)
    (fun call next h => rank_lt_of_goes ((goes_iff call next).1 h)) h

/-- Where an error is not an `ExpressionError`, the way back has a missing item or a dead end. -/
theorem isExpression_of_getPairedItem {e : ProxyError}
    (h : s.getPairedItem destinationNodeName usedMethodName call = .error e) :
    IsExpression e ∨ ∃ next, Relation.ReflTransGen (s.Goes destinationNodeName) call next ∧
      (s.Missing destinationNodeName next ∨ s.DeadEnd destinationNodeName next) := by
  obtain ⟨next, hnext, hpoint⟩ := Trace.point_of_eq_error
    (s.getPairedItem_follows destinationNodeName usedMethodName)
    (fun call next h => rank_lt_of_goes ((goes_iff call next).1 h)) h
  rw [goes_eq] at hnext
  rcases hpoint with hfailed | ⟨hnone, -⟩ | rfl
  · by_cases hmissing : s.Missing destinationNodeName next
    · exact .inr ⟨next, hnext, .inl hmissing⟩
    · exact .inl ((failed_proper_iff next).2 hmissing e hfailed)
  · exact .inr ⟨next, hnext, .inr ((no_branches_iff next).1 hnone)⟩
  · exact .inl ⟨_, rfl⟩

/-- That there is no path back is never reported. -/
theorem type_of_getPairedItem {error : PairedItemError}
    (h : s.getPairedItem destinationNodeName usedMethodName call = .error (.expression error)) :
    error.type ≠ "paired_item_no_connection" := by
  obtain ⟨next, -, hfailed | ⟨-, hempty⟩ | hambiguous⟩ := Trace.point_of_eq_error
    (s.getPairedItem_follows destinationNodeName usedMethodName)
    (fun call next h => rank_lt_of_goes ((goes_iff call next).1 h)) h
  · exact type_of_failed hfailed
  · cases hempty
  · cases hambiguous
    simp [PairedItemError.type]

end Ancestry

/-- What is returned is never made up, a unique item is never lost, and an error that is not an
`ExpressionError` has its cause on the way back. -/
theorem getPairedItem_safe [DecidableEq ι] (usedMethodName : PairedItemMethod) (call : Call) :
    (∀ item, s.getPairedItem destinationNodeName usedMethodName call = .ok item →
      Trace.Reaches (s.Arrives destinationNodeName) (s.Goes destinationNodeName) call item) ∧
    (∀ item, Trace.Unique (s.Arrives destinationNodeName) (s.Goes destinationNodeName) call item →
      s.getPairedItem destinationNodeName usedMethodName call = .ok item) ∧
    (∀ e, s.getPairedItem destinationNodeName usedMethodName call = .error e →
      IsExpression e ∨ ∃ next, Relation.ReflTransGen (s.Goes destinationNodeName) call next ∧
        (s.Missing destinationNodeName next ∨ s.DeadEnd destinationNodeName next)) ∧
    ∀ error, s.getPairedItem destinationNodeName usedMethodName call = .error (.expression error) →
      error.type ≠ "paired_item_no_connection" :=
  ⟨fun _ => reaches_of_getPairedItem, fun _ => getPairedItem_eq_ok_of_unique,
    fun _ => isExpression_of_getPairedItem, fun _ => type_of_getPairedItem⟩

/-- On the whole way back from a call, paired items resolve as they should exactly when no item is
missing before the destination, no item is a dead end, and no conflict is hidden. -/
theorem resolves_on_way_back_iff [DecidableEq ι] (usedMethodName : PairedItemMethod) (call : Call) :
    (∀ next, Relation.ReflTransGen (s.Goes destinationNodeName) call next →
        s.Resolves destinationNodeName next
          (s.getPairedItem destinationNodeName usedMethodName next)) ↔
      ∀ next, Relation.ReflTransGen (s.Goes destinationNodeName) call next →
        ¬ s.Missing destinationNodeName next ∧ ¬ s.DeadEnd destinationNodeName next ∧
          ¬ Trace.Hides (s.Arrives destinationNodeName) (s.Goes destinationNodeName) next := by
  have hambiguous : ∀ call, IsExpression (ambiguous destinationNodeName call) := fun _ => ⟨_, rfl⟩
  have hright := Trace.right_iff (s.getPairedItem_follows destinationNodeName usedMethodName)
    (fun call next h => rank_lt_of_goes ((goes_iff call next).1 h)) hambiguous call
  simpa only [goes_eq, ← resolves_iff_right, sound_iff] using hright

/-- The item of a run without sources says that it comes from an input. -/
def deadEnd : WorkflowDataProxy String where
  mode := .manual
  runData := Dict.empty.set "Edit Fields" [{ executionIndex := 0, main := [some ["edited"]] }]
  pairedItem _ := some (.index 0)
  earlier node tasks htasks task htask source hsource := by
    rw [Dict.get?_set] at htasks
    split_ifs at htasks
    · obtain rfl := Option.some.inj htasks
      obtain rfl := List.mem_singleton.1 htask
      cases hsource
    · cases htasks

def edited : Call where
  incomingSourceData := some { previousNode := "Edit Fields" }
  pairedItem := { item := 0 }

/-- Where no connection leads back to the destination, the error of a result that is not there is
read, and the error for this case is not thrown. -/
theorem deadEnd_not_resolves :
    ¬ deadEnd.Resolves "Trigger" edited
      (deadEnd.getPairedItem "Trigger" .getPairedItem edited) := by
  rintro ⟨hok, hthrows⟩
  have hresult : deadEnd.getPairedItem "Trigger" .getPairedItem edited =
      .error (.typeError "error") := by decide
  rw [hresult] at hok hthrows
  obtain ⟨error, herror⟩ := hthrows fun item hitem => nomatch (hok item).2 hitem
  cases herror

end WorkflowDataProxy

end N8n
