import Mathlib.Data.List.Count
import N8n.DeduplicationHelper
import N8n.Library.Runs
import N8n.Library.Fallible

/-!
# What is recorded as processed

A list that repeats a new value has its hash stored as often, and `removeProcessed` takes out one of
them for each time it is asked, so that the value may stay processed.
-/

namespace N8n

namespace DeduplicationHelper

/-! ## Runs of one context -/

/-- The row of a context in mode `entries`, and what its calls have asked for. -/
structure History (ι η : Type) where
  row : Option (ProcessedData ι η) := none
  /-- The values recorded by a check and not removed since. -/
  recorded : List ι := []
  /-- The values removed since the last check. -/
  removed : List ι := []

inductive Call (ι : Type)
  | checkProcessedAndRecord (items : List ι)
  | removeProcessed (items : List ι)

variable {ι η κ : Type} [DecidableEq ι] [DecidableEq η] [LinearOrder κ] (R : ItemReading ι η κ)

def inEntries : CheckProcessedOptions := { mode := .entries }

namespace History

variable (h : History ι η)

/-- A call that throws leaves the row as it is. -/
def step : Call ι → History ι η
  | .checkProcessedAndRecord items =>
    match DeduplicationHelper.checkProcessedAndRecord R items inEntries h.row with
    | .ok (_, row) => { row, recorded := h.recorded ++ items, removed := [] }
    | .error _ => h
  | .removeProcessed items =>
    match DeduplicationHelper.removeProcessed R items inEntries h.row with
    | .ok row => {
        row
        recorded := h.recorded.filter (· ∉ items)
        removed := h.removed ++ items }
    | .error _ => h

/-- Whatever list is checked next, it is split in two, what is recorded is processed and what has
just been removed is new. -/
def Deduplicates : Prop :=
  ∀ items, ∃ out row,
    DeduplicationHelper.checkProcessedAndRecord R items inEntries h.row = .ok (out, row) ∧
    (out.new ++ out.processed).Perm items ∧
    (∀ v ∈ items, v ∈ h.recorded → v ∈ out.processed ∧ v ∉ out.new) ∧
    (∀ v ∈ items, v ∈ h.removed → v ∈ out.new ∧ v ∉ out.processed)

/-- The hashes of the context. -/
def hashes : List η :=
  match h.row with
  | some ⟨_, .entries data⟩ => data
  | _ => []

/-- No value is asked to be removed fewer times than its hash is stored. -/
def RemovesAll : Call ι → Prop
  | .removeProcessed items => ∀ v ∈ items, h.hashes.count (R.createValueHash v) ≤ items.count v
  | .checkProcessedAndRecord _ => True

end History

/-! ## The stored hashes -/

variable {R} {h : History ι η}

theorem count_foldl_erase (a : η) : ∀ xs data : List η,
    (xs.foldl List.erase data).count a = data.count a - xs.count a
  | [], data => by simp
  | x :: xs, data => by
    rw [List.foldl_cons, count_foldl_erase a xs, List.count_erase, List.count_cons]
    omega

omit [LinearOrder κ] in
theorem count_map_hash (hinj : Function.Injective R.createValueHash) (v : ι) (items : List ι) :
    (items.map R.createValueHash).count (R.createValueHash v) = items.count v :=
  List.count_map_of_injective items _ hinj v

/-- The row is in mode `entries`, and its hashes are those of the recorded values. -/
structure Recorded (R : ItemReading ι η κ) (h : History ι η) : Prop where
  row : h.row = none ∨ h.row = some ⟨.entries, .entries h.hashes⟩
  recorded : ∀ v ∈ h.recorded, R.createValueHash v ∈ h.hashes
  removed : ∀ v ∈ h.removed, R.createValueHash v ∉ h.hashes

omit [DecidableEq ι] in
/-- A check does not throw, and splits the items by the stored hashes. -/
theorem check_eq (hrow : h.row = none ∨ h.row = some ⟨.entries, .entries h.hashes⟩)
    (items : List ι) :
    DeduplicationHelper.checkProcessedAndRecord R items inEntries h.row = .ok (
      { new := items.filter (R.createValueHash · ∉ h.hashes)
        processed := items.filter (R.createValueHash · ∈ h.hashes) },
      some ⟨.entries, .entries (h.hashes ++
        (items.filter (R.createValueHash · ∉ h.hashes)).map R.createValueHash)⟩) := by
  rcases hrow with hrow | hrow
  · have hnone : h.hashes = [] := by
      unfold History.hashes
      rw [hrow]
    rw [hrow, hnone]
    simp [DeduplicationHelper.checkProcessedAndRecord, validateMode, inEntries, handleHashedItems,
      keepLast]
  · rw [hrow]
    rfl

omit [DecidableEq ι] in
theorem Recorded.deduplicates (hr : Recorded R h) : h.Deduplicates R := by
  intro items
  refine ⟨_, _, check_eq hr.row items, ?_, fun v hv hrecorded => ?_, fun v hv hremoved => ?_⟩
  · refine List.perm_append_comm.trans ?_
    simpa using List.filter_append_perm (R.createValueHash · ∈ h.hashes) items
  · have hmem := hr.recorded v hrecorded
    simp [hv, hmem]
  · have hnot := hr.removed v hremoved
    simp [hv, hnot]

theorem Recorded.check (hr : Recorded R h) (items : List ι) :
    Recorded R (h.step R (.checkProcessedAndRecord items)) := by
  have hcheck := check_eq (R := R) hr.row items
  unfold History.step
  dsimp only
  rw [hcheck]
  refine ⟨.inr rfl, fun v hv => ?_, fun v hv => (by cases hv)⟩
  change R.createValueHash v ∈ h.hashes ++ _
  by_cases hmem : R.createValueHash v ∈ h.hashes
  · exact List.mem_append_left _ hmem
  · refine List.mem_append_right _ (List.mem_map.2 ⟨v, List.mem_filter.2 ⟨?_, by simpa⟩, rfl⟩)
    exact (List.mem_append.1 hv).resolve_left fun hold => hmem (hr.recorded v hold)

/-- What a removal leaves. -/
theorem remove_eq (hrow : h.row = none ∨ h.row = some ⟨.entries, .entries h.hashes⟩)
    (items : List ι) :
    (h.step R (.removeProcessed items)).hashes =
        (items.map R.createValueHash).foldl List.erase h.hashes ∧
      (h.step R (.removeProcessed items)).recorded = h.recorded.filter (· ∉ items) ∧
      (h.step R (.removeProcessed items)).removed = h.removed ++ items ∧
      ((h.step R (.removeProcessed items)).row = none ∨
        (h.step R (.removeProcessed items)).row =
          some ⟨.entries, .entries (h.step R (.removeProcessed items)).hashes⟩) := by
  rcases hrow with hrow | hrow
  · have hnone : h.hashes = [] := by
      unfold History.hashes
      rw [hrow]
    have hempty : ∀ xs : List η, xs.foldl List.erase [] = [] := fun xs => by
      rw [← List.diff_eq_foldl, List.nil_diff]
    unfold History.step
    rw [hrow, hnone, hempty]
    exact ⟨rfl, rfl, rfl, .inl rfl⟩
  · unfold History.step
    rw [hrow]
    exact ⟨rfl, rfl, rfl, .inr rfl⟩

theorem Recorded.remove (hinj : Function.Injective R.createValueHash) (hr : Recorded R h)
    {items : List ι} (hall : h.RemovesAll R (.removeProcessed items)) :
    Recorded R (h.step R (.removeProcessed items)) := by
  obtain ⟨hhashes, hrecorded, hremoved, hrow⟩ := remove_eq (R := R) hr.row items
  refine ⟨hrow, fun v hv => ?_, fun v hv => ?_⟩
  · rw [hrecorded, List.mem_filter] at hv
    have hnot : items.count v = 0 := List.count_eq_zero_of_not_mem (of_decide_eq_true hv.2)
    have hpos := List.count_pos_iff.2 (hr.recorded v hv.1)
    rw [hhashes, ← List.count_pos_iff, count_foldl_erase, count_map_hash hinj, hnot]
    exact hpos
  · rw [hhashes, ← List.count_eq_zero, count_foldl_erase, count_map_hash hinj]
    rw [hremoved, List.mem_append] at hv
    rcases hv with hv | hv
    · rw [List.count_eq_zero_of_not_mem (hr.removed v hv), Nat.zero_sub]
    · exact Nat.sub_eq_zero_of_le (hall v hv)

theorem Recorded.step (hinj : Function.Injective R.createValueHash) (hr : Recorded R h)
    {e : Call ι} (hall : h.RemovesAll R e) : Recorded R (h.step R e) := by
  cases e with
  | checkProcessedAndRecord items => exact hr.check items
  | removeProcessed items => exact hr.remove hinj hall

/-- A value whose hash is stored once more is still processed. -/
theorem removesAll_of_deduplicates (hinj : Function.Injective R.createValueHash)
    (hr : Recorded R h) {e : Call ι} (hd : (h.step R e).Deduplicates R) : h.RemovesAll R e := by
  cases e with
  | checkProcessedAndRecord items => trivial
  | removeProcessed items =>
    intro v hv
    obtain ⟨hhashes, -, hremoved, hrow⟩ := remove_eq (R := R) hr.row items
    obtain ⟨out, row, hcheck, -, -, hnew⟩ := hd [v]
    rw [check_eq hrow] at hcheck
    obtain ⟨rfl, -⟩ := Prod.mk.inj (Except.ok.inj hcheck)
    have hout := (hnew v List.mem_cons_self
      (by rw [hremoved]; exact List.mem_append_right _ hv)).1
    have hnot := of_decide_eq_true (List.mem_filter.1 hout).2
    rw [hhashes, ← List.count_eq_zero, count_foldl_erase, count_map_hash hinj] at hnot
    omega

/-- A context loses nothing and forgets on request exactly in the runs that remove each value as
often as it is stored. -/
theorem deduplicates_iff (hinj : Function.Injective R.createValueHash) (es : List (Call ι)) :
    Runs.Along (History.step R) (History.Deduplicates R) {} es ↔
      Runs.Meets (History.step R) (History.RemovesAll R) {} es := by
  have hstart : Recorded R ({} : History ι η) :=
    ⟨.inl rfl, fun _ hv => (by cases hv), fun _ hv => (by cases hv)⟩
  exact Runs.along_iff_meets (fun _ hr => hr.deduplicates) (fun _ _ hr _ hall => hr.step hinj hall)
    (fun _ _ hr _ hnot hd => hnot (removesAll_of_deduplicates hinj hr hd)) hstart
    (Runs.meets_of_forall (C := fun _ => True) fun _ _ => trivial)

/-- Values that are their own hashes. -/
def plain : ItemReading ℕ ℕ ℕ :=
  { number := WithBot.some, tryToParseDateTime := WithBot.some, createValueHash := id }

theorem removed_once : Runs.Along (History.step plain) (History.Deduplicates plain) {}
    [.checkProcessedAndRecord [1, 2], .removeProcessed [1], .checkProcessedAndRecord [1]] :=
  (deduplicates_iff (fun _ _ heq => heq) _).2 ⟨trivial, by
    intro v hv
    obtain rfl := List.mem_singleton.1 hv
    decide, trivial, trivial⟩

/-- The first list of the context repeats a value, which is then removed once. -/
theorem repeated_stays_processed : ¬ Runs.Along (History.step plain) (History.Deduplicates plain) {}
    [.checkProcessedAndRecord [1, 1], .removeProcessed [1]] := by
  intro h
  obtain ⟨out, row, hcheck, -, -, hnew⟩ := h.last [1]
  obtain ⟨rfl, -⟩ := Prod.mk.inj (Except.ok.inj hcheck)
  exact absurd (hnew 1 (by decide) (by decide)) (by decide)

end DeduplicationHelper

end N8n

/-!
# The watermark of the latest modes

The first call records the largest of its items, and each later one moves the record up to the
largest item it has seen. A first list that is empty has no largest item: what is recorded is then
undefined, and no item compares with it.
-/

namespace N8n

namespace DeduplicationHelper

variable {ι η κ : Type} [LinearOrder κ] (R : ItemReading ι η κ)

/-- The items that are later than all that have been seen. -/
def later (mode : DeduplicationMode) (seen items : List ι) : List ι :=
  items.filter fun v => ∀ w ∈ seen, reading R mode (some w) < reading R mode (some v)

def notLater (mode : DeduplicationMode) (seen items : List ι) : List ι :=
  items.filter fun v => ¬ ∀ w ∈ seen, reading R mode (some w) < reading R mode (some v)

/-- Each call returns as new what is later than all items of the calls before. -/
def Follows (mode : DeduplicationMode) :
    List ι → List (List ι) → List (DeduplicationOutput ι) → Prop
  | _, [], outs => outs = []
  | _, _ :: _, [] => False
  | seen, items :: calls, out :: outs =>
    out.new.Perm (later R mode seen items) ∧ out.processed.Perm (notLater R mode seen items) ∧
      Follows mode (seen ++ items) calls outs

/-- All items can be read in the mode. -/
def Valid (mode : DeduplicationMode) (items : List ι) : Prop :=
  ∀ v ∈ items, reading R mode (some v) ≠ ⊥

/-- A first list that is empty is followed by empty lists only. -/
def FirstNonempty (calls : List (List ι)) : Prop :=
  calls.head? = some [] → ∀ items ∈ calls, items = []

variable {R} {mode : DeduplicationMode}

theorem compareValues_eq (hmode : mode ≠ .entries) {v w : Option ι} (hv : reading R mode v ≠ ⊥)
    (hw : reading R mode w ≠ ⊥) : ∃ o, compareValues R mode v w = .ok o ∧
      (o = .gt ↔ reading R mode w < reading R mode v) := by
  cases mode with
  | entries => exact absurd rfl hmode
  | latestIncrementalKey =>
    refine ⟨_, if_pos ⟨hv, hw⟩, ?_⟩
    split_ifs with heq hgt
    · simp [heq]
    · simpa using hgt
    · simpa using hgt
  | latestDate =>
    refine ⟨_, if_pos ⟨hv, hw⟩, ?_⟩
    split_ifs with hgt
    · simpa using hgt
    · simpa using hgt

/-- Nothing compares with `undefined`. -/
theorem compareValues_undefined (R : ItemReading ι η κ) (mode : DeduplicationMode) (v : Option ι) :
    ∃ e, compareValues R mode v none = .error e := by
  cases mode with
  | entries => exact ⟨_, rfl⟩
  | latestIncrementalKey => exact ⟨_, if_neg fun h => h.2 rfl⟩
  | latestDate => exact ⟨_, if_neg fun h => h.2 rfl⟩

/-! ## Sorting -/

/-- An item is not later than another. -/
def NotAfter (R : ItemReading ι η κ) (mode : DeduplicationMode) (v w : ι) : Prop :=
  reading R mode (some v) ≤ reading R mode (some w)

instance : DecidableRel (NotAfter R mode) := fun _ _ => inferInstanceAs (Decidable (_ ≤ _))

theorem sortEntries_eq (hmode : mode ≠ .entries) {items : List ι} (hvalid : Valid R mode items) :
    sortEntries R items mode = .ok (items.insertionSort (NotAfter R mode)) := by
  refine FallibleSort.insertionSortM_eq fun v hv w hw => ?_
  obtain ⟨o, ho, hgt⟩ := compareValues_eq hmode (hvalid v hv) (hvalid w hw)
  exact ⟨o, ho, hgt.trans not_le.symm⟩

/-- The last of the sorted items is the largest. -/
theorem getLast?_insertionSort (R : ItemReading ι η κ) (mode : DeduplicationMode) {items : List ι}
    (hne : items ≠ []) :
    ∃ w ∈ items, (items.insertionSort (NotAfter R mode)).getLast? = some w ∧
      ∀ v ∈ items, NotAfter R mode v w := by
  have hperm := List.perm_insertionSort (NotAfter R mode) items
  have hsorted : (items.insertionSort (NotAfter R mode)).Pairwise (NotAfter R mode) :=
    haveI : Std.Total (NotAfter R mode) := ⟨fun _ _ => le_total _ _⟩
    haveI : IsTrans ι (NotAfter R mode) := ⟨fun _ _ _ => le_trans⟩
    List.pairwise_insertionSort _ _
  rcases hl : items.insertionSort (NotAfter R mode) with _ | ⟨a, l⟩
  · rw [hl] at hperm
    exact absurd (List.nil_perm.1 hperm) hne
  · obtain ⟨w, hw⟩ := Option.ne_none_iff_exists'.1
      (List.getLast?_eq_none_iff.not.2 (List.cons_ne_nil a l))
    rw [← hl] at hw ⊢
    refine ⟨w, hperm.mem_iff.1 (List.mem_of_getLast? hw), hw, fun v hv => ?_⟩
    obtain ⟨init, hinit⟩ := List.getLast?_eq_some_iff.1 hw
    rw [hinit] at hsorted
    have hmem : v ∈ init ++ [w] := hinit ▸ hperm.mem_iff.2 hv
    rcases List.mem_append.1 hmem with hv | hv
    · exact (List.pairwise_append.1 hsorted).2.2 v hv w List.mem_cons_self
    · rw [List.mem_singleton.1 hv]
      exact le_refl _

/-! ## One call -/

/-- What a call does to its sorted items: those after the recorded one are new, and the largest
value is at least each of them. -/
theorem foldlM_checkLatest (hmode : mode ≠ .entries) {w : ι} (hw : reading R mode (some w) ≠ ⊥) :
    ∀ {items : List ι} (out : DeduplicationOutput ι) {l : ι}, Valid R mode items →
      NotAfter R mode w l → ∃ l', items.foldlM (checkLatest R mode (some w)) (out, some l) = .ok (
          { new := out.new ++ items.filter fun v => ¬ NotAfter R mode v w
            processed := out.processed ++ items.filter fun v => NotAfter R mode v w }, some l') ∧
        (l' = l ∨ l' ∈ items) ∧ NotAfter R mode l l' ∧ ∀ v ∈ items, NotAfter R mode v l'
  | [], out, l, _, _ => ⟨l, by simp; rfl, .inl rfl, le_refl _, fun _ hv => (by cases hv)⟩
  | v :: items, out, l, hvalid, hl => by
    have hv := hvalid v List.mem_cons_self
    have hrest : Valid R mode items := fun u hu => hvalid u (List.mem_cons_of_mem v hu)
    have hlvalid : reading R mode (some l) ≠ ⊥ := fun hbot => hw (le_bot_iff.1 (hbot ▸ hl))
    obtain ⟨o, ho, hgt⟩ := compareValues_eq hmode hv hw
    rw [List.foldlM_cons]
    by_cases hafter : NotAfter R mode v w
    · have hne : o ≠ .gt := fun heq => absurd (hgt.1 heq) (not_lt.2 hafter)
      have hstep : checkLatest R mode (some w) (out, some l) v =
          .ok ({ out with processed := out.processed ++ [v] }, some l) := by
        unfold checkLatest
        rw [ho]
        exact if_neg hne
      obtain ⟨l', hfold, hmem, hle, hall⟩ := foldlM_checkLatest hmode hw
        { out with processed := out.processed ++ [v] } hrest hl
      refine ⟨l', ?_, hmem.imp_right (List.mem_cons_of_mem v), hle, fun u hu => ?_⟩
      · rw [hstep]
        exact hfold.trans (by simp [hafter])
      · rcases List.mem_cons.1 hu with rfl | hu
        · exact (le_trans hafter hl).trans hle
        · exact hall u hu
    · obtain ⟨o', ho', hgt'⟩ := compareValues_eq hmode hv hlvalid
      have hstep : checkLatest R mode (some w) (out, some l) v =
          .ok ({ out with new := out.new ++ [v] }, some (if NotAfter R mode v l then l else v)) := by
        unfold checkLatest
        rw [ho, ho']
        refine (if_pos (hgt.2 (not_le.1 hafter))).trans ?_
        by_cases hlarger : NotAfter R mode v l
        · rw [if_pos hlarger]
          exact if_neg fun heq => absurd (hgt'.1 heq) (not_lt.2 hlarger)
        · rw [if_neg hlarger]
          exact if_pos (hgt'.2 (not_le.1 hlarger))
      have hnext : NotAfter R mode l (if NotAfter R mode v l then l else v) := by
        split_ifs with hlarger
        · exact le_refl _
        · exact (not_le.1 hlarger).le
      have hvnext : NotAfter R mode v (if NotAfter R mode v l then l else v) := by
        split_ifs with hlarger
        · exact hlarger
        · exact le_refl _
      obtain ⟨l', hfold, hmem, hle, hall⟩ := foldlM_checkLatest hmode hw
        { out with new := out.new ++ [v] } hrest (le_trans hl hnext)
      refine ⟨l', ?_, ?_, le_trans hnext hle, fun u hu => ?_⟩
      · rw [hstep]
        exact hfold.trans (by simp [hafter])
      · rcases hmem with rfl | hmem
        · split_ifs
          · exact .inl rfl
          · exact .inr List.mem_cons_self
        · exact .inr (List.mem_cons_of_mem v hmem)
      · rcases List.mem_cons.1 hu with rfl | hu
        · exact le_trans hvnext hle
        · exact hall u hu

/-- The recorded value is the largest of those seen. -/
structure Watermark (R : ItemReading ι η κ) (mode : DeduplicationMode) (seen : List ι) (w : ι) :
    Prop where
  mem : w ∈ seen
  largest : ∀ v ∈ seen, NotAfter R mode v w

theorem Watermark.later_iff {seen : List ι} {w : ι} (h : Watermark R mode seen w) (v : ι) :
    (∀ u ∈ seen, reading R mode (some u) < reading R mode (some v)) ↔ ¬ NotAfter R mode v w :=
  ⟨fun hall => not_le.2 (hall w h.mem),
    fun hnot u hu => lt_of_le_of_lt (h.largest u hu) (not_le.1 hnot)⟩

variable [DecidableEq η]

section

variable (R)

/-- The calls of one context, up to the first that throws. -/
def runChecks (options : CheckProcessedOptions) :
    Option (ProcessedData ι η) → List (List ι) → Except String (List (DeduplicationOutput ι))
  | _, [] => .ok []
  | row, items :: calls => do
    let (out, row) ← checkProcessedAndRecord R items options row
    return out :: (← runChecks options row calls)

end

theorem runChecks_cons {options : CheckProcessedOptions} {row row' : Option (ProcessedData ι η)}
    {items : List ι} {out : DeduplicationOutput ι}
    (hcheck : checkProcessedAndRecord R items options row = .ok (out, row'))
    (calls : List (List ι)) (outs : List (DeduplicationOutput ι)) :
    runChecks R options row (items :: calls) = .ok outs ↔
      ∃ outs', runChecks R options row' calls = .ok outs' ∧ out :: outs' = outs := by
  rw [runChecks, hcheck]
  change (runChecks R options row' calls >>= fun outs => .ok (out :: outs)) = _ ↔ _
  rw [Fallible.bind_eq_ok]
  simp only [Except.ok.injEq]

theorem check_latest {options : CheckProcessedOptions} (hmode : options.mode ≠ .entries)
    {row : Option (ProcessedData ι η)} (hrow : ∀ r ∈ row, r.mode = options.mode) (items : List ι) :
    checkProcessedAndRecord R items options row = handleLatestModes R items options row := by
  have hvalidate : validateMode row options = .ok () := by
    cases row with
    | none => rfl
    | some r => exact if_neg (not_not.2 (hrow r rfl))
  unfold checkProcessedAndRecord
  rw [hvalidate]
  cases hm : options.mode with
  | entries => exact absurd hm hmode
  | latestIncrementalKey => rfl
  | latestDate => rfl

/-- The row of a context whose record is this value. -/
def latestRow (options : CheckProcessedOptions) (data : Option ι) : Option (ProcessedData ι η) :=
  some ⟨options.mode, .latest data⟩

theorem check_latestRow {options : CheckProcessedOptions} (hmode : options.mode ≠ .entries)
    {items : List ι} (hvalid : Valid R options.mode items) (data : Option ι) :
    checkProcessedAndRecord R items options (latestRow (η := η) options data) =
      (items.insertionSort (NotAfter R options.mode)).foldlM (checkLatest R options.mode data)
        ({}, data) >>= fun r => .ok (r.1, latestRow options r.2) := by
  rw [check_latest hmode fun r hr => (by cases hr; rfl), handleLatestModes,
    sortEntries_eq hmode hvalid]
  rfl

theorem check_first {options : CheckProcessedOptions} (hmode : options.mode ≠ .entries)
    {items : List ι} (hvalid : Valid R options.mode items) :
    checkProcessedAndRecord (η := η) R items options none = .ok ({ new := items },
      latestRow options (items.insertionSort (NotAfter R options.mode)).getLast?) := by
  rw [check_latest hmode fun r hr => (by cases hr), handleLatestModes, sortEntries_eq hmode hvalid]
  rfl

theorem check_later {options : CheckProcessedOptions} (hmode : options.mode ≠ .entries)
    {seen items : List ι} {w : ι} (hw : Watermark R options.mode seen w)
    (hwvalid : reading R options.mode (some w) ≠ ⊥) (hvalid : Valid R options.mode items) :
    ∃ out w', checkProcessedAndRecord R items options (latestRow (η := η) options (some w)) =
        .ok (out, latestRow options (some w')) ∧
      out.new.Perm (later R options.mode seen items) ∧
      out.processed.Perm (notLater R options.mode seen items) ∧
      Watermark R options.mode (seen ++ items) w' ∧ reading R options.mode (some w') ≠ ⊥ := by
  have hperm := List.perm_insertionSort (NotAfter R options.mode) items
  have hsorted : Valid R options.mode (items.insertionSort (NotAfter R options.mode)) :=
    fun v hv => hvalid v (hperm.mem_iff.1 hv)
  obtain ⟨w', hfold, hmem, hle, hall⟩ :=
    foldlM_checkLatest hmode hwvalid {} hsorted (le_refl _)
  refine ⟨_, w', (check_latestRow hmode hvalid _).trans (by rw [hfold]; rfl), ?_, ?_,
    ⟨?_, fun v hv => ?_⟩, ?_⟩
  · have hlater : later R options.mode seen items =
        items.filter fun v => ¬ NotAfter R options.mode v w :=
      List.filter_congr fun v _ => decide_eq_decide.2 (hw.later_iff v)
    rw [hlater]
    exact hperm.filter _
  · have hlater : notLater R options.mode seen items =
        items.filter fun v => NotAfter R options.mode v w :=
      List.filter_congr fun v _ => decide_eq_decide.2 ((hw.later_iff v).not.trans not_not)
    rw [hlater]
    exact hperm.filter _
  · rcases hmem with rfl | hmem
    · exact List.mem_append_left _ hw.mem
    · exact List.mem_append_right _ (hperm.mem_iff.1 hmem)
  · rcases List.mem_append.1 hv with hv | hv
    · exact le_trans (hw.largest v hv) hle
    · exact hall v (hperm.mem_iff.2 hv)
  · rcases hmem with rfl | hmem
    · exact hwvalid
    · exact hsorted w' hmem

/-- With nothing to compare with, every list that is not empty fails. -/
theorem check_undefined {options : CheckProcessedOptions} (hmode : options.mode ≠ .entries)
    {items : List ι} (hvalid : Valid R options.mode items) (hne : items ≠ []) :
    ∃ e, checkProcessedAndRecord R items options (latestRow (η := η) options none) = .error e := by
  rw [check_latestRow hmode hvalid]
  rcases hl : items.insertionSort (NotAfter R options.mode) with _ | ⟨v, l⟩
  · have hperm := List.perm_insertionSort (NotAfter R options.mode) items
    rw [hl] at hperm
    exact absurd (List.nil_perm.1 hperm) hne
  · obtain ⟨e, he⟩ := compareValues_undefined R options.mode (some v)
    refine ⟨e, ?_⟩
    rw [List.foldlM_cons, checkLatest, he]
    rfl

/-! ## All calls -/

theorem runChecks_later {options : CheckProcessedOptions} (hmode : options.mode ≠ .entries) :
    ∀ {calls : List (List ι)} {seen : List ι} {w : ι}, Watermark R options.mode seen w →
      reading R options.mode (some w) ≠ ⊥ → (∀ items ∈ calls, Valid R options.mode items) →
      ∃ outs, runChecks R options (latestRow (η := η) options (some w)) calls = .ok outs ∧
        Follows R options.mode seen calls outs
  | [], _, _, _, _, _ => ⟨[], rfl, rfl⟩
  | items :: calls, seen, w, hw, hwvalid, hvalid => by
    obtain ⟨out, w', hcheck, hnew, hprocessed, hw', hwvalid'⟩ :=
      check_later (η := η) hmode hw hwvalid (hvalid items List.mem_cons_self)
    obtain ⟨outs, hrun, hfollows⟩ := runChecks_later hmode hw' hwvalid'
      fun items hitems => hvalid items (List.mem_cons_of_mem _ hitems)
    exact ⟨out :: outs, (runChecks_cons hcheck calls _).2 ⟨outs, hrun, rfl⟩, hnew, hprocessed,
      hfollows⟩

/-- Empty lists leave an undefined record as it is. -/
theorem runChecks_undefined {options : CheckProcessedOptions} (hmode : options.mode ≠ .entries) :
    ∀ {calls : List (List ι)}, (∀ items ∈ calls, Valid R options.mode items) →
      ((∃ outs, runChecks R options (latestRow (η := η) options none) calls = .ok outs ∧
        Follows R options.mode [] calls outs) ↔ ∀ items ∈ calls, items = [])
  | [], _ => ⟨fun _ _ h => (by cases h), fun _ => ⟨[], rfl, rfl⟩⟩
  | items :: calls, hvalid => by
    have hrest : ∀ items ∈ calls, Valid R options.mode items :=
      fun items hitems => hvalid items (List.mem_cons_of_mem _ hitems)
    by_cases hne : items = []
    · subst hne
      have hcheck : checkProcessedAndRecord R [] options (latestRow (η := η) options none) =
          .ok ({}, latestRow options none) := by
        rw [check_latestRow hmode fun v hv => (by cases hv)]
        rfl
      rw [List.forall_mem_cons, ← runChecks_undefined hmode hrest]
      constructor
      · rintro ⟨outs, hrun, hfollows⟩
        obtain ⟨outs', hrun', rfl⟩ := (runChecks_cons hcheck calls outs).1 hrun
        exact ⟨rfl, outs', hrun', hfollows.2.2⟩
      · rintro ⟨-, outs, hrun, hfollows⟩
        exact ⟨{} :: outs, (runChecks_cons hcheck calls _).2 ⟨outs, hrun, rfl⟩, .nil, .nil,
          hfollows⟩
    · obtain ⟨e, he⟩ := check_undefined (η := η) hmode (hvalid items List.mem_cons_self) hne
      refine iff_of_false ?_ fun hall => hne (hall items List.mem_cons_self)
      rintro ⟨outs, hrun, -⟩
      rw [runChecks, he] at hrun
      cases hrun

/-- Valid items are deduplicated by a watermark, without a throw, exactly when the first list is not
empty or no list has items. -/
theorem follows_iff {options : CheckProcessedOptions} (hmode : options.mode ≠ .entries)
    {calls : List (List ι)} (hvalid : ∀ items ∈ calls, Valid R options.mode items) :
    (∃ outs, runChecks (η := η) R options none calls = .ok outs ∧
      Follows R options.mode [] calls outs) ↔ FirstNonempty calls := by
  cases calls with
  | nil => exact ⟨fun _ h => (by cases h), fun _ => ⟨[], rfl, rfl⟩⟩
  | cons items calls =>
    have hrest : ∀ items ∈ calls, Valid R options.mode items :=
      fun items hitems => hvalid items (List.mem_cons_of_mem _ hitems)
    have hfirst := check_first (η := η) hmode (hvalid items List.mem_cons_self)
    unfold FirstNonempty
    by_cases hne : items = []
    · subst hne
      rw [List.forall_mem_cons]
      simp only [List.head?_cons, forall_const, true_and]
      rw [← runChecks_undefined (η := η) hmode hrest]
      constructor
      · rintro ⟨outs, hrun, hfollows⟩
        obtain ⟨outs', hrun', rfl⟩ := (runChecks_cons hfirst calls outs).1 hrun
        exact ⟨outs', hrun', hfollows.2.2⟩
      · rintro ⟨outs, hrun, hfollows⟩
        exact ⟨{} :: outs, (runChecks_cons hfirst calls _).2 ⟨outs, hrun, rfl⟩, .nil, .nil,
          hfollows⟩
    · refine iff_of_true ?_ fun hnil => absurd (Option.some.inj hnil) hne
      obtain ⟨w, hmem, hlast, hall⟩ := getLast?_insertionSort R options.mode hne
      rw [hlast] at hfirst
      obtain ⟨outs, hrun, hfollows⟩ := runChecks_later (η := η) hmode ⟨hmem, hall⟩
        (hvalid items List.mem_cons_self w hmem) hrest
      refine ⟨{ new := items } :: outs, (runChecks_cons hfirst calls _).2 ⟨outs, hrun, rfl⟩, ?_, ?_,
        hfollows⟩
      · simp [later]
      · simp [notLater]

/-- Numbers that are their own hashes; none is a date. -/
def numbers : ItemReading ℕ ℕ ℕ :=
  { number := WithBot.some, tryToParseDateTime := fun _ => ⊥, createValueHash := id }

theorem follows_numbers : ∃ outs,
    runChecks (η := ℕ) numbers { mode := .latestIncrementalKey } none [[2, 1], [], [3, 2]] =
        .ok outs ∧
      Follows numbers .latestIncrementalKey [] [[2, 1], [], [3, 2]] outs :=
  (follows_iff (R := numbers)
    (by decide : (CheckProcessedOptions.mk .latestIncrementalKey none).mode ≠ .entries)
    fun _ _ v _ => WithBot.coe_ne_bot (a := v)).2 fun h => absurd h (by decide)

/-- The first list is empty, and the next call throws. -/
theorem empty_list_first : ¬ ∃ outs,
    runChecks (η := ℕ) numbers { mode := .latestIncrementalKey } none [[], [1]] = .ok outs ∧
      Follows numbers .latestIncrementalKey [] [[], [1]] outs := by
  rintro ⟨outs, hrun, -⟩
  cases hrun

end DeduplicationHelper

end N8n
