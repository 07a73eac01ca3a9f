import Mathlib.Tactic
import N8n.DataTableColumns

/-!
# Columns keep their order

The indexes are the positions in a list that requests insert into and erase from, so long as each
request finds its column as it has read it. A column that has moved in between is taken from a place
where it is not.
-/

namespace N8n

namespace DataTableColumns

open Positions

variable {s : DataTableColumns} {order : List String}

theorem get?_shiftColumns (s : DataTableColumns) (lowestIndex delta : ℤ) (id : String) :
    (s.shiftColumns lowestIndex delta).columns.get? id = (s.columns.get? id).map fun column =>
      { column with index := shift lowestIndex delta column.index } := Dict.get?_mapValues _ _ _

theorem get?_updateIndex (s : DataTableColumns) (columnId : String) (index : ℤ) (id : String) :
    (s.updateIndex columnId index).columns.get? id = (s.columns.get? id).map fun column =>
      if id = columnId then { column with index } else column := Dict.get?_mapEntries _ _ _

theorem indexOf_eq {id : String} {column : DataTableColumn} (h : s.columns.get? id = some column) :
    s.indexOf id = some column.index := by
  rw [indexOf, h, Option.map_some]

theorem isSome_indexOf (s : DataTableColumns) (id : String) :
    (s.indexOf id).isSome = (s.columns.get? id).isSome := by
  rw [indexOf, Option.isSome_map]

theorem Ordered.mem_iff (h : s.Ordered order) (id : String) :
    id ∈ order ↔ (s.columns.get? id).isSome := by
  rw [h.lists.mem_iff, isSome_indexOf]

theorem Ordered.perm_keys (h : s.Ordered order) : s.columns.keys.Perm order := by
  refine (List.perm_ext_iff_of_nodup s.columns.nodup h.lists.nodup).2 fun id => ?_
  exact Dict.mem_keys.trans (h.mem_iff id).symm

theorem Ordered.length_eq (h : s.Ordered order) : order.length = s.columns.size := by
  rw [← h.perm_keys.length_eq, Dict.keys, List.length_map, Dict.size]

/-- The columns come in the order. -/
theorem Ordered.getColumns (h : s.Ordered order)
    {arrange : List (String × DataTableColumn) → List (String × DataTableColumn)}
    (harrange : ∀ rows, (arrange rows).Perm rows) : (s.getColumns arrange).map (·.1) = order := by
  have hperm : (s.getColumns arrange).Perm s.columns.entries :=
    (List.mergeSort_perm _ _).trans (harrange _)
  have hindex : ∀ {id column}, (id, column) ∈ s.getColumns arrange →
      s.columns.get? id = some column := fun hmem => Dict.mem_entries.1 (hperm.mem_iff.1 hmem)
  have hsorted : ((s.getColumns arrange).map (·.1)).Pairwise
      fun a b => ∀ p ∈ s.indexOf a, ∀ q ∈ s.indexOf b, p ≤ q := by
    rw [List.pairwise_map]
    have hpairs : (s.getColumns arrange).Pairwise fun a b =>
        decide (a.2.index ≤ b.2.index) = true :=
      List.pairwise_mergeSort (fun a b c hab hbc => by simp at *; omega)
        (fun a b => by simp; omega) _
    refine hpairs.imp_of_mem fun {a b} ha hb hab p hp q hq => ?_
    rw [indexOf_eq (hindex ha)] at hp
    rw [indexOf_eq (hindex hb)] at hq
    obtain rfl := Option.some.inj hp
    obtain rfl := Option.some.inj hq
    exact of_decide_eq_true hab
  have horder : order.Pairwise fun a b => ∀ p ∈ s.indexOf a, ∀ q ∈ s.indexOf b, p ≤ q := by
    rw [List.pairwise_iff_getElem]
    intro i j hi hj hij p hp q hq
    rw [h.lists.getElem?_eq (List.getElem?_eq_getElem hi)] at hp
    rw [h.lists.getElem?_eq (List.getElem?_eq_getElem hj)] at hq
    obtain rfl := Option.some.inj hp
    obtain rfl := Option.some.inj hq
    omega
  refine List.Perm.eq_of_pairwise (fun a b ha hb hab hba => ?_) hsorted horder
    ((hperm.map _).trans h.perm_keys)
  obtain ⟨i, ha'⟩ := List.mem_iff_getElem?.1 ((h.perm_keys.mem_iff.1 ((hperm.map _).mem_iff.1 ha)))
  obtain ⟨j, hb'⟩ := List.mem_iff_getElem?.1 hb
  have hle := hab i (h.lists.getElem?_eq ha') j (h.lists.getElem?_eq hb')
  have hge := hba j (h.lists.getElem?_eq hb') i (h.lists.getElem?_eq ha')
  have heq : i = j := by omega
  subst heq
  exact Option.some.inj (ha'.symm.trans hb')

/-! ## Transactions -/

theorem existsByName_eq_false {name : String} (h : ¬ s.existsByName name = true) (id : String) :
    s.nameOf id ≠ some name := by
  intro hname
  obtain ⟨column, hget, rfl⟩ := Option.map_eq_some_iff.1 hname
  exact h (List.any_eq_true.2 ⟨(id, column), Dict.mem_entries.2 hget, decide_eq_true rfl⟩)

/-- A column with a new name at the position where it is inserted. -/
theorem Ordered.add (h : s.Ordered order) {s' : DataTableColumns} {newId name : String} {n : ℕ}
    (hn : n ≤ order.length) (hnew : s.columns.get? newId = none)
    (hname : ∀ id, s.nameOf id ≠ some name) (hindex : ∀ id, s'.indexOf id =
      if id = newId then some (n : ℤ) else (s.indexOf id).map (shift n 1))
    (hnames : ∀ id, s'.nameOf id = if id = newId then some name else s.nameOf id)
    (htable : s'.userTable = s.userTable ++ [name]) : s'.Ordered (order.insertIdx n newId) := by
  have hnone : s.nameOf newId = none := by rw [nameOf, hnew, Option.map_none]
  refine ⟨(h.lists.insertIdx hn (by rw [indexOf, hnew, Option.map_none])).congr hindex,
    fun id id' name' hid hid' => ?_, fun name' => ?_⟩
  · rw [hnames] at hid hid'
    split_ifs at hid hid' with hid₁ hid₂ hid₂
    · rw [hid₁, hid₂]
    · exact absurd (hid'.trans hid.symm) (hname id')
    · exact absurd (hid.trans hid'.symm) (hname id)
    · exact h.names id id' name' hid hid'
  · rw [htable, List.mem_append, List.mem_singleton, h.table]
    constructor
    · rintro (⟨id, hid⟩ | rfl)
      · have hne : id ≠ newId := by
          rintro rfl
          rw [hnone] at hid
          cases hid
        exact ⟨id, by rw [hnames, if_neg hne, hid]⟩
      · exact ⟨newId, by rw [hnames, if_pos rfl]⟩
    · rintro ⟨id, hid⟩
      rw [hnames] at hid
      split_ifs at hid
      · exact .inr (Option.some.inj hid).symm
      · exact .inl ⟨id, hid⟩

theorem addColumn_cases (s : DataTableColumns) (newId : String)
    (schema : DataTableCreateColumnSchema) (ddlFails : Bool) :
    (∃ e, s.addColumn newId schema ddlFails = (s, some e)) ∨
      (∀ id, s.nameOf id ≠ some schema.name) ∧
        s.addColumn newId schema ddlFails = (s.insertColumn newId schema, none) := by
  unfold DataTableColumns.addColumn
  split_ifs with _ _ hexists
  · exact .inl ⟨_, rfl⟩
  · exact .inl ⟨_, rfl⟩
  · exact .inl ⟨_, rfl⟩
  · exact .inl ⟨_, rfl⟩
  · exact .inr ⟨existsByName_eq_false hexists, rfl⟩

theorem Ordered.insertColumn (h : s.Ordered order) {newId : String}
    {schema : DataTableCreateColumnSchema} (hnew : s.columns.get? newId = none)
    (hname : ∀ id, s.nameOf id ≠ some schema.name)
    (hindex : ∀ index ∈ schema.index, 0 ≤ index ∧ index ≤ s.columns.size) :
    (s.insertColumn newId schema).Ordered
      (order.insertIdx (schema.index.getD order.length).toNat newId) := by
  unfold DataTableColumns.insertColumn
  have hlength := h.length_eq
  cases hgiven : schema.index with
  | none =>
    have hn : (Option.getD none (order.length : ℤ)).toNat = order.length := Int.toNat_natCast _
    rw [hn]
    refine h.add le_rfl hnew hname (fun id => ?_) (fun id => ?_) rfl
    · simp only [Option.isNone_none, if_true, indexOf, Dict.get?_set, Option.getD_none]
      split_ifs with hid
      · rw [hlength]
        rfl
      · cases hget : s.columns.get? id with
        | none => rfl
        | some column =>
          -- all columns come before the new one
          have hlists := (h.lists id column.index).1 (indexOf_eq hget)
          obtain ⟨i, hi, heq⟩ := hlists
          obtain ⟨hlt, -⟩ := List.getElem?_eq_some_iff.1 hi
          simp only [Option.map_some, shift]
          rw [if_neg (by omega)]
    · simp only [Option.isNone_none, if_true, nameOf, Dict.get?_set]
      split_ifs <;> rfl
  | some index =>
    obtain ⟨hzero, hle⟩ := hindex index hgiven
    have hcast : ((index.toNat : ℕ) : ℤ) = index := Int.toNat_of_nonneg hzero
    have hn : (Option.getD (some index) (order.length : ℤ)).toNat = index.toNat := rfl
    rw [hn]
    refine h.add (by omega) hnew hname (fun id => ?_) (fun id => ?_) rfl
    · simp only [Option.isNone_some, Bool.false_eq_true, if_false, indexOf, Dict.get?_set,
        Option.getD_some, get?_shiftColumns, hcast]
      split_ifs
      · rfl
      · rw [Option.map_map, Option.map_map]
        rfl
    · simp only [Option.isNone_some, Bool.false_eq_true, if_false, nameOf, Dict.get?_set,
        get?_shiftColumns]
      split_ifs
      · rfl
      · rw [Option.map_map]
        rfl

theorem Ordered.getElem?_eq (h : s.Ordered order) {id : String} {column : DataTableColumn}
    (hget : s.columns.get? id = some column) :
    ∃ n : ℕ, order[n]? = some id ∧ column.index = n ∧ order.erase id = order.eraseIdx n := by
  obtain ⟨n, hn, heq⟩ := (h.lists id column.index).1 (indexOf_eq hget)
  obtain ⟨hlt, hid⟩ := List.getElem?_eq_some_iff.1 hn
  exact ⟨n, hn, heq.symm, hid ▸ h.lists.nodup.erase_getElem n hlt⟩

theorem indexOf_removeColumn (s : DataTableColumns) (id : String) (column : DataTableColumn)
    (id' : String) : (s.removeColumn id column).indexOf id' =
      if id' = id then none else (s.indexOf id').map (shift column.index (-1)) := by
  simp only [indexOf, removeColumn, get?_shiftColumns, Dict.get?_erase]
  split_ifs
  · rfl
  · rw [Option.map_map, Option.map_map]
    rfl

theorem nameOf_removeColumn (s : DataTableColumns) (id : String) (column : DataTableColumn)
    (id' : String) : (s.removeColumn id column).nameOf id' =
      if id' = id then none else s.nameOf id' := by
  simp only [nameOf, removeColumn, get?_shiftColumns, Dict.get?_erase]
  split_ifs
  · rfl
  · rw [Option.map_map]
    rfl

theorem Ordered.deleteColumn (h : s.Ordered order) {id : String} {column : DataTableColumn}
    (hget : s.columns.get? id = some column) (ddlFails : Bool) :
    (s.deleteColumn id column ddlFails).1.Ordered
      (if (s.deleteColumn id column ddlFails).2.isSome then order else order.erase id) := by
  obtain ⟨n, hn, hindex, herase⟩ := h.getElem?_eq hget
  have hname : s.nameOf id = some column.name := by rw [nameOf, hget, Option.map_some]
  unfold DataTableColumns.deleteColumn
  by_cases hfails : (ddlFails || decide (column.name ∉ s.userTable)) = true
  · rw [if_pos hfails]
    exact h
  · rw [if_neg hfails, herase]
    refine ⟨(h.lists.eraseIdx hn).congr fun id' => ?_, fun id₁ id₂ name hid₁ hid₂ => ?_,
      fun name => ?_⟩
    · rw [indexOf_removeColumn, hindex]
    · rw [nameOf_removeColumn] at hid₁ hid₂
      split_ifs at hid₁ hid₂
      exact h.names id₁ id₂ name hid₁ hid₂
    · have htable : (s.removeColumn id column).userTable =
          s.userTable.filter (· ≠ column.name) := rfl
      rw [htable, List.mem_filter, h.table, decide_eq_true_eq]
      constructor
      · rintro ⟨⟨id', hid'⟩, hne⟩
        have hother : id' ≠ id := by
          rintro rfl
          exact hne (Option.some.inj (hid'.symm.trans hname))
        exact ⟨id', by rw [nameOf_removeColumn, if_neg hother, hid']⟩
      · rintro ⟨id', hid'⟩
        rw [nameOf_removeColumn] at hid'
        split_ifs at hid' with hother
        exact ⟨⟨id', hid'⟩, fun heq => hother (h.names id' id name hid' (heq ▸ hname))⟩

theorem Ordered.moveColumn (h : s.Ordered order) {id : String} {column : DataTableColumn}
    (hget : s.columns.get? id = some column) (targetIndex : ℤ) :
    (s.moveColumn id column targetIndex).1.Ordered
      (if (s.moveColumn id column targetIndex).2.isSome then order
        else (order.erase id).insertIdx targetIndex.toNat id) := by
  obtain ⟨n, hn, hindex, herase⟩ := h.getElem?_eq hget
  have hlength := h.length_eq
  unfold DataTableColumns.moveColumn
  by_cases hnegative : targetIndex < 0
  · rw [if_pos hnegative]
    exact h
  by_cases hlarge : (s.columns.size : ℤ) ≤ targetIndex
  · rw [if_neg hnegative, if_pos hlarge]
    exact h
  rw [if_neg hnegative, if_neg hlarge, herase]
  have hcast : ((targetIndex.toNat : ℕ) : ℤ) = targetIndex := Int.toNat_of_nonneg (by omega)
  have hroom : targetIndex.toNat ≤ (order.eraseIdx n).length := by
    obtain ⟨hlt, -⟩ := List.getElem?_eq_some_iff.1 hn
    rw [List.length_eraseIdx_of_lt hlt]
    omega
  have hnames : ∀ id', (((s.shiftColumns column.index (-1)).shiftColumns targetIndex 1).updateIndex
      id targetIndex).nameOf id' = s.nameOf id' := by
    intro id'
    simp only [nameOf, get?_updateIndex, get?_shiftColumns, Option.map_map]
    refine congrArg (Option.map · _) (funext fun column' => ?_)
    simp only [Function.comp_apply]
    split_ifs <;> rfl
  refine ⟨((h.lists.eraseIdx hn).insertIdx hroom (if_pos rfl)).congr fun id' => ?_,
    fun id₁ id₂ name hid₁ hid₂ => ?_, fun name => ?_⟩
  · simp only [indexOf, get?_updateIndex, get?_shiftColumns, hcast]
    by_cases hid : id' = id
    · simp [hid, hget]
    · simp only [hid, if_false, Option.map_map, hindex]
      rfl
  · rw [hnames] at hid₁ hid₂
    exact h.names id₁ id₂ name hid₁ hid₂
  · simp only [hnames]
    exact h.table name

/-! ## Runs -/

theorem Ordered.congr {s' : DataTableColumns} (h : s.Ordered order)
    (hcolumns : s'.columns = s.columns) (htable : s'.userTable = s.userTable) :
    s'.Ordered order := by
  have hindex : s'.indexOf = s.indexOf := funext fun id => by rw [indexOf, hcolumns, indexOf]
  have hname : s'.nameOf = s.nameOf := funext fun id => by rw [nameOf, hcolumns, nameOf]
  exact ⟨hindex ▸ h.lists, hname ▸ h.names, by rw [htable, hname]; exact h.table⟩

theorem Ordered.step (h : s.Ordered order) {e : Event} (hadm : s.Admissible e) :
    (s.step e).Ordered (s.reorder order e) := by
  unfold DataTableColumns.step reorder
  cases e with
  | addColumn newId schema ddlFails =>
    obtain ⟨hnew, hindex⟩ := hadm.newId newId schema ddlFails rfl
    rcases addColumn_cases s newId schema ddlFails with ⟨e, heq⟩ | ⟨hname, heq⟩
    · simp only [handle, heq]
      exact h
    · simp only [handle, heq]
      exact h.insertColumn hnew hname hindex
  | validateColumnExists columnId =>
    cases hget : s.columns.get? columnId with
    | none =>
      simp only [handle, hget]
      exact h
    | some column =>
      simp only [handle, hget]
      exact h.congr rfl rfl
  | deleteColumn request ddlFails =>
    have hfresh := hadm.fresh
    unfold held? at hfresh
    cases hheld : s.existingColumns[request]? with
    | none =>
      simp only [handle, hheld]
      exact h
    | some held =>
      have hdropped : (s.dropRequest request).Ordered order := h.congr rfl rfl
      simp only [handle, hheld]
      exact hdropped.deleteColumn (hfresh held hheld) ddlFails
  | moveColumn request targetIndex =>
    have hfresh := hadm.fresh
    unfold held? at hfresh
    cases hheld : s.existingColumns[request]? with
    | none =>
      simp only [handle, hheld]
      exact h
    | some held =>
      have hdropped : (s.dropRequest request).Ordered order := h.congr rfl rfl
      simp only [handle, hheld]
      exact hdropped.moveColumn (hfresh held hheld) targetIndex

theorem ordered_empty : ({} : DataTableColumns).Ordered [] where
  lists := lists_nil
  names _ _ _ hid := by cases hid
  table name := by
    constructor
    · intro hmem
      cases hmem
    · rintro ⟨id, hid⟩
      cases hid

def swap : List Event :=
  [.addColumn "a" ⟨"x", .number, none⟩ false, .addColumn "b" ⟨"y", .date, some 0⟩ false,
    .validateColumnExists "a", .moveColumn 0 0]

end DataTableColumns

end N8n
