import Mathlib.Data.List.Chain
import Mathlib.Data.List.Find
import N8n.Library.Fallible
import N8n.RemoveDuplicates
import N8n.Proofs.FieldMatching

/-!
# When the first of each group of duplicates is kept

The sort brings duplicates together just if the comparator is an order on the items, which it is not
where neither of two different values is less than the other.
-/

namespace N8n

namespace RemoveDuplicates

open Doubles

/-- What the proofs take from elsewhere. Equal values are converted to the same number. -/
structure Laws (rt : DedupRuntime) : Prop where
  refl : ∀ a, rt.isEqual a a = true
  symm : ∀ {a b}, rt.isEqual a b = true → rt.isEqual b a = true
  trans : ∀ {a b c}, rt.isEqual a b = true → rt.isEqual b c = true → rt.isEqual a c = true
  zero_one : rt.isEqual (.number (.ofNat 0)) (.number (.ofNat 1)) = false
  lt_congr : ∀ {a a' b b'}, rt.isEqual a a' = true → rt.isEqual b b' = true → lt rt a b = lt rt a' b'
  /-- Of the index a path sees all or nothing, or there is nothing where it leads. -/
  get_index : ∀ field,
    (∀ json index, rt.get (.object (withIndex json index)) field = rt.get (.object json) field) ∨
      (∀ json index, rt.get (.object (withIndex json index)) field = .number (.ofNat index)) ∨
      ∀ json index, rt.get (.object (withIndex json index)) field = .undefined

variable {rt : DedupRuntime} {δ : Type} {settings : Settings} {keys : List String}

/-! ## The comparator -/

theorem Number.lt_asymm {a b : Number} (h : a.lt b = true) : b.lt a = false := by
  cases a <;> cases b <;> simp_all [Number.lt, le_of_lt]

theorem lt_asymm {a b : JsValue} (h : lt rt a b = true) : lt rt b a = false := by
  unfold lt at h ⊢
  split at h
  · exact decide_eq_false (List.lt_asymm (of_decide_eq_true h))
  · next hnot =>
    split
    · exact absurd rfl (hnot _ _ rfl)
    · exact Number.lt_asymm h

section

variable (laws : Laws rt)

include laws

theorem isEqual_comm (a b : JsValue) : rt.isEqual a b = rt.isEqual b a :=
  Bool.eq_iff_iff.2 ⟨laws.symm, laws.symm⟩

theorem isEqual_congr {a a' b b' : JsValue} (ha : rt.isEqual a a' = true)
    (hb : rt.isEqual b b' = true) : rt.isEqual a b = rt.isEqual a' b' :=
  Bool.eq_iff_iff.2 ⟨fun h => laws.trans (laws.symm ha) (laws.trans h hb),
    fun h => laws.trans ha (laws.trans h (laws.symm hb))⟩

end

/-- The compared fields of two objects have equal values. -/
def SameJson (rt : DedupRuntime) (settings : Settings) (keys : List String) (a b : Json) : Prop :=
  ∀ key ∈ keys, rt.isEqual (read rt settings a key) (read rt settings b key) = true

theorem compareItems_iff {a b : Json} :
    compareItems rt settings keys a b = true ↔ SameJson rt settings keys a b := by
  simp [compareItems, SameJson]

theorem comparator_eq_zero_iff {a b : Json} :
    comparator rt settings keys a b = 0 ↔ SameJson rt settings keys a b := by
  unfold comparator
  split
  · next h => simpa [List.find?_eq_none, SameJson] using h
  · next key h =>
    have hkey : rt.isEqual (read rt settings a key) (read rt settings b key) = false := by
      simpa using List.find?_some h
    refine iff_of_false (by split_ifs <;> decide) fun hsame => ?_
    rw [hsame key (List.mem_of_find?_eq_some h)] at hkey
    cases hkey

/-- One object comes before another by the first compared field where they differ. -/
theorem comparator_neg_iff {a b : Json} : comparator rt settings keys a b < 0 ↔
    ∃ key, keys.find? (fun key =>
        !rt.isEqual (read rt settings a key) (read rt settings b key)) = some key ∧
      lt rt (read rt settings a key) (read rt settings b key) = true := by
  unfold comparator
  split
  · next h => simp [h]
  · next key h =>
    simp only [h, Option.some.injEq, exists_eq_left']
    split_ifs with hlt <;> simp [hlt]

section

variable (laws : Laws rt)

include laws

theorem SameJson.symm {a b : Json} (h : SameJson rt settings keys a b) :
    SameJson rt settings keys b a :=
  fun key hkey => laws.symm (h key hkey)

theorem SameJson.trans {a b c : Json} (h : SameJson rt settings keys a b)
    (h' : SameJson rt settings keys b c) : SameJson rt settings keys a c :=
  fun key hkey => laws.trans (h key hkey) (h' key hkey)

theorem comparator_asymm {a b : Json} (h : comparator rt settings keys a b < 0) :
    ¬ comparator rt settings keys b a < 0 := by
  obtain ⟨key, hfind, hlt⟩ := comparator_neg_iff.1 h
  intro h'
  obtain ⟨key', hfind', hlt'⟩ := comparator_neg_iff.1 h'
  simp only [isEqual_comm laws (read rt settings b _)] at hfind'
  obtain rfl : key = key' := Option.some.inj (hfind.symm.trans hfind')
  rw [lt_asymm hlt] at hlt'
  cases hlt'

theorem comparator_congr {a a' b b' : Json} (ha : SameJson rt settings keys a a')
    (hb : SameJson rt settings keys b b') :
    comparator rt settings keys a b = comparator rt settings keys a' b' := by
  have hfind : keys.find? (fun key =>
        !rt.isEqual (read rt settings a key) (read rt settings b key)) =
      keys.find? fun key => !rt.isEqual (read rt settings a' key) (read rt settings b' key) :=
    List.find?_congr fun key hkey => by rw [isEqual_congr laws (ha key hkey) (hb key hkey)]
  unfold comparator
  rw [hfind]
  split
  · rfl
  · next key h =>
    have hkey := List.mem_of_find?_eq_some h
    rw [laws.lt_congr (ha key hkey) (hb key hkey)]

end

/-! ## Items with their indexes -/

/-- The items with their indexes, each with the object of the item. -/
theorem mem_newItems {items : List (DataItem δ)} {x : NewItem} : x ∈ newItems items ↔
    ∃ item, items[x.index]? = some item ∧ x.json = withIndex item.json x.index := by
  unfold newItems
  rw [List.mem_map]
  constructor
  · rintro ⟨⟨item, index⟩, hmem, rfl⟩
    exact ⟨item, List.mem_zipIdx_iff_getElem?.1 hmem, rfl⟩
  · rintro ⟨item, hitem, hjson⟩
    refine ⟨(item, x.index), List.mem_zipIdx_iff_getElem?.2 hitem, ?_⟩
    obtain ⟨json, index⟩ := x
    dsimp only at hjson
    rw [hjson]

theorem nodup_newItems (items : List (DataItem δ)) : (newItems items).Nodup := by
  refine List.Nodup.of_map NewItem.index ?_
  have hmap : (newItems items).map NewItem.index = List.range items.length := by
    unfold newItems
    rw [List.map_map]
    exact List.zipIdx_map_snd 0 items |>.trans List.range_eq_range'.symm
  rw [hmap]
  exact List.nodup_range

theorem take_newItems (items : List (DataItem δ)) (i : ℕ) :
    (newItems items).take i = newItems (items.take i) := by
  refine List.ext_getElem? fun j => ?_
  by_cases hj : j < i <;> simp [newItems, hj]

theorem getElem?_newItems {items : List (DataItem δ)} {i : ℕ} {item : DataItem δ}
    (h : items[i]? = some item) : (newItems items)[i]? = some ⟨withIndex item.json i, i⟩ := by
  simp [newItems, List.getElem?_map, List.getElem?_zipIdx, h]

theorem sortItems_perm (rt : DedupRuntime) (settings : Settings) (keys : List String)
    (method : StableSort.Method) (items : List NewItem) :
    (sortItems rt settings keys method items).Perm items :=
  StableSort.sort_perm method _ items

/-- The comparator does not put the second item before the first. -/
abbrev mayPrecede (rt : DedupRuntime) (settings : Settings) (keys : List String)
    (item item' : NewItem) : Bool :=
  !decide (comparator rt settings keys item'.json item.json < 0)

abbrev sameItems (rt : DedupRuntime) (settings : Settings) (keys : List String)
    (item item' : NewItem) : Bool :=
  compareItems rt settings keys item.json item'.json

theorem removedIndexes_eq (temp : NewItem) : ∀ rest : List NewItem,
    removedIndexes rt settings keys temp rest =
      (StableSort.laterOfRuns (sameItems rt settings keys) temp rest).map NewItem.index
  | [] => rfl
  | item :: rest => by
    unfold removedIndexes StableSort.laterOfRuns
    rw [removedIndexes_eq temp rest, removedIndexes_eq item rest]
    split_ifs <;> rfl

section

variable (laws : Laws rt) {items : List (DataItem δ)} (hunseen : IndexUnseen rt settings keys items)

include laws hunseen

/-- The compared fields of an item with its index are those of the item. -/
theorem exists_same_of_mem_newItems {x : NewItem} (hx : x ∈ newItems items) :
    ∃ item ∈ items, SameJson rt settings keys x.json item.json := by
  obtain ⟨item, hitem, hjson⟩ := mem_newItems.1 hx
  have hmem := List.mem_of_getElem? hitem
  refine ⟨item, hmem, fun key hkey => ?_⟩
  rw [hjson, hunseen item hmem key hkey]
  exact laws.refl _

variable (hordered : Ordered rt settings keys items)

include hordered

theorem total_newItems {x y : NewItem} (hx : x ∈ newItems items) (hy : y ∈ newItems items) :
    SameJson rt settings keys x.json y.json ∨ comparator rt settings keys x.json y.json < 0 ∨
      comparator rt settings keys y.json x.json < 0 := by
  obtain ⟨a, ha, hxa⟩ := exists_same_of_mem_newItems laws hunseen hx
  obtain ⟨b, hb, hyb⟩ := exists_same_of_mem_newItems laws hunseen hy
  rw [comparator_congr laws hxa hyb, comparator_congr laws hyb hxa]
  refine (hordered.total a ha b hb).imp_left fun hsame => ?_
  exact SameJson.trans laws hxa (SameJson.trans laws hsame (SameJson.symm laws hyb))

theorem acyclic_newItems {x y z : NewItem} (hx : x ∈ newItems items) (hy : y ∈ newItems items)
    (hz : z ∈ newItems items) (hxy : comparator rt settings keys x.json y.json < 0)
    (hyz : comparator rt settings keys y.json z.json < 0) :
    ¬ comparator rt settings keys z.json x.json < 0 := by
  obtain ⟨a, ha, hxa⟩ := exists_same_of_mem_newItems laws hunseen hx
  obtain ⟨b, hb, hyb⟩ := exists_same_of_mem_newItems laws hunseen hy
  obtain ⟨c, hc, hzc⟩ := exists_same_of_mem_newItems laws hunseen hz
  rw [comparator_congr laws hxa hyb] at hxy
  rw [comparator_congr laws hyb hzc] at hyz
  rw [comparator_congr laws hzc hxa]
  exact hordered.acyclic a ha b hb c hc hxy hyz

/-- The comparator orders the items with their indexes. -/
theorem orders_newItems : StableSort.Orders (mayPrecede rt settings keys) (newItems items) where
  total x hx y hy := by
    simp only [Bool.not_eq_true', decide_eq_false_iff_not]
    by_cases h : comparator rt settings keys y.json x.json < 0
    · exact .inr (comparator_asymm laws h)
    · exact .inl h
  trans x hx y hy z hz hxy hyz := by
    simp only [Bool.not_eq_true', decide_eq_false_iff_not] at hxy hyz ⊢
    intro hzx
    rcases total_newItems laws hunseen hordered hx hy with hsame | hbefore | hbefore
    · -- `z` comes before what is the same as `x`.
      rw [comparator_congr laws (fun key _ => laws.refl _) hsame] at hzx
      exact hyz hzx
    · rcases total_newItems laws hunseen hordered hy hz with hsame | hbefore' | hbefore'
      · rw [← comparator_congr laws hsame (fun key _ => laws.refl _)] at hzx
        exact comparator_asymm laws hbefore hzx
      · exact acyclic_newItems laws hunseen hordered hx hy hz hbefore hbefore' hzx
      · exact hyz hbefore'
    · exact hxy hbefore

theorem respects_newItems : StableSort.Respects (sameItems rt settings keys)
    (mayPrecede rt settings keys) (newItems items) where
  symm h := compareItems_iff.2 (SameJson.symm laws (compareItems_iff.1 h))
  trans h h' := compareItems_iff.2 (SameJson.trans laws (compareItems_iff.1 h)
    (compareItems_iff.1 h'))
  rel x _ y _ h := by
    have hzero := comparator_eq_zero_iff.2 (SameJson.symm laws (compareItems_iff.1 h))
    simp only [Bool.not_eq_true', decide_eq_false_iff_not, hzero]
    exact lt_irrefl 0
  same_of_rel x hx y hy hxy hyx := by
    simp only [Bool.not_eq_true', decide_eq_false_iff_not] at hxy hyx
    refine compareItems_iff.2 ?_
    exact (total_newItems laws hunseen hordered hx hy).resolve_right (by tauto)

/-- The indexes of the items that an earlier one is the same as. -/
theorem mem_removedIndexes {method : StableSort.Method} {temp : NewItem} {rest : List NewItem}
    (hsorted : sortItems rt settings keys method (newItems items) = temp :: rest) {i : ℕ}
    {item : DataItem δ} (hitem : items[i]? = some item) :
    i ∈ removedIndexes rt settings keys temp rest ↔
      ∃ earlier ∈ items.take i, Same rt settings keys earlier item := by
  have hlater := StableSort.mem_laterOfRuns (orders_newItems laws hunseen hordered)
    (respects_newItems laws hunseen hordered) (nodup_newItems items) hsorted
  have hseen (j : ℕ) {a : DataItem δ} (ha : a ∈ items) :
      SameJson rt settings keys (withIndex a.json j) a.json := fun key hkey => by
    rw [hunseen a ha key hkey]
    exact laws.refl _
  have hitem' := List.mem_of_getElem? hitem
  rw [removedIndexes_eq, List.mem_map]
  constructor
  · rintro ⟨x, hx, rfl⟩
    obtain ⟨y, hyx, hsame⟩ := (hlater x).1 hx
    obtain ⟨item', hx', hjson⟩ := mem_newItems.1 (hyx.subset (show x ∈ [y, x] by simp))
    obtain rfl : item = item' := Option.some.inj (hitem.symm.trans hx')
    have hx : (newItems items)[x.index]? = some x := by
      rw [getElem?_newItems hitem, ← hjson]
    have hy := (StableSort.pair_sublist_iff (nodup_newItems items) hx).1 hyx
    rw [take_newItems] at hy
    obtain ⟨earlier, hearlier, hjson'⟩ := mem_newItems.1 hy
    have hearlier := List.mem_of_getElem? hearlier
    refine ⟨earlier, hearlier, ?_⟩
    have hsame := compareItems_iff.1 hsame
    rw [hjson, hjson'] at hsame
    exact SameJson.trans laws (SameJson.symm laws (hseen _ (List.mem_of_mem_take hearlier)))
      (SameJson.trans laws (SameJson.symm laws hsame) (hseen _ hitem'))
  · rintro ⟨earlier, hearlier, hsame⟩
    obtain ⟨j, hj⟩ := List.mem_iff_getElem?.1 hearlier
    refine ⟨⟨withIndex item.json i, i⟩, (hlater _).2 ⟨⟨withIndex earlier.json j, j⟩, ?_, ?_⟩, rfl⟩
    · rw [StableSort.pair_sublist_iff (nodup_newItems items) (getElem?_newItems hitem),
        take_newItems]
      exact mem_newItems.2 ⟨earlier, hj, rfl⟩
    · exact compareItems_iff.2 (SameJson.trans laws (hseen i hitem')
        (SameJson.trans laws (SameJson.symm laws hsame)
          (SameJson.symm laws (hseen j (List.mem_of_mem_take hearlier)))))

end

/-! ## Accepted items -/

/-- The value may be left out, or it is of the given type. -/
def Admissible (rt : DedupRuntime) (settings : Settings) (key : String) (type : CodeUnits)
    (json : Json) : Prop :=
  ((read rt settings json key).isNull = true ∧ settings.typeVersion > 1) ∨
    (read rt settings json key).isUndefined = false ∧ (read rt settings json key).typeOf = type

theorem admissible_iff {key : String} {type : CodeUnits} {json : Json}
    (h : ((read rt settings json key).isNull && decide (settings.typeVersion > 1)) = false) :
    Admissible rt settings key type json ↔ (read rt settings json key).isUndefined = false ∧
      (read rt settings json key).typeOf = type := by
  unfold Admissible
  rw [or_iff_right]
  rintro ⟨hnull, hversion⟩
  simp [hnull, hversion] at h

theorem validateKey_eq_ok_iff {key : String} : ∀ {items : List NewItem} {i : ℕ}
    {type : Option CodeUnits}, validateKey rt settings key items i type = .ok () ↔
      items = [] ∨ key ≠ "" ∧ ∃ t, (type = none ∨ type = some t) ∧
        ∀ item ∈ items, Admissible rt settings key t item.json
  | [], _, _ => iff_of_true rfl (.inl rfl)
  | item :: items, i, type => by
    rw [or_iff_right (List.cons_ne_nil item items)]
    simp only [List.forall_mem_cons]
    unfold validateKey
    by_cases hkey : key = ""
    · rw [if_pos hkey]
      exact iff_of_false (fun h => by cases h) fun h => h.1 hkey
    rw [if_neg hkey]
    dsimp only
    split_ifs with hnull hundefined htype
    · rw [validateKey_eq_ok_iff]
      have hitem (t : CodeUnits) : Admissible rt settings key t item.json := by
        rw [Bool.and_eq_true, decide_eq_true_eq] at hnull
        exact .inl hnull
      constructor
      · rintro (rfl | ⟨_, t, ht, hrest⟩)
        · refine ⟨hkey, type.getD [], ?_, hitem _, fun _ h => absurd h List.not_mem_nil⟩
          cases type <;> simp
        · exact ⟨hkey, t, ht, hitem t, hrest⟩
      · rintro ⟨_, t, ht, -, hrest⟩
        exact .inr ⟨hkey, t, ht, hrest⟩
    · refine iff_of_false (fun h => by cases h) ?_
      rintro ⟨_, t, -, hitem, -⟩
      rw [((admissible_iff (Bool.eq_false_iff.2 hnull)).1 hitem).1] at hundefined
      cases hundefined
    · refine iff_of_false (fun h => by cases h) ?_
      rintro ⟨_, t, ht, hitem, -⟩
      rw [((admissible_iff (Bool.eq_false_iff.2 hnull)).1 hitem).2] at htype
      tauto
    · rw [validateKey_eq_ok_iff]
      have hitem {t : CodeUnits} : Admissible rt settings key t item.json ↔
          (read rt settings item.json key).typeOf = t := by
        rw [admissible_iff (Bool.eq_false_iff.2 hnull), Bool.eq_false_iff.2 hundefined]
        exact and_iff_right rfl
      constructor
      · rintro (rfl | ⟨_, t, ht, hrest⟩)
        · exact ⟨hkey, _, by tauto, hitem.2 rfl, fun _ h => absurd h List.not_mem_nil⟩
        · obtain rfl : _ = t := Option.some.inj (ht.resolve_left (by simp))
          exact ⟨hkey, _, by tauto, hitem.2 rfl, hrest⟩
      · rintro ⟨_, t, -, ht, hrest⟩
        exact .inr ⟨hkey, t, .inr (congrArg some (hitem.1 ht)), hrest⟩

/-- Every compared field has a name, and its values in all items are of one type. -/
def Accepted (rt : DedupRuntime) (settings : Settings) (keys : List String)
    (items : List NewItem) : Prop :=
  ∀ key ∈ keys, items = [] ∨ key ≠ "" ∧ ∃ type, ∀ item ∈ items,
    Admissible rt settings key type item.json

theorem validateInputData_eq_ok_iff {items : List NewItem} :
    validateInputData rt settings keys items = .ok () ↔ Accepted rt settings keys items := by
  unfold validateInputData Accepted
  rw [Fallible.forM_eq_ok]
  simp only [validateKey_eq_ok_iff, true_or, true_and]

section

variable (laws : Laws rt)

include laws

/-- Of the index a field shows all or nothing, or there is nothing where it leads. -/
theorem read_withIndex (settings : Settings) (key : String) :
    (∀ json index, read rt settings (withIndex json index) key = read rt settings json key) ∨
      (∀ json index, read rt settings (withIndex json index) key = .number (.ofNat index)) ∨
      ∀ json index, read rt settings (withIndex json index) key = .undefined := by
  unfold read FieldMatching.readField
  cases settings.disableDotNotation with
  | false => exact laws.get_index key
  | true =>
    simp only [if_true, FieldMatching.readKey, withIndex, FieldMatching.lookup_setEntry]
    by_cases hkey : units key = indexKey
    · exact .inr (.inl fun _ _ => by rw [if_pos hkey, Option.getD_some])
    · exact .inl fun _ _ => by rw [if_neg hkey]

theorem number_zero_ne_one : (.number (.ofNat 0) : JsValue) ≠ .number (.ofNat 1) := fun h => by
  have hequal := laws.zero_one
  rw [h, laws.refl] at hequal
  cases hequal

theorem Admissible.reindex {key : String} {type : CodeUnits} {json : Json} {i : ℕ}
    (h : Admissible rt settings key type (withIndex json i)) (j : ℕ) :
    Admissible rt settings key type (withIndex json j) := by
  unfold Admissible at h ⊢
  rcases read_withIndex laws settings key with hread | hread | hread
  · rwa [hread] at h ⊢
  · rw [hread] at h ⊢
    exact h
  · rw [hread] at h ⊢
    exact h

variable {L items : List (DataItem δ)} (haccepted : Accepted rt settings keys (newItems L))

include haccepted

/-- Items of an accepted list are accepted in any order and number. -/
theorem Accepted.sortItems (hsub : ∀ item ∈ items, item ∈ L) (method : StableSort.Method) :
    Accepted rt settings keys (sortItems rt settings keys method (newItems items)) := by
  intro key hkey
  have hperm := sortItems_perm rt settings keys method (newItems items)
  rcases haccepted key hkey with hnil | ⟨hne, type, hall⟩
  · obtain rfl : L = [] := by simpa [newItems] using hnil
    obtain rfl := List.eq_nil_iff_forall_not_mem.2 fun item h => List.not_mem_nil (hsub item h)
    exact .inl (List.perm_nil.1 hperm)
  · refine .inr ⟨hne, type, fun x hx => ?_⟩
    obtain ⟨item, hitem, hjson⟩ := mem_newItems.1 (hperm.subset hx)
    obtain ⟨i, hi⟩ := List.mem_iff_getElem?.1 (hsub item (List.mem_of_getElem? hitem))
    rw [hjson]
    exact (hall ⟨withIndex item.json i, i⟩ (mem_newItems.2 ⟨item, hi, rfl⟩)).reindex laws x.index

omit laws in
theorem not_undefined {a : DataItem δ} (ha : a ∈ L) {key : String} (hkey : key ∈ keys)
    (hread : ∀ json index, read rt settings (withIndex json index) key = .undefined) : False := by
  obtain ⟨i, hi⟩ := List.mem_iff_getElem?.1 ha
  have hmem := (mem_newItems (x := ⟨withIndex a.json i, i⟩)).2 ⟨a, hi, rfl⟩
  rcases haccepted key hkey with hnil | ⟨-, type, hall⟩
  · rw [hnil] at hmem
    cases hmem
  · have hadmissible := hall _ hmem
    unfold Admissible at hadmissible
    rw [hread] at hadmissible
    rcases hadmissible with ⟨h, -⟩ | ⟨h, -⟩ <;> cases h

/-- Where the index is not seen in an item, no compared field shows it. -/
theorem read_of_unseen {a : DataItem δ} (ha : a ∈ L) (hunseen : IndexUnseen rt settings keys L)
    {key : String} (hkey : key ∈ keys) (json : Json) (index : ℕ) :
    read rt settings (withIndex json index) key = read rt settings json key := by
  have hunseen := hunseen a ha key hkey
  rcases read_withIndex laws settings key with hread | hread | hread
  · exact hread json index
  · have hzero := (hunseen 0).trans (hunseen 1).symm
    rw [hread, hread] at hzero
    exact absurd hzero (number_zero_ne_one laws)
  · exact (not_undefined haccepted ha hkey hread).elim

end

/-! ## What is left -/

/-- The indexes that are removed. -/
def removed (rt : DedupRuntime) (settings : Settings) (keys : List String)
    (method : StableSort.Method) (items : List (DataItem δ)) : List ℕ :=
  match sortItems rt settings keys method (newItems items) with
  | [] => []
  | temp :: rest => removedIndexes rt settings keys temp rest

def leftItems (rt : DedupRuntime) (settings : Settings) (keys : List String)
    (method : StableSort.Method) (items : List (DataItem δ)) : List (DataItem δ) :=
  (items.zipIdx.filter fun (_, index) => index ∉ removed rt settings keys method items).map Prod.fst

theorem removeDuplicatesBy_eq_ok_iff {method : StableSort.Method} {items : List (DataItem δ)}
    {left : List (OutputItem δ)} : removeDuplicatesBy rt settings keys method items = .ok left ↔
      Accepted rt settings keys (sortItems rt settings keys method (newItems items)) ∧
        output rt settings keys (leftItems rt settings keys method items) = left := by
  unfold removeDuplicatesBy
  dsimp only
  rw [Fallible.map_eq_ok, ← validateInputData_eq_ok_iff]
  exact ⟨fun ⟨_, h, hleft⟩ => ⟨h, hleft⟩, fun ⟨h, hleft⟩ => ⟨(), h, hleft⟩⟩

theorem length_output (rt : DedupRuntime) (settings : Settings) (keys : List String)
    (items : List (DataItem δ)) : (output rt settings keys items).length = items.length := by
  unfold output
  split_ifs <;> simp

/-- An order on the items brings the duplicates together. -/
theorem leftItems_eq_firstItems (laws : Laws rt) {items : List (DataItem δ)}
    (hunseen : IndexUnseen rt settings keys items) (hordered : Ordered rt settings keys items)
    (method : StableSort.Method) :
    leftItems rt settings keys method items = firstItems rt settings keys items := by
  unfold leftItems firstItems removed
  refine congrArg _ (List.filter_congr fun ⟨item, index⟩ hmem => decide_eq_decide.2 ?_)
  have hitem := List.mem_zipIdx_iff_getElem?.1 hmem
  cases hsorted : sortItems rt settings keys method (newItems items) with
  | nil =>
    have hnil := (hsorted ▸ sortItems_perm rt settings keys method (newItems items)).symm.eq_nil
    obtain rfl : items = [] := by simpa [newItems] using hnil
    cases hitem
  | cons temp rest =>
    dsimp only
    rw [mem_removedIndexes laws hunseen hordered hsorted hitem]
    push Not
    rfl

/-! ## Lists that are not sorted -/

theorem removedIndexes_eq_nil : ∀ {temp : NewItem} {rest : List NewItem},
    (temp :: rest).IsChain (fun x y => compareItems rt settings keys y.json x.json = false) →
      removedIndexes rt settings keys temp rest = []
  | _, [], _ => rfl
  | temp, item :: rest, h => by
    rw [List.isChain_cons_cons] at h
    rw [removedIndexes, h.1, if_neg (by simp), removedIndexes_eq_nil h.2]

/-- Where no neighbours are the same after sorting, all items are left. -/
theorem leftItems_eq_self {method : StableSort.Method} {items : List (DataItem δ)}
    (h : (sortItems rt settings keys method (newItems items)).IsChain fun x y =>
      compareItems rt settings keys y.json x.json = false) :
    leftItems rt settings keys method items = items := by
  have hnil : removed rt settings keys method items = [] := by
    unfold removed
    split
    · rfl
    · next hsorted => exact removedIndexes_eq_nil (hsorted ▸ h)
  unfold leftItems
  rw [hnil]
  simp [List.zipIdx_map_fst]

/-- An item that an earlier one is the same as is not among the first ones. -/
theorem length_firstItems_lt {items : List (DataItem δ)} {i : ℕ} {item earlier : DataItem δ}
    (hitem : items[i]? = some item) (hearlier : earlier ∈ items.take i)
    (hsame : Same rt settings keys earlier item) :
    (firstItems rt settings keys items).length < items.length := by
  unfold firstItems
  rw [List.length_map]
  conv_rhs => rw [← List.length_zipIdx (l := items) (i := 0)]
  rw [List.length_filter_lt_length_iff_exists]
  refine ⟨(item, i), List.mem_zipIdx_iff_getElem?.2 hitem, ?_⟩
  simp only [decide_eq_true_eq, not_forall, not_not]
  exact ⟨earlier, hearlier, hsame⟩

/-- An item is left that an earlier one is the same as. -/
theorem not_keepsFirsts {method : StableSort.Method} {items : List (DataItem δ)}
    (hkeys : keysToCompare settings items = .ok keys)
    (haccepted : Accepted rt settings keys (sortItems rt settings keys method (newItems items)))
    (hchain : (sortItems rt settings keys method (newItems items)).IsChain fun x y =>
      compareItems rt settings keys y.json x.json = false) {i : ℕ} {item earlier : DataItem δ}
    (hitem : items[i]? = some item) (hearlier : earlier ∈ items.take i)
    (hsame : Same rt settings keys earlier item) : ¬ KeepsFirsts rt settings method items := by
  intro hkept
  have hleft : removeDuplicateInputItems rt settings method items =
      .ok (output rt settings keys items) := by
    unfold removeDuplicateInputItems
    rw [Fallible.bind_eq_ok]
    refine ⟨keys, hkeys, removeDuplicatesBy_eq_ok_iff.2 ⟨haccepted, ?_⟩⟩
    exact congrArg (output rt settings keys) (leftItems_eq_self hchain)
  have hlength := congrArg List.length (hkept keys _ hkeys hleft)
  rw [length_output, length_output] at hlength
  exact absurd hlength (length_firstItems_lt hitem hearlier hsame).ne'

section

variable (laws : Laws rt) {L : List (DataItem δ)}
  (haccepted : Accepted rt settings keys (newItems L))
  -- The first ones are kept of every list of these items.
  (hkept : ∀ compare method items, (∀ item ∈ items, item ∈ L) →
    keysToCompare { settings with compare } items = .ok keys →
      KeepsFirsts rt { settings with compare } method items)

include laws haccepted hkept

theorem not_duplicate_left {method : StableSort.Method} {items : List (DataItem δ)}
    (hsub : ∀ item ∈ items, item ∈ L) (hkeys : keys ≠ [])
    (hchain : (sortItems rt settings keys method (newItems items)).IsChain fun x y =>
      compareItems rt settings keys y.json x.json = false) {i : ℕ} {item earlier : DataItem δ}
    (hitem : items[i]? = some item) (hearlier : earlier ∈ items.take i) :
    ¬ Same rt settings keys earlier item := by
  intro hsame
  have hkeysOf : keysToCompare { settings with compare := .selectedFields keys } items = .ok keys := by
    cases items with
    | nil => cases hitem
    | cons first rest => simp [keysToCompare, hkeys]
  have hsorted : Accepted rt { settings with compare := .selectedFields keys } keys
      (sortItems rt settings keys method (newItems items)) :=
    Accepted.sortItems laws haccepted hsub method
  exact not_keepsFirsts hkeysOf hsorted hchain hitem hearlier hsame
    (hkept (.selectedFields keys) method items hsub hkeysOf)

/-- The index is seen in no item: two copies would not be the same. -/
theorem indexUnseen_of_kept : IndexUnseen rt settings keys L := by
  intro a ha key hkey index
  rcases read_withIndex laws settings key with hread | hread | hread
  · exact hread a.json index
  · have hpairwise : (newItems [a, a]).Pairwise fun x y =>
        compareItems rt settings keys y.json x.json = false := by
      refine List.pairwise_pair.2 (Bool.eq_false_iff.2 fun hsame => ?_)
      have hequal := laws.symm (compareItems_iff.1 hsame key hkey)
      rw [hread, hread, laws.zero_one] at hequal
      cases hequal
    have hsymm {x y : NewItem} (h : compareItems rt settings keys y.json x.json = false) :
        compareItems rt settings keys x.json y.json = false := by
      rw [Bool.eq_false_iff] at h ⊢
      exact fun hsame => h (compareItems_iff.2 (SameJson.symm laws (compareItems_iff.1 hsame)))
    have hsorted := ((sortItems_perm rt settings keys .insertion (newItems [a, a])).pairwise_iff
      hsymm).2 hpairwise
    have hnot : ¬ Same rt settings keys a a :=
      not_duplicate_left laws haccepted hkept (i := 1) (by simp [ha]) (List.ne_nil_of_mem hkey)
        hsorted.isChain rfl (by simp)
    exact absurd (fun key _ => laws.refl _) hnot
  · exact (not_undefined haccepted ha hkey hread).elim

/-- A list whose neighbours may stay as they are, and are not the same, has no item twice. -/
theorem not_duplicate_of_isChain {items : List (DataItem δ)} (hsub : ∀ item ∈ items, item ∈ L)
    (hkeys : keys ≠ []) (hchain : items.IsChain fun x y =>
      ¬ Before rt settings keys y x ∧ ¬ Same rt settings keys y x) {i : ℕ}
    {item earlier : DataItem δ} (hitem : items[i]? = some item)
    (hearlier : earlier ∈ items.take i) : ¬ Same rt settings keys earlier item := by
  have hread (json : Json) (index : ℕ) : SameJson rt settings keys (withIndex json index) json :=
    fun key hkey => by
      rw [read_of_unseen laws haccepted (hsub item (List.mem_of_getElem? hitem))
        (indexUnseen_of_kept laws haccepted hkept) hkey]
      exact laws.refl _
  have hindexed : (newItems items).IsChain fun x y =>
      ¬ comparator rt settings keys y.json x.json < 0 ∧
        ¬ SameJson rt settings keys y.json x.json := by
    rw [← List.zipIdx_map_fst 0 items, List.isChain_map] at hchain
    unfold newItems
    rw [List.isChain_map]
    refine hchain.imp fun x y ⟨hbefore, hsame⟩ => ⟨?_, fun h => hsame ?_⟩
    · rwa [comparator_congr laws (hread _ _) (hread _ _)]
    · exact SameJson.trans laws (SameJson.symm laws (hread _ _)) (SameJson.trans laws h (hread _ _))
  have hsorted : sortItems rt settings keys .insertion (newItems items) = newItems items :=
    StableSort.sort_insertion_of_isChain (hindexed.imp fun x y h => by simpa using h.1)
  have hnotSame : (sortItems rt settings keys .insertion (newItems items)).IsChain fun x y =>
      compareItems rt settings keys y.json x.json = false := by
    rw [hsorted]
    exact hindexed.imp fun x y h => Bool.eq_false_iff.2 (mt compareItems_iff.1 h.2)
  exact not_duplicate_left laws haccepted hkept hsub hkeys hnotSame hitem hearlier

theorem ordered_of_kept : Ordered rt settings keys L := by
  by_cases hkeys : keys = []
  · subst hkeys
    exact ⟨fun _ _ _ _ => .inl fun _ h => absurd h List.not_mem_nil,
      fun _ _ _ _ _ _ h => absurd h (lt_irrefl 0)⟩
  have hself (a : DataItem δ) : Same rt settings keys a a := fun key _ => laws.refl _
  refine ⟨fun a ha b hb => ?_, fun a ha b hb c hc hab hbc hca => ?_⟩
  · -- Neither comes before the other.
    by_contra h
    push Not at h
    obtain ⟨hsame, hab, hba⟩ := h
    have hsame' : ¬ Same rt settings keys b a := fun h => hsame (SameJson.symm laws h)
    have hchain : [a, b, a].IsChain fun x y =>
        ¬ Before rt settings keys y x ∧ ¬ Same rt settings keys y x := by
      simp [hsame, hsame', hab, hba]
    exact not_duplicate_of_isChain laws haccepted hkept (by simp [ha, hb]) hkeys hchain (i := 2) rfl
      (show a ∈ [a, b] by simp) (hself a)
  · have hnot {x y : DataItem δ} (h : Before rt settings keys x y) :
        ¬ Before rt settings keys y x ∧ ¬ Same rt settings keys y x := by
      refine ⟨comparator_asymm laws h, fun hsame => ?_⟩
      have hzero := comparator_eq_zero_iff.2 (SameJson.symm laws hsame)
      exact absurd h (by rw [Before, hzero]; exact lt_irrefl 0)
    have hchain : [a, b, c, a].IsChain fun x y =>
        ¬ Before rt settings keys y x ∧ ¬ Same rt settings keys y x := by
      simp only [List.isChain_cons_cons]
      exact ⟨hnot hab, hnot hbc, hnot hca, .singleton a⟩
    exact not_duplicate_of_isChain laws haccepted hkept (by simp [ha, hb, hc]) hkeys hchain (i := 3)
      rfl (show a ∈ [a, b, c] by simp) (hself a)

end

/-- The first of each group is kept, in all lists of some items, just if the comparator orders these
and no compared field shows the index. -/
theorem keepsFirsts_iff (laws : Laws rt) (L : List (DataItem δ))
    (haccepted : validateInputData rt settings keys (newItems L) = .ok ()) :
    (∀ compare method items, (∀ item ∈ items, item ∈ L) →
      keysToCompare { settings with compare } items = .ok keys →
        KeepsFirsts rt { settings with compare } method items) ↔
      IndexUnseen rt settings keys L ∧ Ordered rt settings keys L := by
  have haccepted := validateInputData_eq_ok_iff.1 haccepted
  constructor
  · intro hkept
    exact ⟨indexUnseen_of_kept laws haccepted hkept, ordered_of_kept laws haccepted hkept⟩
  · rintro ⟨hunseen, hordered⟩ compare method items hsub hkeys keys' left hkeys' hleft
    obtain rfl : keys = keys' := Except.ok.inj (hkeys.symm.trans hkeys')
    obtain ⟨keys', hkeys', hleft⟩ := Fallible.bind_eq_ok.1 hleft
    obtain rfl : keys = keys' := Except.ok.inj (hkeys.symm.trans hkeys')
    obtain ⟨-, rfl⟩ := removeDuplicatesBy_eq_ok_iff.1 hleft
    have hordered' : Ordered rt { settings with compare } keys items :=
      ⟨fun a ha b hb => hordered.total a (hsub a ha) b (hsub b hb),
        fun a ha b hb c hc => hordered.acyclic a (hsub a ha) b (hsub b hb) c (hsub c hc)⟩
    have hunseen' : IndexUnseen rt { settings with compare } keys items :=
      fun item h => hunseen item (hsub item h)
    rw [leftItems_eq_firstItems laws hunseen' hordered' method]

/-! ## An order, and none -/

/-- The value without what it contains. -/
def flat : JsValue → JsValue
  | .array _ => .array []
  | .object _ => .object []
  | value => value

/-- All arrays are equal, and all objects. -/
def plainEqual (left right : JsValue) : Bool :=
  match flat left, flat right with
  | .array _, .array _ => true
  | .object _, .object _ => true
  | left, right => left.same right

theorem plainEqual_iff {left right : JsValue} :
    plainEqual left right = true ↔ flat left = flat right := by
  cases left <;> cases right <;>
    simp [plainEqual, flat, ParameterValue.same, Number.same_iff]

/-- A field is a property, and nothing is inherited. -/
def plainItems : DedupRuntime where
  toItemRuntime := { MergeByFields.asciiItems with
    get := fun value field =>
      match value with
      | .object json => (json.lookup (units field)).getD .undefined
      | _ => .undefined
    isEqual := plainEqual }
  pick _ _ := []

theorem lt_flat (left right : JsValue) :
    lt plainItems (flat left) (flat right) = lt plainItems left right := by
  cases left <;> cases right <;> rfl

theorem plainItems_laws : Laws plainItems where
  refl _ := plainEqual_iff.2 rfl
  symm h := plainEqual_iff.2 (plainEqual_iff.1 h).symm
  trans h h' := plainEqual_iff.2 ((plainEqual_iff.1 h).trans (plainEqual_iff.1 h'))
  zero_one := by
    refine Bool.eq_false_iff.2 fun h => ?_
    have hnumber : flat (.number (.ofNat 0)) = flat (.number (.ofNat 1)) := plainEqual_iff.1 h
    rw [Number.ofNat_eq (by norm_num), Number.ofNat_eq (by norm_num)] at hnumber
    simp [flat] at hnumber
  lt_congr h h' := by
    rw [← lt_flat, plainEqual_iff.1 h, plainEqual_iff.1 h', lt_flat]
  get_index field := by
    change (∀ json index, ((withIndex json index).lookup (units field)).getD .undefined =
      (json.lookup (units field)).getD .undefined) ∨ (∀ json index,
      ((withIndex json index).lookup (units field)).getD .undefined = .number (.ofNat index)) ∨ _
    simp only [withIndex, FieldMatching.lookup_setEntry]
    by_cases hfield : units field = indexKey
    · exact .inr (.inl fun _ _ => by rw [if_pos hfield, Option.getD_some])
    · exact .inl fun _ _ => by rw [if_neg hfield]

/-- An item with the property `a`. -/
def itemA (value : JsValue) : DataItem Unit := ⟨[(units "a", value)], ()⟩

def compareA : Settings where
  compare := .selectedFields ["a"]
  disableDotNotation := false
  removeOtherFields := false
  typeVersion := 2

theorem keepsFirsts_texts : KeepsFirsts plainItems compareA .merge
    [itemA (.string [0x78]), itemA (.string [0x79]), itemA (.string [0x78])] := by
  have haccepted : validateInputData plainItems compareA ["a"]
      (newItems [itemA (.string [0x78]), itemA (.string [0x79])]) = .ok () := rfl
  refine (keepsFirsts_iff plainItems_laws _ haccepted).2 ⟨?_, ?_, ?_⟩ (.selectedFields ["a"]) .merge _
    (by simp) rfl
  · intro item hitem key hkey index
    obtain rfl := List.mem_singleton.1 hkey
    simp only [List.mem_cons, List.not_mem_nil, or_false] at hitem
    rcases hitem with rfl | rfl <;> rfl
  · decide +kernel
  · decide +kernel

def nullZeroNull : List (DataItem Unit) :=
  [itemA .null, itemA (.number (.ofNat 0)), itemA .null]

/-- Neither of `null` and `0` is less than the other, and they are not equal. -/
theorem not_keepsFirsts_nullZeroNull : ¬ KeepsFirsts plainItems compareA .insertion nullZeroNull ∧
    ¬ KeepsFirsts plainItems compareA .merge nullZeroNull := by
  have hsorted (method : StableSort.Method) : sortItems plainItems compareA ["a"] method
      (newItems nullZeroNull) = newItems nullZeroNull :=
    StableSort.sort_of_pairwise method (by decide +kernel)
  have hchain : (newItems nullZeroNull).IsChain fun x y =>
      compareItems plainItems compareA ["a"] y.json x.json = false := by
    decide +kernel
  have haccepted : Accepted plainItems compareA ["a"] (newItems nullZeroNull) :=
    validateInputData_eq_ok_iff.1 rfl
  have hnot (method : StableSort.Method) : ¬ KeepsFirsts plainItems compareA method nullZeroNull :=
    not_keepsFirsts (show keysToCompare compareA nullZeroNull = .ok ["a"] from rfl)
      (by rwa [hsorted]) (by rwa [hsorted]) (i := 2) rfl List.mem_cons_self
      fun key _ => plainItems_laws.refl _
  exact ⟨hnot .insertion, hnot .merge⟩

end RemoveDuplicates

end N8n
