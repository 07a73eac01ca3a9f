import N8n.AugmentObject
import N8n.Proofs.ArrayIndexes

/-!
# Keys of objects and arrays

What is left of the ordered keys of an object when some are taken out is in order still, and so are
new keys behind them, if those that are array indexes come after all that are left. An array with
related values is related to the same array after each operation.
-/

namespace N8n.Augment

/-! ## Entries -/

section Entries

variable {α : Type} {key : String}

theorem map_fst_filter (key : String) (entries : List (String × α)) :
    (entries.filter fun e => decide (e.1 ≠ key)).map Prod.fst =
      (entries.map Prod.fst).filter (· ≠ key) := by
  rw [List.filter_map]
  rfl

theorem lookup_isSome_iff {entries : List (String × α)} :
    (entries.lookup key).isSome ↔ key ∈ entries.map Prod.fst := Dict.lookup_isSome

theorem lookup_eq_none_iff {entries : List (String × α)} :
    entries.lookup key = none ↔ key ∉ entries.map Prod.fst := by
  rw [← lookup_isSome_iff, Option.isSome_iff_ne_none, not_not]

theorem setEntry_self {value : α} : ∀ {entries : List (String × α)},
    entries.lookup key = some value → Dict.setEntry key value entries = entries
  | [], h => by cases h
  | (key', value') :: entries, h => by
    rw [Dict.lookup_cons_eq] at h
    rw [Dict.setEntry]
    by_cases heq : key = key'
    · rw [if_pos heq] at h ⊢
      rw [← heq, Option.some.inj h]
    · rw [if_neg heq] at h ⊢
      rw [setEntry_self h]

theorem nodup_setEntry {value : α} {entries : List (String × α)}
    (h : (entries.map Prod.fst).Nodup) :
    ((Dict.setEntry key value entries).map Prod.fst).Nodup :=
  ((⟨entries, h⟩ : Dict String α).set key value).nodup

theorem nodup_filter {entries : List (String × α)} (h : (entries.map Prod.fst).Nodup) :
    ((entries.filter fun e => decide (e.1 ≠ key)).map Prod.fst).Nodup :=
  ((⟨entries, h⟩ : Dict String α).erase key).nodup

end Entries

/-! ## Ordered keys -/

theorem isArrayIndex_of_isElementKey {key : String} (h : isElementKey key) : isArrayIndex key :=
  (Bool.and_eq_true _ _ ▸ h).1

theorem mem_orderedKeys {keys : List String} {key : String} :
    key ∈ orderedKeys keys ↔ key ∈ keys := by
  simp only [orderedKeys, List.mem_append, List.mem_insertionSort, List.mem_filter]
  cases isElementKey key <;> simp

theorem nodup_orderedKeys {keys : List String} (h : keys.Nodup) : (orderedKeys keys).Nodup := by
  refine List.nodup_append.2 ⟨(List.perm_insertionSort _ _).nodup_iff.2 (h.filter _), h.filter _,
    fun key hkey key' hkey' heq => ?_⟩
  subst heq
  have hindex := (List.mem_filter.1 ((List.mem_insertionSort _).1 hkey)).2
  have hnot := (List.mem_filter.1 hkey').2
  rw [hindex] at hnot
  cases hnot

/-- Element keys are sorted in one way only. -/
theorem eq_insertionSort {sorted keys : List String} (hperm : sorted.Perm keys)
    (hindex : ∀ key ∈ keys, isElementKey key)
    (hsorted : sorted.Pairwise (arrayIndex · ≤ arrayIndex ·)) :
    sorted = keys.insertionSort (arrayIndex · ≤ arrayIndex ·) := by
  refine (hperm.trans (List.perm_insertionSort _ _).symm).eq_of_pairwise
    (fun key key' hkey hkey' hle hge => ?_) hsorted (List.pairwise_insertionSort _ _)
  have hmem' := (List.mem_insertionSort _).1 hkey'
  exact arrayIndex_injective (isArrayIndex_of_isElementKey (hindex _ (hperm.mem_iff.1 hkey)))
    (isArrayIndex_of_isElementKey (hindex _ hmem')) (le_antisymm hle hge)

theorem filter_orderedKeys (p : String → Bool) (keys : List String) :
    (orderedKeys keys).filter p = orderedKeys (keys.filter p) := by
  rw [orderedKeys, orderedKeys, List.filter_append, List.filter_filter, List.filter_filter,
    List.filter_filter]
  congr 1
  · refine eq_insertionSort ?_ (fun key hkey => ?_)
      ((List.pairwise_insertionSort _ _).filter _)
    · refine ((List.perm_insertionSort _ _).filter p).trans ?_
      rw [List.filter_filter]
      simp only [Bool.and_comm]
      exact List.Perm.refl _
    · exact (Bool.and_eq_true _ _ ▸ (List.mem_filter.1 hkey).2).1
  · simp only [Bool.and_comm]

/-- New keys behind others keep their order. -/
theorem orderedKeys_append {keys keys' : List String}
    (h : ∀ key' ∈ keys', isElementKey key' → ∀ key ∈ keys,
      isElementKey key ∧ arrayIndex key < arrayIndex key') :
    orderedKeys (keys ++ keys') = orderedKeys keys ++ orderedKeys keys' := by
  simp only [orderedKeys, List.filter_append]
  by_cases hnone : keys'.filter isElementKey = []
  · rw [hnone, List.append_nil, List.insertionSort_nil, List.nil_append, List.append_assoc]
  · obtain ⟨new, hnew⟩ := List.exists_mem_of_ne_nil _ hnone
    obtain ⟨hmem, hindex⟩ := List.mem_filter.1 hnew
    have hall : keys.filter (!isElementKey ·) = [] := List.filter_eq_nil_iff.2 fun key hkey => by
      rw [(h new hmem hindex key hkey).1]
      decide
    rw [hall, List.append_nil, List.nil_append, ← List.append_assoc]
    congr 1
    refine (eq_insertionSort ?_ (fun key hkey => ?_) ?_).symm
    · exact (List.perm_insertionSort _ _).append (List.perm_insertionSort _ _)
    · rcases List.mem_append.1 hkey with hold | hnew
      · exact (List.mem_filter.1 hold).2
      · exact (List.mem_filter.1 hnew).2
    · refine List.pairwise_append.2 ⟨List.pairwise_insertionSort _ _,
        List.pairwise_insertionSort _ _, fun key hkey key' hkey' => ?_⟩
      have hold := List.mem_filter.1 ((List.mem_insertionSort _).1 hkey)
      have hnew := List.mem_filter.1 ((List.mem_insertionSort _).1 hkey')
      exact (h key' hnew.1 hnew.2 key hold.1).2.le

theorem eraseDups_of_nodup : ∀ {keys : List String}, keys.Nodup → keys.eraseDups = keys
  | [], _ => rfl
  | key :: keys, h => by
    obtain ⟨hnot, hnodup⟩ := List.nodup_cons.1 h
    have hfilter : keys.filter (fun key' => !key' == key) = keys :=
      List.filter_eq_self.2 fun key' hkey' => by
        have hne : key' ≠ key := fun heq => hnot (heq ▸ hkey')
        simp [hne]
    rw [List.eraseDups_cons, hfilter, eraseDups_of_nodup hnodup]

/-- A set of keys and more keys has those that are new at its end. -/
theorem eraseDups_append_of_nodup {keys keys' : List String} (h : keys.Nodup) (h' : keys'.Nodup) :
    (keys ++ keys').eraseDups = keys ++ keys'.filter (· ∉ keys) := by
  rw [List.eraseDups_append, eraseDups_of_nodup h]
  have hremove : keys'.removeAll keys = keys'.filter (· ∉ keys) := by
    simp [List.removeAll]
  rw [hremove, eraseDups_of_nodup (h'.filter _)]

/-! ## Slots -/

namespace Slots

section Own

variable {α β : Type} {s : Slots α} {key : String}

/-- Only what is under the index of the key has changed. -/
theorem own_of_elements (hindex : isElementKey key) {elements : List (Option α)} {value : Option α}
    (h : ∀ i, elements.getD i none =
      if i = arrayIndex key then value else s.elements.getD i none) (key' : String) :
    own { s with elements := elements } key' = if key' = key then value else s.own key' := by
  unfold own
  by_cases hindex' : isElementKey key'
  · have hsame : arrayIndex key' = arrayIndex key ↔ key' = key :=
      ⟨arrayIndex_injective (isArrayIndex_of_isElementKey hindex')
        (isArrayIndex_of_isElementKey hindex), congrArg arrayIndex⟩
    simp only [if_pos hindex', h, hsame]
  · have hne : key' ≠ key := fun heq => hindex' (heq ▸ hindex)
    simp only [hindex', hne, Bool.false_eq_true, if_false]

/-- Only what is under the key has changed, which is no index. -/
theorem own_of_others (hindex : ¬ isElementKey key) {others : List (String × α)} {value : Option α}
    (h : ∀ key', others.lookup key' = if key' = key then value else s.others.lookup key')
    (key' : String) :
    own { s with others := others } key' = if key' = key then value else s.own key' := by
  unfold own
  by_cases hindex' : isElementKey key'
  · have hne : key' ≠ key := fun heq => hindex (heq ▸ hindex')
    simp only [hindex', hne, if_true, if_false]
  · simp only [hindex', Bool.false_eq_true, if_false, h]

theorem own_put (value : α) (key' : String) :
    (s.put key value).own key' = if key' = key then some value else s.own key' := by
  unfold put
  by_cases hindex : isElementKey key
  · rw [if_pos hindex]
    refine own_of_elements hindex (fun i => ?_) key'
    exact getD_setAt s.elements (arrayIndex key) i (some value)
  · rw [if_neg hindex]
    exact own_of_others hindex (fun key' => Dict.lookup_setEntry key key' value s.others) key'

theorem getD_set_none (elements : List (Option α)) (i j : ℕ) :
    (elements.set i none).getD j none = if j = i then none else elements.getD j none := by
  rw [List.getD_eq_getElem?_getD, List.getD_eq_getElem?_getD, List.getElem?_set]
  by_cases heq : j = i
  · rw [if_pos heq, if_pos heq.symm]
    split <;> rfl
  · rw [if_neg heq, if_neg (Ne.symm heq)]

theorem own_remove (key' : String) :
    (s.remove key).own key' = if key' = key then none else s.own key' := by
  unfold remove
  by_cases hindex : isElementKey key
  · rw [if_pos hindex]
    exact own_of_elements hindex (fun i => getD_set_none s.elements (arrayIndex key) i) key'
  · rw [if_neg hindex]
    exact own_of_others hindex (fun key' => Dict.lookup_filter_ne key key' s.others) key'

theorem own_resize (n : ℕ) (key' : String) : (s.resize n).own key' =
    if isElementKey key' ∧ n ≤ arrayIndex key' then none else s.own key' := by
  unfold own resize
  by_cases hindex : isElementKey key'
  · simp only [hindex, if_true, true_and, List.getD_eq_getElem?_getD, List.getElem?_append,
      List.length_take, List.getElem?_take, List.getElem?_replicate]
    split_ifs <;> first | rfl | omega | skip
    rw [List.getElem?_eq_none (by omega)]
    rfl
  · simp only [hindex, Bool.false_eq_true, if_false, false_and]

theorem lookup_map (f : α → β) : ∀ entries : List (String × α),
    (entries.map (Prod.map id f)).lookup key = (entries.lookup key).map f
  | [] => rfl
  | (key', value) :: entries => by
    rw [List.map_cons, Prod.map_apply, id, Dict.lookup_cons_eq, Dict.lookup_cons_eq, lookup_map f]
    split <;> rfl

theorem own_map (f : α → β) : (s.map f).own key = (s.own key).map f := by
  unfold own map
  split
  · rw [List.getD_eq_getElem?_getD, List.getD_eq_getElem?_getD, List.getElem?_map]
    cases s.elements[arrayIndex key]? <;> rfl
  · exact lookup_map f s.others

end Own

/-- Two arrays have the same keys, and related values under them. -/
structure Related {α β : Type} (R : α → β → Prop) (s : Slots α) (s' : Slots β) : Prop where
  elements : s.elements.map Option.isSome = s'.elements.map Option.isSome
  others : s.others.map Prod.fst = s'.others.map Prod.fst
  values : ∀ key value value', s.own key = some value → s'.own key = some value' → R value value'

namespace Related

variable {α β : Type} {R : α → β → Prop} {s : Slots α} {s' : Slots β} (h : Related R s s')

include h

theorem length_eq : s.elements.length = s'.elements.length := by
  have hlength := congrArg List.length h.elements
  rwa [List.length_map, List.length_map] at hlength

theorem getD_isSome (i : ℕ) :
    (s.elements.getD i none).isSome = (s'.elements.getD i none).isSome := by
  have hget := congrArg (·[i]?) h.elements
  simp only [List.getElem?_map] at hget
  rw [List.getD_eq_getElem?_getD, List.getD_eq_getElem?_getD]
  cases hi : s.elements[i]? <;> cases hi' : s'.elements[i]? <;> rw [hi, hi'] at hget <;>
    simp_all

theorem own_isSome (key : String) : (s.own key).isSome = (s'.own key).isSome := by
  unfold own
  split
  · exact h.getD_isSome _
  · rw [Bool.eq_iff_iff, lookup_isSome_iff, lookup_isSome_iff, h.others]

theorem keys_eq : s.keys = s'.keys := by
  unfold keys
  simp only [h.length_eq, h.getD_isSome, h.others]

theorem put {value : α} {value' : β} (hvalue : R value value') (key : String) :
    Related R (s.put key value) (s'.put key value') where
  elements := by
    unfold Slots.put
    split
    · simp only [setAt, List.map_set, List.map_append, List.map_replicate, h.elements, h.length_eq]
      rfl
    · exact h.elements
  others := by
    unfold Slots.put
    split
    · exact h.others
    · simp only [Dict.map_fst_setEntry, h.others]
  values key' v v' hv hv' := by
    rw [own_put] at hv hv'
    split_ifs at hv hv'
    · cases hv
      cases hv'
      exact hvalue
    · exact h.values key' v v' hv hv'

theorem remove (key : String) : Related R (s.remove key) (s'.remove key) where
  elements := by
    unfold Slots.remove
    split
    · simp only [List.map_set, h.elements]
      rfl
    · exact h.elements
  others := by
    unfold Slots.remove
    split
    · exact h.others
    · simp only [map_fst_filter, h.others]
  values key' v v' hv hv' := by
    rw [own_remove] at hv hv'
    split_ifs at hv hv'
    exact h.values key' v v' hv hv'

theorem resize (n : ℕ) : Related R (s.resize n) (s'.resize n) where
  elements := by
    simp only [Slots.resize, List.map_append, List.map_take, List.map_replicate, h.elements,
      h.length_eq]
    rfl
  others := h.others
  values key' v v' hv hv' := by
    rw [own_resize] at hv hv'
    split_ifs at hv hv'
    exact h.values key' v v' hv hv'

end Related

end Slots

end N8n.Augment

/-!
# Augmented objects and copies

A proxy with what is behind it stands for an object: what is deleted is not there, what was set
comes before what the original has. Each operation leads to a proxy that stands for what a copy has
become. Only the function behind `constructor`, inherited properties that are deleted, and the order
of keys that are set again differ.
-/

namespace N8n.Augment

variable {P : Type}

/-! ## What it is for -/

inductive IsJson : Plain P → Prop
  | leaf (value : P) : IsJson (.leaf value)
  | object {properties : List (String × Plain P)} : (properties.map Prod.fst).Nodup →
      (∀ key value, properties.lookup key = some value → IsJson value) →
      IsJson (.object properties)
  | array {values : List (Plain P)} : (∀ value ∈ values, IsJson value) →
      IsJson (.array { elements := values.map some })

/-- An operation on what is found along a path. -/
structure Step (P : Type) where
  path : List String
  operation : Operation P

/-- What is set is a JSON value or `undefined`. The property that stands for the prototype is left
alone. -/
def Operation.Usable : Operation P → Prop
  | .get key | .delete key | .has key => key ≠ protoKey
  | .set key newValue => key ≠ protoKey ∧ (IsJson newValue ∨ newValue = .undefined)
  | .ownKeys => True

/-- No path leads behind the function `constructor`. -/
def Step.Usable (step : Step P) : Prop :=
  (∀ key ∈ step.path, key ≠ "constructor" ∧ key ≠ protoKey) ∧ step.operation.Usable

namespace Augmented

/-- What `get` finds, with a proxy before it. -/
def child (key : String) : Augmented P → Option (Augmented P)
  | .plain value => (value.own key).map .plain
  | .object data newData deletedProperties => (getObject data newData deletedProperties key).1
  | .array data newData => (getArray data newData key).1

def nodeAt : List String → Augmented P → Option (Augmented P)
  | [], a => some a
  | key :: path, a => (a.child key).bind (nodeAt path)

/-- The properties that were deleted of the object at a path. -/
def deletedAt (path : List String) (a : Augmented P) : List String :=
  match a.nodeAt path with
  | some (.object _ _ deletedProperties) => deletedProperties
  | _ => []

end Augmented

/-- To set the key changes the order: the original had it and it was deleted, or it is a new array
index and not behind all that is left of the original. -/
def Displaced (data : List (String × Plain P)) (deletedProperties : List String) (key : String) :
    Prop :=
  (key ∈ data.map Prod.fst ∧ key ∈ deletedProperties) ∨
    key ∉ data.map Prod.fst ∧ isElementKey key ∧ ∃ key' ∈ data.map Prod.fst,
      key' ∉ deletedProperties ∧ ¬ (isElementKey key' ∧ arrayIndex key' < arrayIndex key)

/-- The step sets a key that it displaces. -/
def Step.Reorders (step : Step P) (a : Augmented P) : Prop :=
  match a.nodeAt step.path, step.operation with
  | some (.object _ _ _), .set _ .undefined => False
  | some (.object data _ deletedProperties), .set key _ => Displaced data deletedProperties key
  | _, _ => False

/-- What is seen at the proxy, and at the copy. The function behind `constructor` cannot be
replaced, and a deleted property is not inherited. The order of keys is the same if `ordered`. -/
inductive Agrees (ordered : Prop) (deletedProperties : List String) :
    Operation P → Observation P → Observation P → Prop
  | same (operation : Operation P) (observation : Observation P) :
      Agrees ordered deletedProperties operation observation observation
  | constructor (observation : Observation P) :
      Agrees ordered deletedProperties (.get "constructor") (.inherited "constructor") observation
  | readDeleted {key : String} : key ∈ inheritedKeys → key ∈ deletedProperties →
      Agrees ordered deletedProperties (.get key) .undefined (.inherited key)
  | hasDeleted {key : String} : key ∈ inheritedKeys → key ∈ deletedProperties →
      Agrees ordered deletedProperties (.has key) (.answer false) (.answer true)
  | keys {keys keys' : List String} : ¬ ordered → keys.Perm keys' →
      Agrees ordered deletedProperties .ownKeys (.keys keys) (.keys keys')

section Runs

variable (lang : Language P)

/-- All steps of a run agree. -/
def AgreesAlong (ordered : Prop) : List (Step P) → Augmented P → Plain P → Prop
  | [], _, _ => True
  | step :: steps, a, value =>
    Agrees ordered (a.deletedAt step.path) step.operation
        (a.performAt lang step.path step.operation).1
        (value.performAt lang step.path step.operation).1 ∧
      AgreesAlong ordered steps (a.performAt lang step.path step.operation).2
        (value.performAt lang step.path step.operation).2

def NeverReorders : List (Step P) → Augmented P → Prop
  | [], _ => True
  | step :: steps, a =>
    ¬ step.Reorders a ∧ NeverReorders steps (a.performAt lang step.path step.operation).2

def Augmented.run : List (Step P) → Augmented P → Augmented P
  | [], a => a
  | step :: steps, a => Augmented.run steps (a.performAt lang step.path step.operation).2

def Augmented.observations : List (Step P) → Augmented P → List (Observation P)
  | [], _ => []
  | step :: steps, a =>
    let (observation, a) := a.performAt lang step.path step.operation
    observation :: Augmented.observations steps a

def Plain.observations : List (Step P) → Plain P → List (Observation P)
  | [], _ => []
  | step :: steps, value =>
    let (observation, value) := value.performAt lang step.path step.operation
    observation :: Plain.observations steps value

end Runs

/-- The object or array behind a proxy. -/
def Augmented.target? : Augmented P → Option (Plain P)
  | .plain _ => none
  | .object data _ _ => some (.object data)
  | .array data _ => some (.array data)

/-- The proxy for a part of the object, if there is one. -/
def Augmented.proxyAt : List String → Augmented P → Option (Augmented P)
  | [], a => some a
  | key :: path, .object _ newData _ => (newData.lookup key).bind (proxyAt path)
  | _ :: _, _ => none

def Plain.at : List String → Plain P → Option (Plain P)
  | [], value => some value
  | key :: path, value => (value.own key).bind (Plain.at path)

/-- Behind each proxy for a part of the object is that part, as it was. -/
def Untouched (o : Plain P) (a : Augmented P) : Prop :=
  ∀ path proxy target, a.proxyAt path = some proxy → proxy.target? = some target →
    o.at path = some target

/-! ## What a proxy stands for -/

/-- The properties of the object, those not yet read without proxies. -/
def view (data : List (String × Plain P)) (newData : List (String × Augmented P))
    (deletedProperties : List String) (key : String) : Option (Augmented P) :=
  if key ∈ deletedProperties then none
  else (newData.lookup key).or ((data.lookup key).map .plain)

/-- The keys of the original come first, and new array indexes are behind them all the same. -/
structure InOrder (data : List (String × Plain P)) (newData : List (String × Augmented P))
    (deletedProperties : List String) (properties : List (String × Plain P)) : Prop where
  keys : properties.map Prod.fst =
    (data.map Prod.fst).filter (· ∉ deletedProperties) ++
      (newData.map Prod.fst).filter (· ∉ data.map Prod.fst)
  later : ∀ key ∈ newData.map Prod.fst, key ∉ data.map Prod.fst → isElementKey key →
    ∀ key' ∈ data.map Prod.fst, key' ∉ deletedProperties →
      isElementKey key' ∧ arrayIndex key' < arrayIndex key

inductive Sim (ordered : Prop) : Augmented P → Plain P → Prop
  | plain (value : Plain P) : Sim ordered (.plain value) value
  | object {data : List (String × Plain P)} {newData : List (String × Augmented P)}
      {deletedProperties : List String} {properties : List (String × Plain P)}
      (json : IsJson (.object data)) (nodupNew : (newData.map Prod.fst).Nodup)
      (nodup : (properties.map Prod.fst).Nodup)
      (present : ∀ key ∈ newData.map Prod.fst, key ∉ deletedProperties)
      (targets : ∀ key child target, newData.lookup key = some child →
        child.target? = some target → data.lookup key = some target)
      (isSome : ∀ key, (view data newData deletedProperties key).isSome =
        (properties.lookup key).isSome)
      (sims : ∀ key child value, view data newData deletedProperties key = some child →
        properties.lookup key = some value → Sim ordered child value)
      (order : ordered → InOrder data newData deletedProperties properties) :
      Sim ordered (.object data newData deletedProperties) (.object properties)
  | array {data : Slots (Plain P)} {newData : Option (Slots (Augmented P))}
      {slots : Slots (Plain P)} (json : IsJson (.array data))
      (elements : (Augmented.current data newData).elements.map Option.isSome =
        slots.elements.map Option.isSome)
      (others : (Augmented.current data newData).others.map Prod.fst = slots.others.map Prod.fst)
      (augmentable : ∀ key value, (Augmented.current data newData).own key = some (.plain value) →
        IsJson value ∨ value = .undefined)
      (sims : ∀ key child value, (Augmented.current data newData).own key = some child →
        slots.own key = some value → Sim ordered child value) :
      Sim ordered (.array data newData) (.array slots)

section Sim

variable {ordered : Prop}

theorem Sim.observe_eq {a : Augmented P} {value : Plain P} (h : Sim ordered a value) :
    a.observe = value.observe := by
  cases h <;> rfl

theorem Sim.isObject_eq {a : Augmented P} {value : Plain P} (h : Sim ordered a value) :
    a.isObject = value.isObject := by
  cases h <;> rfl

theorem view_nil (data : List (String × Plain P)) (key : String) :
    view data [] [] key = (data.lookup key).map .plain := by
  rw [view, if_neg List.not_mem_nil]
  rfl

theorem inOrder_nil (data : List (String × Plain P)) : InOrder data [] [] data where
  keys := by simp
  later _ hkey := absurd hkey List.not_mem_nil

theorem mem_of_own {α : Type} {values : List α} {key : String} {value : α}
    (h : ({ elements := values.map some } : Slots α).own key = some value) : value ∈ values := by
  unfold Slots.own at h
  split at h
  · rw [List.getD_eq_getElem?_getD, List.getElem?_map] at h
    cases hget : values[arrayIndex key]? with
    | none =>
      rw [hget] at h
      cases h
    | some value' =>
      rw [hget] at h
      cases h
      exact List.mem_of_getElem? hget
  · cases h

/-- A new proxy stands for what is behind it. -/
theorem sim_augment {value : Plain P} (h : IsJson value ∨ value = .undefined) :
    Sim ordered (augment value) value := by
  rcases h with hjson | rfl
  · cases hjson with
    | leaf value => exact .plain _
    | @object data hnodup hvalues =>
      refine .object (.object hnodup hvalues) List.nodup_nil hnodup
        (fun _ hkey => absurd hkey List.not_mem_nil) (fun _ _ _ hlookup => by cases hlookup)
        (fun key => ?_) (fun key child value hview hvalue => ?_) (fun _ => inOrder_nil data)
      · rw [view_nil, Option.isSome_map]
      · rw [view_nil, hvalue] at hview
        cases hview
        exact .plain value
    | @array values hvalues =>
      refine .array (.array hvalues) ?_ rfl (fun key value hown => ?_)
        (fun key child value hown hvalue => ?_)
      · simp [Augmented.current, Slots.map]
      · rw [Augmented.current, Option.getD_none, Slots.own_map] at hown
        obtain ⟨value', hvalue', heq⟩ := Option.map_eq_some_iff.1 hown
        cases heq
        exact Or.inl (hvalues _ (mem_of_own hvalue'))
      · rw [Augmented.current, Option.getD_none, Slots.own_map, hvalue] at hown
        cases hown
        exact .plain value
  · exact .plain _

/-! ## Operations on objects -/

section Object

variable {data : List (String × Plain P)} {newData : List (String × Augmented P)}
  {deletedProperties deletedProperties' : List String} {properties : List (String × Plain P)}
  {key : String} {child : Augmented P} {value : Plain P}

theorem view_isSome_iff : (view data newData deletedProperties key).isSome ↔
    key ∉ deletedProperties ∧ (key ∈ newData.map Prod.fst ∨ key ∈ data.map Prod.fst) := by
  unfold view
  split
  · rename_i hdeleted
    exact iff_of_false Bool.false_ne_true fun h => h.1 hdeleted
  · rename_i hkept
    rw [Option.isSome_or, Bool.or_eq_true, Option.isSome_map, lookup_isSome_iff, lookup_isSome_iff]
    exact ⟨fun h => ⟨hkept, h⟩, fun h => h.2⟩

theorem view_setEntry (key' : String) :
    view data (Dict.setEntry key child newData) (deletedProperties.filter (· ≠ key)) key' =
      if key' = key then some child else view data newData deletedProperties key' := by
  unfold view
  rw [Dict.lookup_setEntry]
  by_cases heq : key' = key
  · simp [heq]
  · simp [heq]

theorem view_filter (hdata : key ∈ data.map Prod.fst → key ∈ deletedProperties')
    (hother : ∀ key', key' ≠ key → (key' ∈ deletedProperties' ↔ key' ∈ deletedProperties))
    (key' : String) :
    view data (newData.filter fun e => decide (e.1 ≠ key)) deletedProperties' key' =
      if key' = key then none else view data newData deletedProperties key' := by
  unfold view
  rw [Dict.lookup_filter_ne]
  by_cases heq : key' = key
  · subst heq
    rw [if_pos rfl, if_pos rfl]
    split
    · rfl
    · rename_i hkept
      rw [lookup_eq_none_iff.2 fun hmem => hkept (hdata hmem)]
      rfl
  · simp only [if_neg heq, hother key' heq]

theorem InOrder.setEntry (h : InOrder data newData deletedProperties properties)
    (hisSome : (view data newData deletedProperties key).isSome = (properties.lookup key).isSome)
    (hpresent : key ∈ newData.map Prod.fst → key ∉ deletedProperties)
    (hplace : ¬ Displaced data deletedProperties key) :
    InOrder data (Dict.setEntry key child newData) (deletedProperties.filter (· ≠ key))
      (Dict.setEntry key value properties) := by
  have hmem : key ∈ properties.map Prod.fst ↔ key ∉ deletedProperties ∧
      (key ∈ newData.map Prod.fst ∨ key ∈ data.map Prod.fst) := by
    rw [← lookup_isSome_iff, ← hisSome, view_isSome_iff]
  have hkept : ∀ key' ∈ data.map Prod.fst,
      (key' ∉ deletedProperties.filter (· ≠ key) ↔ key' ∉ deletedProperties) := by
    intro key' hdata
    rw [not_iff_not, List.mem_filter, decide_eq_true_iff]
    refine ⟨fun hmem => hmem.1, fun hdeleted => ⟨hdeleted, ?_⟩⟩
    rintro rfl
    exact hplace (Or.inl ⟨hdata, hdeleted⟩)
  have hfilter : (data.map Prod.fst).filter (· ∉ deletedProperties.filter (· ≠ key)) =
      (data.map Prod.fst).filter (· ∉ deletedProperties) :=
    List.filter_congr fun key' hdata => by simp only [hkept key' hdata]
  refine ⟨?_, fun key' hnew hdata hindex other hother halive => ?_⟩
  · rw [Dict.map_fst_setEntry, Dict.map_fst_setEntry, hfilter]
    by_cases hdata : key ∈ data.map Prod.fst
    · have halive : key ∉ deletedProperties := fun hdeleted => hplace (Or.inl ⟨hdata, hdeleted⟩)
      rw [if_pos (hmem.2 ⟨halive, Or.inr hdata⟩), h.keys]
      split
      · rfl
      · rw [List.filter_append, List.filter_singleton]
        simp [hdata]
    · by_cases hnew : key ∈ newData.map Prod.fst
      · rw [if_pos (hmem.2 ⟨hpresent hnew, Or.inl hnew⟩), if_pos hnew, h.keys]
      · have hnot : key ∉ properties.map Prod.fst := fun hin =>
          (hmem.1 hin).2.elim hnew hdata
        rw [if_neg hnot, if_neg hnew, h.keys, List.filter_append, List.filter_singleton,
          List.append_assoc]
        simp [hdata]
  · have halive' := (hkept other hother).1 halive
    rw [Dict.map_fst_setEntry] at hnew
    have hcases : key' ∈ newData.map Prod.fst ∨ key' = key := by
      split at hnew
      · exact Or.inl hnew
      · simpa using hnew
    rcases hcases with hnew' | rfl
    · exact h.later key' hnew' hdata hindex other hother halive'
    · by_contra hnot
      exact hplace (Or.inr ⟨hdata, hindex, other, hother, halive', hnot⟩)

theorem InOrder.filter (h : InOrder data newData deletedProperties properties)
    (hdata : key ∈ data.map Prod.fst → key ∈ deletedProperties')
    (hother : ∀ key', key' ≠ key → (key' ∈ deletedProperties' ↔ key' ∈ deletedProperties)) :
    InOrder data (newData.filter fun e => decide (e.1 ≠ key)) deletedProperties'
      (properties.filter fun e => decide (e.1 ≠ key)) := by
  have hkept : ∀ key' ∈ data.map Prod.fst,
      (key' ∉ deletedProperties' ↔ key' ≠ key ∧ key' ∉ deletedProperties) := by
    intro key' hmem
    by_cases heq : key' = key
    · subst heq
      simp [hdata hmem]
    · simp [heq, hother key' heq]
  refine ⟨?_, fun key' hnew hnot hindex other hmem halive => ?_⟩
  · rw [map_fst_filter, map_fst_filter, h.keys, List.filter_append, List.filter_filter,
      List.filter_filter, List.filter_filter]
    congr 1
    · refine List.filter_congr fun key' hmem => ?_
      simp only [hkept key' hmem, Bool.decide_and]
    · simp only [Bool.and_comm]
  · rw [map_fst_filter] at hnew
    exact h.later key' (List.mem_filter.1 hnew).1 hnot hindex other hmem
      ((hkept other hmem).1 halive).2

theorem Sim.setEntry
    (h : Sim ordered (.object data newData deletedProperties) (.object properties))
    (hchild : Sim ordered child value)
    (htarget : ∀ target, child.target? = some target → data.lookup key = some target)
    (hplace : ordered → ¬ Displaced data deletedProperties key) :
    Sim ordered
      (.object data (Dict.setEntry key child newData) (deletedProperties.filter (· ≠ key)))
      (.object (Dict.setEntry key value properties)) := by
  cases h with
  | object json nodupNew nodup present targets isSome sims order =>
    refine .object json (nodup_setEntry nodupNew) (nodup_setEntry nodup) (fun key' hkey' => ?_)
      (fun key' child' target hlookup htarget' => ?_) (fun key' => ?_)
      (fun key' child' value' hview hvalue => ?_)
      (fun hordered => (order hordered).setEntry (isSome key) (present key) (hplace hordered))
    · rw [Dict.map_fst_setEntry] at hkey'
      have hcases : key' ∈ newData.map Prod.fst ∨ key' = key := by
        split at hkey'
        · exact Or.inl hkey'
        · simpa using hkey'
      rcases hcases with hmem | rfl
      · exact fun hdeleted => present key' hmem (List.mem_filter.1 hdeleted).1
      · simp
    · rw [Dict.lookup_setEntry] at hlookup
      split at hlookup
      · rename_i heq
        cases hlookup
        rw [heq]
        exact htarget target htarget'
      · exact targets key' child' target hlookup htarget'
    · rw [view_setEntry, Dict.lookup_setEntry]
      split
      · rfl
      · exact isSome key'
    · rw [view_setEntry] at hview
      rw [Dict.lookup_setEntry] at hvalue
      split at hview
      · rename_i heq
        rw [if_pos heq] at hvalue
        cases hview
        cases hvalue
        exact hchild
      · rename_i hne
        rw [if_neg hne] at hvalue
        exact sims key' child' value' hview hvalue

theorem Sim.filterEntry
    (h : Sim ordered (.object data newData deletedProperties) (.object properties))
    (hdata : key ∈ data.map Prod.fst → key ∈ deletedProperties')
    (hother : ∀ key', key' ≠ key → (key' ∈ deletedProperties' ↔ key' ∈ deletedProperties)) :
    Sim ordered (.object data (newData.filter fun e => decide (e.1 ≠ key)) deletedProperties')
      (.object (properties.filter fun e => decide (e.1 ≠ key))) := by
  cases h with
  | object json nodupNew nodup present targets isSome sims order =>
    refine .object json (nodup_filter nodupNew) (nodup_filter nodup) (fun key' hkey' => ?_)
      (fun key' child' target hlookup => ?_) (fun key' => ?_)
      (fun key' child' value' hview hvalue => ?_)
      (fun hordered => (order hordered).filter hdata hother)
    · rw [map_fst_filter, List.mem_filter, decide_eq_true_iff] at hkey'
      rw [hother key' hkey'.2]
      exact present key' hkey'.1
    · rw [Dict.lookup_filter_ne] at hlookup
      split at hlookup
      · cases hlookup
      · exact targets key' child' target hlookup
    · rw [view_filter hdata hother, Dict.lookup_filter_ne]
      split
      · rfl
      · exact isSome key'
    · rw [view_filter hdata hother] at hview
      rw [Dict.lookup_filter_ne] at hvalue
      split at hview
      · cases hview
      · rename_i hne
        rw [if_neg hne] at hvalue
        exact sims key' child' value' hview hvalue

theorem target?_augment (hobject : value.isObject) :
    (augment value).target? = some value ∧ (augment value).isObject := by
  cases value with
  | object data => exact ⟨rfl, rfl⟩
  | array data => exact ⟨rfl, rfl⟩
  | undefined => cases hobject
  | leaf value => cases hobject

/-- What is read stands for what the copy has, and what it leaves stands for the same. -/
theorem Sim.getObject
    (h : Sim ordered (.object data newData deletedProperties) (.object properties)) (key : String) :
    Sim ordered
        (.object data (Augmented.getObject data newData deletedProperties key).2 deletedProperties)
        (.object properties) ∧
      match (Augmented.getObject data newData deletedProperties key).1, properties.lookup key with
      | some child, some value => Sim ordered child value ∧ key ∉ deletedProperties ∧
          ∀ target, child.target? = some target → data.lookup key = some target
      | none, none => True
      | _, _ => False := by
  have hself := h
  cases h with
  | object json nodupNew nodup present targets isSome sims order =>
    have hisSome := isSome key
    have hsims := sims key
    unfold view at hisSome hsims
    unfold Augmented.getObject
    by_cases hdeleted : key ∈ deletedProperties
    · simp only [hdeleted, if_true, Option.isSome_none] at hisSome ⊢
      cases hlookup : properties.lookup key with
      | none => exact ⟨hself, trivial⟩
      | some value =>
        rw [hlookup] at hisSome
        cases hisSome
    · simp only [hdeleted, if_false] at hisSome hsims ⊢
      cases hnew : newData.lookup key with
      | some child =>
        rw [hnew] at hisSome hsims
        cases hlookup : properties.lookup key with
        | none =>
          rw [hlookup] at hisSome
          cases hisSome
        | some value =>
          exact ⟨hself, hsims child value rfl hlookup, not_false, fun target =>
            targets key child target hnew⟩
      | none =>
        rw [hnew, Option.none_or] at hisSome hsims
        cases hdata : data.lookup key with
        | none =>
          rw [hdata] at hisSome
          cases hlookup : properties.lookup key with
          | none => exact ⟨hself, trivial⟩
          | some value =>
            rw [hlookup] at hisSome
            cases hisSome
        | some value =>
          rw [hdata] at hisSome hsims
          cases hlookup : properties.lookup key with
          | none =>
            rw [hlookup] at hisSome
            cases hisSome
          | some value' =>
            have hvalue : value' = value := by
              have hplain := hsims _ value' rfl hlookup
              cases hplain
              rfl
            subst hvalue
            cases json with
            | object hnodup hvalues =>
              have hjson := hvalues key value' hdata
              by_cases hobject : value'.isObject
              · have hchild : Sim ordered (augment value') value' := sim_augment (Or.inl hjson)
                have htarget : ∀ target, (augment value').target? = some target →
                    some value' = some target := by
                  rw [(target?_augment hobject).1]
                  exact fun _ => id
                have hnext := hself.setEntry hchild (hdata ▸ htarget) fun _ hplace =>
                  hplace.elim (fun hp => hdeleted hp.2) fun hp => hp.1
                    (lookup_isSome_iff.1 (by rw [hdata]; rfl))
                rw [setEntry_self hlookup, List.filter_eq_self.2 fun key' hkey' => by
                  rw [decide_eq_true_iff]
                  rintro rfl
                  exact hdeleted hkey'] at hnext
                simp only [hobject, if_true]
                exact ⟨hnext, hchild, not_false, htarget⟩
              · simp only [hobject, Bool.false_eq_true, if_false]
                exact ⟨hself, .plain _, not_false, fun target ht => by cases ht⟩

/-- The keys that `ownKeys` lists. -/
def listedKeys (data : List (String × Plain P)) (newData : List (String × Augmented P))
    (deletedProperties : List String) : List String :=
  (orderedKeys (data.map Prod.fst) ++ orderedKeys (newData.map Prod.fst)).eraseDups.filter
    (· ∉ deletedProperties)

theorem listedKeys_eq (hdata : (data.map Prod.fst).Nodup) (hnew : (newData.map Prod.fst).Nodup)
    (hpresent : ∀ key ∈ newData.map Prod.fst, key ∉ deletedProperties) :
    listedKeys data newData deletedProperties =
      orderedKeys ((data.map Prod.fst).filter (· ∉ deletedProperties)) ++
        orderedKeys ((newData.map Prod.fst).filter (· ∉ data.map Prod.fst)) := by
  rw [listedKeys, eraseDups_append_of_nodup (nodup_orderedKeys hdata) (nodup_orderedKeys hnew),
    List.filter_append, filter_orderedKeys]
  simp only [mem_orderedKeys]
  rw [filter_orderedKeys]
  congr 1
  refine List.filter_eq_self.2 fun key hkey => decide_eq_true (hpresent key ?_)
  exact (List.mem_filter.1 (mem_orderedKeys.1 hkey)).1

theorem agrees_keys
    (h : Sim ordered (.object data newData deletedProperties) (.object properties)) :
    Agrees ordered deletedProperties (.ownKeys : Operation P)
      (.keys (listedKeys data newData deletedProperties))
      (.keys (orderedKeys (properties.map Prod.fst))) := by
  cases h with
  | object json nodupNew nodup present targets isSome sims order =>
    cases json with
    | object hnodup hvalues =>
      have hlisted := listedKeys_eq hnodup nodupNew present
      by_cases hordered : ordered
      · obtain ⟨hkeys, hlater⟩ := order hordered
        rw [hlisted, hkeys, orderedKeys_append]
        · exact .same _ _
        · intro key' hkey' hindex key hkey
          obtain ⟨hnew, hnot⟩ := List.mem_filter.1 hkey'
          obtain ⟨hmem, hkept⟩ := List.mem_filter.1 hkey
          exact hlater key' hnew (of_decide_eq_true hnot) hindex key hmem (of_decide_eq_true hkept)
      · refine .keys hordered ((List.perm_ext_iff_of_nodup ?_ (nodup_orderedKeys nodup)).2
          fun key => ?_)
        · rw [hlisted]
          refine List.nodup_append.2 ⟨nodup_orderedKeys (hnodup.filter _),
            nodup_orderedKeys (nodupNew.filter _), fun key hkey key' hkey' heq => ?_⟩
          rw [mem_orderedKeys, List.mem_filter] at hkey hkey'
          exact of_decide_eq_true hkey'.2 (heq ▸ hkey.1)
        · rw [mem_orderedKeys, ← lookup_isSome_iff, ← isSome key, view_isSome_iff, listedKeys,
            List.mem_filter, List.mem_eraseDups, List.mem_append, mem_orderedKeys, mem_orderedKeys,
            decide_eq_true_iff, and_comm]
          exact and_congr_right fun _ => or_comm

/-- One operation on an object. -/
theorem performObject_spec
    (h : Sim ordered (.object data newData deletedProperties) (.object properties))
    {operation : Operation P} (husable : operation.Usable)
    (hplace : ordered → ∀ key newValue, operation = .set key newValue → newValue ≠ .undefined →
      ¬ Displaced data deletedProperties key) :
    Agrees ordered deletedProperties operation
        (Augmented.performObject data newData deletedProperties operation).1
        (Plain.performObject properties operation).1 ∧
      Sim ordered (Augmented.performObject data newData deletedProperties operation).2
        (.object (Plain.performObject properties operation).2) ∧
      (Augmented.performObject data newData deletedProperties operation).2.target? =
        some (.object data) := by
  cases operation with
  | get key =>
    obtain ⟨hnext, hread⟩ := h.getObject key
    by_cases hconstructor : key = "constructor"
    · subst hconstructor
      exact ⟨.constructor _, h, rfl⟩
    · simp only [Augmented.performObject, hconstructor, if_false, Plain.performObject]
      refine ⟨?_, hnext, rfl⟩
      revert hread
      cases hget : (Augmented.getObject data newData deletedProperties key).1 with
      | none =>
        cases hlookup : properties.lookup key with
        | none =>
          intro _
          by_cases hinherited : key ∈ inheritedKeys
          · by_cases hdeleted : key ∈ deletedProperties
            · simp only [hinherited, hdeleted, true_or, if_true]
              exact .readDeleted hinherited hdeleted
            · simp only [hinherited, hdeleted, not_true_eq_false, or_self, if_true, if_false]
              exact .same _ _
          · simp only [hinherited, not_false_eq_true, or_true, if_true, if_false]
            exact .same _ _
        | some value => exact False.elim
      | some child =>
        cases hlookup : properties.lookup key with
        | none => exact False.elim
        | some value =>
          rintro ⟨hsim, -⟩
          simp only [hsim.observe_eq]
          exact .same _ _
  | set key newValue =>
    by_cases hundefined : newValue = .undefined
    · subst hundefined
      refine ⟨.same _ _, h.filterEntry (fun hdata => ?_) (fun key' hne => ?_), rfl⟩
      · rw [if_pos (Or.inl hdata)]
        exact List.mem_insert_self
      · split
        · rw [List.mem_insert_iff]
          exact or_iff_right hne
        · exact Iff.rfl
    · have hnext := h.setEntry (.plain newValue) (fun _ ht => by cases ht) fun hordered =>
        hplace hordered key newValue rfl hundefined
      cases newValue with
      | undefined => exact absurd rfl hundefined
      | leaf value => exact ⟨.same _ _, hnext, rfl⟩
      | object value => exact ⟨.same _ _, hnext, rfl⟩
      | array value => exact ⟨.same _ _, hnext, rfl⟩
  | delete key =>
    refine ⟨.same _ _, h.filterEntry (fun hdata => ?_) (fun key' hne => ?_), rfl⟩
    · rw [if_pos hdata]
      exact List.mem_insert_self
    · split
      · rw [List.mem_insert_iff]
        exact or_iff_right hne
      · exact Iff.rfl
  | has key =>
    refine ⟨?_, h, rfl⟩
    cases h with
    | object json nodupNew nodup present targets isSome sims order =>
      have hmem : key ∈ properties.map Prod.fst ↔ key ∉ deletedProperties ∧
          (key ∈ newData.map Prod.fst ∨ key ∈ data.map Prod.fst) := by
        rw [← lookup_isSome_iff, ← isSome key, view_isSome_iff]
      simp only [Augmented.performObject, Plain.performObject, hmem]
      by_cases hdeleted : key ∈ deletedProperties
      · by_cases hinherited : key ∈ inheritedKeys
        · simp only [hdeleted, hinherited, not_true_eq_false, false_and, or_true, decide_false,
            decide_true]
          exact .hasDeleted hinherited hdeleted
        · simp only [hdeleted, hinherited, not_true_eq_false, false_and, or_false]
          exact .same _ _
      · simp only [hdeleted, not_false_eq_true, true_and, or_assoc]
        exact .same _ _
  | ownKeys => exact ⟨agrees_keys h, h, rfl⟩

end Object

/-! ## Operations on arrays -/

section Array

variable {data : Slots (Plain P)} {newData : Option (Slots (Augmented P))}
  {slots : Slots (Plain P)} {key : String} {child : Augmented P} {value : Plain P}

/-- The values without proxies are those that can get one. -/
def Augmentable (s : Slots (Augmented P)) : Prop :=
  ∀ key value, s.own key = some (.plain value) → IsJson value ∨ value = .undefined

theorem augmentable_augment {value value' : Plain P} (h : IsJson value ∨ value = .undefined)
    (heq : augment value = .plain value') : IsJson value' ∨ value' = .undefined := by
  cases value with
  | undefined =>
    cases heq
    exact h
  | leaf value =>
    cases heq
    exact h
  | object data => cases heq
  | array data => cases heq

theorem Augmentable.put {s : Slots (Augmented P)} (h : Augmentable s) {value : Plain P}
    (hvalue : IsJson value ∨ value = .undefined) (key : String) :
    Augmentable (s.put key (augment value)) := by
  intro key' value' hown
  rw [Slots.own_put] at hown
  split at hown
  · exact augmentable_augment hvalue (Option.some.inj hown)
  · exact h key' value' hown

theorem getData_eq (json : IsJson (.array data)) :
    Augmented.getData data newData = Augmented.current data newData := by
  cases newData with
  | some slots => rfl
  | none =>
    cases json with
    | @array values hvalues => simp [Augmented.getData, Augmented.current, Slots.map]

theorem Sim.related (h : Sim ordered (.array data newData) (.array slots)) :
    IsJson (.array data) ∧ Augmentable (Augmented.current data newData) ∧
      Slots.Related (Sim ordered) (Augmented.current data newData) slots := by
  cases h with
  | array json elements others augmentable sims =>
    exact ⟨json, augmentable, elements, others, sims⟩

theorem sim_array (json : IsJson (.array data)) {s : Slots (Augmented P)} (haug : Augmentable s)
    (hrelated : Slots.Related (Sim ordered) s slots) :
    Sim ordered (.array data (some s)) (.array slots) :=
  .array json hrelated.elements hrelated.others haug hrelated.values

theorem put_self {slots : Slots (Plain P)} {value : Plain P} (h : slots.own key = some value) :
    slots.put key value = slots := by
  unfold Slots.own at h
  unfold Slots.put
  split at h
  · rename_i hindex
    rw [if_pos hindex, setAt]
    rw [List.getD_eq_getElem?_getD] at h
    cases hget : slots.elements[arrayIndex key]? with
    | none =>
      rw [hget] at h
      cases h
    | some element =>
      rw [hget, Option.getD_some] at h
      subst h
      obtain ⟨hlt, heq⟩ := List.getElem?_eq_some_iff.1 hget
      rw [show arrayIndex key + 1 - slots.elements.length = 0 by omega, List.replicate_zero,
        List.append_nil, ← heq, List.set_getElem_self]
  · rename_i hindex
    rw [if_neg hindex, setEntry_self h]

theorem Sim.getArray (h : Sim ordered (.array data newData) (.array slots)) (key : String) :
    Sim ordered (.array data (Augmented.getArray data newData key).2) (.array slots) ∧
      match (Augmented.getArray data newData key).1, slots.own key with
      | some child, some value => Sim ordered child value ∧
          (child.isObject → child.target?.isSome)
      | none, none => True
      | _, _ => False := by
  obtain ⟨json, haug, hrelated⟩ := h.related
  have hisSome := hrelated.own_isSome key
  have hvalues := hrelated.values key
  unfold Augmented.getArray
  cases hown : (Augmented.current data newData).own key with
  | none =>
    rw [hown] at hisSome
    cases hvalue : slots.own key with
    | none => exact ⟨h, trivial⟩
    | some value =>
      rw [hvalue] at hisSome
      cases hisSome
  | some child =>
    rw [hown] at hisSome
    cases hvalue : slots.own key with
    | none =>
      rw [hvalue] at hisSome
      cases hisSome
    | some value =>
      have hsim := hvalues child value hown hvalue
      cases child with
      | object data' newData' deleted => exact ⟨h, hsim, fun _ => rfl⟩
      | array data' newData' => exact ⟨h, hsim, fun _ => rfl⟩
      | plain value' =>
        cases hsim
        have hjson := haug key value hown
        by_cases hobject : value.isObject
        · have hchild : Sim ordered (augment value) value := sim_augment hjson
          have hput := hrelated.put hchild key
          rw [put_self hvalue] at hput
          simp only [hobject, if_true, getData_eq json]
          refine ⟨sim_array json (haug.put hjson key) hput, hchild, fun _ => ?_⟩
          rw [(target?_augment hobject).1]
          rfl
        · simp only [hobject, Bool.false_eq_true, if_false]
          exact ⟨h, .plain _, fun hplain => absurd hplain hobject⟩

variable (lang : Language P)

theorem read_eq (h : Sim ordered (.array data newData) (.array slots)) (key : String) :
    (Augmented.current data newData).read lang key Augmented.observe =
      slots.read lang key Plain.observe := by
  obtain ⟨-, -, hrelated⟩ := h.related
  have hisSome := hrelated.own_isSome key
  have hvalues := hrelated.values key
  unfold Slots.read
  rw [hrelated.length_eq]
  split
  · rfl
  · revert hisSome hvalues
    cases (Augmented.current data newData).own key <;> cases slots.own key <;>
      intro hisSome hvalues
    · rfl
    · cases hisSome
    · cases hisSome
    · exact (hvalues _ _ rfl rfl).observe_eq

theorem performArray_spec (h : Sim ordered (.array data newData) (.array slots))
    {operation : Operation P} (husable : operation.Usable) :
    Agrees ordered [] operation
        (Augmented.performArray lang data newData operation).1
        (slots.perform lang Plain.observe id operation).1 ∧
      Sim ordered (Augmented.performArray lang data newData operation).2
        (.array (slots.perform lang Plain.observe id operation).2) ∧
      (Augmented.performArray lang data newData operation).2.target? = some (.array data) := by
  obtain ⟨json, haug, hrelated⟩ := h.related
  cases operation with
  | get key =>
    by_cases hconstructor : key = "constructor"
    · subst hconstructor
      exact ⟨.constructor _, h, rfl⟩
    · simp only [Augmented.performArray, hconstructor, if_false, Slots.perform, read_eq lang h]
      exact ⟨.same _ _, (h.getArray key).1, rfl⟩
  | set key newValue =>
    simp only [Augmented.performArray, Slots.perform, getData_eq json]
    by_cases hlength : key = "length"
    · simp only [hlength, if_true]
      cases lang.toLength newValue with
      | none => exact ⟨.same _ _, sim_array json haug hrelated, rfl⟩
      | some n =>
        refine ⟨.same _ _, sim_array json (fun key' value hown => ?_) (hrelated.resize n), rfl⟩
        rw [Slots.own_resize] at hown
        split at hown
        · cases hown
        · exact haug key' value hown
    · simp only [hlength, if_false]
      exact ⟨.same _ _, sim_array json (haug.put husable.2 key)
        (hrelated.put (sim_augment husable.2) key), rfl⟩
  | delete key =>
    simp only [Augmented.performArray, Slots.perform, getData_eq json]
    by_cases hlength : key = "length"
    · simp only [hlength, if_true]
      exact ⟨.same _ _, sim_array json haug hrelated, rfl⟩
    · simp only [hlength, if_false]
      refine ⟨.same _ _, sim_array json (fun key' value hown => ?_) (hrelated.remove key), rfl⟩
      rw [Slots.own_remove] at hown
      split at hown
      · cases hown
      · exact haug key' value hown
  | has key =>
    simp only [Augmented.performArray, Slots.perform, hrelated.own_isSome]
    exact ⟨.same _ _, h, rfl⟩
  | ownKeys =>
    simp only [Augmented.performArray, Slots.perform, hrelated.keys_eq]
    exact ⟨.same _ _, h, rfl⟩

end Array

/-! ## Operations along a path -/

section Path

variable (lang : Language P)

/-- What the copy has is not displaced. -/
theorem Sim.not_displaced {data : List (String × Plain P)} {newData : List (String × Augmented P)}
    {deletedProperties : List String} {properties : List (String × Plain P)} {key : String}
    (h : Sim ordered (.object data newData deletedProperties) (.object properties))
    (hsome : (properties.lookup key).isSome) (hordered : ordered) :
    ¬ Displaced data deletedProperties key := by
  cases h with
  | object json nodupNew nodup present targets isSome sims order =>
    obtain ⟨hkept, hmem⟩ := view_isSome_iff.1 ((isSome key).trans hsome)
    rintro (⟨-, hdeleted⟩ | ⟨hnot, hindex, other, hother, halive, hbehind⟩)
    · exact hkept hdeleted
    · exact hbehind ((order hordered).later key (hmem.resolve_right hnot) hnot hindex other hother
        halive)

theorem deletedAt_cons {a child : Augmented P} {key : String} (h : a.child key = some child)
    (path : List String) : a.deletedAt (key :: path) = child.deletedAt path := by
  simp only [Augmented.deletedAt, Augmented.nodeAt, h, Option.bind_some]

theorem reorders_cons {a child : Augmented P} {key : String} (h : a.child key = some child)
    (path : List String) (operation : Operation P) :
    (Step.mk (key :: path) operation).Reorders a ↔ (Step.mk path operation).Reorders child := by
  simp only [Step.Reorders, Augmented.nodeAt, h, Option.bind_some]

/-- One operation along a path. -/
theorem performAt_spec : ∀ (path : List String) {a : Augmented P} {value : Plain P}
    {operation : Operation P}, Sim ordered a value →
      (∀ key ∈ path, key ≠ "constructor" ∧ key ≠ protoKey) → operation.Usable →
      (ordered → ¬ (Step.mk path operation).Reorders a) →
      Agrees ordered (a.deletedAt path) operation (a.performAt lang path operation).1
          (value.performAt lang path operation).1 ∧
        Sim ordered (a.performAt lang path operation).2 (value.performAt lang path operation).2 ∧
        (a.performAt lang path operation).2.target? = a.target?
  | path, .plain value', value, operation, h, _, _, _ => by
    cases h
    simp only [Augmented.performAt]
    exact ⟨.same _ _, .plain _, rfl⟩
  | [], .object data newData deletedProperties, value, operation, h, _, husable, hplace => by
    cases h with
    | object json nodupNew nodup present targets isSome sims order =>
      refine performObject_spec (.object json nodupNew nodup present targets isSome sims order)
        husable fun hordered key newValue heq hne hdisplaced => hplace hordered ?_
      subst heq
      cases newValue with
      | undefined => exact absurd rfl hne
      | leaf value => exact hdisplaced
      | object properties => exact hdisplaced
      | array slots => exact hdisplaced
  | [], .array data newData, value, operation, h, _, husable, _ => by
    cases h with
    | array json elements others augmentable sims =>
      exact performArray_spec lang (.array json elements others augmentable sims) husable
  | key :: path, .object data newData deletedProperties, value, operation, h, hpath, husable,
      hplace => by
    cases h with
    | @object _ _ _ properties json nodupNew nodup present targets isSome sims order =>
      obtain ⟨hnext, hread⟩ :=
        (Sim.object json nodupNew nodup present targets isSome sims order).getObject key
      have hchild : (Augmented.object data newData deletedProperties).child key =
        (Augmented.getObject data newData deletedProperties key).1 := rfl
      have hconstructor := (hpath key List.mem_cons_self).1
      simp only [Augmented.performAt, hconstructor, if_false, Plain.performAt, Plain.own]
      revert hnext hread hchild
      cases Augmented.getObject data newData deletedProperties key with
      | mk found newData' =>
        cases hlookup : properties.lookup key with
        | none =>
          cases found with
          | none => exact fun hnext _ _ => ⟨.same _ _, hnext, rfl⟩
          | some child => exact fun _ hread => False.elim hread
        | some value =>
          cases found with
          | none => exact fun _ hread => False.elim hread
          | some child =>
            rintro hnext ⟨hsim, hkept, htarget⟩ hchild
            simp only [hsim.isObject_eq]
            by_cases hobject : value.isObject
            · obtain ⟨hagrees, hsim', htarget'⟩ := performAt_spec path hsim
                (fun key' hkey' => hpath key' (List.mem_cons_of_mem _ hkey')) husable
                fun hordered => (reorders_cons hchild path operation).not.1 (hplace hordered)
              have hput := hnext.setEntry hsim' (htarget' ▸ htarget) (hnext.not_displaced
                (by rw [hlookup]; rfl))
              rw [List.filter_eq_self.2 fun key' hkey' => by
                rw [decide_eq_true_iff]
                rintro rfl
                exact hkept hkey'] at hput
              simp only [hobject, if_true, Plain.put]
              rw [deletedAt_cons hchild]
              exact ⟨hagrees, hput, rfl⟩
            · simp only [hobject, Bool.false_eq_true, if_false]
              exact ⟨.same _ _, hnext, rfl⟩
  | key :: path, .array data newData, value, operation, h, hpath, husable, hplace => by
    cases h with
    | @array _ _ slots json elements others augmentable sims =>
      obtain ⟨hnext, hread⟩ :=
        (Sim.array json elements others augmentable sims).getArray key
      have hchild : (Augmented.array data newData).child key =
        (Augmented.getArray data newData key).1 := rfl
      have hconstructor := (hpath key List.mem_cons_self).1
      simp only [Augmented.performAt, hconstructor, if_false, Plain.performAt, Plain.own]
      revert hnext hread hchild
      cases Augmented.getArray data newData key with
      | mk found newData' =>
        cases hown : slots.own key with
        | none =>
          cases found with
          | none => exact fun hnext _ _ => ⟨.same _ _, hnext, rfl⟩
          | some child => exact fun _ hread => False.elim hread
        | some value =>
          cases found with
          | none => exact fun _ hread => False.elim hread
          | some child =>
            rintro hnext ⟨hsim, hproxy⟩ hchild
            simp only [hsim.isObject_eq]
            by_cases hobject : value.isObject
            · obtain ⟨hagrees, hsim', htarget'⟩ := performAt_spec path hsim
                (fun key' hkey' => hpath key' (List.mem_cons_of_mem _ hkey')) husable
                fun hordered => (reorders_cons hchild path operation).not.1 (hplace hordered)
              obtain ⟨-, haug, hrelated⟩ := hnext.related
              have htarget := hproxy (hsim.isObject_eq ▸ hobject)
              simp only [hobject, if_true, getData_eq json, Plain.put]
              rw [deletedAt_cons hchild]
              refine ⟨hagrees, sim_array json (fun key' value' hplain => ?_)
                (hrelated.put hsim' key), rfl⟩
              rw [Slots.own_put] at hplain
              split at hplain
              · rw [← htarget', Option.some.inj hplain] at htarget
                cases htarget
              · exact haug key' value' hplain
            · simp only [hobject, Bool.false_eq_true, if_false]
              exact ⟨.same _ _, hnext, rfl⟩

theorem run_spec : ∀ (steps : List (Step P)) {a : Augmented P} {value : Plain P},
    Sim ordered a value → (∀ step ∈ steps, step.Usable) →
      (ordered → NeverReorders lang steps a) →
      AgreesAlong lang ordered steps a value ∧ (∃ value', Sim ordered (a.run lang steps) value') ∧
        (a.run lang steps).target? = a.target?
  | [], _, value, h, _, _ => ⟨trivial, ⟨value, h⟩, rfl⟩
  | step :: steps, a, value, h, husable, hplace => by
    obtain ⟨hpath, hoperation⟩ := husable step List.mem_cons_self
    obtain ⟨hagrees, hnext, htarget⟩ := performAt_spec lang step.path h hpath hoperation
      fun hordered => (hplace hordered).1
    obtain ⟨hrest, hsim, htarget'⟩ := run_spec steps hnext
      (fun later hlater => husable later (List.mem_cons_of_mem _ hlater))
      fun hordered => (hplace hordered).2
    exact ⟨⟨hagrees, hrest⟩, hsim, htarget'.trans htarget⟩

/-- The targets of proxies are the parts of the object behind the first one. -/
theorem Sim.untouched {a : Augmented P} {value o : Plain P} (h : Sim ordered a value)
    (htarget : a.target? = some o) : Untouched o a := by
  intro path proxy target hproxy hbehind
  induction path generalizing a value o with
  | nil =>
    cases hproxy
    rw [htarget] at hbehind
    exact hbehind
  | cons key path ih =>
    cases h with
    | plain value => cases hproxy
    | array json elements others augmentable sims => cases hproxy
    | @object data newData deletedProperties properties json nodupNew nodup present targets isSome
        sims order =>
      cases htarget
      obtain ⟨child, hchild, hproxy⟩ := Option.bind_eq_some_iff.1 hproxy
      cases htarget' : child.target? with
      | none =>
        cases child with
        | object data newData deletedProperties => cases htarget'
        | array data newData => cases htarget'
        | plain value =>
          cases path with
          | nil =>
            cases hproxy
            cases hbehind
          | cons key path => cases hproxy
      | some part =>
        have hdata := targets key child part hchild htarget'
        have hkept : key ∉ deletedProperties :=
          present key (lookup_isSome_iff.1 (by rw [hchild]; rfl))
        have hview : view data newData deletedProperties key = some child := by
          rw [view, if_neg hkept, hchild]
          rfl
        obtain ⟨value, hvalue⟩ := Option.isSome_iff_exists.1
          ((isSome key).symm.trans (by rw [hview]; rfl))
        rw [Plain.at, Plain.own, hdata]
        exact ih (sims key child value hview hvalue) htarget' hproxy

end Path

end Sim

/-- Numbers are the only primitive values. -/
def numbers : Language ℕ where
  toLength
    | .leaf n => some n
    | _ => none
  arrayKeys := []

end N8n.Augment
