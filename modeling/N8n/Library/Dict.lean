import Mathlib.Algebra.GroupWithZero.Nat
import Mathlib.Data.List.Nodup

/-!
# Dictionaries in insertion order

A finite map that keeps its keys in the order they were first set: setting a key that is there
replaces its value in place, and a new key comes last.
-/

/-- A finite map from `κ` to `α`; no key has two entries. -/
structure Dict (κ α : Type*) where
  entries : List (κ × α)
  nodup : (entries.map Prod.fst).Nodup
  deriving DecidableEq

namespace Dict

open scoped List

variable {κ α : Type*}

def empty : Dict κ α := ⟨[], List.nodup_nil⟩

instance : Inhabited (Dict κ α) := ⟨empty⟩

def keys (d : Dict κ α) : List κ := d.entries.map Prod.fst

def size (d : Dict κ α) : ℕ := d.entries.length

theorem ext_entries : ∀ {d d' : Dict κ α}, d.entries = d'.entries → d = d'
  | ⟨_, _⟩, ⟨_, _⟩, rfl => rfl

variable [DecidableEq κ]

def get? (d : Dict κ α) (k : κ) : Option α := d.entries.lookup k

/-- The entries with the value of `k` replaced, or with `k` as a last key. -/
def setEntry (k : κ) (v : α) : List (κ × α) → List (κ × α)
  | [] => [(k, v)]
  | (j, w) :: es => if k = j then (k, v) :: es else (j, w) :: setEntry k v es

theorem map_fst_setEntry (k : κ) (v : α) : ∀ es : List (κ × α),
    (setEntry k v es).map Prod.fst =
      if k ∈ es.map Prod.fst then es.map Prod.fst else es.map Prod.fst ++ [k]
  | [] => rfl
  | (j, w) :: es => by
    unfold setEntry
    by_cases h : k = j
    · simp [h]
    · simp only [h, if_false, List.map_cons, map_fst_setEntry k v es, List.mem_cons, false_or]
      split_ifs <;> rfl

def set (d : Dict κ α) (k : κ) (v : α) : Dict κ α where
  entries := setEntry k v d.entries
  nodup := by
    rw [map_fst_setEntry]
    split_ifs with h
    · exact d.nodup
    · refine List.nodup_append.2 ⟨d.nodup, List.nodup_singleton k, fun a ha b hb hab => h ?_⟩
      rwa [← List.mem_singleton.1 hb, ← hab]

def erase (d : Dict κ α) (k : κ) : Dict κ α where
  entries := d.entries.filter fun e => decide (e.1 ≠ k)
  nodup := d.nodup.sublist (List.filter_sublist.map _)

/-- The value of a key is set, or the key is erased. -/
def put (d : Dict κ α) (k : κ) : Option α → Dict κ α
  | some v => d.set k v
  | none => d.erase k

@[simp] theorem get?_empty (k : κ) : (empty : Dict κ α).get? k = none := rfl

theorem lookup_cons_eq (k j : κ) (w : α) (es : List (κ × α)) :
    ((j, w) :: es).lookup k = if k = j then some w else es.lookup k := by
  by_cases h : k = j
  · simp [h]
  · simp [List.lookup_cons, beq_false_of_ne h, h]

theorem lookup_setEntry (k k' : κ) (v : α) : ∀ es : List (κ × α),
    (setEntry k v es).lookup k' = if k' = k then some v else es.lookup k'
  | [] => lookup_cons_eq k' k v []
  | (j, w) :: es => by
    by_cases hj : k = j
    · subst hj
      by_cases h : k' = k <;> simp [setEntry, lookup_cons_eq, h]
    · simp only [setEntry, hj, if_false, lookup_cons_eq, lookup_setEntry k k' v es]
      by_cases h : k' = j
      · simp [h, Ne.symm hj]
      · simp [h]

theorem get?_set (d : Dict κ α) (k k' : κ) (v : α) :
    (d.set k v).get? k' = if k' = k then some v else d.get? k' :=
  lookup_setEntry k k' v d.entries

@[simp] theorem get?_set_self (d : Dict κ α) (k : κ) (v : α) : (d.set k v).get? k = some v := by
  simp [get?_set]

theorem get?_set_of_ne (d : Dict κ α) {k k' : κ} (h : k' ≠ k) (v : α) :
    (d.set k v).get? k' = d.get? k' := by
  simp [get?_set, h]

theorem lookup_filter_ne (k k' : κ) : ∀ es : List (κ × α),
    (es.filter fun e => decide (e.1 ≠ k)).lookup k' = if k' = k then none else es.lookup k'
  | [] => by simp
  | (j, w) :: es => by
    have ih := lookup_filter_ne k k' es
    by_cases hj : j = k
    · subst hj
      rw [List.filter_cons_of_neg (by simp), ih, lookup_cons_eq]
      by_cases h : k' = j <;> simp [h]
    · rw [List.filter_cons_of_pos (by simpa using hj), lookup_cons_eq, lookup_cons_eq, ih]
      by_cases h : k' = j
      · simp [h, hj]
      · simp [h]

theorem get?_erase (d : Dict κ α) (k k' : κ) :
    (d.erase k).get? k' = if k' = k then none else d.get? k' :=
  lookup_filter_ne k k' d.entries

@[simp] theorem get?_erase_self (d : Dict κ α) (k : κ) : (d.erase k).get? k = none := by
  simp [get?_erase]

theorem get?_erase_of_ne (d : Dict κ α) {k k' : κ} (h : k' ≠ k) :
    (d.erase k).get? k' = d.get? k' := by
  simp [get?_erase, h]

theorem lookup_isSome {k : κ} : ∀ {es : List (κ × α)},
    (es.lookup k).isSome ↔ k ∈ es.map Prod.fst
  | [] => by simp
  | (j, w) :: es => by
    by_cases h : k = j
    · simp [h]
    · simp only [lookup_cons_eq, List.map_cons, List.mem_cons, h, if_false, false_or]
      exact lookup_isSome

/-- The entries of several keys are erased. -/
theorem get?_foldl_erase {β : Type*} (f : β → κ) (k : κ) : ∀ (xs : List β) (d : Dict κ α),
    (xs.foldl (fun d x => d.erase (f x)) d).get? k = if k ∈ xs.map f then none else d.get? k
  | [], d => by simp
  | x :: xs, d => by
    rw [List.foldl_cons, get?_foldl_erase f k xs, get?_erase]
    by_cases hmem : k ∈ xs.map f
    · simp [hmem]
    · simp only [List.map_cons, List.mem_cons, hmem, or_false, if_false]

/-- A loop whose calls set the key or leave it as it is: the last one that sets it counts. -/
theorem get?_foldl_of_sets {β : Type*} {f : Dict κ α → β → Dict κ α} {p : β → Bool} {value : β → α}
    {k : κ} (hstep : ∀ d x, (f d x).get? k = if p x then some (value x) else d.get? k) :
    ∀ (xs : List β) (d : Dict κ α),
      (xs.foldl f d).get? k = ((xs.filter p).getLast?.map value).or (d.get? k)
  | [], _ => rfl
  | x :: xs, d => by
    rw [List.foldl_cons, get?_foldl_of_sets hstep xs, hstep, List.filter_cons]
    split_ifs with hx
    · rw [List.getLast?_cons]
      cases (xs.filter p).getLast? <;> rfl
    · rfl

theorem get?_foldl_set {β : Type*} (key : β → κ) (value : β → α) (k : κ) (xs : List β)
    (d : Dict κ α) : (xs.foldl (fun d x => d.set (key x) (value x)) d).get? k =
      ((xs.filter fun x => key x = k).getLast?.map value).or (d.get? k) := by
  refine get?_foldl_of_sets (fun d x => ?_) xs d
  rw [get?_set]
  exact if_congr (by simp [eq_comm]) rfl rfl

/-- After a loop that sets a key for each element, the key has the value of one of its elements. -/
theorem get?_foldl_set_cases {β : Type*} (key : β → κ) (value : β → α) (k : κ) (xs : List β)
    (d : Dict κ α) :
    (∃ x ∈ xs, key x = k ∧
      (xs.foldl (fun d x => d.set (key x) (value x)) d).get? k = some (value x)) ∨
    (∀ x ∈ xs, key x ≠ k) ∧
      (xs.foldl (fun d x => d.set (key x) (value x)) d).get? k = d.get? k := by
  rw [get?_foldl_set]
  cases hlast : (xs.filter fun x => key x = k).getLast? with
  | none =>
    rw [List.getLast?_eq_none_iff, List.filter_eq_nil_iff] at hlast
    exact .inr ⟨fun x hx hkey => hlast x hx (decide_eq_true hkey), rfl⟩
  | some x =>
    obtain ⟨hx, hkey⟩ := List.mem_filter.1 (List.mem_of_getLast? hlast)
    exact .inl ⟨x, hx, of_decide_eq_true hkey, rfl⟩

theorem mem_keys {d : Dict κ α} {k : κ} : k ∈ d.keys ↔ (d.get? k).isSome :=
  lookup_isSome.symm

/-- A new key comes last. -/
theorem keys_set (d : Dict κ α) (k : κ) (v : α) :
    (d.set k v).keys = if k ∈ d.keys then d.keys else d.keys ++ [k] :=
  map_fst_setEntry k v d.entries

/-- The value of a key that is there is replaced in place. -/
theorem keys_set_of_get? {d : Dict κ α} {k : κ} {w : α} (h : d.get? k = some w) (v : α) :
    (d.set k v).keys = d.keys := by
  rw [keys_set, if_pos (mem_keys.2 (by rw [h]; rfl))]

/-! ## Entries -/

theorem lookup_eq_some_iff {k : κ} {v : α} : ∀ {es : List (κ × α)}, (es.map Prod.fst).Nodup →
    (es.lookup k = some v ↔ (k, v) ∈ es)
  | [], _ => by simp
  | (j, w) :: es, hnd => by
    simp only [List.map_cons, List.nodup_cons] at hnd
    rw [lookup_cons_eq, List.mem_cons]
    split_ifs with h
    · subst h
      refine ⟨fun h => .inl (by rw [Option.some.inj h]), ?_⟩
      rintro (h | h)
      · rw [(Prod.mk.inj h).2]
      · exact absurd (List.mem_map_of_mem h) hnd.1
    · rw [lookup_eq_some_iff hnd.2]
      exact ⟨.inr, fun h' => h'.resolve_left fun heq => h (Prod.mk.inj heq).1⟩

theorem mem_entries {d : Dict κ α} {k : κ} {v : α} : (k, v) ∈ d.entries ↔ d.get? k = some v :=
  (lookup_eq_some_iff d.nodup).symm

theorem mem_entries_set {d : Dict κ α} {k : κ} {v : α} {e : κ × α} (h : e ∈ (d.set k v).entries) :
    e = (k, v) ∨ e ∈ d.entries := by
  obtain ⟨key, a⟩ := e
  rw [mem_entries, get?_set] at h
  split_ifs at h with heq
  · exact .inl (by rw [heq, Option.some.inj h])
  · exact .inr (mem_entries.2 h)

theorem mem_entries_erase {d : Dict κ α} {k : κ} {e : κ × α} (h : e ∈ (d.erase k).entries) :
    e ∈ d.entries := (List.mem_filter.1 h).1

theorem get?_put (d : Dict κ α) (k k' : κ) (v : Option α) :
    (d.put k v).get? k' = if k' = k then v else d.get? k' := by
  cases v with
  | none => exact get?_erase d k k'
  | some v => exact get?_set d k k' v

/-! ## Loops over the entries -/

/-- A loop whose calls change the value of the entry's own key only. -/
theorem get?_foldl_entries {β : Type*} {f : Dict κ β → κ × α → Dict κ β}
    {g : κ × α → Option β → Option β}
    (hstep : ∀ d e k, (f d e).get? k = if k = e.1 then g e (d.get? k) else d.get? k) {k : κ} :
    ∀ {es : List (κ × α)} {d : Dict κ β}, (es.map Prod.fst).Nodup →
      (es.foldl f d).get? k = (es.lookup k).elim (d.get? k) fun v => g (k, v) (d.get? k)
  | [], d, _ => rfl
  | (j, w) :: es, d, hnd => by
    simp only [List.map_cons, List.nodup_cons] at hnd
    rw [List.foldl_cons, get?_foldl_entries hstep hnd.2, lookup_cons_eq, hstep]
    by_cases h : k = j
    · subst h
      have hnone : es.lookup k = none :=
        Option.not_isSome_iff_eq_none.1 fun hsome => hnd.1 (lookup_isSome.1 hsome)
      rw [hnone, if_pos rfl, if_pos rfl]
      rfl
    · rw [if_neg h, if_neg h]

/-- A loop that may fail, and whose calls put the value of the entry's own key. -/
theorem foldlM_put {β ε κ α : Type} [DecidableEq κ] {f : Option β → α → Except ε (Option β)}
    {r : κ → Option β} : ∀ {es : List (κ × α)} {d : Dict κ β}, (es.map Prod.fst).Nodup →
      (∀ e ∈ es, f (d.get? e.1) e.2 = .ok (r e.1)) →
      ∃ d', es.foldlM (fun d e => (f (d.get? e.1) e.2).map (d.put e.1)) d = .ok d' ∧
        ∀ k, d'.get? k = if k ∈ es.map Prod.fst then r k else d.get? k
  | [], d, _, _ => ⟨d, rfl, fun k => by simp⟩
  | (j, w) :: es, d, hnd, hr => by
    simp only [List.map_cons, List.nodup_cons] at hnd
    have hfirst := hr (j, w) List.mem_cons_self
    have hrest : ∀ e ∈ es, f ((d.put j (r j)).get? e.1) e.2 = .ok (r e.1) := by
      intro e he
      have hne : e.1 ≠ j := fun heq => hnd.1 (heq ▸ List.mem_map_of_mem he)
      rw [get?_put, if_neg hne]
      exact hr e (List.mem_cons_of_mem _ he)
    obtain ⟨d', hd', hget⟩ := foldlM_put hnd.2 hrest
    refine ⟨d', ?_, fun k => ?_⟩
    · rw [List.foldlM_cons, hfirst]
      exact hd'
    · rw [hget, get?_put]
      by_cases hk : k = j
      · subst hk
        rw [if_neg hnd.1, if_pos rfl, List.map_cons, if_pos List.mem_cons_self]
      · rw [if_neg hk]
        exact if_congr (by rw [List.map_cons, List.mem_cons, or_iff_right hk]) rfl rfl

theorem filter_ne_eq_self {k : κ} {es : List (κ × α)} (h : k ∉ es.map Prod.fst) :
    (es.filter fun e => decide (e.1 ≠ k)) = es :=
  List.filter_eq_self.2 fun _ he => decide_eq_true fun heq => h (heq ▸ List.mem_map_of_mem he)

theorem perm_cons_filter {k : κ} {v : α} : ∀ {es : List (κ × α)}, (es.map Prod.fst).Nodup →
    (k, v) ∈ es → es.Perm ((k, v) :: es.filter fun e => decide (e.1 ≠ k))
  | (j, w) :: es, hnd, h => by
    simp only [List.map_cons, List.nodup_cons] at hnd
    rcases List.mem_cons.1 h with heq | h
    · obtain ⟨rfl, rfl⟩ := Prod.mk.inj heq
      rw [List.filter_cons_of_neg (by simp), filter_ne_eq_self hnd.1]
    · have hjk : j ≠ k := by
        rintro rfl
        exact hnd.1 (List.mem_map_of_mem h)
      rw [List.filter_cons_of_pos (by simpa using hjk)]
      exact ((perm_cons_filter hnd.2 h).cons _).trans (.swap _ _ _)

theorem entries_perm {d : Dict κ α} {k : κ} {v : α} (h : d.get? k = some v) :
    d.entries.Perm ((k, v) :: (d.erase k).entries) :=
  perm_cons_filter d.nodup (mem_entries.2 h)

theorem erase_entries_of_none {d : Dict κ α} {k : κ} (h : d.get? k = none) :
    (d.erase k).entries = d.entries :=
  filter_ne_eq_self fun hk => by
    have hsome := mem_keys.1 hk
    rw [h] at hsome
    cases hsome

theorem filter_setEntry (k : κ) (v : α) : ∀ es : List (κ × α),
    ((setEntry k v es).filter fun e => decide (e.1 ≠ k)) = es.filter fun e => decide (e.1 ≠ k)
  | [] => by simp [setEntry]
  | (j, w) :: es => by
    unfold setEntry
    split_ifs with h
    · subst h
      simp
    · simp only [List.filter_cons, filter_setEntry k v es]

theorem set_entries_perm (d : Dict κ α) (k : κ) (v : α) :
    (d.set k v).entries.Perm ((k, v) :: (d.erase k).entries) := by
  have h := entries_perm (get?_set_self d k v)
  rwa [show ((d.set k v).erase k).entries = (d.erase k).entries from
    filter_setEntry k v d.entries] at h

/-- What is collected over the entries, with those of one key in front. -/
theorem flatMap_entries_perm {β : Type*} (f : κ × α → List β) (d : Dict κ α) (k : κ) :
    (d.entries.flatMap f).Perm
      (((d.get? k).elim [] fun v => f (k, v)) ++ (d.erase k).entries.flatMap f) := by
  cases h : d.get? k with
  | none => rw [erase_entries_of_none h, Option.elim_none, List.nil_append]
  | some v => exact (entries_perm h).flatMap_right f

/-- A value that collects `new` beside what the old one did, where an absent value counts as the
default, which collects nothing. -/
theorem flatMap_set_perm {β : Type*} (f : κ × α → List β) (d : Dict κ α) {k : κ} {v : α}
    (new : List β) (default : α) (hdefault : f (k, default) = [])
    (h : (f (k, v)).Perm (new ++ f (k, (d.get? k).getD default))) :
    ((d.set k v).entries.flatMap f).Perm (new ++ d.entries.flatMap f) := by
  have hold : ((d.get? k).elim [] fun v => f (k, v)) = f (k, (d.get? k).getD default) := by
    cases d.get? k with
    | none => exact hdefault.symm
    | some v => rfl
  calc (d.set k v).entries.flatMap f
    _ ~ f (k, v) ++ (d.erase k).entries.flatMap f := (set_entries_perm d k v).flatMap_right f
    _ ~ new ++ f (k, (d.get? k).getD default) ++ (d.erase k).entries.flatMap f :=
      h.append_right _
    _ = new ++ (((d.get? k).elim [] fun v => f (k, v)) ++ (d.erase k).entries.flatMap f) := by
      rw [hold, List.append_assoc]
    _ ~ new ++ d.entries.flatMap f := (flatMap_entries_perm f d k).symm.append_left new

/-! ## Maps over the values -/

/-- A function of each value. -/
def mapValues {β : Type*} (f : α → β) (d : Dict κ α) : Dict κ β where
  entries := d.entries.map fun e => (e.1, f e.2)
  nodup := by rw [List.map_map]; exact d.nodup

/-- A function of each key and value. -/
def mapEntries {β : Type*} (f : κ → α → β) (d : Dict κ α) : Dict κ β where
  entries := d.entries.map fun e => (e.1, f e.1 e.2)
  nodup := by rw [List.map_map]; exact d.nodup

theorem lookup_mapEntries {β : Type*} (f : κ → α → β) (k : κ) : ∀ es : List (κ × α),
    (es.map fun e => (e.1, f e.1 e.2)).lookup k = (es.lookup k).map (f k)
  | [] => rfl
  | (j, w) :: es => by
    simp only [List.map_cons, lookup_cons_eq, lookup_mapEntries f k es]
    split_ifs with h
    · rw [h]
      rfl
    · rfl

theorem get?_mapEntries {β : Type*} (f : κ → α → β) (d : Dict κ α) (k : κ) :
    (d.mapEntries f).get? k = (d.get? k).map (f k) := lookup_mapEntries f k d.entries

theorem get?_mapValues {β : Type*} (f : α → β) (d : Dict κ α) (k : κ) :
    (d.mapValues f).get? k = (d.get? k).map f := lookup_mapEntries (fun _ => f) k d.entries

/-- The entries whose key has `p`. -/
def filterKeys (p : κ → Bool) (d : Dict κ α) : Dict κ α where
  entries := d.entries.filter fun e => p e.1
  nodup := d.nodup.sublist (List.filter_sublist.map _)

theorem get?_filterKeys (p : κ → Bool) (d : Dict κ α) (k : κ) :
    (d.filterKeys p).get? k = if p k then d.get? k else none := by
  ext v
  simp only [← mem_entries, filterKeys, List.mem_filter]
  split_ifs with h <;> simp [h, mem_entries]

/-- The entries whose value has `p`. -/
def filter (p : α → Bool) (d : Dict κ α) : Dict κ α where
  entries := d.entries.filter fun e => p e.2
  nodup := d.nodup.sublist (List.filter_sublist.map _)

theorem get?_filter (p : α → Bool) (d : Dict κ α) (k : κ) :
    (d.filter p).get? k = (d.get? k).filter p := by
  ext v
  rw [← mem_entries, filter, List.mem_filter, mem_entries, Option.filter_eq_some_iff]

/-! ## Sizes -/

omit [DecidableEq κ] in
theorem size_filter_le (p : α → Bool) (d : Dict κ α) : (d.filter p).size ≤ d.size :=
  List.length_filter_le _ _

theorem size_erase_le (d : Dict κ α) (k : κ) : (d.erase k).size ≤ d.size :=
  List.length_filter_le _ _

theorem size_erase {d : Dict κ α} {k : κ} {v : α} (h : d.get? k = some v) :
    (d.erase k).size + 1 = d.size :=
  (entries_perm h).length_eq.symm

theorem size_set_le (d : Dict κ α) (k : κ) (v : α) : (d.set k v).size ≤ d.size + 1 := by
  have hset : (d.set k v).size = (d.erase k).size + 1 := (set_entries_perm d k v).length_eq
  have herase := size_erase_le d k
  omega

/-! ## Sums over the values -/

theorem sum_setEntry (f : α → ℕ) {k : κ} {v₀ : α} (v : α) : ∀ {es : List (κ × α)},
    es.lookup k = some v₀ →
      ((setEntry k v es).map fun e => f e.2).sum + f v₀ = (es.map fun e => f e.2).sum + f v
  | [], h => by simp at h
  | (j, w) :: es, h => by
    rw [lookup_cons_eq] at h
    unfold setEntry
    split_ifs at h ⊢ with hj
    · obtain rfl := Option.some.inj h
      simp only [List.map_cons, List.sum_cons]
      omega
    · have ih := sum_setEntry f v h
      simp only [List.map_cons, List.sum_cons]
      omega

theorem sum_set (f : α → ℕ) (d : Dict κ α) {k : κ} {v₀ : α} (h : d.get? k = some v₀) (v : α) :
    ((d.set k v).entries.map fun e => f e.2).sum + f v₀ =
      (d.entries.map fun e => f e.2).sum + f v :=
  sum_setEntry f v h

theorem sum_filter_ne (f : α → ℕ) {k : κ} {v₀ : α} : ∀ {es : List (κ × α)},
    (es.map Prod.fst).Nodup → es.lookup k = some v₀ →
      ((es.filter fun e => decide (e.1 ≠ k)).map fun e => f e.2).sum + f v₀ =
        (es.map fun e => f e.2).sum
  | [], _, h => by simp at h
  | (j, w) :: es, hnd, h => by
    simp only [List.map_cons, List.nodup_cons] at hnd
    rw [lookup_cons_eq] at h
    split_ifs at h with hj
    · obtain rfl := Option.some.inj h
      subst hj
      have hnot : ∀ e ∈ es, e.1 ≠ k := fun e he heq =>
        hnd.1 (heq ▸ List.mem_map_of_mem he)
      rw [List.filter_cons_of_neg (by simp), List.filter_eq_self.2 (by simpa using hnot),
        List.map_cons, List.sum_cons, Nat.add_comm]
    · have ih := sum_filter_ne f hnd.2 h
      rw [List.filter_cons_of_pos (by simpa using Ne.symm hj)]
      simp only [List.map_cons, List.sum_cons]
      omega

theorem sum_erase (f : α → ℕ) (d : Dict κ α) {k : κ} {v₀ : α} (h : d.get? k = some v₀) :
    ((d.erase k).entries.map fun e => f e.2).sum + f v₀ = (d.entries.map fun e => f e.2).sum :=
  sum_filter_ne f d.nodup h

end Dict
