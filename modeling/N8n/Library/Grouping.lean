import Mathlib.Data.List.Nodup
import Mathlib.Data.List.Perm.Basic
import N8n.Library.Dict

/-!
# Grouping a list

Elements are put in groups by a key, and the groups again by further keys. That gives one group for
each tuple of keys that an element has.
-/

namespace Grouping

variable {α κ β : Type*} [DecidableEq κ]

/-- One more element in the group of a key. -/
def add (groups : Dict κ (List α)) (k : κ) (x : α) : Dict κ (List α) :=
  groups.set k ((groups.get? k).getD [] ++ [x])

/-- Elements without a key are in no group. -/
def addTo (key : α → Option κ) (groups : Dict κ (List α)) (x : α) : Dict κ (List α) :=
  match key x with
  | none => groups
  | some k => add groups k x

def groupBy (key : α → Option κ) (l : List α) : Dict κ (List α) := l.foldl (addTo key) .empty

theorem get?_foldl_addTo (key : α → Option κ) (k : κ) : ∀ (l : List α) (groups : Dict κ (List α)),
    (l.foldl (addTo key) groups).get? k =
      if ∃ x ∈ l, key x = some k then
        some ((groups.get? k).getD [] ++ l.filter fun x => key x = some k)
      else groups.get? k
  | [], groups => by
    simp
  | x :: l, groups => by
    have ih := get?_foldl_addTo key k l (addTo key groups x)
    rw [List.foldl_cons, ih]
    unfold addTo
    cases hx : key x with
    | none => simp [hx]
    | some j =>
      simp only [add, Dict.get?_set, List.exists_mem_cons_iff, hx, Option.some.injEq,
        List.filter_cons, decide_eq_true_eq]
      by_cases hj : k = j
      · subst hj
        simp only [if_true, true_or, Option.getD_some, List.append_assoc, List.singleton_append]
        split_ifs with hex
        · rfl
        · have hnil : l.filter (fun x => key x = some k) = [] := by
            simpa using hex
          rw [hnil]
      · simp [hj, Ne.symm hj]

/-- The group of a key has the elements with that key, in their order. -/
theorem get?_groupBy {key : α → Option κ} {l : List α} {k : κ} {xs : List α} :
    (groupBy key l).get? k = some xs ↔
      (∃ x ∈ l, key x = some k) ∧ l.filter (fun x => key x = some k) = xs := by
  unfold groupBy
  rw [get?_foldl_addTo]
  split_ifs with h <;> simp [h]

/-! ## Further keys -/

/-- The keys of an element, if it has all of them. -/
def tuple : List (α → Option κ) → α → Option (List κ)
  | [], _ => some []
  | key :: keys, x => (key x).bind fun k => (tuple keys x).map (k :: ·)

/-- The groups of groups, with the keys that lead to each, and what is made of it. -/
def nested (leaf : List α → β) : List (α → Option κ) → List α → List (List κ × β)
  | [], l => [([], leaf l)]
  | key :: keys, l => (groupBy key l).entries.flatMap fun e =>
      (nested leaf keys e.2).map fun r => (e.1 :: r.1, r.2)

omit [DecidableEq κ] in
theorem tuple_cons_eq_some {key : α → Option κ} {keys : List (α → Option κ)} {x : α} {k : κ}
    {ks : List κ} : tuple (key :: keys) x = some (k :: ks) ↔
      key x = some k ∧ tuple keys x = some ks := by
  simp [tuple, Option.bind_eq_some_iff]

theorem nodup_nested (leaf : List α → β) : ∀ (keys : List (α → Option κ)) (l : List α),
    ((nested leaf keys l).map Prod.fst).Nodup
  | [], _ => List.nodup_singleton _
  | key :: keys, l => by
    have hmap (e : κ × List α) : ((nested leaf keys e.2).map fun r => (e.1 :: r.1, r.2)).map
        Prod.fst = ((nested leaf keys e.2).map Prod.fst).map (e.1 :: ·) := by
      rw [List.map_map, List.map_map]
      rfl
    unfold nested
    rw [List.map_flatMap, List.nodup_flatMap]
    refine ⟨fun e _ => ?_, ?_⟩
    · rw [hmap]
      exact (nodup_nested leaf keys e.2).map (List.cons_injective)
    · have hdistinct := List.pairwise_map.1 (groupBy key l).nodup
      refine hdistinct.imp fun {e e'} hne t ht ht' => ?_
      dsimp only at ht ht'
      rw [hmap] at ht ht'
      obtain ⟨ks, -, rfl⟩ := List.mem_map.1 ht
      obtain ⟨ks', -, heq⟩ := List.mem_map.1 ht'
      exact hne (List.cons.inj heq).1.symm

/-- There is one group for each tuple of keys, and without keys there is one in any case. -/
theorem mem_nested {leaf : List α → β} : ∀ {keys : List (α → Option κ)} {l : List α}
    {ks : List κ} {b : β}, (ks, b) ∈ nested leaf keys l ↔
      (keys = [] ∧ ks = [] ∨ ∃ x ∈ l, tuple keys x = some ks) ∧
        leaf (l.filter fun x => tuple keys x = some ks) = b
  | [], l, ks, b => by
    simp only [nested, tuple, List.mem_singleton, Prod.mk.injEq, true_and, Option.some.injEq]
    constructor
    · rintro ⟨rfl, rfl⟩
      simp
    · rintro ⟨rfl | ⟨x, -, rfl⟩, rfl⟩ <;> simp
  | key :: keys, l, ks, b => by
    have hfilter (k : κ) (ks : List κ) : (l.filter fun x => tuple (key :: keys) x = some (k :: ks)) =
        (l.filter fun x => key x = some k).filter fun x => tuple keys x = some ks := by
      rw [List.filter_filter]
      refine List.filter_congr fun x _ => ?_
      simp [tuple_cons_eq_some, Bool.and_comm]
    unfold nested
    rw [List.mem_flatMap]
    constructor
    · rintro ⟨⟨k, xs⟩, hentry, hmem⟩
      obtain ⟨⟨ks', b'⟩, hnested, heq⟩ := List.mem_map.1 hmem
      obtain ⟨rfl, rfl⟩ := Prod.mk.inj heq
      obtain ⟨⟨x, hx, hk⟩, rfl⟩ := get?_groupBy.1 (Dict.mem_entries.1 hentry)
      obtain ⟨hsome, hleaf⟩ := mem_nested.1 hnested
      refine ⟨.inr ?_, by rw [hfilter]; exact hleaf⟩
      rcases hsome with ⟨rfl, hks⟩ | ⟨y, hy, hks⟩
      · exact ⟨x, hx, tuple_cons_eq_some.2 ⟨hk, by rw [tuple]; exact congrArg some hks.symm⟩⟩
      · obtain ⟨hyl, hyk⟩ := List.mem_filter.1 hy
        exact ⟨y, hyl, tuple_cons_eq_some.2 ⟨of_decide_eq_true hyk, hks⟩⟩
    · rintro ⟨⟨h, -⟩ | ⟨x, hx, htuple⟩, hleaf⟩
      · exact absurd h (List.cons_ne_nil key keys)
      · obtain ⟨k, ks, rfl⟩ : ∃ k ks', ks = k :: ks' := by
          obtain ⟨k, -, h⟩ := Option.bind_eq_some_iff.1 htuple
          obtain ⟨ks', -, rfl⟩ := Option.map_eq_some_iff.1 h
          exact ⟨k, ks', rfl⟩
        obtain ⟨hk, hks⟩ := tuple_cons_eq_some.1 htuple
        refine ⟨(k, l.filter fun x => key x = some k), ?_, ?_⟩
        · exact Dict.mem_entries.2 (get?_groupBy.2 ⟨⟨x, hx, hk⟩, rfl⟩)
        · refine List.mem_map.2 ⟨(ks, b), mem_nested.2 ⟨.inr ?_, ?_⟩, rfl⟩
          · exact ⟨x, List.mem_filter.2 ⟨hx, decide_eq_true hk⟩, hks⟩
          · rw [← hfilter]
            exact hleaf

/-- Groups for different keys that are all there part a list. -/
theorem flatMap_filter_perm {τ : Type*} [DecidableEq τ] {f : α → Option τ} : ∀ {ts : List τ}
    {l : List α}, ts.Nodup → (∀ x ∈ l, ∀ t, f x = some t → t ∈ ts) →
      (ts.flatMap fun t => l.filter fun x => f x = some t).Perm (l.filter fun x => (f x).isSome)
  | [], l, _, hcover => by
    have hnil : l.filter (fun x => (f x).isSome) = [] := by
      rw [List.filter_eq_nil_iff]
      intro x hx hsome
      obtain ⟨t, ht⟩ := Option.isSome_iff_exists.1 hsome
      exact List.not_mem_nil (hcover x hx t ht)
    rw [hnil]
    exact .nil
  | t :: ts, l, hnodup, hcover => by
    obtain ⟨ht, hnodup⟩ := List.nodup_cons.1 hnodup
    have hrest (x : α) (hx : x ∈ l.filter fun x => f x ≠ some t) (t' : τ) (ht' : f x = some t') :
        t' ∈ ts := by
      obtain ⟨hxl, hxt⟩ := List.mem_filter.1 hx
      refine (List.mem_cons.1 (hcover x hxl t' ht')).resolve_left ?_
      rintro rfl
      exact of_decide_eq_true hxt ht'
    have hgroups : ts.flatMap (fun t' => (l.filter fun x => f x ≠ some t).filter fun x =>
        f x = some t') = ts.flatMap fun t' => l.filter fun x => f x = some t' := by
      refine List.flatMap_congr fun t' ht' => ?_
      rw [List.filter_filter]
      refine List.filter_congr fun x _ => ?_
      rw [← Bool.decide_and, decide_eq_decide, and_iff_left_iff_imp]
      rintro hx hxt
      exact ht (Option.some.inj (hxt.symm.trans hx) ▸ ht')
    have ih := flatMap_filter_perm hnodup hrest
    rw [hgroups] at ih
    rw [List.flatMap_cons]
    refine (ih.append_left _).trans ?_
    have hsplit := List.filter_append_perm (fun x => decide (f x = some t))
      (l.filter fun x => (f x).isSome)
    refine (List.Perm.of_eq ?_).trans hsplit
    rw [List.filter_filter, List.filter_filter, List.filter_filter]
    refine congrArg₂ _ (List.filter_congr fun x _ => ?_) (List.filter_congr fun x _ => ?_)
    · cases hx : f x <;> simp
    · rw [Bool.and_comm, decide_not]

/-- The groups part the elements that have all keys. -/
theorem nested_perm (leaf : List α → β) (keys : List (α → Option κ)) (l : List α) :
    (((nested leaf keys l).map Prod.fst).flatMap fun ks =>
      l.filter fun x => tuple keys x = some ks).Perm
        (l.filter fun x => (tuple keys x).isSome) := by
  refine flatMap_filter_perm (nodup_nested leaf keys l) fun x hx ks hks => ?_
  exact List.mem_map.2 ⟨(ks, _), mem_nested.2 ⟨.inr ⟨x, hx, hks⟩, rfl⟩, rfl⟩

end Grouping
