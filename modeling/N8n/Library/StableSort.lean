import Mathlib.Data.List.Sort

/-!
# Stable sorting

Insertion sort and merge sort with a comparator that need not be an order. On a list whose elements
it orders, equal ones may be next to each other in their old order only.
-/

namespace StableSort

inductive Method
  | insertion | merge
  deriving DecidableEq

variable {α : Type*}

def sort (method : Method) (r : α → α → Bool) (l : List α) : List α :=
  match method with
  | .insertion => l.insertionSort (r · ·)
  | .merge => l.mergeSort r

theorem sort_perm (method : Method) (r : α → α → Bool) (l : List α) : (sort method r l).Perm l := by
  cases method with
  | insertion => exact List.perm_insertionSort _ l
  | merge => exact List.mergeSort_perm l r

/-- The comparator orders the elements of the list. -/
structure Orders (r : α → α → Bool) (l : List α) : Prop where
  total : ∀ a ∈ l, ∀ b ∈ l, r a b = true ∨ r b a = true
  trans : ∀ a ∈ l, ∀ b ∈ l, ∀ c ∈ l, r a b = true → r b c = true → r a c = true

variable {r : α → α → Bool} {l : List α}

/-- The list is sorted as one of its elements, on which the comparator is an order. -/
theorem sort_attach (method : Method) :
    sort method r l = (sort method (fun a b : {x // x ∈ l} => r a b) l.attach).map Subtype.val := by
  cases method with
  | insertion =>
    unfold sort
    dsimp only
    rw [List.map_insertionSort (fun a b : {x // x ∈ l} => r a b = true) (fun a b => r a b = true)
      Subtype.val l.attach fun _ _ _ _ => Iff.rfl, List.attach_map_subtype_val]
  | merge =>
    unfold sort
    dsimp only
    rw [List.map_mergeSort (s := r) fun _ _ _ _ => rfl, List.attach_map_subtype_val]

/-- The comparator on the elements of a list. -/
abbrev onElements (r : α → α → Bool) (l : List α) (a b : {x // x ∈ l}) : Bool := r a b

section

variable (h : Orders r l)

include h

theorem Orders.trans_onElements (a b c : {x // x ∈ l}) :
    onElements r l a b = true → onElements r l b c = true → onElements r l a c = true :=
  h.trans a a.2 b b.2 c c.2

theorem Orders.total_onElements (a b : {x // x ∈ l}) :
    (onElements r l a b || onElements r l b a) = true := by
  rw [Bool.or_eq_true]
  exact h.total a a.2 b b.2

theorem Orders.pairwise_sort (method : Method) : (sort method r l).Pairwise (r · ·) := by
  have : Std.Total (onElements r l · ·) := ⟨fun a b => h.total a a.2 b b.2⟩
  have : IsTrans {x // x ∈ l} (onElements r l · ·) := ⟨h.trans_onElements⟩
  rw [sort_attach, List.pairwise_map]
  cases method with
  | insertion => exact List.pairwise_insertionSort (onElements r l · ·) _
  | merge => exact List.pairwise_mergeSort h.trans_onElements h.total_onElements _

/-- Elements stay in their order where they may. -/
theorem Orders.pair_sublist_sort (method : Method) {a b : α} (hab : r a b = true)
    (hsub : List.Sublist [a, b] l) : List.Sublist [a, b] (sort method r l) := by
  rw [← List.attach_map_subtype_val l, List.sublist_map_iff] at hsub
  obtain ⟨pair, hpair, heq⟩ := hsub
  obtain ⟨a', b', rfl⟩ := List.length_eq_two.1 (by simpa using (congrArg List.length heq).symm)
  obtain ⟨rfl, rfl⟩ : a = a' ∧ b = b' := by
    simpa using heq
  rw [sort_attach]
  have hsorted : List.Sublist [a', b'] (sort method (onElements r l) l.attach) := by
    cases method with
    | insertion => exact List.pair_sublist_insertionSort (r := (onElements r l · ·)) hab hpair
    | merge => exact List.pair_sublist_mergeSort h.trans_onElements h.total_onElements hab hpair
  exact hsorted.map Subtype.val

end

/-- A list whose elements may each stay before the next is left as it is. -/
theorem sort_insertion_of_isChain : ∀ {l : List α}, l.IsChain (r · ·) → sort .insertion r l = l
  | [], _ => rfl
  | [_], _ => rfl
  | a :: b :: l, h => by
    have ih := sort_insertion_of_isChain (List.isChain_cons_cons.1 h).2
    unfold sort at ih ⊢
    dsimp only at ih ⊢
    rw [List.insertionSort_cons, ih, List.orderedInsert_cons, if_pos (List.isChain_cons_cons.1 h).1]

theorem sort_of_pairwise (method : Method) (h : l.Pairwise (r · ·)) : sort method r l = l := by
  cases method with
  | insertion => exact sort_insertion_of_isChain h.isChain
  | merge => exact List.mergeSort_of_pairwise h

/-! ## Pairs in a list -/

/-- Of two elements one comes before the other. -/
theorem pair_sublist_or {a b : α} (hne : a ≠ b) : ∀ {l : List α}, a ∈ l → b ∈ l →
    List.Sublist [a, b] l ∨ List.Sublist [b, a] l
  | c :: l, ha, hb => by
    rcases List.mem_cons.1 ha with rfl | ha'
    · have hb := (List.mem_cons.1 hb).resolve_left hne.symm
      exact .inl ((List.singleton_sublist.2 hb).cons_cons a)
    · rcases List.mem_cons.1 hb with rfl | hb'
      · exact .inr ((List.singleton_sublist.2 ha').cons_cons b)
      · exact (pair_sublist_or hne ha' hb').imp (List.Sublist.cons c) (List.Sublist.cons c)

theorem pair_sublist_iff {a b : α} : ∀ {l : List α} {i : ℕ}, l.Nodup → l[i]? = some b →
    (List.Sublist [a, b] l ↔ a ∈ l.take i)
  | c :: l, 0, hnodup, hi => by
    obtain rfl : c = b := by simpa using hi
    rw [List.take_zero, List.cons_sublist_cons']
    refine iff_of_false ?_ List.not_mem_nil
    rintro (h | ⟨-, h⟩)
    · exact (List.nodup_cons.1 hnodup).1 (h.subset (by simp))
    · exact (List.nodup_cons.1 hnodup).1 (List.singleton_sublist.1 h)
  | c :: l, i + 1, hnodup, hi => by
    rw [List.getElem?_cons_succ] at hi
    rw [List.take_succ_cons, List.cons_sublist_cons', List.mem_cons,
      pair_sublist_iff (List.nodup_cons.1 hnodup).2 hi, or_comm, List.singleton_sublist,
      and_iff_left (List.mem_of_getElem? hi)]

theorem not_pair_sublist {a b : α} : ∀ {l : List α}, l.Nodup → List.Sublist [a, b] l →
    ¬ List.Sublist [b, a] l
  | c :: l, hnodup, h, h' => by
    obtain ⟨hc, hnodup⟩ := List.nodup_cons.1 hnodup
    rw [List.cons_sublist_cons'] at h h'
    rcases h with h | ⟨rfl, h⟩
    · rcases h' with h' | ⟨rfl, -⟩
      · exact not_pair_sublist hnodup h h'
      · exact hc (h.subset (by simp))
    · rcases h' with h' | ⟨rfl, -⟩
      · exact hc (h'.subset (by simp))
      · exact hc (List.singleton_sublist.1 h)

/-! ## Runs of equal elements -/

/-- The elements that are the same as the first of their run, but not this one. -/
def laterOfRuns (same : α → α → Bool) (temp : α) : List α → List α
  | [] => []
  | x :: xs => if same x temp then x :: laterOfRuns same temp xs else laterOfRuns same x xs

/-- To be the same is an equivalence that the comparator respects on a list. -/
structure Respects (same : α → α → Bool) (r : α → α → Bool) (l : List α) : Prop where
  symm : ∀ {a b}, same a b = true → same b a = true
  trans : ∀ {a b c}, same a b = true → same b c = true → same a c = true
  rel : ∀ a ∈ l, ∀ b ∈ l, same a b = true → r a b = true
  same_of_rel : ∀ a ∈ l, ∀ b ∈ l, r a b = true → r b a = true → same a b = true

variable {same : α → α → Bool}

theorem Orders.mono {l' : List α} (h : Orders r l) (hsub : l' ⊆ l) : Orders r l' where
  total a ha b hb := h.total a (hsub ha) b (hsub hb)
  trans a ha b hb c hc := h.trans a (hsub ha) b (hsub hb) c (hsub hc)

theorem Respects.mono {l' : List α} (h : Respects same r l) (hsub : l' ⊆ l) :
    Respects same r l' where
  symm := h.symm
  trans := h.trans
  rel a ha b hb := h.rel a (hsub ha) b (hsub hb)
  same_of_rel a ha b hb := h.same_of_rel a (hsub ha) b (hsub hb)

/-- In a sorted list these are the elements that are the same as an earlier one. -/
theorem mem_laterOfRuns_of_pairwise : ∀ {l : List α} {temp : α}, (temp :: l).Pairwise (r · ·) →
    Orders r (temp :: l) → Respects same r (temp :: l) →
    ∀ x, x ∈ laterOfRuns same temp l ↔ ∃ y, List.Sublist [y, x] (temp :: l) ∧ same x y = true
  | [], temp, _, _, _, x => by
    refine iff_of_false List.not_mem_nil ?_
    rintro ⟨y, h, -⟩
    simpa using h.length_le
  | a :: l, temp, hsorted, horders, hrespects, x => by
    obtain ⟨htemp, hrest⟩ := List.pairwise_cons.1 hsorted
    unfold laterOfRuns
    split
    · next hsame =>
      have hsub : List.Sublist (temp :: l) (temp :: a :: l) := (List.sublist_cons_self a l).cons_cons _
      rw [List.mem_cons, mem_laterOfRuns_of_pairwise (hsorted.sublist hsub)
        (horders.mono hsub.subset) (hrespects.mono hsub.subset)]
      constructor
      · rintro (rfl | ⟨y, hy, hxy⟩)
        · exact ⟨temp, by simp, hsame⟩
        · exact ⟨y, hy.trans hsub, hxy⟩
      · rintro ⟨y, hy, hxy⟩
        rcases List.cons_sublist_cons'.1 hy with hy' | ⟨rfl, hx⟩
        · rcases List.cons_sublist_cons'.1 hy' with hy' | ⟨rfl, hx⟩
          · exact .inr ⟨y, hy'.cons temp, hxy⟩
          · exact .inr ⟨temp, hx.cons_cons temp, hrespects.trans hxy hsame⟩
        · rcases List.mem_cons.1 (List.singleton_sublist.1 hx) with rfl | hx
          · exact .inl rfl
          · exact .inr ⟨y, (List.singleton_sublist.2 hx).cons_cons y, hxy⟩
    · next hnot =>
      have hsub := List.sublist_cons_self temp (a :: l)
      rw [mem_laterOfRuns_of_pairwise hrest (horders.mono hsub.subset) (hrespects.mono hsub.subset)]
      constructor
      · rintro ⟨y, hy, hxy⟩
        exact ⟨y, hy.trans hsub, hxy⟩
      · rintro ⟨y, hy, hxy⟩
        rcases List.cons_sublist_cons'.1 hy with hy' | ⟨rfl, hx⟩
        · exact ⟨y, hy', hxy⟩
        · rw [List.singleton_sublist] at hx
          -- The element between the two would be the same as both.
          have hrel : r a y = true := by
            rcases List.mem_cons.1 hx with rfl | hx'
            · exact absurd hxy hnot
            · exact horders.trans a (by simp) x (by simp [hx']) y (by simp)
                ((List.pairwise_cons.1 hrest).1 x hx')
                (hrespects.rel x (by simp [hx']) y (by simp) hxy)
          exact absurd (hrespects.same_of_rel a (by simp) y (by simp) hrel (htemp a (by simp))) hnot

/-- After sorting these are the elements that are the same as one that was earlier in the list. -/
theorem mem_laterOfRuns {method : Method} {temp : α} {rest : List α} (horders : Orders r l)
    (hrespects : Respects same r l) (hnodup : l.Nodup) (hsorted : sort method r l = temp :: rest)
    (x : α) :
    x ∈ laterOfRuns same temp rest ↔ ∃ y, List.Sublist [y, x] l ∧ same x y = true := by
  have hperm := hsorted ▸ sort_perm method r l
  have hstable {a b : α} (hsame : same a b = true) (hab : List.Sublist [a, b] l) :
      List.Sublist [a, b] (temp :: rest) := by
    refine hsorted ▸ horders.pair_sublist_sort method ?_ hab
    exact hrespects.rel a (hab.subset (by simp)) b (hab.subset (by simp)) hsame
  rw [mem_laterOfRuns_of_pairwise (hsorted ▸ horders.pairwise_sort method)
    (horders.mono hperm.subset) (hrespects.mono hperm.subset)]
  constructor
  · rintro ⟨y, hyx, hxy⟩
    have hnodup' := hperm.nodup_iff.2 hnodup
    have hne : y ≠ x := by
      rintro rfl
      exact not_pair_sublist hnodup' hyx hyx
    have hmem : y ∈ l ∧ x ∈ l :=
      ⟨hperm.subset (hyx.subset (by simp)), hperm.subset (hyx.subset (by simp))⟩
    rcases pair_sublist_or hne hmem.1 hmem.2 with h | h
    · exact ⟨y, h, hxy⟩
    · exact absurd hyx (not_pair_sublist hnodup' (hstable hxy h))
  · rintro ⟨y, hyx, hxy⟩
    exact ⟨y, hstable (hrespects.symm hxy) hyx, hxy⟩

end StableSort
