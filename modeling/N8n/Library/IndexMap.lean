import Mathlib.Data.List.Pairwise
import Mathlib.Order.Basic
import N8n.Library.Dict

/-!
# Maps from indexes, in index order

A finite map from `ℕ` whose entries are read in increasing order of their index. `consecutive b xs`
is the map that holds `xs` at the indexes from `b` on.
-/

/-- The indexes of the entries increase. -/
structure IndexMap (α : Type*) where
  entries : List (ℕ × α)
  sorted : (entries.map Prod.fst).Pairwise (· < ·)
  deriving DecidableEq

namespace IndexMap

variable {α : Type*}

def empty : IndexMap α := ⟨[], List.Pairwise.nil⟩

instance : Inhabited (IndexMap α) := ⟨empty⟩

def keys (m : IndexMap α) : List ℕ := m.entries.map Prod.fst

def size (m : IndexMap α) : ℕ := m.entries.length

def get? (m : IndexMap α) (i : ℕ) : Option α := m.entries.lookup i

def setEntry (i : ℕ) (v : α) : List (ℕ × α) → List (ℕ × α)
  | [] => [(i, v)]
  | (j, w) :: es =>
    if i < j then (i, v) :: (j, w) :: es
    else if i = j then (i, v) :: es
    else (j, w) :: setEntry i v es

theorem mem_map_fst_setEntry {i j : ℕ} {v : α} : ∀ {es : List (ℕ × α)},
    j ∈ (setEntry i v es).map Prod.fst → j = i ∨ j ∈ es.map Prod.fst
  | [], h => by simpa [setEntry] using h
  | (k, w) :: es, h => by
    unfold setEntry at h
    split_ifs at h with h₁ h₂
    · simpa using h
    · simp only [List.map_cons, List.mem_cons] at h ⊢
      exact h.imp_right .inr
    · simp only [List.map_cons, List.mem_cons] at h ⊢
      rcases h with h | h
      · exact .inr (.inl h)
      · exact (mem_map_fst_setEntry h).imp_right .inr

theorem setEntry_sorted (i : ℕ) (v : α) : ∀ {es : List (ℕ × α)},
    (es.map Prod.fst).Pairwise (· < ·) → ((setEntry i v es).map Prod.fst).Pairwise (· < ·)
  | [], _ => by simp [setEntry]
  | (j, w) :: es, h => by
    simp only [List.map_cons, List.pairwise_cons] at h
    unfold setEntry
    split_ifs with h₁ h₂
    · simp only [List.map_cons, List.pairwise_cons]
      refine ⟨fun k hk => ?_, h.1, h.2⟩
      rcases List.mem_cons.1 hk with rfl | hk
      · exact h₁
      · exact Nat.lt_trans h₁ (h.1 k hk)
    · subst h₂
      simp only [List.map_cons, List.pairwise_cons]
      exact h
    · simp only [List.map_cons, List.pairwise_cons]
      refine ⟨fun k hk => ?_, setEntry_sorted i v h.2⟩
      rcases mem_map_fst_setEntry hk with rfl | hk
      · omega
      · exact h.1 k hk

def set (m : IndexMap α) (i : ℕ) (v : α) : IndexMap α where
  entries := setEntry i v m.entries
  sorted := setEntry_sorted i v m.sorted

def erase (m : IndexMap α) (i : ℕ) : IndexMap α where
  entries := m.entries.filter fun e => decide (e.1 ≠ i)
  sorted := m.sorted.sublist (List.filter_sublist.map _)

/-- A function of each index and value. -/
def mapEntries {β : Type*} (f : ℕ → α → β) (m : IndexMap α) : IndexMap β where
  entries := m.entries.map fun e => (e.1, f e.1 e.2)
  sorted := by rw [List.map_map]; exact m.sorted

theorem ext {m m' : IndexMap α} (h : m.entries = m'.entries) : m = m' := by
  cases m
  cases m'
  simp_all

theorem mem_setEntry {i : ℕ} {v : α} {e : ℕ × α} : ∀ {es : List (ℕ × α)},
    e ∈ setEntry i v es → e = (i, v) ∨ e ∈ es
  | [], h => .inl (List.mem_singleton.1 h)
  | (j, w) :: es, h => by
    unfold setEntry at h
    split_ifs at h
    · exact List.mem_cons.1 h
    · exact (List.mem_cons.1 h).imp_right (List.mem_cons_of_mem _)
    · rcases List.mem_cons.1 h with h | h
      · exact .inr (h ▸ List.mem_cons_self)
      · exact (mem_setEntry h).imp_right (List.mem_cons_of_mem _)

theorem mem_entries_set {m : IndexMap α} {i : ℕ} {v : α} {e : ℕ × α}
    (h : e ∈ (m.set i v).entries) : e = (i, v) ∨ e ∈ m.entries :=
  mem_setEntry h

theorem mem_entries_of_erase {m : IndexMap α} {i : ℕ} {e : ℕ × α} (h : e ∈ (m.erase i).entries) :
    e ∈ m.entries :=
  List.mem_of_mem_filter h

theorem size_erase_lt {m : IndexMap α} {e : ℕ × α} (h : e ∈ m.entries) :
    (m.erase e.1).size < m.size :=
  List.length_filter_lt_length_iff_exists.2 ⟨e, h, by simp⟩

/-! ## Consecutive entries -/

/-- `xs` at the indexes `b`, `b + 1`, ... -/
def consecutiveEntries : ℕ → List α → List (ℕ × α)
  | _, [] => []
  | b, x :: xs => (b, x) :: consecutiveEntries (b + 1) xs

theorem le_of_mem_consecutiveEntries {j : ℕ} : ∀ {b : ℕ} {xs : List α},
    j ∈ (consecutiveEntries b xs).map Prod.fst → b ≤ j
  | _, [], h => by simp [consecutiveEntries] at h
  | b, x :: xs, h => by
    simp only [consecutiveEntries, List.map_cons, List.mem_cons] at h
    rcases h with rfl | h
    · exact Nat.le_refl _
    · exact Nat.le_trans (Nat.le_succ b) (le_of_mem_consecutiveEntries h)

theorem mem_of_mem_consecutiveEntries {e : ℕ × α} : ∀ {b : ℕ} {xs : List α},
    e ∈ consecutiveEntries b xs → e.2 ∈ xs
  | _, [], h => absurd h List.not_mem_nil
  | b, x :: xs, h => by
    simp only [consecutiveEntries, List.mem_cons] at h ⊢
    rcases h with rfl | h
    · exact .inl rfl
    · exact .inr (mem_of_mem_consecutiveEntries h)

theorem consecutiveEntries_sorted : ∀ (b : ℕ) (xs : List α),
    ((consecutiveEntries b xs).map Prod.fst).Pairwise (· < ·)
  | _, [] => List.Pairwise.nil
  | b, x :: xs => by
    simp only [consecutiveEntries, List.map_cons, List.pairwise_cons]
    exact ⟨fun j hj => Nat.lt_of_succ_le (le_of_mem_consecutiveEntries hj),
      consecutiveEntries_sorted (b + 1) xs⟩

def consecutive (b : ℕ) (xs : List α) : IndexMap α :=
  ⟨consecutiveEntries b xs, consecutiveEntries_sorted b xs⟩

@[simp] theorem size_consecutive (b : ℕ) (xs : List α) : (consecutive b xs).size = xs.length := by
  show (consecutiveEntries b xs).length = xs.length
  induction xs generalizing b with
  | nil => rfl
  | cons x xs ih => simp [consecutiveEntries, ih]

theorem setEntry_append (v : α) : ∀ (b : ℕ) (xs : List α),
    setEntry (b + xs.length) v (consecutiveEntries b xs) = consecutiveEntries b (xs ++ [v])
  | b, [] => rfl
  | b, x :: xs => by
    have ih := setEntry_append v (b + 1) xs
    simp only [consecutiveEntries, setEntry, List.cons_append, List.length_cons]
    rw [if_neg (by omega), if_neg (by omega), ← ih]
    congr 2
    omega

theorem map_snd_consecutiveEntries : ∀ (b : ℕ) (xs : List α),
    (consecutiveEntries b xs).map Prod.snd = xs
  | _, [] => rfl
  | b, x :: xs => congrArg (x :: ·) (map_snd_consecutiveEntries (b + 1) xs)

/-- A new entry at the index after the last. -/
theorem consecutive_append (b : ℕ) (xs : List α) (v : α) :
    (consecutive b xs).set (b + xs.length) v = consecutive b (xs ++ [v]) :=
  ext (setEntry_append v b xs)

theorem setEntry_set (v : α) : ∀ (b : ℕ) (xs : List α) (j : ℕ), j < xs.length →
    setEntry (b + j) v (consecutiveEntries b xs) = consecutiveEntries b (xs.set j v)
  | b, x :: xs, 0, _ => by simp [consecutiveEntries, setEntry]
  | b, x :: xs, j + 1, h => by
    have ih := setEntry_set v (b + 1) xs j (Nat.lt_of_succ_lt_succ h)
    simp only [consecutiveEntries, setEntry, List.set_cons_succ]
    rw [if_neg (by omega), if_neg (by omega), ← ih]
    congr 2
    omega

theorem consecutive_set (b : ℕ) (xs : List α) {j : ℕ} (h : j < xs.length) (v : α) :
    (consecutive b xs).set (b + j) v = consecutive b (xs.set j v) :=
  ext (setEntry_set v b xs j h)

/-- The first entry goes. -/
theorem consecutive_erase_head (b : ℕ) (x : α) (xs : List α) :
    (consecutive b (x :: xs)).erase b = consecutive (b + 1) xs := by
  refine ext ?_
  show (consecutiveEntries b (x :: xs)).filter (fun e => decide (e.1 ≠ b)) =
    consecutiveEntries (b + 1) xs
  rw [consecutiveEntries, List.filter_cons_of_neg (by simp), List.filter_eq_self.2]
  · intro e he
    have := le_of_mem_consecutiveEntries (List.mem_map_of_mem (f := Prod.fst) he)
    simp only [decide_eq_true_eq]
    omega

theorem get?_consecutive (b : ℕ) (xs : List α) (j : ℕ) :
    (consecutive b xs).get? (b + j) = xs[j]? := by
  show (consecutiveEntries b xs).lookup (b + j) = xs[j]?
  induction xs generalizing b j with
  | nil => rfl
  | cons x xs ih =>
    cases j with
    | zero => simp [consecutiveEntries]
    | succ j =>
      simp only [consecutiveEntries, Dict.lookup_cons_eq, List.getElem?_cons_succ]
      rw [if_neg (by omega), ← ih (b + 1) j, Nat.add_right_comm, Nat.add_assoc]

end IndexMap
