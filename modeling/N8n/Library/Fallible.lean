import Mathlib.Data.List.Forall2
import Mathlib.Data.List.Sort
import Mathlib.Tactic.SplitIfs

/-!
# Loops that may fail

What the loops `mapM` and `foldlM` have done when none of their calls has failed.
-/

namespace Fallible

variable {ε α β σ : Type*}

theorem bind_eq_ok {α β : Type} {x : Except ε α} {f : α → Except ε β} {b : β} :
    x >>= f = .ok b ↔ ∃ a, x = .ok a ∧ f a = .ok b := by
  cases x with
  | error e => exact ⟨fun h => (by cases h), fun ⟨_, h, _⟩ => (by cases h)⟩
  | ok a => exact ⟨fun h => ⟨a, rfl, h⟩, fun ⟨_, ha, h⟩ => (by cases ha; exact h)⟩

theorem exists_bind_eq_ok {α β : Type} {x : Except ε α} {f : α → Except ε β}
    (hx : ∃ a, x = .ok a) (hf : ∀ a, ∃ b, f a = .ok b) : ∃ b, x >>= f = .ok b := by
  obtain ⟨a, rfl⟩ := hx
  exact hf a

theorem ite_eq_ok {P : Prop} [Decidable P] {e : ε} {a b : α} :
    (if P then .ok a else .error e : Except ε α) = .ok b ↔ P ∧ a = b := by
  split_ifs with h <;> simp [h]

theorem map_eq_ok {x : Except ε α} {f : α → β} {b : β} :
    x.map f = .ok b ↔ ∃ a, x = .ok a ∧ f a = b := by
  cases x <;> simp [Except.map]

theorem mapError_eq_error {α ε' : Type*} {x : Except ε α} {f : ε → ε'} {e' : ε'} :
    x.mapError f = .error e' ↔ ∃ e, x = .error e ∧ f e = e' := by
  cases x <;> simp [Except.mapError]

theorem forM_eq_ok {α : Type} {f : α → Except ε Unit} : ∀ {xs : List α},
    xs.forM f = .ok () ↔ ∀ x ∈ xs, f x = .ok ()
  | [] => iff_of_true rfl fun _ h => absurd h List.not_mem_nil
  | x :: xs => by
    change (f x >>= fun _ => xs.forM f) = .ok () ↔ _
    rw [bind_eq_ok, List.forall_mem_cons, ← forM_eq_ok]
    exact ⟨fun ⟨_, h, h'⟩ => ⟨h, h'⟩, fun ⟨h, h'⟩ => ⟨(), h, h'⟩⟩

/-- Each result is that of the element at its place. -/
theorem mapM_eq_ok {α β : Type} {f : α → Except ε β} : ∀ {xs : List α} {ys : List β},
    xs.mapM f = .ok ys → List.Forall₂ (fun x y => f x = .ok y) xs ys
  | [], ys, h => by
    obtain rfl : [] = ys := Except.ok.inj h
    exact .nil
  | x :: xs, ys, h => by
    rw [List.mapM_cons] at h
    obtain ⟨y, hy, h⟩ := bind_eq_ok.1 h
    obtain ⟨ys', hys', h⟩ := bind_eq_ok.1 h
    obtain rfl : y :: ys' = ys := Except.ok.inj h
    exact .cons hy (mapM_eq_ok hys')

theorem mapM_append_eq_ok {α β : Type} {f : α → Except ε β} {xs xs' : List α} {ys ys' : List β}
    (h : xs.mapM f = .ok ys) (h' : xs'.mapM f = .ok ys') :
    (xs ++ xs').mapM f = .ok (ys ++ ys') := by
  rw [List.mapM_append, h]
  simp only [h']
  rfl

theorem mem_of_mapM_eq_ok {α β : Type} {f : α → Except ε β} {y : β} : ∀ {xs : List α}
    {ys : List β}, xs.mapM f = .ok ys → (y ∈ ys ↔ ∃ x ∈ xs, f x = .ok y)
  | [], ys, h => by
    obtain rfl : [] = ys := Except.ok.inj h
    simp
  | x :: xs, ys, h => by
    rw [List.mapM_cons] at h
    obtain ⟨y', hy', h⟩ := bind_eq_ok.1 h
    obtain ⟨ys', hys', h⟩ := bind_eq_ok.1 h
    obtain rfl : y' :: ys' = ys := Except.ok.inj h
    rw [List.mem_cons, mem_of_mapM_eq_ok hys', List.exists_mem_cons_iff, hy', Except.ok.injEq,
      eq_comm]

theorem exists_of_mapM_eq_ok {α β : Type} {f : α → Except ε β} {x : α} {xs : List α} {ys : List β}
    (h : xs.mapM f = .ok ys) (hx : x ∈ xs) : ∃ y ∈ ys, f x = .ok y := by
  obtain ⟨i, hi⟩ := List.mem_iff_getElem?.1 hx
  have hall := mapM_eq_ok h
  obtain ⟨hlt, rfl⟩ := List.getElem?_eq_some_iff.1 hi
  have hlt' := hall.length_eq ▸ hlt
  exact ⟨ys[i], List.getElem_mem hlt', List.forall₂_iff_get.1 hall |>.2 i hlt hlt'⟩

theorem exists_mapM_eq_ok {α β : Type} {f : α → Except ε β} : ∀ {xs : List α},
    (∀ x ∈ xs, ∃ y, f x = .ok y) → ∃ ys, xs.mapM f = .ok ys
  | [], _ => ⟨[], rfl⟩
  | x :: xs, h => by
    obtain ⟨y, hy⟩ := h x List.mem_cons_self
    obtain ⟨ys, hys⟩ := exists_mapM_eq_ok fun x' hx' => h x' (List.mem_cons_of_mem x hx')
    refine ⟨y :: ys, ?_⟩
    rw [List.mapM_cons, hy, hys]
    rfl

/-- Each call of the loop has been made, from some state. -/
theorem exists_of_foldlM_eq_ok {α σ : Type} {f : σ → α → Except ε σ} {x : α} : ∀ {xs : List α}
    {s s' : σ}, xs.foldlM f s = .ok s' → x ∈ xs → ∃ s₁ s₂, f s₁ x = .ok s₂
  | y :: xs, s, s', h, hx => by
    rw [List.foldlM_cons] at h
    obtain ⟨s₁, hs₁, h⟩ := bind_eq_ok.1 h
    rcases List.mem_cons.1 hx with rfl | hx
    · exact ⟨s, s₁, hs₁⟩
    · exact exists_of_foldlM_eq_ok h hx

/-- A property that each call either has already or adds for its element. -/
theorem foldlM_adds {α σ : Type} {f : σ → α → Except ε σ} {P : σ → Prop} {Q : α → Prop}
    (hstep : ∀ s x s', f s x = .ok s' → (P s' ↔ P s ∨ Q x)) : ∀ {xs : List α} {s s' : σ},
    xs.foldlM f s = .ok s' → (P s' ↔ P s ∨ ∃ x ∈ xs, Q x)
  | [], s, s', h => by
    obtain rfl : s = s' := Except.ok.inj h
    simp
  | x :: xs, s, s', h => by
    rw [List.foldlM_cons] at h
    obtain ⟨s₁, hs₁, h⟩ := bind_eq_ok.1 h
    rw [foldlM_adds hstep h, hstep s x s₁ hs₁, List.exists_mem_cons_iff, or_assoc]

/-- An invariant of each call is one of the loop. -/
theorem foldlM_invariant {α σ : Type} {f : σ → α → Except ε σ} {I : σ → Prop} : ∀ {xs : List α}
    {s s' : σ}, (∀ x ∈ xs, ∀ s s', I s → f s x = .ok s' → I s') → I s → xs.foldlM f s = .ok s' →
    I s'
  | [], s, s', _, hs, h => by
    obtain rfl : s = s' := Except.ok.inj h
    exact hs
  | x :: xs, s, s', hstep, hs, h => by
    rw [List.foldlM_cons] at h
    obtain ⟨s₁, hs₁, h⟩ := bind_eq_ok.1 h
    exact foldlM_invariant (fun y hy => hstep y (List.mem_cons_of_mem x hy))
      (hstep x List.mem_cons_self s s₁ hs hs₁) h

/-- What each call keeps, the loop keeps. -/
theorem foldlM_keeps {α σ β : Type} {f : σ → α → Except ε σ} {g : σ → β} {xs : List α}
    {s s' : σ} (hstep : ∀ x ∈ xs, ∀ s s', f s x = .ok s' → g s' = g s)
    (h : xs.foldlM f s = .ok s') : g s' = g s :=
  foldlM_invariant (I := fun t => g t = g s)
    (fun x hx s₁ s₂ hs₁ hs₂ => (hstep x hx s₁ s₂ hs₂).trans hs₁) rfl h

/-! ## The elements a loop reaches -/

/-- All elements up to the first that fails, which is the last. -/
def reached (fails : α → Bool) : List α → List α
  | [] => []
  | x :: xs => if fails x then [x] else x :: reached fails xs

theorem reached_eq_self {fails : α → Bool} : ∀ {xs : List α}, (∀ x ∈ xs, fails x = false) →
    reached fails xs = xs
  | [], _ => rfl
  | x :: xs, h => by
    rw [List.forall_mem_cons] at h
    rw [reached, h.1, if_neg Bool.false_ne_true, reached_eq_self h.2]

/-- A loop whose turns are the same for the elements of the list. -/
theorem foldlM_congr {β σ : Type} {f g : σ → β → Except ε σ} : ∀ {xs : List β},
    (∀ s, ∀ x ∈ xs, f s x = g s x) → ∀ s, xs.foldlM f s = xs.foldlM g s
  | [], _, _ => rfl
  | x :: xs, h, s => by
    rw [List.foldlM_cons, List.foldlM_cons, h s x List.mem_cons_self]
    exact congrArg _ (funext fun s => foldlM_congr (fun s y hy => h s y (List.mem_cons_of_mem _ hy)) s)

end Fallible

/-!
## Sorting with a comparator that may fail

Insertion sort whose comparisons are calls that may fail. Where none fails, and they answer as a
relation does, it is Mathlib's `insertionSort`.
-/

namespace FallibleSort

variable {ε α : Type} (compare : α → α → Except ε Ordering)

def orderedInsertM (a : α) : List α → Except ε (List α)
  | [] => .ok [a]
  | b :: l => do
    match ← compare a b with
    | .gt => return b :: (← orderedInsertM a l)
    | _ => return a :: b :: l

def insertionSortM : List α → Except ε (List α)
  | [] => .ok []
  | a :: l => do orderedInsertM compare a (← insertionSortM l)

variable {compare} {r : α → α → Prop} [DecidableRel r]

/-- The comparator answers as `r` does on these values. -/
def Answers (compare : α → α → Except ε Ordering) (r : α → α → Prop) (a b : α) : Prop :=
  ∃ o, compare a b = .ok o ∧ (o = .gt ↔ ¬ r a b)

theorem orderedInsertM_eq {a : α} : ∀ {l : List α}, (∀ b ∈ l, Answers compare r a b) →
    orderedInsertM compare a l = .ok (l.orderedInsert r a)
  | [], _ => rfl
  | b :: l, h => by
    obtain ⟨o, ho, hr⟩ := h b List.mem_cons_self
    have ih := orderedInsertM_eq fun c hc => h c (List.mem_cons_of_mem b hc)
    rw [orderedInsertM, ho, List.orderedInsert_cons]
    by_cases hgt : o = .gt
    · rw [if_neg (hr.1 hgt), hgt]
      change (orderedInsertM compare a l >>= fun l' => pure (b :: l')) = _
      rw [ih]
      rfl
    · rw [if_pos (not_not.1 fun hnot => hgt (hr.2 hnot))]
      cases o with
      | gt => exact absurd rfl hgt
      | lt => rfl
      | eq => rfl

theorem insertionSortM_eq : ∀ {l : List α}, (∀ a ∈ l, ∀ b ∈ l, Answers compare r a b) →
    insertionSortM compare l = .ok (l.insertionSort r)
  | [], _ => rfl
  | a :: l, h => by
    have ih := insertionSortM_eq fun b hb c hc =>
      h b (List.mem_cons_of_mem a hb) c (List.mem_cons_of_mem a hc)
    rw [insertionSortM, ih]
    refine orderedInsertM_eq fun b hb => h a List.mem_cons_self b (List.mem_cons_of_mem a ?_)
    exact (List.mem_insertionSort r).1 hb

end FallibleSort
