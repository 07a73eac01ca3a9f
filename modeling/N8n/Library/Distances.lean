import Mathlib.Data.List.Perm.Subperm
import Mathlib.Data.Nat.Find
import N8n.Library.DepthFirst

/-!
# Distances

How many steps of a relation lead from one element to another, and how many at least.
-/

namespace Distances

open Relation

variable {α : Type*}

/-- So many steps lead from the first to the second. -/
inductive Steps (R : α → α → Prop) (a : α) : ℕ → α → Prop
  | refl : Steps R a 0 a
  | tail {n : ℕ} {b c : α} : Steps R a n b → R b c → Steps R a (n + 1) c

/-- So many steps lead from the first to the second, and no fewer. -/
structure Nearest (R : α → α → Prop) (a : α) (n : ℕ) (b : α) : Prop where
  steps : Steps R a n b
  least : ∀ m, Steps R a m b → n ≤ m

variable {R : α → α → Prop} {n m : ℕ} {a b c : α}

/-! ## Steps -/

theorem Steps.reaches (h : Steps R a n b) : ReflTransGen R a b := by
  induction h with
  | refl => exact .refl
  | tail _ hstep ih => exact ih.tail hstep

theorem exists_steps (h : ReflTransGen R a b) : ∃ n, Steps R a n b := by
  induction h with
  | refl => exact ⟨0, .refl⟩
  | tail _ hstep ih =>
    obtain ⟨n, hn⟩ := ih
    exact ⟨n + 1, hn.tail hstep⟩

theorem Steps.head (h : Steps R b n c) (hstep : R a b) : Steps R a (n + 1) c := by
  induction h with
  | refl => exact Steps.refl.tail hstep
  | tail _ hlast ih => exact ih.tail hlast

/-- The first step, and the others. -/
theorem Steps.exists_head (h : Steps R a (n + 1) c) : ∃ b, R a b ∧ Steps R b n c := by
  induction n generalizing c with
  | zero =>
    obtain _ | ⟨hfirst, hstep⟩ := h
    obtain _ | _ := hfirst
    exact ⟨c, hstep, .refl⟩
  | succ n ih =>
    obtain _ | ⟨hfirst, hstep⟩ := h
    obtain ⟨b, hb, hrest⟩ := ih hfirst
    exact ⟨b, hb, hrest.tail hstep⟩

theorem Steps.mono {S : α → α → Prop} (hsub : ∀ x y, R x y → S x y) (h : Steps R a n b) :
    Steps S a n b := by
  induction h with
  | refl => exact .refl
  | tail _ hstep ih => exact ih.tail (hsub _ _ hstep)

/-! ## Least numbers of steps -/

theorem nearest_self : Nearest R a 0 a := ⟨.refl, fun _ _ => Nat.zero_le _⟩

theorem Nearest.unique (h : Nearest R a n b) (h' : Nearest R a m b) : n = m :=
  Nat.le_antisymm (h.least m h'.steps) (h'.least n h.steps)

/-- Of the numbers of steps that lead there one is the least. -/
theorem Steps.exists_nearest (h : Steps R a n b) : ∃ m ≤ n, Nearest R a m b := by
  classical
  have hex : ∃ n, Steps R a n b := ⟨n, h⟩
  exact ⟨Nat.find hex, Nat.find_min' hex h, Nat.find_spec hex, fun _ hm => Nat.find_min' hex hm⟩

/-- What comes before the last of the steps is one step nearer. -/
theorem Nearest.exists_last (h : Nearest R a (n + 1) c) : ∃ b, Nearest R a n b ∧ R b c := by
  obtain _ | ⟨hfirst, hstep⟩ := h.steps
  refine ⟨_, ⟨hfirst, fun m hm => ?_⟩, hstep⟩
  exact Nat.le_of_succ_le_succ (h.least (m + 1) (hm.tail hstep))

theorem nearest_zero : Nearest R a 0 b ↔ b = a := by
  constructor
  · rintro ⟨_ | _, -⟩
    rfl
  · rintro rfl
    exact nearest_self

/-- One more step leads to what fewer do not lead to. -/
theorem nearest_succ : Nearest R a (n + 1) c ↔
    (∃ b, Nearest R a n b ∧ R b c) ∧ ¬ ∃ m, m ≤ n ∧ Nearest R a m c := by
  constructor
  · intro h
    refine ⟨h.exists_last, ?_⟩
    rintro ⟨m, hm, hnear⟩
    exact absurd (h.unique hnear) (by omega)
  · rintro ⟨⟨b, hb, hstep⟩, hnot⟩
    refine ⟨hb.steps.tail hstep, fun m hm => ?_⟩
    obtain ⟨k, hk, hnear⟩ := hm.exists_nearest
    by_contra hlt
    exact hnot ⟨k, by omega, hnear⟩

/-- Where no step leads on from what is so far away, nothing is further away. -/
theorem Steps.nearest_le_of_last (hlast : ∀ b c, Nearest R a n b → ¬ R b c) (h : Steps R a m b) :
    ∃ k ≤ n, Nearest R a k b := by
  induction h with
  | refl => exact ⟨0, Nat.zero_le _, nearest_self⟩
  | @tail m b c _ hstep ih =>
    obtain ⟨k, hk, hnear⟩ := ih
    have hne : k ≠ n := fun heq => hlast b c (heq ▸ hnear) hstep
    obtain ⟨j, hj, hnear'⟩ := (hnear.steps.tail hstep).exists_nearest
    exact ⟨j, by omega, hnear'⟩

/-- On the way to it there is one for each distance. -/
theorem Nearest.exists_path (h : Nearest R a n b) : ∃ path : List α, path.length = n ∧ path.Nodup ∧
    ∀ x ∈ path, (∃ y, R x y) ∧ ∃ m < n, Nearest R a m x := by
  induction n generalizing b with
  | zero => exact ⟨[], rfl, List.nodup_nil, fun x hx => absurd hx List.not_mem_nil⟩
  | succ n ih =>
    obtain ⟨c, hc, hstep⟩ := h.exists_last
    obtain ⟨path, hlength, hnodup, hpath⟩ := ih hc
    refine ⟨c :: path, by rw [List.length_cons, hlength],
      List.nodup_cons.2 ⟨fun hmem => ?_, hnodup⟩, fun x hx => ?_⟩
    · obtain ⟨m, hm, hnear⟩ := (hpath c hmem).2
      exact absurd (hnear.unique hc) (by omega)
    · rcases List.mem_cons.1 hx with rfl | hx
      · exact ⟨⟨b, hstep⟩, n, Nat.lt_succ_self n, hc⟩
      · obtain ⟨hy, m, hm, hnear⟩ := hpath x hx
        exact ⟨hy, m, Nat.lt_succ_of_lt hm, hnear⟩

/-- Where a step leads on, there are elements for all distances up to it that one leads on from. -/
theorem Nearest.succ_le_length {whole : List α} (h : Nearest R a n b) (hstep : R b c)
    (hwhole : ∀ x y, R x y → x ∈ whole) : n + 1 ≤ whole.length := by
  obtain ⟨path, hlength, hnodup, hpath⟩ := h.exists_path
  have hnew : b ∉ path := fun hmem => by
    obtain ⟨m, hm, hnear⟩ := (hpath b hmem).2
    exact absurd (hnear.unique h) (by omega)
  rw [← hlength, ← List.length_cons]
  refine ((List.nodup_cons.2 ⟨hnew, hnodup⟩).subperm fun x hx => ?_).length_le
  rcases List.mem_cons.1 hx with rfl | hx
  · exact hwhole x c hstep
  · obtain ⟨⟨y, hy⟩, -⟩ := hpath x hx
    exact hwhole x y hy

/-! ## Steps that avoid something -/

open DepthFirst

variable {avoided : List α}

/-- After it has left `a` for the last time, a path that leads elsewhere avoids it. -/
theorem Steps.exists_avoiding (h : Steps (Avoiding R avoided) a n b) (hne : b ≠ a) :
    a ∉ avoided ∧ ∃ c m, R a c ∧ m + 1 ≤ n ∧ Steps (Avoiding R (avoided ++ [a])) c m b := by
  have hlast : ∀ {n x}, Steps (Avoiding R avoided) x n b →
      Steps (Avoiding R (avoided ++ [a])) x n b ∨ (a ∉ avoided ∧
        ∃ c m, R a c ∧ m + 1 ≤ n ∧ Steps (Avoiding R (avoided ++ [a])) c m b) := by
    intro n
    induction n with
    | zero =>
      rintro x ⟨⟩
      exact .inl .refl
    | succ n ih =>
      intro x hx
      obtain ⟨y, hstep, hrest⟩ := hx.exists_head
      rcases ih hrest with hpath | ⟨hnot, c, m, hc, hle, hpath⟩
      · by_cases hxa : x = a
        · exact .inr ⟨hxa ▸ hstep.2, y, n, hxa ▸ hstep.1, le_rfl, hpath⟩
        · exact .inl (hpath.head ⟨hstep.1, by simp [hstep.2, hxa]⟩)
      · exact .inr ⟨hnot, c, m, hc, Nat.le_succ_of_le hle, hpath⟩
  rcases hlast h with hpath | hleft
  · cases n with
    | zero =>
      obtain _ | _ := hpath
      exact absurd rfl hne
    | succ n =>
      obtain ⟨y, hstep, -⟩ := hpath.exists_head
      exact absurd (List.mem_append_right avoided (List.mem_singleton_self a)) hstep.2
  · exact hleft

theorem Steps.weaken (h : Steps (Avoiding R (avoided ++ [c])) a n b) :
    Steps (Avoiding R avoided) a n b :=
  h.mono fun _ _ hstep => ⟨hstep.1, fun hmem => hstep.2 (List.mem_append_left _ hmem)⟩

/-- What a path leads to is avoided only where it ends there at once. -/
theorem Steps.eq_or_not_mem (h : Steps (Avoiding R avoided) a n b) : n = 0 ∨ a ∉ avoided := by
  cases n with
  | zero => exact .inl rfl
  | succ n =>
    obtain ⟨y, hstep, -⟩ := h.exists_head
    exact .inr hstep.2

end Distances
