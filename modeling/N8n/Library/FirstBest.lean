import Mathlib.Data.List.MinMax
import Mathlib.Data.List.Nodup

/-!
# The first best element of a list

`List.argmax` takes the first of the elements with the greatest value. In a list without duplicates
an element is taken exactly when every other has a smaller value, or the same and a later place.
`[a, b] <+ l` says that `a` comes before `b`.
-/

namespace FirstBest

open List

variable {α β : Type*}

theorem before_of_append {a b : α} {l₁ l₂ : List α} (h : b ∈ l₂) : [a, b] <+ l₁ ++ a :: l₂ :=
  (Sublist.cons_cons a (singleton_sublist.2 h)).trans (sublist_append_right l₁ _)

theorem not_before_of_before {a b : α} : ∀ {l : List α}, l.Nodup → [a, b] <+ l → ¬ [b, a] <+ l
  | [], _, h, _ => by cases h
  | x :: l, hnodup, hab, hba => by
    rw [nodup_cons] at hnodup
    cases hab with
    | cons _ hab =>
      cases hba with
      | cons _ hba => exact not_before_of_before hnodup.2 hab hba
      | cons_cons _ hba => exact hnodup.1 (hab.subset (mem_cons_of_mem a mem_cons_self))
    | cons_cons _ hab =>
      cases hba with
      | cons _ hba => exact hnodup.1 (hba.subset (mem_cons_of_mem b mem_cons_self))
      | cons_cons _ hba => exact hnodup.1 (singleton_sublist.1 hab)

variable [LinearOrder β] {f : α → β}

theorem exists_split_of_argmax : ∀ {l : List α} {m : α}, l.argmax f = some m →
    ∃ l₁ l₂, l = l₁ ++ m :: l₂ ∧ (∀ a ∈ l₁, f a < f m) ∧ ∀ a ∈ l₂, f a ≤ f m
  | [], m, h => by cases h
  | x :: l, m, h => by
    rw [argmax_cons] at h
    cases hl : l.argmax f with
    | none =>
      rw [hl] at h
      obtain rfl := Option.some.inj h
      rw [argmax_eq_none.1 hl]
      exact ⟨[], [], rfl, by simp, by simp⟩
    | some n =>
      rw [hl] at h
      dsimp only at h
      split_ifs at h with hlt
      · obtain rfl := Option.some.inj h
        obtain ⟨l₁, l₂, rfl, hbefore, hafter⟩ := exists_split_of_argmax hl
        refine ⟨x :: l₁, l₂, rfl, fun a ha => ?_, hafter⟩
        rcases mem_cons.1 ha with rfl | ha
        · exact hlt
        · exact hbefore a ha
      · obtain rfl := Option.some.inj h
        exact ⟨[], l, rfl, by simp, fun a ha =>
          (le_of_mem_argmax ha hl).trans (not_lt.1 hlt)⟩

theorem argmax_eq_some_iff_before {l : List α} (hnodup : l.Nodup) {m : α} :
    l.argmax f = some m ↔
      m ∈ l ∧ ∀ a ∈ l, a ≠ m → f a < f m ∨ f a = f m ∧ [m, a] <+ l := by
  have hforth : ∀ {n}, l.argmax f = some n →
      ∀ a ∈ l, a ≠ n → f a < f n ∨ f a = f n ∧ [n, a] <+ l := by
    intro n hn a ha hne
    obtain ⟨l₁, l₂, rfl, hbefore, hafter⟩ := exists_split_of_argmax hn
    rcases mem_append.1 ha with ha | ha
    · exact .inl (hbefore a ha)
    · have ha := (mem_cons.1 ha).resolve_left hne
      rcases (hafter a ha).lt_or_eq with hlt | heq
      · exact .inl hlt
      · exact .inr ⟨heq, before_of_append ha⟩
  constructor
  · exact fun h => ⟨argmax_mem h, hforth h⟩
  · rintro ⟨hm, hbest⟩
    cases hn : l.argmax f with
    | none =>
      rw [argmax_eq_none.1 hn] at hm
      cases hm
    | some n =>
      by_contra hne
      have hnm : n ≠ m := fun h => hne (by rw [h])
      rcases hbest n (argmax_mem hn) hnm with hlt | ⟨heq, hbefore⟩
      · exact not_lt_of_ge (le_of_mem_argmax hm hn) hlt
      · rcases hforth hn m hm hnm.symm with hlt | ⟨-, hafter⟩
        · exact hlt.ne heq.symm
        · exact not_before_of_before hnodup hbefore hafter

/-- The best element stays the best among fewer. -/
theorem argmax_filter {l : List α} (hnodup : l.Nodup) {m : α} {p : α → Bool}
    (h : l.argmax f = some m) (hp : p m = true) : (l.filter p).argmax f = some m := by
  rw [argmax_eq_some_iff_before hnodup] at h
  rw [argmax_eq_some_iff_before (hnodup.filter p)]
  refine ⟨mem_filter.2 ⟨h.1, hp⟩, fun a ha hne => ?_⟩
  obtain ⟨ha, hpa⟩ := mem_filter.1 ha
  refine (h.2 a ha hne).imp_right fun ⟨heq, hbefore⟩ => ⟨heq, ?_⟩
  simpa [hp, hpa] using hbefore.filter p

end FirstBest
