import Mathlib.Data.List.Basic

/-!
# Lists whose elements are named by their places

New elements come at the end, and an element is changed where it is, so that no place is given to
another element.
-/

namespace Places

variable {α : Type*} {l : List α} {a b : α} {i j : ℕ} {f : α → α}

theorem getElem?_concat_eq_some :
    (l ++ [a])[i]? = some b ↔ l[i]? = some b ∨ i = l.length ∧ a = b := by
  rcases Nat.lt_trichotomy i l.length with hlt | rfl | hlt
  · rw [List.getElem?_append_left hlt]
    exact ⟨.inl, fun h => h.resolve_right fun ⟨heq, _⟩ => by omega⟩
  · simp
  · rw [List.getElem?_eq_none (by simp; omega), List.getElem?_eq_none (by omega)]
    simp only [reduceCtorEq, false_or, false_iff, not_and]
    omega

theorem getElem?_concat_of_some (h : l[i]? = some b) (a : α) : (l ++ [a])[i]? = some b :=
  getElem?_concat_eq_some.2 (.inl h)

theorem getElem?_modify_self (h : l[i]? = some a) (f : α → α) :
    (l.modify i f)[i]? = some (f a) := by
  simp [h]

theorem getElem?_modify_eq_some :
    (l.modify i f)[j]? = some b ↔ ∃ a, l[j]? = some a ∧ (if i = j then f a else a) = b := by
  rw [List.getElem?_modify]
  exact Option.map_eq_some_iff

theorem getElem?_modify_eq_none : (l.modify i f)[j]? = none ↔ l[j]? = none := by
  rw [List.getElem?_modify]
  exact Option.map_eq_none_iff

/-- The elements of a place that is changed are parted from the rest. -/
theorem flatMap_modify_perm {β : Type*} (F : α → List β) : ∀ {l : List α} {i : ℕ},
    l[i]? = some a → ∀ f : α → α, ∃ rest, (l.flatMap F).Perm (F a ++ rest) ∧
      ((l.modify i f).flatMap F).Perm (F (f a) ++ rest)
  | x :: l, 0, h, f => by
    obtain rfl : x = a := Option.some.inj h
    exact ⟨l.flatMap F, .refl _, .refl _⟩
  | x :: l, i + 1, h, f => by
    obtain ⟨rest, hl, hmodify⟩ := flatMap_modify_perm F (l := l) h f
    exact ⟨F x ++ rest, (hl.append_left _).trans (List.perm_append_comm_assoc _ _ _),
      (hmodify.append_left _).trans (List.perm_append_comm_assoc _ _ _)⟩

end Places
