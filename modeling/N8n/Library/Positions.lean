import Mathlib.Data.List.Nodup
import Mathlib.Data.Int.Notation
import Mathlib.Tactic.SplitIfs

/-!
# Lists that are stored as positions

A list without repetitions can be stored as a partial function that gives each element its position.
To insert or to erase an element is then to set or to drop its position, and to shift those from
there on by one.
-/

namespace Positions

variable {α : Type*} {pos : α → Option ℤ} {l : List α}

/-- The positions are those in the list. -/
def Lists (pos : α → Option ℤ) (l : List α) : Prop :=
  ∀ a p, pos a = some p ↔ ∃ i : ℕ, l[i]? = some a ∧ (i : ℤ) = p

def shift (lowest delta p : ℤ) : ℤ := if lowest ≤ p then p + delta else p

theorem Lists.getElem?_eq (h : Lists pos l) {a : α} {i : ℕ} (ha : l[i]? = some a) :
    pos a = some (i : ℤ) := (h a i).2 ⟨i, ha, rfl⟩

theorem Lists.mem_iff (h : Lists pos l) (a : α) : a ∈ l ↔ (pos a).isSome := by
  rw [List.mem_iff_getElem?, Option.isSome_iff_exists]
  constructor
  · rintro ⟨i, ha⟩
    exact ⟨i, h.getElem?_eq ha⟩
  · rintro ⟨p, hp⟩
    obtain ⟨i, ha, -⟩ := (h a p).1 hp
    exact ⟨i, ha⟩

theorem Lists.index_eq (h : Lists pos l) {a : α} {i j : ℕ} (hi : l[i]? = some a)
    (hj : l[j]? = some a) : i = j := by
  have heq := Option.some.inj ((h.getElem?_eq hi).symm.trans (h.getElem?_eq hj))
  omega

theorem Lists.nodup (h : Lists pos l) : l.Nodup := by
  rw [List.nodup_iff_getElem?_ne_getElem?]
  intro i j hij hj heq
  rw [List.getElem?_eq_getElem hj] at heq
  have hsame := h.index_eq heq (List.getElem?_eq_getElem hj)
  omega

theorem Lists.congr {pos' : α → Option ℤ} (h : Lists pos l) (heq : ∀ a, pos' a = pos a) :
    Lists pos' l := fun a p => by rw [heq, h a p]

theorem lists_nil : Lists (fun _ : α => none) [] := fun a p => by simp

section

variable [DecidableEq α]

theorem Lists.insertIdx (h : Lists pos l) {a : α} {n : ℕ} (hn : n ≤ l.length) (ha : pos a = none) :
    Lists (fun b => if b = a then some (n : ℤ) else (pos b).map (shift n 1)) (l.insertIdx n a) := by
  have hnot : ∀ i, l[i]? ≠ some a := fun i hi => by
    rw [h.getElem?_eq hi] at ha
    cases ha
  intro b p
  by_cases hb : b = a
  · subst hb
    simp only [if_true, Option.some.injEq]
    constructor
    · rintro rfl
      exact ⟨n, by rw [List.getElem?_insertIdx]; simp [hn], rfl⟩
    · rintro ⟨i, hi, rfl⟩
      rw [List.getElem?_insertIdx] at hi
      split_ifs at hi with hlt heq
      · exact absurd hi (hnot i)
      · rw [heq]
      · exact absurd hi (hnot _)
  · simp only [hb, if_false, Option.map_eq_some_iff]
    constructor
    · rintro ⟨q, hq, rfl⟩
      obtain ⟨i, hi, rfl⟩ := (h b q).1 hq
      unfold shift
      split_ifs with hle
      · refine ⟨i + 1, ?_, by omega⟩
        rw [List.getElem?_insertIdx, if_neg (by omega), if_neg (by omega), Nat.add_sub_cancel, hi]
      · exact ⟨i, by rw [List.getElem?_insertIdx, if_pos (by omega), hi], rfl⟩
    · rintro ⟨i, hi, rfl⟩
      rw [List.getElem?_insertIdx] at hi
      split_ifs at hi with hlt heq hbound
      · exact ⟨i, h.getElem?_eq hi, if_neg (by omega)⟩
      · exact absurd (Option.some.inj hi).symm hb
      · refine ⟨_, h.getElem?_eq hi, ?_⟩
        unfold shift
        split_ifs <;> omega

theorem Lists.eraseIdx (h : Lists pos l) {a : α} {n : ℕ} (ha : l[n]? = some a) :
    Lists (fun b => if b = a then none else (pos b).map (shift n (-1))) (l.eraseIdx n) := by
  intro b p
  by_cases hb : b = a
  · subst hb
    simp only [if_true, reduceCtorEq, false_iff, not_exists, not_and]
    intro i hi
    rw [List.getElem?_eraseIdx] at hi
    split_ifs at hi with hlt
    · have hsame := h.index_eq hi ha
      omega
    · have hsame := h.index_eq hi ha
      omega
  · simp only [hb, if_false, Option.map_eq_some_iff]
    constructor
    · rintro ⟨q, hq, rfl⟩
      obtain ⟨i, hi, rfl⟩ := (h b q).1 hq
      have hne : i ≠ n := by
        rintro rfl
        exact hb (Option.some.inj (hi.symm.trans ha))
      unfold shift
      split_ifs with hle
      · refine ⟨i - 1, ?_, by omega⟩
        rw [List.getElem?_eraseIdx, if_neg (by omega), Nat.sub_add_cancel (by omega), hi]
      · exact ⟨i, by rw [List.getElem?_eraseIdx, if_pos (by omega), hi], rfl⟩
    · rintro ⟨i, hi, rfl⟩
      rw [List.getElem?_eraseIdx] at hi
      split_ifs at hi with hlt
      · exact ⟨i, h.getElem?_eq hi, if_neg (by omega)⟩
      · refine ⟨_, h.getElem?_eq hi, ?_⟩
        unfold shift
        split_ifs <;> omega

end

end Positions
