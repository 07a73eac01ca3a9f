import Mathlib.Data.List.Infix

/-!
# Text up to a delimiter

A delimiter is a symbol that stands twice. After an escape symbol it is passed over with it. A text
is `Bare` when a delimiter put after it is the first to be found. A text without a delimiter is
`Unfinished`, or `Lost` where it is empty or an escaped delimiter is the last of it.
-/

namespace Delimiters

variable {α : Type*} (esc c : α)

/-- No delimiter stands at the start, escaped or not. -/
structure Plain (s : List α) : Prop where
  escaped : ¬ [esc, c, c] <+: s
  delimiter : ¬ [c, c] <+: s

inductive Bare : List α → Prop
  | nil : Bare []
  | escaped {s : List α} : Bare s → Bare (esc :: c :: c :: s)
  | cons {x : α} {s : List α} : Plain esc c (x :: (s ++ [c, c])) → Bare s → Bare (x :: s)

inductive Unfinished : List α → Prop
  | last (x : α) : Unfinished [x]
  | escaped {s : List α} : Unfinished s → Unfinished (esc :: c :: c :: s)
  | cons {x : α} {s : List α} : Plain esc c (x :: s) → Unfinished s → Unfinished (x :: s)

inductive Lost : List α → Prop
  | nil : Lost []
  | escaped {s : List α} : Lost s → Lost (esc :: c :: c :: s)
  | cons {x : α} {s : List α} : Plain esc c (x :: s) → s ≠ [] → Lost s → Lost (x :: s)

variable {esc c}

/-- What follows a delimiter is of no account. -/
theorem plain_append_iff {x : α} {s rest : List α} :
    Plain esc c (x :: (s ++ c :: c :: rest)) ↔ Plain esc c (x :: (s ++ [c, c])) := by
  have hsplit : x :: (s ++ c :: c :: rest) = (x :: (s ++ [c, c])) ++ rest := by simp
  constructor <;> rintro ⟨hescaped, hdelimiter⟩ <;>
    refine ⟨fun h => hescaped ?_, fun h => hdelimiter ?_⟩
  · rw [hsplit]
    exact h.trans (List.prefix_append _ _)
  · rw [hsplit]
    exact h.trans (List.prefix_append _ _)
  · rw [hsplit] at h
    exact (List.isPrefix_append_of_length (by simp)).1 h
  · rw [hsplit] at h
    exact (List.isPrefix_append_of_length (by simp)).1 h

/-- A list is cut at its first delimiter, if there is one. -/
theorem bare_or (esc c : α) : ∀ s : List α,
    (∃ t rest, Bare esc c t ∧ s = t ++ c :: c :: rest) ∨ Unfinished esc c s ∨ Lost esc c s := by
  classical
  intro s
  induction hn : s.length using Nat.strong_induction_on generalizing s with
  | _ n ih =>
    subst hn
    cases s with
    | nil => exact .inr (.inr .nil)
    | cons x s =>
      by_cases hescaped : [esc, c, c] <+: x :: s
      · obtain ⟨rest, hrest⟩ := hescaped
        rw [← hrest]
        have hlt : rest.length < (x :: s).length := by
          rw [← hrest, List.length_append]
          simp only [List.length_cons, List.length_nil]
          omega
        rcases ih _ hlt rest rfl with ⟨t, rest', ht, rfl⟩ | h | h
        · exact .inl ⟨esc :: c :: c :: t, rest', .escaped ht, rfl⟩
        · exact .inr (.inl (.escaped h))
        · exact .inr (.inr (.escaped h))
      by_cases hdelimiter : [c, c] <+: x :: s
      · obtain ⟨rest, hrest⟩ := hdelimiter
        exact .inl ⟨[], rest, .nil, hrest.symm⟩
      have hplain : Plain esc c (x :: s) := ⟨hescaped, hdelimiter⟩
      rcases ih _ (Nat.lt_succ_self _) s rfl with ⟨t, rest, ht, rfl⟩ | h | h
      · exact .inl ⟨x :: t, rest, .cons (plain_append_iff.1 hplain) ht, rfl⟩
      · exact .inr (.inl (.cons hplain h))
      · cases s with
        | nil => exact .inr (.inl (.last x))
        | cons y s => exact .inr (.inr (.cons hplain (List.cons_ne_nil _ _) h))

end Delimiters
