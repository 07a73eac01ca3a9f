import Mathlib.Data.List.Basic

/-!
# Replacing matches

A text is gone through from left to right. Where there is a match it is replaced, and what belongs
to the match is passed over.
-/

namespace Replacement

variable {α σ : Type*}

/-- `matchAt` gives how long the match at the start of a text is, and what replaces it. The number
says how much more of the text belongs to a match. -/
def replaceAll (matchAt : List α → Option (ℕ × List α)) : ℕ → List α → List α
  | _, [] => []
  | skip + 1, _ :: text => replaceAll matchAt skip text
  | 0, a :: text =>
    match matchAt (a :: text) with
    | some (length + 1, replacement) => replacement ++ replaceAll matchAt length text
    | _ => a :: replaceAll matchAt 0 text

variable (matchAt : List α → Option (ℕ × List α))

/-- There is no match in the first text, where the second comes after it. -/
def NoMatch (text later : List α) : Prop := ∀ k < text.length, matchAt (text.drop k ++ later) = none

/-- How a text that consists of pieces is replaced: the text of a piece stays or its end is
replaced, and the next piece may belong to the match. -/
inductive Replaces (old new : σ → List α) : List σ → Prop
  | nil : Replaces old new []
  | keep {piece : σ} {pieces : List σ} : new piece = old piece →
      NoMatch matchAt (old piece) (pieces.flatMap old) → Replaces old new pieces →
      Replaces old new (piece :: pieces)
  | replace {piece : σ} {pieces : List σ} {first last replacement : List α} :
      old piece = first ++ last → new piece = first ++ replacement → last ≠ [] →
      NoMatch matchAt first (last ++ pieces.flatMap old) →
      matchAt (last ++ pieces.flatMap old) = some (last.length, replacement) →
      Replaces old new pieces → Replaces old new (piece :: pieces)
  | reach {piece next : σ} {pieces : List σ} {first last replacement : List α} :
      old piece = first ++ last → new piece = first ++ replacement → last ≠ [] →
      NoMatch matchAt first (last ++ (next :: pieces).flatMap old) →
      matchAt (last ++ (next :: pieces).flatMap old) =
        some ((last ++ old next).length, replacement ++ old next) →
      new next = old next → Replaces old new pieces → Replaces old new (piece :: next :: pieces)

variable {matchAt}

theorem replaceAll_skip : ∀ text later : List α,
    replaceAll matchAt text.length (text ++ later) = replaceAll matchAt 0 later
  | [], _ => rfl
  | _ :: text, later => replaceAll_skip text later

theorem replaceAll_of_noMatch : ∀ {text later : List α}, NoMatch matchAt text later →
    replaceAll matchAt 0 (text ++ later) = text ++ replaceAll matchAt 0 later
  | [], _, _ => rfl
  | a :: text, later, h => by
    have hfirst : matchAt (a :: text ++ later) = none := h 0 (Nat.succ_pos _)
    have hrest : NoMatch matchAt text later := fun k hk => h (k + 1) (Nat.succ_lt_succ hk)
    rw [List.cons_append, replaceAll]
    rw [List.cons_append] at hfirst
    rw [hfirst, List.cons_append, replaceAll_of_noMatch hrest]

theorem replaceAll_of_match {text later replacement : List α} (hne : text ≠ [])
    (h : matchAt (text ++ later) = some (text.length, replacement)) :
    replaceAll matchAt 0 (text ++ later) = replacement ++ replaceAll matchAt 0 later := by
  obtain ⟨a, text, rfl⟩ := List.exists_cons_of_ne_nil hne
  rw [List.cons_append] at h ⊢
  rw [replaceAll, h]
  exact congrArg (replacement ++ ·) (replaceAll_skip text later)

/-- What is replaced piece by piece is replaced on the whole. -/
theorem Replaces.replaceAll_eq {old new : σ → List α} {pieces : List σ}
    (h : Replaces matchAt old new pieces) :
    replaceAll matchAt 0 (pieces.flatMap old) = pieces.flatMap new := by
  induction h with
  | nil => rfl
  | keep hnew hnone _ ih => rw [List.flatMap_cons, replaceAll_of_noMatch hnone, ih, List.flatMap_cons, hnew]
  | replace hold hnew hne hnone hmatch _ ih =>
    rw [List.flatMap_cons, hold, List.append_assoc, replaceAll_of_noMatch hnone,
      replaceAll_of_match hne hmatch, ih, List.flatMap_cons, hnew, List.append_assoc]
  | @reach piece next pieces first last replacement hold hnew hne hnone hmatch hnext _ ih =>
    rw [List.flatMap_cons, hold, List.append_assoc, replaceAll_of_noMatch hnone]
    rw [List.flatMap_cons, ← List.append_assoc] at hmatch ⊢
    rw [replaceAll_of_match (List.append_ne_nil_of_left_ne_nil hne _) hmatch, ih]
    simp only [List.flatMap_cons, hnew, hnext, List.append_assoc]

/-- Where each match is replaced by itself nothing changes. -/
theorem replaceAll_eq_drop (h : ∀ text length replacement,
      matchAt text = some (length, replacement) → replacement = text.take length) :
    ∀ (skip : ℕ) (text : List α), replaceAll matchAt skip text = text.drop skip
  | skip, [] => by cases skip <;> rfl
  | skip + 1, _ :: text => replaceAll_eq_drop h skip text
  | 0, a :: text => by
    rw [replaceAll]
    split
    · next length replacement hmatch =>
      rw [h _ _ _ hmatch, replaceAll_eq_drop h length text, List.take_succ_cons, List.cons_append,
        List.take_append_drop]
      rfl
    · rw [replaceAll_eq_drop h 0 text]
      rfl

end Replacement
