import Mathlib.Data.Nat.Notation

/-!
# Loops that test at the end

`doWhile body` runs the body again and again, as long as it says so, but no more often than the
fuel.
-/

namespace DoWhile

variable {σ : Type*} (body : σ → σ × Bool)

def doWhile : ℕ → σ → Option σ
  | 0, _ => none
  | fuel + 1, s => if (body s).2 then doWhile fuel (body s).1 else some (body s).1

/-- A loop whose body keeps an invariant, and makes a measure smaller whenever it is to be run
again, ends with a last run of the body. -/
theorem doWhile_eq {inv : σ → Prop} (measure : σ → ℕ) (hkeeps : ∀ s, inv s → inv (body s).1)
    (hless : ∀ s, inv s → (body s).2 = true → measure (body s).1 < measure s) :
    ∀ {fuel : ℕ} {s : σ}, measure s < fuel → inv s →
      ∃ last, inv last ∧ (body last).2 = false ∧ doWhile body fuel s = some (body last).1
  | 0, _, hfuel, _ => absurd hfuel (Nat.not_lt_zero _)
  | fuel + 1, s, hfuel, hinv => by
    unfold doWhile
    cases hagain : (body s).2 with
    | false => exact ⟨s, hinv, hagain, if_neg (by simp)⟩
    | true =>
      have hmeasure := hless s hinv hagain
      obtain ⟨last, hlast, hends, heq⟩ := doWhile_eq measure hkeeps hless
        (Nat.lt_of_lt_of_le hmeasure (Nat.le_of_lt_succ hfuel)) (hkeeps s hinv)
      exact ⟨last, hlast, hends, by rw [if_pos rfl, heq]⟩

end DoWhile
