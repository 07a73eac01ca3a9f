import Mathlib.Data.List.Basic

/-!
# Commands that can be taken back

`Applies c s s'` says that the command `c` makes `s'` of `s`. A way to revert commands is exact when
it takes each of them back in the state right after it. An exact way takes a list of commands back
from its end, and any other list may go wrong under some exact way.
-/

namespace Reversal

variable {γ σ : Type*} (Applies : γ → σ → σ → Prop)

/-- The commands are applied one after the other. -/
def Applied : σ → List γ → σ → Prop
  | s, [], s' => s = s'
  | s, c :: cs, s' => ∃ t, Applies c s t ∧ Applied t cs s'

def Exact (revert : γ → σ → σ) : Prop := ∀ c s s', Applies c s s' → revert c s' = s

variable {Applies}

theorem applied_append {s' : σ} : ∀ {cs ds : List γ} {s : σ},
    Applied Applies s (cs ++ ds) s' ↔ ∃ t, Applied Applies s cs t ∧ Applied Applies t ds s'
  | [], ds, s => by simp [Applied]
  | c :: cs, ds, s => by
    constructor
    · rintro ⟨t, hc, h⟩
      obtain ⟨u, hcs, hds⟩ := applied_append.1 h
      exact ⟨u, ⟨t, hc, hcs⟩, hds⟩
    · rintro ⟨u, ⟨t, hc, hcs⟩, hds⟩
      exact ⟨t, hc, applied_append.2 ⟨u, hcs, hds⟩⟩

theorem foldr_revert {revert : γ → σ → σ} (hexact : Exact Applies revert) {s' : σ} :
    ∀ {cs : List γ} {s : σ}, Applied Applies s cs s' → cs.foldr revert s' = s
  | [], _, h => h.symm
  | c :: cs, s, ⟨t, hc, hcs⟩ => by
    rw [List.foldr_cons, foldr_revert hexact hcs]
    exact hexact c s t hc

/-- The inverses, from the last command to the first, lead back. -/
theorem applied_reverse {inverse : γ → γ}
    (hinv : ∀ c s s', Applies c s s' → Applies (inverse c) s' s) {s' : σ} : ∀ {cs : List γ} {s : σ}, Applied Applies s cs s' →
      Applied Applies s' (cs.reverse.map inverse) s
  | [], _, h => h.symm
  | c :: cs, s, ⟨t, hc, hcs⟩ => by
    rw [List.reverse_cons, List.map_append, applied_append]
    exact ⟨t, applied_reverse hinv hcs, s, hinv c s t hc, (rfl : s = s)⟩

section Trap

variable {cs : List γ} {s s' trap : σ} {T : σ → Prop}

/-- Reverts what it can, and leads into the trap elsewhere. -/
noncomputable def revertOr (Applies : γ → σ → σ → Prop) (trap : σ) (c : γ) (s' : σ) : σ :=
  open Classical in if h : ∃ s, Applies c s s' then h.choose else trap

theorem exact_revertOr (trap : σ) (hdet : ∀ c s t s', Applies c s s' → Applies c t s' → s = t) :
    Exact Applies (revertOr Applies trap) := by
  intro c s s' h
  have hex : ∃ s, Applies c s s' := ⟨s, h⟩
  rw [revertOr, dif_pos hex]
  exact hdet c _ _ s' hex.choose_spec h

/-- Commands that were not applied lead into the trap, out of which none of them leads. -/
theorem foldr_revertOr (s' : σ) (htrap : T trap) : ∀ {cs : List γ},
    (∀ c ∈ cs, ∀ s s', Applies c s s' → T s' → T s) →
      Applied Applies (cs.foldr (revertOr Applies trap) s') cs s' ∨
        T (cs.foldr (revertOr Applies trap) s')
  | [], _ => .inl rfl
  | c :: cs, hkeep => by
    rw [List.foldr_cons]
    have hcs := foldr_revertOr s' htrap fun c hc => hkeep c (List.mem_cons_of_mem _ hc)
    by_cases hex : ∃ s, Applies c s (cs.foldr (revertOr Applies trap) s')
    · rw [revertOr, dif_pos hex]
      rcases hcs with happ | htrapped
      · exact .inl ⟨_, hex.choose_spec, happ⟩
      · exact .inr (hkeep c List.mem_cons_self _ _ hex.choose_spec htrapped)
    · rw [revertOr, dif_neg hex]
      exact .inr htrap

/-- Commands that every exact way takes back were applied. -/
theorem applied_of_foldr (hdet : ∀ c s t s', Applies c s s' → Applies c t s' → s = t)
    (htrap : T trap) (hkeep : ∀ c ∈ cs, ∀ s s', Applies c s s' → T s' → T s) (hs : ¬ T s)
    (h : ∀ revert, Exact Applies revert → cs.foldr revert s' = s) : Applied Applies s cs s' := by
  have hback := h _ (exact_revertOr trap hdet)
  rcases foldr_revertOr s' htrap hkeep with happ | htrapped
  · rwa [hback] at happ
  · rw [hback] at htrapped
    exact absurd htrapped hs

end Trap

end Reversal
