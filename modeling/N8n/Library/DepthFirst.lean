import Mathlib.Data.List.Basic
import Mathlib.Logic.Relation

/-!
# Depth first

A search that marks what it has come to and goes on from there. It does not go on from what is
marked already, so each is marked once, and in the end everything is that the start leads to.
-/

namespace DepthFirst

variable {α β ε : Type*}

section Visit

variable [DecidableEq β] (expand : α → Except ε (List β)) (target : β → α)

/-- What is marked in the end. The first argument bounds the depth. -/
def visit : ℕ → α → List β → Except ε (List β)
  | 0, _, marked => .ok marked
  | fuel + 1, a, marked => do
    (← expand a).foldlM (fun marked b =>
      if b ∈ marked then .ok marked else visit fuel (target b) (marked ++ [b])) marked

end Visit

section Spec

variable (expand : α → Except ε (List β)) (target : β → α)

/-- The start comes to it, at once or over others. -/
inductive Leads : α → β → Prop
  | once {a bs b} : expand a = .ok bs → b ∈ bs → Leads a b
  | further {a bs b c} : expand a = .ok bs → c ∈ bs → Leads (target c) b → Leads a b

/-- It has an expansion, into some of these. -/
def Expands (whole : List β) (a : α) : Prop := ∃ bs, expand a = .ok bs ∧ bs ⊆ whole

/-- From what is new in a list one comes to more of the list only. -/
def Closed (marked result : List β) : Prop :=
  ∀ b ∈ result, b ∉ marked → ∀ bs, expand (target b) = .ok bs → bs ⊆ result

/-- The marks after a search from the start. -/
structure Visited (whole : List β) (a : α) (marked result : List β) : Prop where
  keeps : marked ⊆ result
  within : result ⊆ whole
  expanded : ∀ bs, expand a = .ok bs → bs ⊆ result
  closed : Closed expand target marked result
  leads : ∀ b ∈ result, b ∉ marked → Leads expand target a b

end Spec

section Proofs

variable {expand : α → Except ε (List β)} {target : β → α} {whole marked result : List β}

theorem Closed.trans {middle : List β} (h : Closed expand target marked middle)
    (h' : Closed expand target middle result) (hsub : middle ⊆ result) :
    Closed expand target marked result := by
  intro b hb hnot bs hbs
  by_cases hmem : b ∈ middle
  · exact List.Subset.trans (h b hmem hnot bs hbs) hsub
  · exact h' b hb hmem bs hbs

theorem Leads.mem_of_closed {a : α} {b : β} (h : Leads expand target a b)
    (hexpanded : ∀ bs, expand a = .ok bs → bs ⊆ result) (hclosed : Closed expand target [] result) :
    b ∈ result := by
  induction h with
  | once hbs hb => exact hexpanded _ hbs hb
  | further hbs hc _ ih =>
    exact ih fun cs hcs => hclosed _ (hexpanded _ hbs hc) List.not_mem_nil cs hcs

variable [DecidableEq β]

/-- How much is not marked. -/
def remaining (whole marked : List β) : ℕ := (whole.filter (· ∉ marked)).length

theorem remaining_le (h : marked ⊆ result) : remaining whole result ≤ remaining whole marked :=
  (List.monotone_filter_right whole fun b hb => by
    simp only [decide_eq_true_eq] at hb ⊢
    exact fun hmem => hb (h hmem)).length_le

theorem remaining_lt {b : β} (hb : b ∈ whole) (hnot : b ∉ marked) :
    remaining whole (marked ++ [b]) < remaining whole marked := by
  have hsub : whole.filter (· ∉ marked ++ [b]) =
      (whole.filter (· ∉ marked)).filter (· ≠ b) := by
    rw [List.filter_filter]
    refine List.filter_congr fun c _ => ?_
    simp [and_comm]
  unfold remaining
  rw [hsub]
  refine List.length_filter_lt_length_iff_exists.2 ⟨b, ?_, by simp⟩
  exact List.mem_filter.2 ⟨hb, by simpa using hnot⟩

/-- The turns of the loop over what a node expands into, where a search with less fuel does what
it should. -/
theorem foldlM_visited {fuel : ℕ}
    (hexpands : ∀ b ∈ whole, Expands expand whole (target b))
    (hvisit : ∀ a marked, Expands expand whole a → marked ⊆ whole →
      remaining whole marked < fuel → ∃ result, visit expand target fuel a marked = .ok result ∧
        Visited expand target whole a marked result) :
    ∀ (bs marked : List β), bs ⊆ whole → marked ⊆ whole → remaining whole marked ≤ fuel →
      ∃ result, bs.foldlM (fun marked b =>
          if b ∈ marked then .ok marked else visit expand target fuel (target b) (marked ++ [b]))
          marked = .ok result ∧
        marked ⊆ result ∧ result ⊆ whole ∧ bs ⊆ result ∧ Closed expand target marked result ∧
        ∀ b ∈ result, b ∉ marked → ∃ c ∈ bs, b = c ∨ Leads expand target (target c) b
  | [], marked, _, hmarked, _ =>
    ⟨marked, rfl, List.Subset.refl _, hmarked, List.nil_subset _, fun b hb hnot => absurd hb hnot,
      fun b hb hnot => absurd hb hnot⟩
  | c :: bs, marked, hbs, hmarked, hfuel => by
    obtain ⟨hc, hbs⟩ := List.cons_subset.1 hbs
    rw [List.foldlM_cons]
    by_cases hmem : c ∈ marked
    · rw [if_pos hmem]
      obtain ⟨result, hok, hsub, hwithin, hall, hclosed, hleads⟩ :=
        foldlM_visited hexpands hvisit bs marked hbs hmarked hfuel
      exact ⟨result, hok, hsub, hwithin, List.cons_subset.2 ⟨hsub hmem, hall⟩, hclosed,
        fun b hb hnot => (hleads b hb hnot).imp fun d hd => ⟨List.mem_cons_of_mem _ hd.1, hd.2⟩⟩
    · rw [if_neg hmem]
      have hmarked' : marked ++ [c] ⊆ whole :=
        List.append_subset.2 ⟨hmarked, List.cons_subset.2 ⟨hc, List.nil_subset _⟩⟩
      obtain ⟨middle, hmiddle, hv⟩ := hvisit (target c) (marked ++ [c]) (hexpands c hc) hmarked'
        (Nat.lt_of_lt_of_le (remaining_lt hc hmem) hfuel)
      have hsub : marked ⊆ middle := List.Subset.trans (List.subset_append_left _ _) hv.keeps
      have hcm : c ∈ middle := hv.keeps (List.mem_append_right _ (List.mem_singleton_self c))
      obtain ⟨result, hok, hsub', hwithin, hall, hclosed, hleads⟩ :=
        foldlM_visited hexpands hvisit bs middle hbs hv.within (Nat.le_trans (remaining_le hsub) hfuel)
      have hclosed' : Closed expand target marked middle := by
        intro b hb hnot cs hcs
        by_cases hbc : b = c
        · exact hv.expanded cs (hbc ▸ hcs)
        · exact hv.closed b hb (by simp [hnot, hbc]) cs hcs
      refine ⟨result, ?_, List.Subset.trans hsub hsub', hwithin, List.cons_subset.2 ⟨hsub' hcm, hall⟩,
        hclosed'.trans hclosed hsub', fun b hb hnot => ?_⟩
      · rw [hmiddle]
        exact hok
      · by_cases hbm : b ∈ middle
        · refine ⟨c, List.mem_cons_self, ?_⟩
          by_cases hbc : b = c
          · exact .inl hbc
          · exact .inr (hv.leads b hbm (by simp [hnot, hbc]))
        · exact (hleads b hb hbm).imp fun d hd => ⟨List.mem_cons_of_mem _ hd.1, hd.2⟩

theorem visit_visited (hexpands : ∀ b ∈ whole, Expands expand whole (target b)) :
    ∀ (fuel : ℕ) (a : α) (marked : List β), Expands expand whole a → marked ⊆ whole →
      remaining whole marked < fuel → ∃ result, visit expand target fuel a marked = .ok result ∧
        Visited expand target whole a marked result
  | 0, _, _, _, _, hfuel => absurd hfuel (Nat.not_lt_zero _)
  | fuel + 1, a, marked, ⟨bs, hbs, hwithin⟩, hmarked, hfuel => by
    obtain ⟨result, hok, hsub, hresult, hall, hclosed, hleads⟩ :=
      foldlM_visited hexpands (visit_visited hexpands fuel) bs marked hwithin hmarked
        (Nat.lt_succ_iff.1 hfuel)
    refine ⟨result, ?_, hsub, hresult, fun cs hcs => ?_, hclosed, fun b hb hnot => ?_⟩
    · rw [visit, hbs]
      exact hok
    · rw [hbs] at hcs
      exact Except.ok.inj hcs ▸ hall
    · obtain ⟨c, hc, rfl | hlead⟩ := hleads b hb hnot
      · exact .once hbs hc
      · exact .further hbs hc hlead

/-- A search that starts without marks marks what its start leads to. -/
theorem visit_nil (hexpands : ∀ b ∈ whole, Expands expand whole (target b)) {a : α}
    (ha : Expands expand whole a) {fuel : ℕ} (hfuel : whole.length < fuel) :
    ∃ result, visit expand target fuel a [] = .ok result ∧
      ∀ b, b ∈ result ↔ Leads expand target a b := by
  obtain ⟨result, hok, hv⟩ := visit_visited hexpands fuel a [] ha (List.nil_subset _)
    (Nat.lt_of_le_of_lt (List.length_filter_le _ _) hfuel)
  exact ⟨result, hok, fun b => ⟨fun hb => hv.leads b hb List.not_mem_nil,
    fun h => h.mem_of_closed hv.expanded hv.closed⟩⟩

end Proofs

/-! ## Paths without repetitions -/

section Avoiding

open Relation

variable {R : α → α → Prop} {avoided : List α} {a n : α}

/-- A step from something that is not avoided. -/
def Avoiding (R : α → α → Prop) (avoided : List α) (x y : α) : Prop := R x y ∧ x ∉ avoided

theorem avoiding_nil : Avoiding R [] = R := by
  funext x y
  simp [Avoiding]

/-- After it has left `a` for the last time, a path avoids it. -/
theorem exists_avoiding (h : ReflTransGen (Avoiding R avoided) a n) (hne : a ≠ n) :
    ∃ b, R a b ∧ ReflTransGen (Avoiding R (avoided ++ [a])) b n := by
  have hlast : ∀ {x}, ReflTransGen (Avoiding R avoided) x n →
      ReflTransGen (Avoiding R (avoided ++ [a])) x n ∨
        ∃ b, R a b ∧ ReflTransGen (Avoiding R (avoided ++ [a])) b n := by
    intro x hx
    induction hx using ReflTransGen.head_induction_on with
    | refl => exact .inl .refl
    | @head x y hstep _ ih =>
      rcases ih with hpath | hleft
      · by_cases hxa : x = a
        · exact .inr ⟨y, hxa ▸ hstep.1, hpath⟩
        · exact .inl (.head ⟨hstep.1, by simp [hstep.2, hxa]⟩ hpath)
      · exact .inr hleft
  rcases hlast h with hpath | hleft
  · rcases ReflTransGen.cases_head hpath with heq | ⟨b, hstep, -⟩
    · exact absurd heq hne
    · exact absurd (List.mem_append_right avoided (List.mem_singleton_self a)) hstep.2
  · exact hleft

theorem Avoiding.weaken {b : α} (h : ReflTransGen (Avoiding R (avoided ++ [a])) b n) :
    ReflTransGen (Avoiding R avoided) b n :=
  ReflTransGen.mono (fun _ _ hstep => ⟨hstep.1, fun hmem => hstep.2 (List.mem_append_left _ hmem)⟩)
    _ _ h

end Avoiding

end DepthFirst
