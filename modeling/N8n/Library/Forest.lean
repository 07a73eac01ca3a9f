import Mathlib.Data.List.Chain
import Mathlib.Data.List.Nodup
import Mathlib.Data.List.Perm.Subperm
import Mathlib.Logic.Relation
import Mathlib.Tactic.SplitIfs

/-!
# Forests that are given by parents

A forest is a function that gives each node its parent, if it has one, such that no node is above
itself. `acyclic_move_iff` says exactly which moves of nodes to a new parent leave it one. A walk up
from a node, and a search down from it level by level, need no more steps than there are nodes.
-/

namespace Forest

open Relation

variable {α : Type*}

/-- The second is the parent of the first. -/
def Up (parent : α → Option α) (a b : α) : Prop := parent a = some b

def Acyclic (parent : α → Option α) : Prop := ∀ a, ¬ TransGen (Up parent) a a

theorem Acyclic.mono {parent parent' : α → Option α} (h : Acyclic parent)
    (hsub : ∀ a b, parent' a = some b → parent a = some b) : Acyclic parent' := fun a ha =>
  h a (TransGen.mono hsub a a ha)

/-! ## Moves -/

section Move

variable (parent : α → Option α) (moved : α → Prop) [DecidablePred moved] (target : Option α)

/-- The nodes that are moved get a new parent, or none. -/
def move (a : α) : Option α := if moved a then target else parent a

variable {parent moved target}

theorem up_move_of_not {a b : α} (ha : ¬ moved a) :
    Up (move parent moved target) a b ↔ Up parent a b := by
  rw [Up, move, if_neg ha, Up]

theorem up_move_of_moved {a b : α} (ha : moved a) :
    Up (move parent moved target) a b ↔ target = some b := by
  rw [Up, move, if_pos ha]

/-- A way up is also one after the move, or it comes to a node that is moved. -/
theorem reaches_moved {a b : α} (h : ReflTransGen (Up parent) a b) :
    ReflTransGen (Up (move parent moved target)) a b ∨
      ∃ c, moved c ∧ ReflTransGen (Up (move parent moved target)) a c := by
  induction h with
  | refl => exact .inl .refl
  | @tail b c _ hbc ih =>
    rcases ih with hab | hmoved
    · by_cases hb : moved b
      · exact .inr ⟨b, hb, hab⟩
      · exact .inl (hab.tail ((up_move_of_not hb).2 hbc))
    · exact .inr hmoved

/-- A way up after the move was one before, or it comes to a node that is moved, the first of them
on an old way. -/
theorem reached_moved {a b : α} (h : ReflTransGen (Up (move parent moved target)) a b) :
    ReflTransGen (Up parent) a b ∨ ∃ c, moved c ∧ ReflTransGen (Up parent) a c ∧
      ReflTransGen (Up (move parent moved target)) a c ∧
      ReflTransGen (Up (move parent moved target)) c b := by
  induction h with
  | refl => exact .inl .refl
  | @tail b c hab hbc ih =>
    rcases ih with hold | ⟨d, hd, had, had', hdb⟩
    · by_cases hb : moved b
      · exact .inr ⟨b, hb, hold, hab, .single hbc⟩
      · exact .inl (hold.tail ((up_move_of_not hb).1 hbc))
    · exact .inr ⟨d, hd, had, had', hdb.tail hbc⟩

/-- A move leaves a forest exactly if the new parent is neither moved nor below a node that is. -/
theorem acyclic_move_iff (h : Acyclic parent) :
    Acyclic (move parent moved target) ↔
      ∀ t ∈ target, ∀ a, moved a → ¬ ReflTransGen (Up parent) t a := by
  constructor
  · intro hmove t ht a ha hta
    have hback : ∀ c, moved c → ¬ ReflTransGen (Up (move parent moved target)) t c :=
      fun c hc htc => hmove c (TransGen.head' ((up_move_of_moved hc).2 ht) htc)
    have hreaches : ReflTransGen (Up (move parent moved target)) t a ∨
        ∃ c, moved c ∧ ReflTransGen (Up (move parent moved target)) t c := reaches_moved hta
    rcases hreaches with hnew | ⟨c, hc, htc⟩
    · exact hback a ha hnew
    · exact hback c hc htc
  · intro hno
    -- a way from the new parent never comes to a node that is moved
    have hmoved : ∀ a, moved a → ¬ TransGen (Up (move parent moved target)) a a := by
      intro a ha hcycle
      obtain ⟨t, hat, hta⟩ := TransGen.head'_iff.1 hcycle
      have ht := (up_move_of_moved ha).1 hat
      rcases reached_moved hta with hold | ⟨c, hc, htc, -, -⟩
      · exact hno t ht a ha hold
      · exact hno t ht c hc htc
    intro a hcycle
    by_cases ha : moved a
    · exact hmoved a ha hcycle
    · obtain ⟨b, hab, hba⟩ := TransGen.head'_iff.1 hcycle
      rcases reached_moved hba with hold | ⟨c, hc, -, hbc, hca⟩
      · exact h a (TransGen.head' ((up_move_of_not ha).1 hab) hold)
      · exact hmoved c hc (TransGen.trans_right hca (TransGen.head' hab hbc))

end Move

/-! ## Walks up -/

section Climb

variable (parent : α → Option α)

/-- The nodes from a node up to a root, or none if the way is longer than the fuel. -/
def climb : ℕ → α → Option (List α)
  | 0, _ => none
  | fuel + 1, a =>
    match parent a with
    | none => some [a]
    | some b => (climb fuel b).map (a :: ·)

variable {parent}

theorem mem_climb : ∀ {fuel : ℕ} {a : α} {nodes : List α}, climb parent fuel a = some nodes →
    ∀ b, b ∈ nodes ↔ ReflTransGen (Up parent) a b
  | 0, _, _, h, _ => by cases h
  | fuel + 1, a, nodes, h, b => by
    unfold climb at h
    cases hparent : parent a with
    | none =>
      simp only [hparent, Option.some.injEq] at h
      rw [← h, List.mem_singleton]
      refine ⟨fun hb => hb ▸ .refl, fun hab => ?_⟩
      rcases ReflTransGen.cases_head hab with heq | ⟨c, hac, -⟩
      · exact heq.symm
      · rw [Up, hparent] at hac
        cases hac
    | some c =>
      simp only [hparent] at h
      obtain ⟨above, habove, rfl⟩ := Option.map_eq_some_iff.1 h
      rw [List.mem_cons, mem_climb habove]
      constructor
      · rintro (rfl | hcb)
        · exact .refl
        · exact .head hparent hcb
      · intro hab
        rcases ReflTransGen.cases_head hab with heq | ⟨d, had, hdb⟩
        · exact .inl heq.symm
        · obtain rfl := Option.some.inj (hparent.symm.trans had)
          exact .inr hdb

/-- What is climbed goes from the node to a root. -/
theorem isChain_climb : ∀ {fuel : ℕ} {a : α} {nodes : List α}, climb parent fuel a = some nodes →
    nodes.IsChain (Up parent) ∧ nodes.head? = some a ∧ ∃ root, nodes.getLast? = some root ∧
      parent root = none
  | 0, _, _, h => by cases h
  | fuel + 1, a, nodes, h => by
    unfold climb at h
    cases hparent : parent a with
    | none =>
      simp only [hparent, Option.some.injEq] at h
      subst h
      exact ⟨.singleton a, rfl, a, rfl, hparent⟩
    | some b =>
      simp only [hparent] at h
      obtain ⟨above, habove, rfl⟩ := Option.map_eq_some_iff.1 h
      obtain ⟨hchain, hhead, root, hroot, hnone⟩ := isChain_climb habove
      cases above with
      | nil => cases hhead
      | cons c above =>
        obtain rfl := Option.some.inj hhead
        exact ⟨.cons_cons hparent hchain, rfl, root, by simpa using hroot, hnone⟩

/-- A way up that does not end within the fuel. -/
theorem exists_chain_of_climb : ∀ {fuel : ℕ} {a : α}, climb parent fuel a = none →
    ∃ nodes : List α, nodes.length = fuel ∧ (a :: nodes).IsChain (Up parent) ∧
      ∀ c ∈ (a :: nodes).dropLast, ∃ d, parent c = some d
  | 0, a, _ => ⟨[], rfl, .singleton a, by simp⟩
  | fuel + 1, a, h => by
    unfold climb at h
    cases hparent : parent a with
    | none => simp [hparent] at h
    | some b =>
      simp only [hparent, Option.map_eq_none_iff] at h
      obtain ⟨nodes, hlength, hchain, hparents⟩ := exists_chain_of_climb h
      refine ⟨b :: nodes, by rw [List.length_cons, hlength], .cons_cons hparent hchain, ?_⟩
      rw [List.dropLast_cons_cons]
      exact List.forall_mem_cons.2 ⟨⟨b, hparent⟩, hparents⟩

theorem Acyclic.nodup (h : Acyclic parent) {nodes : List α} (hchain : nodes.IsChain (Up parent)) :
    nodes.Nodup := by
  have htrans : nodes.IsChain (TransGen (Up parent)) := hchain.imp fun _ _ => TransGen.single
  refine (List.isChain_iff_pairwise.1 htrans).imp fun {a b} hab heq => ?_
  exact h a (heq ▸ hab)

theorem rightUnique_up (parent : α → Option α) : Relator.RightUnique (Up parent) :=
  fun _ _ _ hab hac => Option.some.inj (hab.symm.trans hac)

/-- On the way up from a node, a parent is reached from one node only. -/
theorem Acyclic.eq_of_up (h : Acyclic parent) {a b c d : α} (hab : ReflTransGen (Up parent) a b)
    (hac : ReflTransGen (Up parent) a c) (hbd : Up parent b d) (hcd : Up parent c d) : b = c := by
  have hno : ∀ {b c : α}, Up parent b d → Up parent c d → ReflTransGen (Up parent) b c → b = c := by
    intro b c hb hc hbc
    rcases ReflTransGen.cases_head hbc with heq | ⟨e, hbe, hec⟩
    · exact heq
    · obtain rfl := rightUnique_up parent hb hbe
      exact absurd (TransGen.tail' hec hc) (h d)
  rcases ReflTransGen.total_of_right_unique (rightUnique_up parent) hab hac with hbc | hcb
  · exact hno hbd hcd hbc
  · exact (hno hcd hbd hcb).symm

/-- There is one root above a node. -/
theorem eq_of_root {a b c : α} (hab : ReflTransGen (Up parent) a b)
    (hac : ReflTransGen (Up parent) a c) (hb : parent b = none) (hc : parent c = none) : b = c := by
  have hno : ∀ {b c : α}, parent b = none → ReflTransGen (Up parent) b c → b = c := by
    intro b c hb hbc
    rcases ReflTransGen.cases_head hbc with heq | ⟨d, hbd, -⟩
    · exact heq
    · rw [Up, hb] at hbd
      cases hbd
  rcases ReflTransGen.total_of_right_unique (rightUnique_up parent) hab hac with hbc | hcb
  · exact hno hb hbc
  · exact (hno hc hcb).symm

/-- A walk up a forest ends within as many steps as there are nodes. -/
theorem Acyclic.exists_climb [DecidableEq α] (h : Acyclic parent) {whole : List α}
    (hwhole : ∀ a b, parent a = some b → a ∈ whole) {fuel : ℕ} (hfuel : whole.length < fuel)
    (a : α) : ∃ nodes, climb parent fuel a = some nodes := by
  cases hclimb : climb parent fuel a with
  | some nodes => exact ⟨nodes, rfl⟩
  | none =>
    obtain ⟨nodes, hlength, hchain, hparents⟩ := exists_chain_of_climb hclimb
    have hnodup := (h.nodup hchain).sublist (List.dropLast_sublist _)
    have hsubset : (a :: nodes).dropLast ⊆ whole := fun c hc =>
      (hparents c hc).elim fun d => hwhole c d
    have hle := (List.Nodup.subperm hnodup hsubset).length_le
    simp only [List.length_dropLast, List.length_cons] at hle
    omega

end Climb

/-! ## Searches down -/

section Levels

variable (children : List α → List α)

/-- The nodes of a level and of all levels below it, or none if there are more than the fuel. -/
def levels : ℕ → List α → Option (List α)
  | 0, _ => none
  | _ + 1, [] => some []
  | fuel + 1, a :: level => (levels fuel (children (a :: level))).map (a :: level ++ ·)

variable {children} {parent : α → Option α}
  (hchildren : ∀ level b, b ∈ children level ↔ ∃ a ∈ level, parent b = some a)

include hchildren

theorem mem_levels : ∀ {fuel : ℕ} {level nodes : List α}, levels children fuel level = some nodes →
    ∀ b, b ∈ nodes ↔ ∃ a ∈ level, ReflTransGen (Up parent) b a
  | 0, _, _, h, _ => by cases h
  | _ + 1, [], nodes, h, b => by
    obtain rfl := Option.some.inj h
    simp
  | fuel + 1, a :: level, nodes, h, b => by
    obtain ⟨below, hbelow, rfl⟩ := Option.map_eq_some_iff.1 h
    rw [List.mem_append, mem_levels hbelow]
    constructor
    · rintro (hmem | ⟨c, hc, hbc⟩)
      · exact ⟨b, hmem, .refl⟩
      · obtain ⟨d, hd, hcd⟩ := (hchildren _ c).1 hc
        exact ⟨d, hd, hbc.tail hcd⟩
    · rintro ⟨d, hd, hbd⟩
      rcases ReflTransGen.cases_tail hbd with heq | ⟨c, hbc, hcd⟩
      · exact .inl (heq ▸ hd)
      · exact .inr ⟨c, (hchildren _ c).2 ⟨d, hd, hcd⟩, hbc⟩

/-- A way down that does not end within the fuel. -/
theorem exists_chain_of_levels : ∀ {fuel : ℕ} {level : List α}, levels children fuel level = none →
    ∃ nodes : List α, nodes.length = fuel ∧ nodes.IsChain (fun a b => Up parent b a) ∧
      (∀ a ∈ nodes.head?, a ∈ level) ∧ ∀ a ∈ nodes, a ∈ level ∨ ∃ b, parent a = some b
  | 0, _, _ => ⟨[], rfl, .nil, by simp, by simp⟩
  | fuel + 1, a :: level, h => by
    obtain ⟨nodes, hlength, hchain, hhead, hparents⟩ :=
      exists_chain_of_levels (Option.map_eq_none_iff.1 h)
    have hbelow : ∀ c ∈ nodes, ∃ b, parent c = some b := fun c hc => by
      rcases hparents c hc with hmem | hparent
      · obtain ⟨b, -, hb⟩ := (hchildren _ c).1 hmem
        exact ⟨b, hb⟩
      · exact hparent
    cases nodes with
    | nil => exact ⟨[a], by rw [← hlength]; rfl, .singleton a, by simp, by simp⟩
    | cons c nodes =>
      obtain ⟨b, hb, hcb⟩ := (hchildren _ c).1 (hhead c rfl)
      refine ⟨b :: c :: nodes, by rw [List.length_cons, hlength], .cons_cons hcb hchain, ?_, ?_⟩
      · rintro _ ⟨⟩
        exact hb
      · exact List.forall_mem_cons.2 ⟨.inl hb, fun d hd => .inr (hbelow d hd)⟩

/-- A search down a forest ends within as many levels as there are nodes. -/
theorem Acyclic.exists_levels [DecidableEq α] (h : Acyclic parent) {whole : List α}
    (hwhole : ∀ a b, parent a = some b → a ∈ whole) {fuel : ℕ} (hfuel : whole.length < fuel)
    {level : List α} (hlevel : level ⊆ whole) :
    ∃ nodes, levels children fuel level = some nodes := by
  cases hlevels : levels children fuel level with
  | some nodes => exact ⟨nodes, rfl⟩
  | none =>
    obtain ⟨nodes, hlength, hchain, -, hparents⟩ := exists_chain_of_levels hchildren hlevels
    have hnodup : nodes.reverse.Nodup := h.nodup (List.isChain_reverse.2 hchain)
    have hsubset : nodes ⊆ whole := fun c hc =>
      (hparents c hc).elim (fun hmem => hlevel hmem) fun ⟨b, hb⟩ => hwhole c b hb
    have hle := (List.Nodup.subperm (List.nodup_reverse.1 hnodup) hsubset).length_le
    omega

end Levels

end Forest
