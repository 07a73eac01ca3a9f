import Mathlib.Logic.Relation
import Mathlib.Tactic
import N8n.Library.Traversal

/-!
# The topmost nodes of a search

A search goes up from some nodes and hands down the enabled ones it finds. A node is handed down
itself if nothing comes from above it. But what was checked before is not gone through again, so a
node may be handed down because what is above it has been found on another way.
-/

namespace Topmost

open Relation DepthFirst Traversal

variable {V : Type*}

section Defs

variable [DecidableEq V]

/-- What is not there goes last. -/
def merge (nodes added : List V) : List V :=
  added.foldl (fun nodes v => if v ∈ nodes then nodes else nodes ++ [v]) nodes

variable (above : V → List V) (leaf enabled : V → Bool)

/-- The enabled nodes that are handed down, and the nodes that are checked then. The first argument
bounds the depth. A leaf has nothing above it, and is not checked. -/
def tops : ℕ → List V → List V → List V × List V
  | 0, _, checked => ([], checked)
  | fuel + 1, cs, checked =>
    cs.foldl (fun s c =>
      if c ∈ s.2 then s
      else if leaf c then (if enabled c then merge s.1 [c] else s.1, s.2)
      else
        let added := tops fuel (above c) (s.2 ++ [c])
        (merge s.1 (if added.1 = [] ∧ enabled c then [c] else added.1), added.2))
      ([], checked)

/-- One node of the list. -/
def step (fuel : ℕ) (s : List V × List V) (c : V) : List V × List V :=
  if c ∈ s.2 then s
  else if leaf c then (if enabled c then merge s.1 [c] else s.1, s.2)
  else
    let added := tops above leaf enabled fuel (above c) (s.2 ++ [c])
    (merge s.1 (if added.1 = [] ∧ enabled c then [c] else added.1), added.2)

theorem tops_succ (fuel : ℕ) (cs checked : List V) : tops above leaf enabled (fuel + 1) cs checked =
    cs.foldl (step above leaf enabled fuel) ([], checked) := rfl

/-- The node is enabled, and no path over nodes that come later in the order leads from it to another
one. -/
def Top (order : List V) (x : V) : Prop :=
  enabled x ∧ ∀ u, enabled u →
    ¬ TransGen (fun a b => b ∈ above a ∧ order.idxOf x < order.idxOf b) x u

end Defs

section Paths

variable (above : V → List V)

/-- A path to nodes outside of the list. -/
abbrev Path (avoided : List V) : V → V → Prop :=
  ReflTransGen fun a b => b ∈ above a ∧ b ∉ avoided

/-- A path leads to the node from one of these, and all of it is outside of the list. -/
def From (cs avoided : List V) (x : V) : Prop := ∃ c ∈ cs, c ∉ avoided ∧ Path above avoided c x

variable {above} {cs avoided avoided' : List V} {c x y : V}

theorem From.tail (h : From above cs avoided x) (hy : y ∈ above x) (hnot : y ∉ avoided) :
    From above cs avoided y :=
  let ⟨c, hc, hcnot, hpath⟩ := h
  ⟨c, hc, hcnot, hpath.tail ⟨hy, hnot⟩⟩

theorem From.trans (h : From above cs avoided x) (hpath : Path above avoided x y) :
    From above cs avoided y :=
  let ⟨c, hc, hcnot, hpath'⟩ := h
  ⟨c, hc, hcnot, hpath'.trans hpath⟩

theorem From.notMem (h : From above cs avoided x) : x ∉ avoided := by
  obtain ⟨c, -, hnot, hpath⟩ := h
  rcases hpath.cases_tail with rfl | ⟨b, -, -, hx⟩
  · exact hnot
  · exact hx

theorem from_append {ds : List V} :
    From above (cs ++ ds) avoided x ↔ From above cs avoided x ∨ From above ds avoided x := by
  simp only [From, List.mem_append, or_and_right, exists_or]

theorem from_singleton : From above [c] avoided x ↔ c ∉ avoided ∧ Path above avoided c x := by
  simp [From]

theorem Path.weaken (hsub : avoided ⊆ avoided') (h : Path above avoided' x y) :
    Path above avoided x y :=
  ReflTransGen.mono (fun _ _ hstep => ⟨hstep.1, fun hmem => hstep.2 (hsub hmem)⟩) _ _ h

theorem transGen_iff_from :
    TransGen (fun a b => b ∈ above a ∧ b ∉ avoided) c x ↔ From above (above c) avoided x := by
  rw [TransGen.head'_iff]
  exact exists_congr fun b => and_assoc

end Paths

variable [DecidableEq V] {above : V → List V} {leaf enabled : V → Bool} {whole : List V}

theorem mem_merge {x : V} : ∀ {added nodes : List V},
    x ∈ merge nodes added ↔ x ∈ nodes ∨ x ∈ added
  | [], nodes => by simp [merge]
  | v :: added, nodes => by
    unfold merge
    rw [List.foldl_cons]
    refine mem_merge.trans ?_
    split_ifs with hv
    · rw [List.mem_cons]
      refine ⟨fun h => h.imp_right .inr, ?_⟩
      rintro (h | rfl | h)
      · exact .inl h
      · exact .inl hv
      · exact .inr h
    · simp [or_assoc]

theorem nodup_merge : ∀ {added nodes : List V}, nodes.Nodup → (merge nodes added).Nodup
  | [], _, h => h
  | v :: added, nodes, h => by
    unfold merge
    rw [List.foldl_cons]
    refine nodup_merge ?_
    split_ifs with hv
    · exact h
    · exact List.nodup_append.2 ⟨h, List.nodup_singleton v, by
        rintro a ha b hb rfl
        exact hv (List.mem_singleton.1 hb ▸ ha)⟩

theorem nodup_tops : ∀ (fuel : ℕ) (cs checked : List V),
    (tops above leaf enabled fuel cs checked).1.Nodup
  | 0, _, _ => List.nodup_nil
  | fuel + 1, cs, checked => by
    rw [tops_succ]
    refine List.foldlRecOn (motive := fun s : List V × List V => s.1.Nodup) cs _ List.nodup_nil fun s hs c _ => ?_
    unfold step
    split_ifs
    · exact hs
    · exact nodup_merge hs
    · exact hs
    · exact nodup_merge hs

/-! ## What is checked -/

theorem checked_tops : ∀ (fuel : ℕ) (cs checked : List V),
    checked <+: (tops above leaf enabled fuel cs checked).2
  | 0, _, _ => List.prefix_rfl
  | fuel + 1, cs, checked => by
    rw [tops_succ]
    refine List.foldlRecOn (motive := fun s : List V × List V => checked <+: s.2) cs _ List.prefix_rfl
      fun s hs c _ => ?_
    unfold step
    split_ifs
    · exact hs
    · exact hs
    · exact hs
    · exact hs.trans ((List.prefix_append _ _).trans (checked_tops fuel _ _))

theorem checked_step (fuel : ℕ) (s : List V × List V) (c : V) :
    s.2 <+: (step above leaf enabled fuel s c).2 := by
  unfold step
  split_ifs
  · exact List.prefix_rfl
  · exact List.prefix_rfl
  · exact List.prefix_rfl
  · exact (List.prefix_append _ _).trans (checked_tops fuel _ _)

theorem checked_foldl (fuel : ℕ) (cs : List V) (s : List V × List V) :
    s.2 <+: (cs.foldl (step above leaf enabled fuel) s).2 :=
  List.foldlRecOn (motive := fun s' => s.2 <+: s'.2) cs _ List.prefix_rfl
    fun s' hs' c _ => hs'.trans (checked_step fuel s' c)

/-- What is above a node and has something above it. -/
def inner (above : V → List V) (leaf : V → Bool) (v : V) : List V := (above v).filter (!leaf ·)

/-- A step enters the node as a traversal does, unless it is a leaf. -/
theorem foldl_step_eq_walk {fuel : ℕ} {v : V}
    (hstep : ∀ (s : List V × List V) (t : Order V) (c : V), s.2 = t.visited →
      (step above leaf enabled fuel s c).2 =
        if leaf c then t.visited
        else (walk (inner above leaf) (plain V) (fuel + 1) c t).visited) :
    ∀ (cs : List V) (s : List V × List V) (t : Order V), s.2 = t.visited →
      (cs.foldl (step above leaf enabled fuel) s).2 =
        ((cs.filter (!leaf ·)).foldl (fun t c =>
          (walk (inner above leaf) (plain V) (fuel + 1) c t).finish v c) t).visited
  | [], _, _, hs => hs
  | c :: cs, s, t, hs => by
    have hnext := hstep s t c hs
    rw [List.foldl_cons]
    cases hleaf : leaf c with
    | true =>
      rw [hleaf, if_pos rfl] at hnext
      rw [List.filter_cons_of_neg (by simp [hleaf])]
      exact foldl_step_eq_walk hstep cs _ t hnext
    | false =>
      rw [hleaf, if_neg Bool.false_ne_true] at hnext
      rw [List.filter_cons_of_pos (by simp [hleaf]), List.foldl_cons]
      exact foldl_step_eq_walk hstep cs _ _ hnext

/-- A traversal that does not enter leaves checks the same nodes in the same order. -/
theorem checked_eq_walk : ∀ (fuel : ℕ) (v : V) (cs : List V) (t : Order V),
    (tops above leaf enabled fuel cs t.visited).2 =
      ((cs.filter (!leaf ·)).foldl (fun t c =>
        (walk (inner above leaf) (plain V) fuel c t).finish v c) t).visited
  | 0, v, cs, t => by
    refine List.foldlRecOn (motive := fun t' : Order V => t.visited = t'.visited) _ _ rfl
      fun t' ht' c _ => ht'
  | fuel + 1, v, cs, t => by
    refine foldl_step_eq_walk (fun s t c hs => ?_) cs _ t rfl
    unfold step
    rw [hs, walk]
    by_cases hchecked : c ∈ t.visited
    · rw [if_pos hchecked, hs, if_pos (show c ∈ ((plain V).order t).visited from hchecked), ite_self]
    · rw [if_neg hchecked, if_neg (show c ∉ ((plain V).order t).visited from hchecked)]
      cases leaf c with
      | true => rfl
      | false => exact checked_eq_walk fuel c (above c) (t.enter c)

/-! ## What is handed down -/

variable {order : List V}

/-- What comes later in the order is what is not yet checked. -/
theorem idxOf_lt_iff {checked : List V} {c b : V} (h : checked ++ [c] <+: order)
    (hc : c ∉ checked) : order.idxOf c < order.idxOf b ↔ b ∉ checked ++ [c] := by
  obtain ⟨later, rfl⟩ := h
  have hfirst : (checked ++ [c] ++ later).idxOf c = checked.length := by
    rw [List.idxOf_append_of_mem (by simp), List.idxOf_append_of_notMem hc, List.idxOf_cons_self,
      Nat.add_zero]
  rw [hfirst]
  by_cases hb : b ∈ checked ++ [c]
  · refine iff_of_false (not_lt.2 ?_) (not_not.2 hb)
    rw [List.idxOf_append_of_mem hb]
    have hlt := List.idxOf_lt_length_iff.2 hb
    rw [List.length_append, List.length_singleton] at hlt
    exact Nat.le_of_lt_succ hlt
  · refine iff_of_true ?_ hb
    rw [List.idxOf_append_of_notMem hb, List.length_append, List.length_singleton]
    omega

theorem top_iff {checked : List V} {c : V} (h : checked ++ [c] <+: order) (hc : c ∉ checked) :
    Top above enabled order c ↔
      enabled c ∧ ∀ u, enabled u → ¬ From above (above c) (checked ++ [c]) u := by
  unfold Top
  simp only [idxOf_lt_iff h hc, transGen_iff_from]

theorem top_leaf {c : V} (h : above c = []) : Top above enabled order c ↔ enabled c := by
  refine ⟨And.left, fun henabled => ⟨henabled, fun u _ hpath => ?_⟩⟩
  obtain ⟨b, hstep, -⟩ := TransGen.head'_iff.1 hpath
  rw [h] at hstep
  exact absurd hstep.1 List.not_mem_nil

/-- If something enabled is found, something is handed down. -/
theorem exists_top {cs checked : List V} (h : checked <+: order) : ∀ (n : ℕ) (u : V),
    order.length - order.idxOf u ≤ n → enabled u → From above cs checked u →
    ∃ x, Top above enabled order x ∧ From above cs checked x
  | n, u, hn, henabled, hfrom => by
    by_cases htop : Top above enabled order u
    · exact ⟨u, htop, hfrom⟩
    · unfold Top at htop
      push Not at htop
      obtain ⟨u', henabled', hpath⟩ := htop henabled
      -- what comes later than an unchecked node is not checked
      have hle : ∀ b, order.idxOf u < order.idxOf b → b ∉ checked := by
        obtain ⟨later, rfl⟩ := h
        intro b hlt hb
        rw [List.idxOf_append_of_mem hb, List.idxOf_append_of_notMem hfrom.notMem] at hlt
        have := List.idxOf_lt_length_iff.2 hb
        omega
      have hfrom' : From above cs checked u' :=
        hfrom.trans (ReflTransGen.mono (fun a b hstep => ⟨hstep.1, hle b hstep.2⟩) _ _
          hpath.to_reflTransGen)
      obtain ⟨b, -, -, hlt⟩ := TransGen.tail'_iff.1 hpath
      have hlast : order.idxOf u' ≤ order.length := List.idxOf_le_length
      cases n with
      | zero => omega
      | succ n => exact exists_top h n u' (by omega) henabled' hfrom'

/-- What a search has found when it has gone through some nodes. -/
structure Found (above : V → List V) (leaf enabled : V → Bool) (order cs checked : List V)
    (s : List V × List V) : Prop where
  before : checked <+: s.2
  mem_checked : ∀ y, y ∈ s.2 ↔ y ∈ checked ∨ leaf y = false ∧ From above cs checked y
  mem_tops : ∀ x, x ∈ s.1 ↔ Top above enabled order x ∧ From above cs checked x

namespace Found

variable {cs checked : List V} {s : List V × List V} {c x : V}

/-- What is checked leads to nothing new. -/
theorem of_mem (h : Found above leaf enabled order cs checked s) (hc : c ∈ s.2) :
    Found above leaf enabled order (cs ++ [c]) checked s := by
  have hfrom : ∀ y, From above (cs ++ [c]) checked y ↔ From above cs checked y := by
    intro y
    rw [from_append, from_singleton, or_iff_left_iff_imp]
    rintro ⟨hnot, hpath⟩
    rcases (h.mem_checked c).1 hc with hmem | ⟨-, hfrom⟩
    · exact absurd hmem hnot
    · exact hfrom.trans hpath
  exact ⟨h.before, fun y => by rw [hfrom, h.mem_checked], fun x => by rw [hfrom, h.mem_tops]⟩

theorem of_leaf (h : Found above leaf enabled order cs checked s) (hc : c ∉ s.2)
    (hleaf : leaf c = true) (habove : above c = []) :
    Found above leaf enabled order (cs ++ [c]) checked
      (if enabled c then merge s.1 [c] else s.1, s.2) := by
  have hfrom : ∀ y, From above [c] checked y ↔ y = c := by
    intro y
    rw [from_singleton]
    constructor
    · rintro ⟨-, hpath⟩
      rcases hpath.cases_head with rfl | ⟨b, ⟨hb, -⟩, -⟩
      · rfl
      · rw [habove] at hb
        exact absurd hb List.not_mem_nil
    · rintro rfl
      exact ⟨fun hmem => hc (h.before.subset hmem), .refl⟩
  refine ⟨h.before, fun y => ?_, fun x => ?_⟩
  · rw [from_append, hfrom, h.mem_checked]
    refine or_congr_right (and_congr_right fun hy => (or_iff_left ?_).symm)
    rintro rfl
    rw [hleaf] at hy
    cases hy
  · have hmem : x ∈ (if enabled c then merge s.1 [c] else s.1) ↔
        x ∈ s.1 ∨ x = c ∧ enabled c := by
      split_ifs with henabled
      · simp [mem_merge, henabled]
      · simp [henabled]
    rw [hmem, from_append, hfrom, h.mem_tops, and_or_left]
    refine or_congr_right ⟨?_, ?_⟩
    · rintro ⟨rfl, henabled⟩
      exact ⟨(top_leaf habove).2 henabled, rfl⟩
    · rintro ⟨htop, rfl⟩
      exact ⟨rfl, htop.1⟩

/-- The new nodes are what a node leads to over unchecked nodes. -/
theorem from_append_iff (h : Found above leaf enabled order cs checked s) (hc : c ∉ s.2) :
    From above (cs ++ [c]) checked x ↔
      From above cs checked x ∨ x = c ∨ From above (above c) (s.2 ++ [c]) x := by
  rw [from_append, from_singleton]
  have hsub : checked ⊆ s.2 ++ [c] :=
    List.Subset.trans h.before.subset (List.subset_append_left _ _)
  have hnot : c ∉ checked := fun hmem => hc (h.before.subset hmem)
  constructor
  · rintro (hfrom | ⟨-, hpath⟩)
    · exact .inl hfrom
    · -- each step on the path stays with one of the three, or comes to one of the others
      induction hpath with
      | refl => exact .inr (.inl rfl)
      | @tail y x hpath hstep ih =>
        rcases ih with hfrom | hy
        · exact .inl (hfrom.tail hstep.1 hstep.2)
        · by_cases hx : x ∈ s.2 ++ [c]
          · rcases List.mem_append.1 hx with hx | hx
            · rcases (h.mem_checked x).1 hx with hmem | ⟨-, hfrom⟩
              · exact absurd hmem hstep.2
              · exact .inl hfrom
            · exact .inr (.inl (List.mem_singleton.1 hx))
          · rcases hy with rfl | hfrom
            · exact .inr (.inr ⟨x, hstep.1, hx, .refl⟩)
            · exact .inr (.inr (hfrom.tail hstep.1 hx))
  · rintro (hfrom | rfl | ⟨b, hb, hbnot, hpath⟩)
    · exact .inl hfrom
    · exact .inr ⟨hnot, .refl⟩
    · exact .inr ⟨hnot, .head ⟨hb, fun hmem => hbnot (hsub hmem)⟩ (Path.weaken hsub hpath)⟩

theorem of_inner (h : Found above leaf enabled order cs checked s) (hc : c ∉ s.2)
    (hleaf : leaf c = false) {added : List V × List V}
    (hadded : Found above leaf enabled order (above c) (s.2 ++ [c]) added)
    (horder : added.2 <+: order) :
    Found above leaf enabled order (cs ++ [c]) checked
      (merge s.1 (if added.1 = [] ∧ enabled c then [c] else added.1), added.2) := by
  have htop := @top_iff _ _ above enabled _ _ _ (hadded.before.trans horder) hc
  -- something is handed down from above exactly if something enabled is there
  have hempty : added.1 = [] ↔ ∀ u, enabled u → ¬ From above (above c) (s.2 ++ [c]) u := by
    constructor
    · intro hnil u henabled hfrom
      obtain ⟨x, hx, hxfrom⟩ :=
        exists_top (hadded.before.trans horder) _ u le_rfl henabled hfrom
      have hmem := (hadded.mem_tops x).2 ⟨hx, hxfrom⟩
      rw [hnil] at hmem
      exact absurd hmem List.not_mem_nil
    · intro hnone
      refine List.eq_nil_iff_forall_not_mem.2 fun x hx => ?_
      obtain ⟨⟨henabled, -⟩, hfrom⟩ := (hadded.mem_tops x).1 hx
      exact hnone x henabled hfrom
  refine ⟨h.before.trans ((List.prefix_append _ _).trans hadded.before), fun y => ?_, fun x => ?_⟩
  · rw [h.from_append_iff hc, hadded.mem_checked, List.mem_append, List.mem_singleton, h.mem_checked]
    constructor
    · rintro (((hy | ⟨hy, hfrom⟩) | rfl) | ⟨hy, hfrom⟩)
      · exact .inl hy
      · exact .inr ⟨hy, .inl hfrom⟩
      · exact .inr ⟨hleaf, .inr (.inl rfl)⟩
      · exact .inr ⟨hy, .inr (.inr hfrom)⟩
    · rintro (hy | ⟨hy, hfrom | rfl | hfrom⟩)
      · exact .inl (.inl (.inl hy))
      · exact .inl (.inl (.inr ⟨hy, hfrom⟩))
      · exact .inl (.inr rfl)
      · exact .inr ⟨hy, hfrom⟩
  · rw [mem_merge, h.from_append_iff hc, h.mem_tops, and_or_left]
    refine or_congr_right ?_
    split_ifs with hnew
    · rw [List.mem_singleton]
      constructor
      · rintro rfl
        exact ⟨htop.2 ⟨hnew.2, hempty.1 hnew.1⟩, .inl rfl⟩
      · rintro ⟨htopx, rfl | hfrom⟩
        · rfl
        · exact absurd hfrom (hempty.1 hnew.1 x htopx.1)
    · rw [hadded.mem_tops]
      refine and_congr_right fun htopx => ⟨.inr, ?_⟩
      rintro (rfl | hfrom)
      · exact absurd ⟨hempty.2 (htop.1 htopx).2, htopx.1⟩ hnew
      · exact hfrom

end Found

/-- The turns of the loop, where a search with less fuel finds what it should. -/
theorem foldl_found {fuel : ℕ} {checked : List V} (hleaf : ∀ c, leaf c = true → above c = [])
    (hwhole : ∀ c, leaf c = false → c ∈ whole)
    (htops : ∀ cs checked, remaining whole checked < fuel →
      (tops above leaf enabled fuel cs checked).2 <+: order →
      Found above leaf enabled order cs checked (tops above leaf enabled fuel cs checked)) :
    ∀ (ds cs : List V) (s : List V × List V), remaining whole s.2 < fuel + 1 →
      (ds.foldl (step above leaf enabled fuel) s).2 <+: order →
      Found above leaf enabled order cs checked s →
      Found above leaf enabled order (cs ++ ds) checked
        (ds.foldl (step above leaf enabled fuel) s)
  | [], cs, s, _, _, hs => by rwa [List.append_nil]
  | d :: ds, cs, s, hfuel, horder, hs => by
    rw [List.append_cons]
    rw [List.foldl_cons] at horder ⊢
    have hnext := @checked_step _ _ above leaf enabled fuel s d
    refine foldl_found hleaf hwhole htops ds (cs ++ [d]) _
      (Nat.lt_of_le_of_lt (remaining_le hnext.subset) hfuel) horder ?_
    have horder' := (checked_foldl fuel ds _).trans horder
    unfold step at horder' ⊢
    split_ifs at horder' ⊢ with hmem hd henabled
    · exact hs.of_mem hmem
    · simpa [henabled] using hs.of_leaf hmem hd (hleaf d hd)
    · simpa [henabled] using hs.of_leaf hmem hd (hleaf d hd)
    · have hd : leaf d = false := Bool.eq_false_iff.2 hd
      have hlt := remaining_lt (hwhole d hd) hmem
      exact hs.of_inner hmem hd (htops _ _ (by omega) horder') horder'

/-- The search hands down the topmost nodes of what it leads to. -/
theorem tops_found (hleaf : ∀ c, leaf c = true → above c = [])
    (hwhole : ∀ c, leaf c = false → c ∈ whole) : ∀ (fuel : ℕ) (cs checked : List V),
    remaining whole checked < fuel → (tops above leaf enabled fuel cs checked).2 <+: order →
    Found above leaf enabled order cs checked (tops above leaf enabled fuel cs checked)
  | 0, _, _, hfuel, _ => absurd hfuel (Nat.not_lt_zero _)
  | fuel + 1, cs, checked, hfuel, horder => by
    have hstart : Found above leaf enabled order [] checked ([], checked) :=
      ⟨List.prefix_rfl, by simp [From], by simp [From]⟩
    exact foldl_found hleaf hwhole (tops_found hleaf hwhole fuel) cs [] _ hfuel horder hstart

end Topmost
