import Mathlib.Data.List.Infix
import Mathlib.Tactic
import N8n.Library.DepthFirst

/-!
# Branches

A search goes backwards along edges from a start and remembers its branch, the edges it has taken.
It keeps a branch that comes to the stop, and one that comes to a node again. So what it keeps lies
on the paths from the stop to the start, and on the paths from a cycle to the start.
-/

namespace Branches

open Relation DepthFirst

variable {V C : Type*} (src tgt : C → V) (E : C → Prop) (start stop : V)

/-- The branches that are kept beyond a node, to which the search has come on a branch. -/
inductive Keeps : V → List C → List C → Prop
  | stopped (b) : Keeps stop b b
  | closed {v b} : v ≠ stop → v ≠ start → v ∈ b.map tgt → Keeps v b b
  | further {v b c b'} : v ≠ stop → v ∉ b.map tgt → E c → tgt c = v →
      Keeps (src c) (b ++ [c]) b' → Keeps v b b'

/-- The search comes to the node on the branch. -/
inductive Explored : V → List C → Prop
  | start : Explored start []
  | further {v b c} : Explored v b → v ≠ stop → v ∉ b.map tgt → E c → tgt c = v →
      Explored (src c) (b ++ [c])

/-- An edge that neither leaves the start nor enters the stop. -/
def Inner (c : C) : Prop := E c ∧ src c ≠ start ∧ tgt c ≠ stop

/-- Such an edge goes from one node to the other. -/
def Joins (a b : V) : Prop := ∃ c, Inner src tgt E start stop c ∧ src c = a ∧ tgt c = b

/-- The stop leads to the node, or a cycle does. -/
def Entered (v : V) : Prop :=
  ReflTransGen (Joins src tgt E start stop) stop v ∨
    ∃ x, TransGen (Joins src tgt E start stop) x x ∧
      ReflTransGen (Joins src tgt E start stop) x v

variable {src tgt E start stop}

theorem Joins.tgt_ne {a b : V} (h : Joins src tgt E start stop a b) : b ≠ stop := by
  obtain ⟨c, hc, -, rfl⟩ := h
  exact hc.2.2

/-! ## Paths -/

variable (src tgt) in
/-- The edges lead from one node to the other, each from where the one before has come. -/
def IsPath : V → List C → V → Prop
  | a, [], b => a = b
  | a, c :: cs, b => src c = a ∧ IsPath (tgt c) cs b

theorem IsPath.append : ∀ {cs cs' : List C} {a b d : V}, IsPath src tgt a cs b →
    IsPath src tgt b cs' d → IsPath src tgt a (cs ++ cs') d
  | [], _, _, _, _, rfl, h' => h'
  | _ :: _, _, _, _, _, ⟨hsrc, h⟩, h' => ⟨hsrc, h.append h'⟩

theorem IsPath.joins : ∀ {cs : List C} {a b : V}, IsPath src tgt a cs b →
    (∀ c ∈ cs, Inner src tgt E start stop c) → ReflTransGen (Joins src tgt E start stop) a b
  | [], _, _, rfl, _ => .refl
  | c :: _, _, _, ⟨rfl, h⟩, hinner =>
    .head ⟨c, hinner c List.mem_cons_self, rfl, rfl⟩
      (h.joins fun c' hc' => hinner c' (List.mem_cons_of_mem c hc'))

/-- The last edge of a path leads to its end. -/
theorem IsPath.mem : ∀ {cs : List C} {a b : V}, IsPath src tgt a cs b → b = a ∨ ∃ c ∈ cs, tgt c = b
  | [], _, _, h => .inl h.symm
  | c :: _, _, _, ⟨_, h⟩ => by
    rcases h.mem with rfl | ⟨c', hc', htgt⟩
    · exact .inr ⟨c, List.mem_cons_self, rfl⟩
    · exact .inr ⟨c', List.mem_cons_of_mem c hc', htgt⟩

/-- Each edge of a path lies between its ends. -/
theorem IsPath.joins_of_mem : ∀ {cs : List C} {a b : V}, IsPath src tgt a cs b →
    (∀ c ∈ cs, Inner src tgt E start stop c) → ∀ c ∈ cs,
      ReflTransGen (Joins src tgt E start stop) a (src c) ∧
        ReflTransGen (Joins src tgt E start stop) (tgt c) b
  | [], _, _, _, _, _, hc => absurd hc List.not_mem_nil
  | c :: cs, a, b, ⟨hsrc, h⟩, hinner, c', hc' => by
    have htail := fun x hx => hinner x (List.mem_cons_of_mem c hx)
    rcases List.mem_cons.1 hc' with rfl | hc'
    · rw [hsrc]
      exact ⟨.refl, h.joins htail⟩
    · obtain ⟨hto, hfrom⟩ := h.joins_of_mem htail c' hc'
      exact ⟨.head ⟨c, hinner c List.mem_cons_self, hsrc, rfl⟩ hto, hfrom⟩

theorem exists_isPath {a b : V} (h : ReflTransGen (Joins src tgt E start stop) a b) :
    ∃ cs, IsPath src tgt a cs b ∧ ∀ c ∈ cs, Inner src tgt E start stop c := by
  induction h using ReflTransGen.head_induction_on with
  | refl => exact ⟨[], rfl, fun c hc => absurd hc List.not_mem_nil⟩
  | head hjoins _ ih =>
    obtain ⟨c, hinner, rfl, rfl⟩ := hjoins
    obtain ⟨cs, hpath, hcs⟩ := ih
    exact ⟨c :: cs, ⟨rfl, hpath⟩, List.forall_mem_cons.2 ⟨hinner, hcs⟩⟩

/-! ## What is kept -/

/-- The edges of a branch so far: while the search is not back at the start, they are inner edges
from the current node to the start. -/
structure OnBranch (src tgt : C → V) (E : C → Prop) (start stop v : V) (b : List C) : Prop where
  nil : b = [] → v = start
  nonempty : b ≠ [] → start ∈ b.map tgt ∧ start ≠ stop
  edges : v ≠ start → ∀ c ∈ b, Inner src tgt E start stop c ∧
    ReflTransGen (Joins src tgt E start stop) v (src c) ∧
    ReflTransGen (Joins src tgt E start stop) (tgt c) start
  leads : v ≠ start → ReflTransGen (Joins src tgt E start stop) v start

theorem OnBranch.further {v : V} {b : List C} {c : C} (h : OnBranch src tgt E start stop v b)
    (hstop : v ≠ stop) (hnot : v ∉ b.map tgt) (hc : E c) (htgt : tgt c = v) :
    OnBranch src tgt E start stop (src c) (b ++ [c]) := by
  have hempty : v = start → b = [] := by
    rintro rfl
    by_contra hne
    exact hnot (h.nonempty hne).1
  have hleads : ReflTransGen (Joins src tgt E start stop) v start := by
    by_cases hv : v = start
    · rw [hv]
    · exact h.leads hv
  have hjoins : src c ≠ start → Joins src tgt E start stop (src c) v := fun hsrc =>
    ⟨c, ⟨hc, hsrc, htgt ▸ hstop⟩, rfl, htgt⟩
  refine ⟨fun hnil => absurd hnil (by simp), fun _ => ?_, fun hsrc c' hc' => ?_, fun hsrc =>
    .head (hjoins hsrc) hleads⟩
  · by_cases hb : b = []
    · have hv := h.nil hb
      exact ⟨by simp [← hv, htgt], hv ▸ hstop⟩
    · exact ⟨by simpa using .inl (by simpa using (h.nonempty hb).1), (h.nonempty hb).2⟩
  · rcases List.mem_append.1 hc' with hc' | hc'
    · have hv : v ≠ start := fun heq => by
        rw [hempty heq] at hc'
        exact List.not_mem_nil hc'
      obtain ⟨hinner, hto, hfrom⟩ := h.edges hv c' hc'
      exact ⟨hinner, .head (hjoins hsrc) hto, hfrom⟩
    · obtain rfl := List.mem_singleton.1 hc'
      exact ⟨⟨hc, hsrc, htgt ▸ hstop⟩, .refl, htgt ▸ hleads⟩

/-- The edges that are kept are inner ones, which lead to the start and which the stop or a cycle
leads to. -/
theorem Keeps.sound {v : V} {b b' : List C} (h : Keeps src tgt E start stop v b b')
    (hb : OnBranch src tgt E start stop v b) :
    (b' = [] → start = stop) ∧ (b' ≠ [] → start ∈ b'.map tgt) ∧ ∀ c ∈ b', Inner src tgt E start stop c ∧
      ReflTransGen (Joins src tgt E start stop) (tgt c) start ∧
      Entered src tgt E start stop (src c) := by
  induction h with
  | stopped b =>
    refine ⟨fun hnil => (hb.nil hnil).symm, fun hne => (hb.nonempty hne).1, fun c hc => ?_⟩
    have hne : b ≠ [] := List.ne_nil_of_mem hc
    obtain ⟨hinner, hto, hfrom⟩ := hb.edges (hb.nonempty hne).2.symm c hc
    exact ⟨hinner, hfrom, .inl hto⟩
  | @closed v b _ hstart hmem =>
    refine ⟨fun hnil => absurd hmem (by simp [hnil]), fun hne => (hb.nonempty hne).1,
      fun c hc => ?_⟩
    obtain ⟨c', hc', rfl⟩ := List.mem_map.1 hmem
    obtain ⟨hinner', hto', -⟩ := hb.edges hstart c' hc'
    obtain ⟨hinner, hto, hfrom⟩ := hb.edges hstart c hc
    exact ⟨hinner, hfrom, .inr ⟨tgt c', .tail' hto' ⟨c', hinner', rfl, rfl⟩, hto⟩⟩
  | further hstop hnot hc htgt _ ih => exact ih (hb.further hstop hnot hc htgt)

/-! ## What is explored -/

theorem Explored.keeps {v : V} {b b' : List C} (h : Explored src tgt E start stop v b)
    (hkeeps : Keeps src tgt E start stop v b b') : Keeps src tgt E start stop start [] b' := by
  induction h with
  | start => exact hkeeps
  | further _ hstop hnot hc htgt ih => exact ih (.further hstop hnot hc htgt hkeeps)

/-- To each node of a branch the search has come for a first time. -/
theorem Explored.exists_first {v : V} {b : List C} (h : Explored src tgt E start stop v b) :
    ∀ c ∈ b, ∃ b₀, Explored src tgt E start stop (tgt c) b₀ ∧ tgt c ∉ b₀.map tgt := by
  induction h with
  | start => exact fun c hc => absurd hc List.not_mem_nil
  | @further v b c hexplored hstop hnot hc htgt ih =>
    intro c' hc'
    rcases List.mem_append.1 hc' with hc' | hc'
    · exact ih c' hc'
    · obtain rfl := List.mem_singleton.1 hc'
      exact ⟨b, htgt ▸ hexplored, htgt ▸ hnot⟩

/-- The search comes to each node that leads to the start. -/
theorem exists_explored {v : V} (h : ReflTransGen (Joins src tgt E start stop) v start) :
    ∃ b, Explored src tgt E start stop v b ∧ v ∉ b.map tgt := by
  induction h using ReflTransGen.head_induction_on with
  | refl => exact ⟨[], .start, List.not_mem_nil⟩
  | head hjoins _ ih =>
    obtain ⟨b, hexplored, hnot⟩ := ih
    have hstop := hjoins.tgt_ne
    obtain ⟨c, ⟨hc, -, -⟩, rfl, rfl⟩ := hjoins
    have hnext := Explored.further hexplored hstop hnot hc rfl
    by_cases hmem : src c ∈ (b ++ [c]).map tgt
    · obtain ⟨c', hc', heq⟩ := List.mem_map.1 hmem
      exact heq ▸ hnext.exists_first c' hc'
    · exact ⟨_, hnext, hmem⟩

theorem Explored.onBranch {v : V} {b : List C} (h : Explored src tgt E start stop v b) :
    OnBranch src tgt E start stop v b := by
  induction h with
  | start => exact ⟨fun _ => rfl, fun h => absurd rfl h, fun h => absurd rfl h, fun h => absurd rfl h⟩
  | further _ hstop hnot hc htgt ih => exact ih.further hstop hnot hc htgt

/-- The last edge of a branch comes from the current node. -/
theorem Explored.mem {v : V} {b : List C} (h : Explored src tgt E start stop v b) :
    v = start ∨ ∃ c ∈ b, src c = v := by
  cases h with
  | start => exact .inl rfl
  | @further _ _ c => exact .inr ⟨c, by simp, rfl⟩

/-! ## Which branches are kept -/

/-- The stop leads to a node, or a cycle does, over one before it. -/
theorem Entered.exists_joins {v : V} (h : Entered src tgt E start stop v) (hstop : v ≠ stop) :
    ∃ u, Joins src tgt E start stop u v ∧ Entered src tgt E start stop u := by
  rcases h with h | ⟨x, hcycle, h⟩
  · rcases ReflTransGen.cases_tail h with heq | ⟨u, hu, hjoins⟩
    · exact absurd heq hstop
    · exact ⟨u, hjoins, .inl hu⟩
  · rcases ReflTransGen.cases_tail h with rfl | ⟨u, hu, hjoins⟩
    · obtain ⟨u, hu, hjoins⟩ := TransGen.tail'_iff.1 hcycle
      exact ⟨u, hjoins, .inr ⟨v, hcycle, hu⟩⟩
    · exact ⟨u, hjoins, .inr ⟨x, hcycle, hu⟩⟩

theorem Entered.trans {v w : V} (h : Entered src tgt E start stop v)
    (hvw : ReflTransGen (Joins src tgt E start stop) v w) : Entered src tgt E start stop w := by
  rcases h with h | ⟨x, hcycle, h⟩
  · exact .inl (h.trans hvw)
  · exact .inr ⟨x, hcycle, h.trans hvw⟩

theorem onBranch_nil : OnBranch src tgt E start stop start [] := Explored.start.onBranch

variable [DecidableEq V] {whole : List V}

/-- From a node that the stop or a cycle leads to, the branch is continued to one that is kept. -/
theorem Entered.exists_keeps (hwhole : ∀ c, E c → tgt c ∈ whole) : ∀ (n : ℕ) {v : V} {b : List C},
    remaining whole (b.map tgt) < n → Entered src tgt E start stop v →
    (b ≠ [] → v ≠ start) → ∃ b', Keeps src tgt E start stop v b b' ∧ b ⊆ b'
  | 0, _, _, hn, _, _ => absurd hn (Nat.not_lt_zero _)
  | n + 1, v, b, hn, hentered, hstart => by
    by_cases hstop : v = stop
    · subst hstop
      exact ⟨b, .stopped b, List.Subset.refl b⟩
    by_cases hmem : v ∈ b.map tgt
    · have hne : b ≠ [] := fun hnil => absurd hmem (by simp [hnil])
      exact ⟨b, .closed hstop (hstart hne) hmem, List.Subset.refl b⟩
    · obtain ⟨u, ⟨c, hinner, rfl, htgt⟩, hu⟩ := hentered.exists_joins hstop
      have hless := remaining_lt (htgt ▸ hwhole c hinner.1) hmem
      have hmap : (b ++ [c]).map tgt = b.map tgt ++ [v] := by simp [htgt]
      obtain ⟨b', hkeeps, hsub⟩ := Entered.exists_keeps hwhole n (b := b ++ [c])
        (by rw [hmap]; omega) hu fun _ => hinner.2.1
      exact ⟨b', .further hstop hmem hinner.1 htgt hkeeps,
        List.Subset.trans (List.subset_append_left b [c]) hsub⟩

variable (src tgt stop) in
/-- The node is an end of an edge of the branch, or the stop without any edge. -/
def On (b : List C) (v : V) : Prop := b = [] ∧ v = stop ∨ ∃ c ∈ b, v = src c ∨ v = tgt c

/-- The nodes of the branches that are kept are those that lead to the start, and that the stop or a
cycle leads to. -/
theorem exists_keeps_node_iff (hwhole : ∀ c, E c → tgt c ∈ whole) {v : V} :
    (∃ b, Keeps src tgt E start stop start [] b ∧ On src tgt stop b v) ↔
      ReflTransGen (Joins src tgt E start stop) v start ∧ Entered src tgt E start stop v := by
  constructor
  · rintro ⟨b, hkeeps, hv⟩
    obtain ⟨hnil, -, hedges⟩ := hkeeps.sound onBranch_nil
    rcases hv with ⟨hb, rfl⟩ | ⟨c, hc, rfl | rfl⟩
    · rw [hnil hb]
      exact ⟨.refl, .inl .refl⟩
    · obtain ⟨hinner, hleads, hentered⟩ := hedges c hc
      exact ⟨.head ⟨c, hinner, rfl, rfl⟩ hleads, hentered⟩
    · obtain ⟨hinner, hleads, hentered⟩ := hedges c hc
      exact ⟨hleads, hentered.trans (.single ⟨c, hinner, rfl, rfl⟩)⟩
  · rintro ⟨hleads, hentered⟩
    obtain ⟨b, hexplored, hfresh⟩ := exists_explored hleads
    obtain ⟨b', hkeeps, hsub⟩ := hentered.exists_keeps hwhole (remaining whole (b.map tgt) + 1)
      (Nat.lt_succ_self _) fun hne heq => hfresh (heq ▸ (hexplored.onBranch.nonempty hne).1)
    have hkept := hexplored.keeps hkeeps
    refine ⟨b', hkept, ?_⟩
    rcases hexplored.mem with rfl | ⟨c, hc, rfl⟩
    · obtain ⟨hnil, hstart, -⟩ := hkept.sound onBranch_nil
      by_cases hb : b' = []
      · exact .inl ⟨hb, hnil hb⟩
      · obtain ⟨c, hc, htgt⟩ := List.mem_map.1 (hstart hb)
        exact .inr ⟨c, hc, .inr htgt.symm⟩
    · exact .inr ⟨c, hsub hc, .inl rfl⟩

/-- The edges of the branches that are kept. -/
theorem exists_keeps_edge_iff (hwhole : ∀ c, E c → tgt c ∈ whole) {c : C} :
    (∃ b, Keeps src tgt E start stop start [] b ∧ c ∈ b) ↔
      Inner src tgt E start stop c ∧ ReflTransGen (Joins src tgt E start stop) (tgt c) start ∧
        Entered src tgt E start stop (src c) := by
  constructor
  · rintro ⟨b, hkeeps, hc⟩
    exact (hkeeps.sound onBranch_nil).2.2 c hc
  · rintro ⟨hinner, hleads, hentered⟩
    obtain ⟨b, hexplored, hfresh⟩ := exists_explored hleads
    have hnext := hexplored.further hinner.2.2 hfresh hinner.1 rfl
    obtain ⟨b', hkeeps, hsub⟩ := hentered.exists_keeps hwhole
      (remaining whole ((b ++ [c]).map tgt) + 1) (Nat.lt_succ_self _) fun _ => hinner.2.1
    exact ⟨b', hnext.keeps hkeeps, hsub (by simp)⟩

end Branches
