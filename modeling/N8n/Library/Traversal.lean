import Mathlib.Data.List.Nodup
import Mathlib.Logic.Relation
import Mathlib.Tactic
import N8n.Library.DepthFirst

/-!
# Depth-first traversals

A traversal enters a node that it has not visited, goes through its children, and finishes the edge
to each of them when it comes back. A search that keeps more on the way does the same with a state
of its own. What holds after each such step, with the nodes that are still open on the way, holds
after the traversal.
-/

namespace Traversal

open Relation DepthFirst

variable {V σ : Type*}

/-- The nodes in the order in which they are entered, and the edges in the order in which they are
finished. -/
structure Order (V : Type*) where
  visited : List V := []
  edges : List (V × V) := []

namespace Order

def enter (v : V) (t : Order V) : Order V := { t with visited := t.visited ++ [v] }

def finish (v c : V) (t : Order V) : Order V := { t with edges := t.edges ++ [(v, c)] }

/-- The place of a node in the order. -/
def num [DecidableEq V] (t : Order V) (v : V) : ℕ := t.visited.idxOf v

end Order

/-- A search that keeps a state, of which the order is part. -/
structure Search (V σ : Type*) where
  order : σ → Order V
  enter : V → σ → σ
  finish : V → V → σ → σ
  leave : V → σ → σ
  order_enter : ∀ v s, order (enter v s) = (order s).enter v
  order_finish : ∀ v c s, order (finish v c s) = (order s).finish v c
  order_leave : ∀ v s, order (leave v s) = order s

/-- The search that keeps the order only. -/
def plain (V : Type*) : Search V (Order V) where
  order := id
  enter := Order.enter
  finish := Order.finish
  leave _ t := t
  order_enter _ _ := rfl
  order_finish _ _ _ := rfl
  order_leave _ _ := rfl

variable (children : V → List V)

/-- A path of edges. -/
abbrev Reach : V → V → Prop := ReflTransGen fun a b => b ∈ children a

/-- Each of the nodes reaches the other. -/
def Same (a b : V) : Prop := Reach children a b ∧ Reach children b a

section Walk

variable [DecidableEq V] (S : Search V σ)

/-- The first argument bounds the depth. -/
def walk : ℕ → V → σ → σ
  | 0, _, s => s
  | fuel + 1, v, s =>
    if v ∈ (S.order s).visited then s
    else S.leave v ((children v).foldl (fun s c => S.finish v c (walk fuel c s)) (S.enter v s))

/-- What the steps of a search preserve. The list has the nodes that are entered and not left, the
last one first. -/
structure Rule (I : List V → σ → Prop) : Prop where
  enter : ∀ gs v s, I gs s → v ∉ (S.order s).visited → (∀ g ∈ gs.head?, v ∈ children g) →
    I (v :: gs) (S.enter v s)
  finish : ∀ gs v c s, I (v :: gs) s → c ∈ children v → c ∈ (S.order s).visited →
    I (v :: gs) (S.finish v c s)
  leave : ∀ gs v s, I (v :: gs) s → (∀ c ∈ children v, (v, c) ∈ (S.order s).edges) →
    I gs (S.leave v s)

end Walk

variable {children}

namespace Same

variable {a b c : V}

theorem refl (a : V) : Same children a a := ⟨.refl, .refl⟩

theorem symm (h : Same children a b) : Same children b a := ⟨h.2, h.1⟩

theorem trans (h : Same children a b) (h' : Same children b c) : Same children a c :=
  ⟨h.1.trans h'.1, h'.2.trans h.2⟩

end Same

section Run

variable {S : Search V σ} {I : List V → σ → Prop}

/-- The order of one state goes on in the other. -/
structure After (S : Search V σ) (s s' : σ) : Prop where
  visited : (S.order s).visited <+: (S.order s').visited
  edges : (S.order s).edges ⊆ (S.order s').edges

theorem After.refl (s : σ) : After S s s := ⟨List.prefix_rfl, List.Subset.refl _⟩

theorem After.trans {s s' s'' : σ} (h : After S s s') (h' : After S s' s'') : After S s s'' :=
  ⟨h.visited.trans h'.visited, List.Subset.trans h.edges h'.edges⟩

theorem after_enter (v : V) (s : σ) : After S s (S.enter v s) := by
  constructor <;> rw [S.order_enter]
  · exact List.prefix_append _ _
  · exact List.Subset.refl _

theorem after_finish (v c : V) (s : σ) : After S s (S.finish v c s) := by
  constructor <;> rw [S.order_finish]
  · exact List.prefix_rfl
  · exact List.subset_append_left _ _

theorem after_leave (v : V) (s : σ) : After S s (S.leave v s) := by
  constructor <;> rw [S.order_leave]
  exact List.Subset.refl _

variable [DecidableEq V] {whole : List V}

/-- However deep it may go, a walk takes nothing back. -/
theorem after_walk : ∀ (fuel : ℕ) (v : V) (s : σ), After S s (walk children S fuel v s)
  | 0, _, s => .refl s
  | fuel + 1, v, s => by
    rw [walk]
    split_ifs
    · exact .refl s
    · refine .trans ?_ (after_leave v _)
      exact List.foldlRecOn (motive := After S s) _ _ (after_enter v s) fun s' hs' c _ =>
        hs'.trans ((after_walk fuel c s').trans (after_finish v c _))

/-- The turns of the loop over the children of a node. -/
theorem foldl_rule (hI : Rule children S I) {fuel : ℕ} {gs : List V} {v : V}
    (hwalk : ∀ c ∈ children v, ∀ s, I (v :: gs) s → remaining whole (S.order s).visited < fuel →
      I (v :: gs) (walk children S fuel c s) ∧ c ∈ (S.order (walk children S fuel c s)).visited ∧
        After S s (walk children S fuel c s)) :
    ∀ (cs : List V) (s : σ), cs ⊆ children v → I (v :: gs) s →
      remaining whole (S.order s).visited < fuel →
      I (v :: gs) (cs.foldl (fun s c => S.finish v c (walk children S fuel c s)) s) ∧
        (∀ c ∈ cs, (v, c) ∈
          (S.order (cs.foldl (fun s c => S.finish v c (walk children S fuel c s)) s)).edges) ∧
        After S s (cs.foldl (fun s c => S.finish v c (walk children S fuel c s)) s)
  | [], s, _, hs, _ => ⟨hs, fun _ hc => absurd hc List.not_mem_nil, .refl s⟩
  | c :: cs, s, hcs, hs, hfuel => by
    obtain ⟨hc, hcs⟩ := List.cons_subset.1 hcs
    obtain ⟨hwalked, hvisited, hafter⟩ := hwalk c hc s hs hfuel
    have hfinished := hafter.trans (after_finish v c _)
    obtain ⟨hrest, hedges, hafter'⟩ := foldl_rule hI hwalk cs
      (S.finish v c (walk children S fuel c s)) hcs (hI.finish gs v c _ hwalked hc hvisited)
      (Nat.lt_of_le_of_lt (remaining_le hfinished.visited.subset) hfuel)
    refine ⟨hrest, fun c' hc' => ?_, hfinished.trans hafter'⟩
    rcases List.mem_cons.1 hc' with rfl | hc'
    · refine hafter'.edges ?_
      rw [S.order_finish]
      exact List.mem_append_right _ (List.mem_singleton.2 rfl)
    · exact hedges c' hc'

/-- What the steps preserve holds after the walk, and the node is visited then. -/
theorem walk_rule (hI : Rule children S I) (hwhole : ∀ v ∈ whole, children v ⊆ whole) :
    ∀ (fuel : ℕ) (gs : List V) (v : V) (s : σ), v ∈ whole → (∀ g ∈ gs.head?, v ∈ children g) →
      I gs s → remaining whole (S.order s).visited < fuel →
      I gs (walk children S fuel v s) ∧ v ∈ (S.order (walk children S fuel v s)).visited ∧
        After S s (walk children S fuel v s)
  | 0, _, _, _, _, _, _, hfuel => absurd hfuel (Nat.not_lt_zero _)
  | fuel + 1, gs, v, s, hv, hlink, hs, hfuel => by
    rw [walk]
    split_ifs with hvisited
    · exact ⟨hs, hvisited, .refl s⟩
    · have hless := remaining_lt hv hvisited
      have hentered : (S.order (S.enter v s)).visited = (S.order s).visited ++ [v] := by
        rw [S.order_enter]
        rfl
      obtain ⟨hrest, hedges, hafter⟩ := @foldl_rule _ _ _ _ _ _ whole hI _ _ _
        (fun c hc s hs hfuel => walk_rule hI hwhole fuel (v :: gs) c s (hwhole v hv hc)
          (by simpa using hc) hs hfuel)
        (children v) (S.enter v s) (List.Subset.refl _) (hI.enter gs v s hs hvisited hlink)
        (by rw [hentered]; omega)
      have hafter' := hafter.trans (after_leave v _)
      refine ⟨hI.leave gs v _ hrest hedges, hafter'.visited.subset ?_, (after_enter v s).trans hafter'⟩
      rw [hentered]
      exact List.mem_append_right _ (List.mem_singleton.2 rfl)

/-- What the steps preserve holds after walks from several roots. -/
theorem walks_rule (hI : Rule children S I) (hwhole : ∀ v ∈ whole, children v ⊆ whole) :
    ∀ (roots : List V) (s : σ), roots ⊆ whole → I [] s →
      I [] (roots.foldl (fun s v => walk children S (whole.length + 1) v s) s) ∧
        roots ⊆ (S.order (roots.foldl (fun s v => walk children S (whole.length + 1) v s)
          s)).visited ∧
        After S s (roots.foldl (fun s v => walk children S (whole.length + 1) v s) s)
  | [], s, _, hs => ⟨hs, List.nil_subset _, .refl s⟩
  | v :: roots, s, hroots, hs => by
    obtain ⟨hv, hroots⟩ := List.cons_subset.1 hroots
    obtain ⟨hwalked, hvisited, hafter⟩ := walk_rule hI hwhole (whole.length + 1) [] v s hv (by simp)
      hs (Nat.lt_succ_of_le (List.length_filter_le _ _))
    obtain ⟨hrest, hall, hafter'⟩ := walks_rule hI hwhole roots _ hroots hwalked
    exact ⟨hrest, List.cons_subset.2 ⟨hafter'.visited.subset hvisited, hall⟩, hafter.trans hafter'⟩

/-- A walk does not leave a set that its children do not leave. -/
theorem walk_subset (hwhole : ∀ v ∈ whole, children v ⊆ whole) : ∀ (fuel : ℕ) (v : V) (s : σ),
    v ∈ whole → (S.order s).visited ⊆ whole → (S.order (walk children S fuel v s)).visited ⊆ whole
  | 0, _, _, _, hs => hs
  | fuel + 1, v, s, hv, hs => by
    rw [walk]
    split_ifs
    · exact hs
    · rw [S.order_leave]
      refine List.foldlRecOn (motive := fun s => (S.order s).visited ⊆ whole) _ _ ?_
        fun s hs c hc => ?_
      · rw [S.order_enter]
        exact List.append_subset.2 ⟨hs, List.cons_subset.2 ⟨hv, List.nil_subset _⟩⟩
      · rw [S.order_finish]
        exact walk_subset hwhole fuel c s (hwhole v hv hc) hs

theorem walks_subset (hwhole : ∀ v ∈ whole, children v ⊆ whole) {roots : List V}
    (hroots : roots ⊆ whole) (fuel : ℕ) {s : σ} (hs : (S.order s).visited ⊆ whole) :
    (S.order (roots.foldl (fun s v => walk children S fuel v s) s)).visited ⊆ whole :=
  List.foldlRecOn (motive := fun s => (S.order s).visited ⊆ whole) _ _ hs
    fun s hs v hv => walk_subset hwhole fuel v s (hroots hv) hs

end Run

/-! ## The order of a search -/

section Orders

variable [DecidableEq V] {S : Search V σ}

/-- The order is that of a plain traversal. -/
theorem order_walk : ∀ (fuel : ℕ) (v : V) (s : σ),
    S.order (walk children S fuel v s) = walk children (plain V) fuel v (S.order s)
  | 0, _, _ => rfl
  | fuel + 1, v, s => by
    rw [walk, walk]
    by_cases hvisited : v ∈ (S.order s).visited
    · rw [if_pos hvisited]
      exact (if_pos hvisited).symm
    · rw [if_neg hvisited]
      refine Eq.trans ?_ (if_neg hvisited).symm
      rw [S.order_leave]
      show S.order _ = List.foldl _ ((S.order s).enter v) _
      rw [← S.order_enter]
      refine (List.foldl_hom S.order fun s c => ?_).symm
      rw [S.order_finish, order_walk fuel c s]
      rfl

theorem order_walks (fuel : ℕ) (roots : List V) (s : σ) :
    S.order (roots.foldl (fun s v => walk children S fuel v s) s) =
      roots.foldl (fun t v => walk children (plain V) fuel v t) (S.order s) :=
  (List.foldl_hom S.order fun s v => (order_walk fuel v s).symm).symm

end Orders

namespace Order

section Num

variable [DecidableEq V] {t : Order V} {u v : V}

theorem num_lt (h : v ∈ t.visited) : t.num v < t.visited.length := List.idxOf_lt_length_iff.2 h

theorem num_inj (h : u ∈ t.visited) (heq : t.num u = t.num v) : u = v :=
  (List.idxOf_inj h).1 heq

theorem num_enter (h : u ∈ t.visited) : (t.enter v).num u = t.num u :=
  List.idxOf_append_of_mem h

theorem num_enter_self (h : v ∉ t.visited) : (t.enter v).num v = t.visited.length := by
  rw [num, enter, List.idxOf_append_of_notMem h, List.idxOf_cons_self, Nat.add_zero]

theorem num_lt_num_enter (h : u ∈ t.visited) (hv : v ∉ t.visited) :
    (t.enter v).num u < (t.enter v).num v := by
  rw [num_enter h, num_enter_self hv]
  exact num_lt h

end Num

variable (children) in
/-- The state of a traversal with these nodes open, the last one first. -/
structure Inv [DecidableEq V] (gs : List V) (t : Order V) : Prop where
  nodup : t.visited.Nodup
  gray : gs ⊆ t.visited
  link : gs.IsChain fun a b => a ∈ children b
  ascending : gs.Pairwise fun a b => t.num b < t.num a
  since : ∀ g ∈ gs, ∀ y ∈ t.visited, t.num g ≤ t.num y → Reach children g y
  edges : ∀ e ∈ t.edges, e.2 ∈ children e.1 ∧ e.1 ∈ t.visited ∧ e.2 ∈ t.visited
  done : ∀ u ∈ t.visited, u ∉ gs → ∀ c ∈ children u, (u, c) ∈ t.edges

theorem inv_empty [DecidableEq V] : Inv children [] ({} : Order V) :=
  ⟨List.nodup_nil, List.nil_subset _, .nil, .nil, by simp, by simp, by simp⟩

namespace Inv

variable [DecidableEq V] {gs : List V} {t : Order V} {u v w c : V}

theorem enter (h : Inv children gs t) (hv : v ∉ t.visited) (hlink : ∀ g ∈ gs.head?, v ∈ children g) :
    Inv children (v :: gs) (t.enter v) := by
  have hnum : ∀ u ∈ t.visited, (t.enter v).num u = t.num u := fun u hu => num_enter hu
  refine ⟨?_, ?_, ?_, ?_, fun g hg y hy hle => ?_, fun e he => ?_, fun u hu hnot => ?_⟩
  · exact List.nodup_append.2 ⟨h.nodup, List.nodup_singleton v, by
      rintro a ha b hb rfl
      exact hv (List.mem_singleton.1 hb ▸ ha)⟩
  · exact List.cons_subset.2 ⟨by simp [Order.enter],
      List.Subset.trans h.gray (List.subset_append_left _ _)⟩
  · exact List.isChain_cons.2 ⟨hlink, h.link⟩
  · refine List.pairwise_cons.2 ⟨fun g hg => num_lt_num_enter (h.gray hg) hv, ?_⟩
    refine h.ascending.imp_of_mem fun ha hb hlt => ?_
    rwa [hnum _ (h.gray ha), hnum _ (h.gray hb)]
  · rcases List.mem_append.1 hy with hold | hnew
    · rcases List.mem_cons.1 hg with rfl | hg
      · exact absurd hle (not_le.2 (num_lt_num_enter hold hv))
      · rw [hnum g (h.gray hg), hnum y hold] at hle
        exact h.since g hg y hold hle
    · obtain rfl := List.mem_singleton.1 hnew
      rcases List.mem_cons.1 hg with rfl | hg
      · exact .refl
      · -- the topmost node that is open reaches the new one, and is reached from the others
        cases gs with
        | nil => cases hg
        | cons top gs =>
          have htop := h.gray (List.mem_cons_self (a := top))
          have hle : t.num g ≤ t.num top := by
            rcases List.mem_cons.1 hg with rfl | hg
            · exact le_rfl
            · exact (List.rel_of_pairwise_cons h.ascending hg).le
          exact (h.since g hg top htop hle).tail (hlink top rfl)
  · obtain ⟨hchild, hfrom, hto⟩ := h.edges e he
    exact ⟨hchild, List.mem_append_left _ hfrom, List.mem_append_left _ hto⟩
  · rw [List.mem_cons, not_or] at hnot
    rcases List.mem_append.1 hu with hu | hu
    · exact h.done u hu hnot.2
    · exact absurd (List.mem_singleton.1 hu) hnot.1

theorem finish (h : Inv children (v :: gs) t) (hc : c ∈ children v) (hvisited : c ∈ t.visited) :
    Inv children (v :: gs) (t.finish v c) := by
  refine ⟨h.nodup, h.gray, h.link, h.ascending, h.since, fun e he => ?_, fun u hu hnot c' hc' =>
    List.mem_append_left _ (h.done u hu hnot c' hc')⟩
  rcases List.mem_append.1 he with he | he
  · exact h.edges e he
  · obtain rfl := List.mem_singleton.1 he
    exact ⟨hc, h.gray List.mem_cons_self, hvisited⟩

theorem leave (h : Inv children (v :: gs) t) (hdone : ∀ c ∈ children v, (v, c) ∈ t.edges) :
    Inv children gs t := by
  refine ⟨h.nodup, fun g hg => h.gray (List.mem_cons_of_mem v hg), h.link.tail,
    h.ascending.tail, fun g hg => h.since g (List.mem_cons_of_mem v hg), h.edges,
    fun u hu hnot => ?_⟩
  by_cases huv : u = v
  · exact huv ▸ hdone
  · exact h.done u hu (by simp [huv, hnot])

theorem rule (S : Search V σ) : Rule children S fun gs s => Inv children gs (S.order s) where
  enter gs v s h hv hlink := by
    rw [S.order_enter]
    exact h.enter hv hlink
  finish gs v c s h hc hvisited := by
    rw [S.order_finish]
    exact h.finish hc hvisited
  leave gs v s h hdone := by
    rw [S.order_leave]
    exact h.leave hdone

/-- What is not left has not yet gone through its children, so a path out of what is visited goes
through one of these. -/
theorem exists_gray (h : Inv children gs t) (hreach : Reach children u w) (hu : u ∈ t.visited)
    (hw : w ∉ t.visited) : ∃ x ∈ gs, Reach children u x ∧ Reach children x w := by
  induction hreach using ReflTransGen.head_induction_on with
  | refl => exact absurd hu hw
  | @head a b hab hbw ih =>
    by_cases ha : a ∈ gs
    · exact ⟨a, ha, .refl, .head hab hbw⟩
    · obtain ⟨x, hx, hbx, hxw⟩ := ih (h.edges _ (h.done a hu ha b hab)).2.2
      exact ⟨x, hx, .head hab hbx, hxw⟩

/-- The nodes that are open reach the last one. -/
theorem reach_top (h : Inv children (v :: gs) t) {g : V} (hg : g ∈ v :: gs) : Reach children g v := by
  refine h.since g hg v (h.gray List.mem_cons_self) ?_
  rcases List.mem_cons.1 hg with rfl | hg
  · exact le_rfl
  · exact (List.rel_of_pairwise_cons h.ascending hg).le

end Inv

end Order

end Traversal
