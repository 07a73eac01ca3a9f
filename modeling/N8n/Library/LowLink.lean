import Mathlib.Data.List.TakeWhile
import N8n.Library.Branches
import N8n.Library.Traversal

/-!
# Low links

A search that keeps the nodes it has entered on a stack, and for each of them the least number that
it has seen from there, its low link. When it leaves a node whose low link is its own number, it
takes what is on top of the stack and has that low link for a component.

What is taken is always part of a component. Yet a low link can be seen too early: a node has that
of the first node of its component only by a path back to it, each edge of which is finished before
the one before it on the path. A node on the stack without such a path keeps the component from
being taken, and then it is never taken.
-/

namespace LowLink

open Relation DepthFirst Traversal

variable {V : Type*}

/-! ## The search -/

structure State (V : Type*) where
  order : Order V := {}
  low : V → ℕ := fun _ => 0
  stack : List V := []
  components : List (List V) := []

variable [DecidableEq V] (children : V → List V)

namespace State

def enter (v : V) (s : State V) : State V :=
  { s with
    order := s.order.enter v
    low := Function.update s.low v s.order.visited.length
    stack := v :: s.stack }

def finish (v c : V) (s : State V) : State V :=
  { s with
    order := s.order.finish v c
    low := if c ∈ s.stack then Function.update s.low v (min (s.low c) (s.low v)) else s.low }

/-- What is on top of the stack with the number of a node for its low link. -/
def popped (v : V) (s : State V) : List V := s.stack.takeWhile (s.low · = s.order.num v)

def leave (v : V) (s : State V) : State V :=
  if s.order.num v = s.low v then
    { s with
      stack := s.stack.dropWhile (s.low · = s.order.num v)
      components := if s.popped v = [] then s.components else s.components ++ [s.popped v] }
  else s

theorem low_enter_self (v : V) (s : State V) : (s.enter v).low v = s.order.visited.length :=
  Function.update_self ..

theorem low_enter_of_ne {u v : V} (h : u ≠ v) (s : State V) : (s.enter v).low u = s.low u :=
  Function.update_of_ne h ..

theorem low_finish_of_ne {u v : V} (h : u ≠ v) (c : V) (s : State V) :
    (s.finish v c).low u = s.low u := by
  unfold finish
  split_ifs
  · exact Function.update_of_ne h ..
  · rfl

theorem low_finish_of_mem {c : V} {s : State V} (h : c ∈ s.stack) (v : V) :
    (s.finish v c).low v = min (s.low c) (s.low v) := by
  unfold finish
  rw [if_pos h]
  exact Function.update_self ..

theorem low_finish_of_not_mem {c : V} {s : State V} (h : c ∉ s.stack) (v u : V) :
    (s.finish v c).low u = s.low u := by
  unfold finish
  rw [if_neg h]

theorem low_finish_le (v c : V) (s : State V) (u : V) : (s.finish v c).low u ≤ s.low u := by
  by_cases huv : u = v
  · by_cases hc : c ∈ s.stack
    · rw [huv, low_finish_of_mem hc]
      exact min_le_right _ _
    · rw [low_finish_of_not_mem hc]
  · rw [low_finish_of_ne huv]

theorem order_leave (v : V) (s : State V) : (s.leave v).order = s.order := by
  unfold leave
  split_ifs <;> rfl

theorem low_leave (v : V) (s : State V) : (s.leave v).low = s.low := by
  unfold leave
  split_ifs <;> rfl

end State

/-- The search for components. -/
def search : Search V (State V) where
  order := State.order
  enter := State.enter
  finish := State.finish
  leave := State.leave
  order_enter _ _ := rfl
  order_finish _ _ _ := rfl
  order_leave := State.order_leave

/-! ## Paths back -/

/-- A path back, each edge of which is finished before the one before it. -/
def Backs (edges : List (V × V)) (u r : V) : Prop :=
  ∃ path, Branches.IsPath Prod.fst Prod.snd u path r ∧ path.reverse.Sublist edges

/-- The node is entered before all others of its component. -/
def IsFirst (t : Order V) (r : V) : Prop :=
  r ∈ t.visited ∧ ∀ w ∈ t.visited, Same children r w → t.num r ≤ t.num w

/-- A node of its component is entered and not left. -/
def Open (gs : List V) (u : V) : Prop := ∃ x ∈ gs, Same children x u

omit [DecidableEq V] in
theorem backs_self (edges : List (V × V)) (r : V) : Backs edges r r :=
  ⟨[], rfl, List.nil_sublist _⟩

omit [DecidableEq V] in
/-- The last edge is the first of a path back, or it is on none. -/
theorem backs_append_iff {edges : List (V × V)} {a c u r : V} :
    Backs (edges ++ [(a, c)]) u r ↔ Backs edges u r ∨ u = a ∧ Backs edges c r := by
  constructor
  · rintro ⟨path, hpath, hsub⟩
    obtain ⟨l, l', heq, hl, hl'⟩ := List.sublist_append_iff.1 hsub
    rcases List.sublist_singleton.1 hl' with rfl | rfl
    · rw [List.append_nil] at heq
      exact .inl ⟨path, hpath, heq ▸ hl⟩
    · have hcons : path = (a, c) :: l.reverse := by
        rw [← List.reverse_reverse path, heq]
        simp
      rw [hcons] at hpath
      exact .inr ⟨hpath.1.symm, l.reverse, hpath.2, by rwa [List.reverse_reverse]⟩
  · rintro (⟨path, hpath, hsub⟩ | ⟨rfl, path, hpath, hsub⟩)
    · exact ⟨path, hpath, hsub.trans (List.sublist_append_left _ _)⟩
    · refine ⟨(u, c) :: path, ⟨rfl, hpath⟩, ?_⟩
      rw [List.reverse_cons]
      exact hsub.append (List.Sublist.refl _)

omit [DecidableEq V] in
theorem Backs.reach {edges : List (V × V)} {children : V → List V}
    (hedges : ∀ e ∈ edges, e.2 ∈ children e.1) {u r : V} (h : Backs edges u r) :
    Reach children u r := by
  obtain ⟨path, hpath, hsub⟩ := h
  have hmem : ∀ e ∈ path, e ∈ edges := fun e he => hsub.subset (List.mem_reverse.2 he)
  clear hsub
  induction path generalizing u with
  | nil => exact hpath ▸ .refl
  | cons e path ih =>
    obtain ⟨rfl, hpath⟩ := hpath
    exact .head (hedges e (hmem e List.mem_cons_self))
      (ih hpath fun e' he' => hmem e' (List.mem_cons_of_mem e he'))

omit [DecidableEq V] in
/-- A path back to another node starts with an edge. -/
theorem Backs.mem_of_ne {edges : List (V × V)} {u r : V} (h : Backs edges u r) (hne : u ≠ r) :
    ∃ e ∈ edges, e.1 = u := by
  obtain ⟨path, hpath, hsub⟩ := h
  cases path with
  | nil => exact absurd hpath hne
  | cons e path => exact ⟨e, hsub.subset (by simp), hpath.1⟩

/-! ## What holds of every search -/

/-- A low link is the number of a node that is reached, and components are parted. -/
structure Sane (s : State V) : Prop where
  low_le : ∀ u ∈ s.order.visited, s.low u ≤ s.order.num u
  low_num : ∀ u ∈ s.order.visited, ∃ x ∈ s.order.visited, s.low u = s.order.num x ∧
    Reach children u x
  stack : s.stack ⊆ s.order.visited
  nodup : s.stack.Nodup
  components : ∀ component ∈ s.components, component ≠ [] ∧ component ⊆ s.order.visited ∧
    (∀ u ∈ component, u ∉ s.stack) ∧ ∀ u ∈ component, ∀ w ∈ component, Same children u w
  disjoint : s.components.Pairwise fun a b => ∀ u ∈ a, u ∉ b

variable {children} {gs : List V} {s : State V} {v : V}

theorem sane_empty : Sane children ({} : State V) :=
  ⟨by simp, by simp, List.nil_subset _, List.nodup_nil, by simp, .nil⟩

theorem Sane.enter (h : Sane children s) (hv : v ∉ s.order.visited) :
    Sane children (s.enter v) := by
  have hlow : ∀ u ∈ s.order.visited, (s.enter v).low u = s.low u := fun u hu =>
    State.low_enter_of_ne (ne_of_mem_of_not_mem hu hv) s
  have hself : (s.enter v).low v = (s.enter v).order.num v :=
    (State.low_enter_self v s).trans (Order.num_enter_self hv).symm
  have hmem : ∀ {u}, u ∈ s.order.visited → u ∈ (s.enter v).order.visited := fun hu =>
    List.mem_append_left _ hu
  have hvisited : v ∈ (s.enter v).order.visited := by simp [State.enter, Order.enter]
  have hnum : ∀ u ∈ s.order.visited, (s.enter v).order.num u = s.order.num u := fun u hu =>
    Order.num_enter hu
  refine ⟨fun u hu => ?_, fun u hu => ?_, ?_, ?_, fun component hcomponent => ?_, h.disjoint⟩
  · rcases List.mem_append.1 hu with hold | hnew
    · rw [hlow u hold, hnum u hold]
      exact h.low_le u hold
    · rw [List.mem_singleton.1 hnew, hself]
  · rcases List.mem_append.1 hu with hold | hnew
    · obtain ⟨x, hx, heq, hreach⟩ := h.low_num u hold
      exact ⟨x, hmem hx, by rw [hlow u hold, hnum x hx, heq], hreach⟩
    · obtain rfl := List.mem_singleton.1 hnew
      exact ⟨u, hvisited, hself, .refl⟩
  · exact List.cons_subset.2 ⟨hvisited, fun u hu => hmem (h.stack hu)⟩
  · exact List.nodup_cons.2 ⟨fun hmem => hv (h.stack hmem), h.nodup⟩
  · obtain ⟨hne, hsub, hnot, hsame⟩ := h.components component hcomponent
    refine ⟨hne, fun u hu => hmem (hsub hu), fun u hu => ?_, hsame⟩
    exact List.not_mem_cons_of_ne_of_not_mem (ne_of_mem_of_not_mem (hsub hu) hv) (hnot u hu)

theorem Sane.finish (h : Sane children s) (ht : s.order.Inv children (v :: gs)) {c : V}
    (hc : c ∈ children v) (hvisited : c ∈ s.order.visited) : Sane children (s.finish v c) := by
  refine ⟨fun u hu => (State.low_finish_le v c s u).trans (h.low_le u hu), fun u hu => ?_, h.stack,
    h.nodup, h.components, h.disjoint⟩
  by_cases huv : u = v
  · subst huv
    by_cases hmem : c ∈ s.stack
    · rw [State.low_finish_of_mem hmem]
      rcases min_choice (s.low c) (s.low u) with heq | heq
      · obtain ⟨x, hx, hlow, hreach⟩ := h.low_num c hvisited
        exact ⟨x, hx, heq.trans hlow, .head hc hreach⟩
      · obtain ⟨x, hx, hlow, hreach⟩ := h.low_num u hu
        exact ⟨x, hx, heq.trans hlow, hreach⟩
    · rw [State.low_finish_of_not_mem hmem]
      exact h.low_num u hu
  · rw [State.low_finish_of_ne huv]
    exact h.low_num u hu

/-- What is taken from the stack lies in the component of the node that is left. -/
theorem same_of_mem_popped (h : Sane children s) (ht : s.order.Inv children (v :: gs)) {u : V}
    (hu : u ∈ s.popped v) : u ∈ s.stack ∧ s.low u = s.order.num v ∧ Same children u v := by
  have hstack : u ∈ s.stack := (List.takeWhile_sublist _).subset hu
  have hlow : s.low u = s.order.num v := by simpa using List.mem_takeWhile_imp hu
  obtain ⟨x, hx, hnum, hreach⟩ := h.low_num u (h.stack hstack)
  obtain rfl := Order.num_inj hx (hnum.symm.trans hlow)
  refine ⟨hstack, hlow, hreach, ht.since x List.mem_cons_self u (h.stack hstack) ?_⟩
  exact hlow ▸ h.low_le u (h.stack hstack)

theorem Sane.leave (h : Sane children s) (ht : s.order.Inv children (v :: gs)) :
    Sane children (s.leave v) := by
  unfold State.leave
  split_ifs with hroot hnone
  · have hsub := (List.dropWhile_sublist (s.low · = s.order.num v) (l := s.stack))
    exact ⟨h.low_le, h.low_num, List.Subset.trans hsub.subset h.stack, h.nodup.sublist hsub,
      fun component hcomponent => by
        obtain ⟨hne, hvisited, hnot, hsame⟩ := h.components component hcomponent
        exact ⟨hne, hvisited, fun u hu hmem => hnot u hu (hsub.subset hmem), hsame⟩, h.disjoint⟩
  · have hsub := (List.dropWhile_sublist (s.low · = s.order.num v) (l := s.stack))
    have hparted : ∀ u ∈ s.popped v, u ∉ s.stack.dropWhile (s.low · = s.order.num v) := by
      have hnodup := h.nodup
      rw [← List.takeWhile_append_dropWhile (p := (s.low · = s.order.num v)) (l := s.stack)] at hnodup
      exact fun u hu hmem => (List.nodup_append.1 hnodup).2.2 u hu u hmem rfl
    refine ⟨h.low_le, h.low_num, List.Subset.trans hsub.subset h.stack, h.nodup.sublist hsub,
      fun component hcomponent => ?_, ?_⟩
    · rcases List.mem_append.1 hcomponent with hold | hnew
      · obtain ⟨hne, hvisited, hnot, hsame⟩ := h.components component hold
        exact ⟨hne, hvisited, fun u hu hmem => hnot u hu (hsub.subset hmem), hsame⟩
      · obtain rfl := List.mem_singleton.1 hnew
        refine ⟨hnone, fun u hu => h.stack (same_of_mem_popped h ht hu).1, hparted,
          fun u hu w hw => ?_⟩
        exact (same_of_mem_popped h ht hu).2.2.trans (same_of_mem_popped h ht hw).2.2.symm
    · refine List.pairwise_append.2 ⟨h.disjoint, List.pairwise_singleton _ _, ?_⟩
      intro a ha b hb u hu hmem
      obtain rfl := List.mem_singleton.1 hb
      exact (h.components a ha).2.2.1 u hu (same_of_mem_popped h ht hmem).1
  · exact h

/-! ## Components that are taken -/

variable (children) in
open scoped Classical in
/-- All components so far are taken as a whole: what is on the stack is what is not left, and it
has the low links that its paths back let it have. -/
structure Good (gs : List V) (s : State V) : Prop where
  stack : s.stack = s.order.visited.reverse.filter fun u => decide (Open children gs u)
  first : ∀ u ∈ s.order.visited, Open children gs u → ∃ r ∈ gs, Same children r u ∧
    IsFirst children s.order r
  low_same : ∀ u ∈ s.order.visited, Open children gs u → ∃ x ∈ s.order.visited,
    Same children x u ∧ s.low u = s.order.num x
  low_iff : ∀ u ∈ s.order.visited, Open children gs u → ∀ r, Same children r u →
    IsFirst children s.order r → (s.low u = s.order.num r ↔ Backs s.order.edges u r)
  low_edge : ∀ e ∈ s.order.edges, Open children gs e.1 → Same children e.1 e.2 →
    s.low e.1 ≤ s.order.num e.2
  up : ∀ e ∈ s.order.edges, s.order.num e.1 < s.order.num e.2 →
    e.2 ∉ gs ∧ (Open children gs e.2 → s.low e.1 ≤ s.low e.2)
  tree : ∀ g ∈ gs, ∀ y ∈ s.order.visited, s.order.num g ≤ s.order.num y →
    (∀ g' ∈ gs, s.order.num g' ≤ s.order.num y → s.order.num g' ≤ s.order.num g) →
    Open children gs y → s.low g ≤ s.low y ∨ ∃ c ∈ children g, s.order.num g < s.order.num c ∧
      c ∈ s.order.visited ∧ Open children gs c ∧ s.low c ≤ s.low y
  closed : ∀ u ∈ s.order.visited, ¬ Open children gs u →
    (∃ component ∈ s.components, u ∈ component) ∧
      ∀ r, Same children r u → IsFirst children s.order r → Backs s.order.edges u r
  components : ∀ component ∈ s.components, ∀ u ∈ component, ¬ Open children gs u ∧
    ∀ w, Same children u w → w ∈ component

section Lemmas

variable {u w r c : V}

omit [DecidableEq V] in
theorem Open.same (h : Open children gs u) (hsame : Same children u w) : Open children gs w := by
  obtain ⟨x, hx, hxu⟩ := h
  exact ⟨x, hx, hxu.trans hsame⟩

omit [DecidableEq V] in
theorem open_of_mem (h : u ∈ gs) : Open children gs u := ⟨u, h, .refl u⟩

omit [DecidableEq V] in
theorem open_cons_iff : Open children (v :: gs) u ↔ Same children v u ∨ Open children gs u := by
  simp [Open]

/-- What is visited and reaches in its component what is not, is open. -/
theorem open_of_not_visited (ht : s.order.Inv children gs) (hu : u ∈ s.order.visited)
    (hw : w ∉ s.order.visited) (hsame : Same children u w) : Open children gs u := by
  obtain ⟨x, hx, hux, hxw⟩ := ht.exists_gray hsame.1 hu hw
  exact ⟨x, hx, hxw.trans hsame.2, hux⟩

/-- A new node opens no component of which a node is visited. -/
theorem open_enter_iff (ht : s.order.Inv children gs) (hv : v ∉ s.order.visited)
    (hu : u ∈ s.order.visited) : Open children (v :: gs) u ↔ Open children gs u := by
  rw [open_cons_iff]
  exact or_iff_right_of_imp fun hsame => open_of_not_visited ht hu hv hsame.symm

/-- The last node that is entered is of the component of an open child. -/
theorem same_of_open (ht : s.order.Inv children (v :: gs)) (hc : c ∈ children v)
    (hopen : Open children (v :: gs) c) : Same children c v := by
  obtain ⟨x, hx, hxc⟩ := hopen
  exact ⟨hxc.2.trans (ht.reach_top hx), .single hc⟩

omit [DecidableEq V] in
theorem good_empty [DecidableEq V] : Good children [] ({} : State V) := by
  constructor <;> simp

end Lemmas

section Enter

variable {r : V}

theorem mem_enter {u : V} : u ∈ (s.enter v).order.visited ↔ u ∈ s.order.visited ∨ u = v := by
  simp [State.enter, Order.enter]

theorem isFirst_enter_iff (hr : r ∈ s.order.visited) (hv : v ∉ s.order.visited) :
    IsFirst children (s.enter v).order r ↔ IsFirst children s.order r := by
  have hnum : ∀ u ∈ s.order.visited, (s.enter v).order.num u = s.order.num u := fun u hu =>
    Order.num_enter hu
  constructor
  · refine fun h => ⟨hr, fun w hw hsame => ?_⟩
    rw [← hnum r hr, ← hnum w hw]
    exact h.2 w (mem_enter.2 (.inl hw)) hsame
  · refine fun h => ⟨mem_enter.2 (.inl hr), fun w hw hsame => ?_⟩
    rcases mem_enter.1 hw with hold | rfl
    · rw [hnum r hr, hnum w hold]
      exact h.2 w hold hsame
    · exact (Order.num_lt_num_enter hr hv).le

/-- A new node is the first of its component only if no node of that is visited. -/
theorem not_same_of_isFirst (hv : v ∉ s.order.visited)
    (h : IsFirst children (s.enter v).order v) : ∀ w ∈ s.order.visited, ¬ Same children v w :=
  fun w hw hsame => absurd (h.2 w (mem_enter.2 (.inl hw)) hsame)
    (not_le.2 (Order.num_lt_num_enter hw hv))

theorem Good.enter (h : Good children gs s) (hs : Sane children s) (ht : s.order.Inv children gs)
    (hv : v ∉ s.order.visited) : Good children (v :: gs) (s.enter v) := by
  have hnum : ∀ u ∈ s.order.visited, (s.enter v).order.num u = s.order.num u := fun u hu =>
    Order.num_enter hu
  have hnumv : ∀ u ∈ s.order.visited, (s.enter v).order.num u < (s.enter v).order.num v :=
    fun u hu => Order.num_lt_num_enter hu hv
  have hlow : ∀ u ∈ s.order.visited, (s.enter v).low u = s.low u := fun u hu =>
    State.low_enter_of_ne (ne_of_mem_of_not_mem hu hv) s
  have hself : (s.enter v).low v = (s.enter v).order.num v :=
    (State.low_enter_self v s).trans (Order.num_enter_self hv).symm
  have hopen : ∀ u ∈ s.order.visited, Open children (v :: gs) u ↔ Open children gs u := fun u hu =>
    open_enter_iff ht hv hu
  have hopenv : Open children (v :: gs) v := open_of_mem List.mem_cons_self
  refine ⟨?_, fun u hu huopen => ?_, fun u hu huopen => ?_, fun u hu huopen r hr hfirst => ?_,
    fun e he heopen hsame => ?_, fun e he hlt => ?_, fun g hg y hy hle hzone hyopen => ?_,
    fun u hu huopen => ?_, fun component hcomponent u hu => ?_⟩
  · show v :: s.stack = (s.order.visited ++ [v]).reverse.filter _
    rw [List.reverse_append, List.reverse_singleton, List.singleton_append,
      List.filter_cons_of_pos (by simpa using hopenv), h.stack]
    refine congrArg _ (List.filter_congr fun u hu => ?_)
    exact decide_eq_decide.2 (hopen u (List.mem_reverse.1 hu)).symm
  · rcases mem_enter.1 hu with hold | rfl
    · obtain ⟨r, hr, hsame, hfirst⟩ := h.first u hold ((hopen u hold).1 huopen)
      exact ⟨r, List.mem_cons_of_mem v hr, hsame, (isFirst_enter_iff hfirst.1 hv).2 hfirst⟩
    · by_cases hold : Open children gs u
      · obtain ⟨x, hx, hxu⟩ := hold
        obtain ⟨r, hr, hsame, hfirst⟩ := h.first x (ht.gray hx) (open_of_mem hx)
        exact ⟨r, List.mem_cons_of_mem u hr, hsame.trans hxu, (isFirst_enter_iff hfirst.1 hv).2 hfirst⟩
      · refine ⟨u, List.mem_cons_self, .refl u, hu, fun w hw hsame => ?_⟩
        rcases mem_enter.1 hw with hwold | rfl
        · exact absurd ((open_of_not_visited ht hwold hv hsame.symm).same hsame.symm) hold
        · exact le_rfl
  · rcases mem_enter.1 hu with hold | rfl
    · obtain ⟨x, hx, hsame, heq⟩ := h.low_same u hold ((hopen u hold).1 huopen)
      exact ⟨x, mem_enter.2 (.inl hx), hsame, by rw [hlow u hold, hnum x hx, heq]⟩
    · exact ⟨u, hu, .refl u, hself⟩
  · rcases mem_enter.1 hfirst.1 with hrold | rfl
    · have hfirst' := (isFirst_enter_iff hrold hv).1 hfirst
      rcases mem_enter.1 hu with hold | rfl
      · rw [hlow u hold, hnum r hrold]
        exact h.low_iff u hold ((hopen u hold).1 huopen) r hr hfirst'
      · rw [hself]
        refine ⟨fun heq => absurd heq (hnumv r hrold).ne', fun hback => ?_⟩
        obtain ⟨e, he, heq⟩ := hback.mem_of_ne (ne_of_mem_of_not_mem hrold hv).symm
        exact absurd (heq ▸ (ht.edges e he).2.1) hv
    · rcases mem_enter.1 hu with hold | rfl
      · exact absurd hr (not_same_of_isFirst hv hfirst u hold)
      · exact ⟨fun _ => backs_self _ u, fun _ => hself⟩
  · obtain ⟨-, hfrom, hto⟩ := ht.edges e he
    rw [hlow _ hfrom, hnum _ hto]
    exact h.low_edge e he ((hopen _ hfrom).1 heopen) hsame
  · obtain ⟨-, hfrom, hto⟩ := ht.edges e he
    rw [hnum _ hfrom, hnum _ hto] at hlt
    obtain ⟨hnot, hup⟩ := h.up e he hlt
    refine ⟨List.not_mem_cons_of_ne_of_not_mem (ne_of_mem_of_not_mem hto hv) hnot, fun heopen => ?_⟩
    rw [hlow _ hfrom, hlow _ hto]
    exact hup ((hopen _ hto).1 heopen)
  · rcases mem_enter.1 hy with hyold | rfl
    · rcases List.mem_cons.1 hg with rfl | hg
      · exact absurd hle (not_le.2 (hnumv y hyold))
      · have hgold := ht.gray hg
        rw [hnum g hgold, hnum y hyold] at hle
        have hzone' : ∀ g' ∈ gs, s.order.num g' ≤ s.order.num y → s.order.num g' ≤ s.order.num g := by
          intro g' hg'
          rw [← hnum g' (ht.gray hg'), ← hnum y hyold, ← hnum g hgold]
          exact hzone g' (List.mem_cons_of_mem v hg')
        rcases h.tree g hg y hyold hle hzone' ((hopen y hyold).1 hyopen) with
          hlow' | ⟨c, hc, hlt, hcold, hcopen, hlow'⟩
        · rw [hlow g hgold, hlow y hyold]
          exact .inl hlow'
        · refine .inr ⟨c, hc, ?_, mem_enter.2 (.inl hcold), (hopen c hcold).2 hcopen, ?_⟩
          · rwa [hnum g hgold, hnum c hcold]
          · rwa [hlow c hcold, hlow y hyold]
    · have hgv : g = y := by
        refine Order.num_inj (t := (s.enter y).order) ?_ (le_antisymm hle
          (hzone y List.mem_cons_self le_rfl))
        rcases List.mem_cons.1 hg with rfl | hg
        · exact hy
        · exact mem_enter.2 (.inl (ht.gray hg))
      exact .inl (hgv ▸ le_rfl)
  · rcases mem_enter.1 hu with hold | rfl
    · obtain ⟨hcovered, hbacks⟩ := h.closed u hold fun hopen' => huopen ((hopen u hold).2 hopen')
      refine ⟨hcovered, fun r hr hfirst => ?_⟩
      rcases mem_enter.1 hfirst.1 with hrold | rfl
      · exact hbacks r hr ((isFirst_enter_iff hrold hv).1 hfirst)
      · exact absurd hr (not_same_of_isFirst hv hfirst u hold)
    · exact absurd hopenv huopen
  · obtain ⟨hclosed, hall⟩ := h.components component hcomponent u hu
    have hold := (hs.components component hcomponent).2.1 hu
    exact ⟨fun hopen' => hclosed ((hopen u hold).1 hopen'), hall⟩

end Enter

section Finish

theorem Good.mem_stack (h : Good children gs s) {u : V} :
    u ∈ s.stack ↔ u ∈ s.order.visited ∧ Open children gs u := by
  classical
  rw [h.stack, List.mem_filter, List.mem_reverse, decide_eq_true_eq]

/-- A low link is at least the number of the first node. -/
theorem Good.num_le_low (h : Good children gs s) {u r : V} (hu : u ∈ s.order.visited)
    (hopen : Open children gs u) (hsame : Same children r u) (hfirst : IsFirst children s.order r) :
    s.order.num r ≤ s.low u := by
  obtain ⟨x, hx, hxu, heq⟩ := h.low_same u hu hopen
  rw [heq]
  exact hfirst.2 x hx (hsame.trans hxu.symm)

theorem Good.finish (h : Good children (v :: gs) s) (hs : Sane children s)
    (ht : s.order.Inv children (v :: gs)) {c : V}
    (hc : c ∈ children v) (hvisited : c ∈ s.order.visited) :
    Good children (v :: gs) (s.finish v c) := by
  have hv : v ∈ s.order.visited := ht.gray List.mem_cons_self
  have hopenv : Open children (v :: gs) v := open_of_mem List.mem_cons_self
  have hsamev : c ∈ s.stack → Same children c v := fun hmem =>
    same_of_open ht hc (h.mem_stack.1 hmem).2
  have hmem : Same children c v → c ∈ s.stack := fun hsame =>
    h.mem_stack.2 ⟨hvisited, hopenv.same hsame.symm⟩
  refine ⟨h.stack, h.first, fun u hu hopen => ?_, fun u hu hopen r hr hfirst => ?_,
    fun e he hopen hsame => ?_, fun e he hlt => ?_, fun g hg y hy hle hzone hopen => ?_,
    fun u hu hopen => ?_, h.components⟩
  · by_cases huv : u = v
    · subst huv
      by_cases hstack : c ∈ s.stack
      · rw [State.low_finish_of_mem hstack]
        rcases min_choice (s.low c) (s.low u) with heq | heq
        · obtain ⟨x, hx, hxc, hlow⟩ := h.low_same c hvisited (h.mem_stack.1 hstack).2
          exact ⟨x, hx, hxc.trans (hsamev hstack), heq.trans hlow⟩
        · obtain ⟨x, hx, hxu, hlow⟩ := h.low_same u hu hopen
          exact ⟨x, hx, hxu, heq.trans hlow⟩
      · rw [State.low_finish_of_not_mem hstack]
        exact h.low_same u hu hopen
    · rw [State.low_finish_of_ne huv]
      exact h.low_same u hu hopen
  · show (s.finish v c).low u = s.order.num r ↔ Backs (s.order.edges ++ [(v, c)]) u r
    rw [backs_append_iff]
    have hiff := h.low_iff u hu hopen r hr hfirst
    by_cases huv : u = v
    · subst huv
      by_cases hstack : c ∈ s.stack
      · -- the least of two links is that of the first node if one of them is
        have hrc : Same children r c := hr.trans (hsamev hstack).symm
        have hiffc := h.low_iff c hvisited (h.mem_stack.1 hstack).2 r hrc hfirst
        have hlec := h.num_le_low hvisited (h.mem_stack.1 hstack).2 hrc hfirst
        have hleu := h.num_le_low hu hopen hr hfirst
        rw [State.low_finish_of_mem hstack, ← hiff, ← hiffc]
        simp only [true_and]
        omega
      · rw [State.low_finish_of_not_mem hstack, hiff]
        refine (or_iff_left ?_).symm
        rintro ⟨-, hback⟩
        have hcr := hback.reach fun e he => (ht.edges e he).1
        exact hstack (hmem ⟨hcr.trans hr.1, .single hc⟩)
    · rw [State.low_finish_of_ne huv, hiff]
      exact (or_iff_left fun hback => huv hback.1).symm
  · rcases List.mem_append.1 he with hold | hnew
    · exact (State.low_finish_le v c s _).trans (h.low_edge e hold hopen hsame)
    · obtain rfl := List.mem_singleton.1 hnew
      have hstack := hmem hsame.symm
      rw [State.low_finish_of_mem hstack]
      exact (min_le_left _ _).trans (hs.low_le c hvisited)
  · rcases List.mem_append.1 he with hold | hnew
    · obtain ⟨hnot, hup⟩ := h.up e hold hlt
      refine ⟨hnot, fun hopen => ?_⟩
      have hne : e.2 ≠ v := fun heq => hnot (by rw [heq]; exact List.mem_cons_self)
      rw [State.low_finish_of_ne hne]
      exact (State.low_finish_le v c s _).trans (hup hopen)
    · obtain rfl := List.mem_singleton.1 hnew
      have hlt : s.order.num v < s.order.num c := hlt
      refine ⟨fun hgray => ?_, fun hopen => ?_⟩
      · have hgray : c ∈ v :: gs := hgray
        rcases List.mem_cons.1 hgray with rfl | hgray
        · exact lt_irrefl _ hlt
        · exact absurd (List.rel_of_pairwise_cons ht.ascending hgray) (not_lt.2 hlt.le)
      · have hne : c ≠ v := fun heq => absurd hlt (by rw [heq]; exact lt_irrefl _)
        rw [State.low_finish_of_ne hne, State.low_finish_of_mem (h.mem_stack.2 ⟨hvisited, hopen⟩)]
        exact min_le_left _ _
  · by_cases hyv : y = v
    · have hgv : g = v := Order.num_inj (ht.gray hg) (le_antisymm (hyv ▸ hle)
        (hzone v List.mem_cons_self (hyv ▸ le_rfl)))
      exact .inl (by rw [hgv, hyv])
    · rw [State.low_finish_of_ne hyv]
      rcases h.tree g hg y hy hle hzone hopen with hlow | ⟨c', hc', hlt, hold, hopen', hlow⟩
      · exact .inl ((State.low_finish_le v c s g).trans hlow)
      · exact .inr ⟨c', hc', hlt, hold, hopen', (State.low_finish_le v c s c').trans hlow⟩
  · obtain ⟨hcovered, hbacks⟩ := h.closed u hu hopen
    exact ⟨hcovered, fun r hr hfirst => backs_append_iff.2 (.inl (hbacks r hr hfirst))⟩

end Finish

/-! ## Components that are left behind -/

section Leave

/-- What is numbered after the last open node is not open itself. -/
theorem edges_of_num_le (ht : s.order.Inv children (v :: gs))
    (hdone : ∀ c ∈ children v, (v, c) ∈ s.order.edges) {y c : V} (hy : y ∈ s.order.visited)
    (hle : s.order.num v ≤ s.order.num y) (hc : c ∈ children y) : (y, c) ∈ s.order.edges := by
  by_cases hyv : y = v
  · exact hyv ▸ hdone c (hyv ▸ hc)
  · refine ht.done y hy ?_ c hc
    refine List.not_mem_cons_of_ne_of_not_mem hyv fun hgray => ?_
    exact absurd (List.rel_of_pairwise_cons ht.ascending hgray) (not_lt.2 hle)

/-- A path to a node with a smaller number has an edge to one. -/
theorem exists_edge_before (ht : s.order.Inv children (v :: gs))
    (hdone : ∀ c ∈ children v, (v, c) ∈ s.order.edges) {x y : V} (hreach : Reach children y x)
    (hy : y ∈ s.order.visited) (hle : s.order.num v ≤ s.order.num y)
    (hx : s.order.num x < s.order.num v) :
    ∃ e ∈ s.order.edges, Reach children y e.1 ∧ Reach children e.2 x ∧
      s.order.num v ≤ s.order.num e.1 ∧ s.order.num e.2 < s.order.num v := by
  induction hreach using ReflTransGen.head_induction_on with
  | refl => exact absurd hx (not_lt.2 hle)
  | @head y c hyc hcx ih =>
    have hedge := edges_of_num_le ht hdone hy hle hyc
    rcases lt_or_ge (s.order.num c) (s.order.num v) with hlt | hge
    · exact ⟨(y, c), hedge, .refl, hcx, hle, hlt⟩
    · obtain ⟨e, he, hce, hex, hfrom, hto⟩ := ih (ht.edges _ hedge).2.2 hge
      exact ⟨e, he, .head hyc hce, hex, hfrom, hto⟩

/-- The node that is left has the least low link of what is entered after it. -/
theorem Good.low_le_of_num_le (h : Good children (v :: gs) s)
    (ht : s.order.Inv children (v :: gs)) (hdone : ∀ c ∈ children v, (v, c) ∈ s.order.edges) {y : V}
    (hy : y ∈ s.order.visited) (hle : s.order.num v ≤ s.order.num y)
    (hopen : Open children (v :: gs) y) : s.low v ≤ s.low y := by
  have hzone : ∀ g ∈ v :: gs, s.order.num g ≤ s.order.num y → s.order.num g ≤ s.order.num v := by
    intro g hg _
    rcases List.mem_cons.1 hg with rfl | hg
    · exact le_rfl
    · exact (List.rel_of_pairwise_cons ht.ascending hg).le
  rcases h.tree v List.mem_cons_self y hy hle hzone hopen with hlow | ⟨c, hc, hlt, -, hcopen, hlow⟩
  · exact hlow
  · exact ((h.up _ (hdone c hc) hlt).2 hcopen).trans hlow

/-- A node is no root when its component has another open node. -/
theorem Good.low_lt_num (h : Good children (v :: gs) s) (ht : s.order.Inv children (v :: gs))
    (hdone : ∀ c ∈ children v, (v, c) ∈ s.order.edges) (hopen : Open children gs v) :
    s.low v < s.order.num v := by
  obtain ⟨x, hx, hsame⟩ := hopen
  have hlt := List.rel_of_pairwise_cons ht.ascending hx
  obtain ⟨e, he, hve, hex, hfrom, hto⟩ := exists_edge_before ht hdone hsame.2
    (ht.gray List.mem_cons_self) le_rfl hlt
  obtain ⟨hchild, hvisited, -⟩ := ht.edges e he
  have hsamev : Same children v e.1 := ⟨hve, .head hchild (hex.trans hsame.1)⟩
  have hopene : Open children (v :: gs) e.1 := ⟨v, List.mem_cons_self, hsamev⟩
  calc s.low v ≤ s.low e.1 := h.low_le_of_num_le ht hdone hvisited hfrom hopene
    _ ≤ s.order.num e.2 := h.low_edge e he hopene ⟨.single hchild, hex.trans (hsame.1.trans hve)⟩
    _ < s.order.num v := hto

omit [DecidableEq V] in
theorem open_of_open_cons {u : V} (hopen : Open children gs v) (h : Open children (v :: gs) u) :
    Open children gs u := by
  rcases open_cons_iff.1 h with hsame | hold
  · exact hopen.same hsame
  · exact hold

omit [DecidableEq V] in
theorem open_cons_of_open {u : V} (h : Open children gs u) : Open children (v :: gs) u :=
  open_cons_iff.2 (.inr h)

/-- The zone of a node is the same without the last open one, unless that one's is meant. -/
theorem zone_cons {g y : V} (hlt : s.order.num y < s.order.num v)
    (hzone : ∀ g' ∈ gs, s.order.num g' ≤ s.order.num y → s.order.num g' ≤ s.order.num g) :
    ∀ g' ∈ v :: gs, s.order.num g' ≤ s.order.num y → s.order.num g' ≤ s.order.num g := by
  intro g' hg' hle
  rcases List.mem_cons.1 hg' with rfl | hg'
  · exact absurd hle (not_le.2 hlt)
  · exact hzone g' hg' hle

/-- A node that is no root stays on the stack. -/
theorem Good.leave_of_open (h : Good children (v :: gs) s) (ht : s.order.Inv children (v :: gs))
    (hdone : ∀ c ∈ children v, (v, c) ∈ s.order.edges) (hopen : Open children gs v) :
    Good children gs (s.leave v) := by
  have hlt := h.low_lt_num ht hdone hopen
  have hv : v ∈ s.order.visited := ht.gray List.mem_cons_self
  have hiff : ∀ {u}, Open children (v :: gs) u ↔ Open children gs u :=
    ⟨open_of_open_cons hopen, open_cons_of_open⟩
  rw [State.leave, if_neg hlt.ne']
  refine ⟨?_, fun u hu huopen => ?_, fun u hu huopen => h.low_same u hu (hiff.2 huopen),
    fun u hu huopen => h.low_iff u hu (hiff.2 huopen), fun e he heopen => h.low_edge e he
    (hiff.2 heopen), fun e he hless => ?_, fun g hg y hy hle hzone hyopen => ?_,
    fun u hu hclosed => h.closed u hu (hclosed ∘ hiff.1), fun component hcomponent u hu => ?_⟩
  · exact h.stack.trans (List.filter_congr fun u _ => decide_eq_decide.2 hiff)
  · obtain ⟨r, hr, hsame, hfirst⟩ := h.first u hu (hiff.2 huopen)
    rcases List.mem_cons.1 hr with rfl | hr
    · -- the last open node is not the first one of its component
      obtain ⟨x, hx, hxr⟩ := hopen
      exact absurd (hfirst.2 x (ht.gray (List.mem_cons_of_mem r hx)) hxr.symm)
        (not_le.2 (List.rel_of_pairwise_cons ht.ascending hx))
    · exact ⟨r, hr, hsame, hfirst⟩
  · obtain ⟨hnot, hup⟩ := h.up e he hless
    exact ⟨fun hgray => hnot (List.mem_cons_of_mem v hgray), fun heopen => hup (hiff.2 heopen)⟩
  · rcases lt_or_ge (s.order.num y) (s.order.num v) with hless | hge
    · rcases h.tree g (List.mem_cons_of_mem v hg) y hy hle (zone_cons hless hzone)
        (hiff.2 hyopen) with hlow | ⟨c, hc, hc', hold, hcopen, hlow⟩
      · exact .inl hlow
      · exact .inr ⟨c, hc, hc', hold, hiff.1 hcopen, hlow⟩
    · -- the node left is a child of the one that is now the last
      have hgv := List.rel_of_pairwise_cons ht.ascending hg
      cases gs with
      | nil => cases hg
      | cons top gs =>
        have htop := List.rel_of_pairwise_cons ht.ascending (List.mem_cons_self (a := top) (l := gs))
        have hle' := hzone top List.mem_cons_self (htop.le.trans hge)
        have hgtop : g = top := by
          rcases List.mem_cons.1 hg with rfl | hg
          · rfl
          · exact absurd (List.rel_of_pairwise_cons ht.ascending.tail hg) (not_lt.2 hle')
        refine .inr ⟨v, ?_, hgv, hv, hopen, h.low_le_of_num_le ht hdone hy hge (hiff.2 hyopen)⟩
        rw [hgtop]
        exact (List.isChain_cons_cons.1 ht.link).1
  · obtain ⟨hclosed, hall⟩ := h.components component hcomponent u hu
    exact ⟨fun huopen => hclosed (hiff.2 huopen), hall⟩

/-- The last open node of its component is its first one. -/
theorem Good.isFirst_of_not_open (h : Good children (v :: gs) s)
    (ht : s.order.Inv children (v :: gs)) (hclosed : ¬ Open children gs v) :
    IsFirst children s.order v := by
  obtain ⟨r, hr, hsame, hfirst⟩ := h.first v (ht.gray List.mem_cons_self)
    (open_of_mem List.mem_cons_self)
  rcases List.mem_cons.1 hr with rfl | hr
  · exact hfirst
  · exact absurd ⟨r, hr, hsame⟩ hclosed

theorem IsFirst.eq {t : Order V} {r r' : V} (h : IsFirst children t r) (h' : IsFirst children t r')
    (hsame : Same children r r') : r = r' :=
  Order.num_inj h.1 (le_antisymm (h.2 r' h'.1 hsame) (h'.2 r h.1 hsame.symm))

/-- With its last open node the whole component is visited. -/
theorem visited_of_same (ht : s.order.Inv children (v :: gs)) (hclosed : ¬ Open children gs v)
    (hdone : ∀ c ∈ children v, (v, c) ∈ s.order.edges) {w : V} (hsame : Same children v w) :
    w ∈ s.order.visited := by
  by_contra hw
  obtain ⟨x, hx, hvx, hxw⟩ := (ht.leave hdone).exists_gray hsame.1 (ht.gray List.mem_cons_self) hw
  exact hclosed ⟨x, hx, hxw.trans hsame.2, hvx⟩

/-- Nothing that is entered after a first node belongs to another open component. -/
theorem not_open_of_num_le (ht : s.order.Inv children (v :: gs)) (hclosed : ¬ Open children gs v)
    {y : V} (hy : y ∈ s.order.visited) (hle : s.order.num v ≤ s.order.num y) :
    ¬ Open children gs y := by
  rintro ⟨x, hx, hxy⟩
  have hvy := ht.since v List.mem_cons_self y hy hle
  exact hclosed ⟨x, hx, ht.reach_top (List.mem_cons_of_mem v hx), hvy.trans hxy.2⟩

open scoped Classical in
/-- On the stack its component lies over the others when its first node is left. -/
theorem Good.stack_eq (h : Good children (v :: gs) s) (ht : s.order.Inv children (v :: gs))
    (hclosed : ¬ Open children gs v) :
    ∃ upper, s.stack = upper ++ v :: s.order.visited.reverse.filter
        (fun u => decide (Open children gs u)) ∧
      ∀ u ∈ upper, Same children v u := by
  have hfirst := h.isFirst_of_not_open ht hclosed
  obtain ⟨pre, post, hvisited⟩ := List.append_of_mem hfirst.1
  have hparted := (List.nodup_append.1 (hvisited ▸ ht.nodup)).2.2
  have hnumv : s.order.num v = pre.length := by
    rw [Order.num, hvisited, List.idxOf_append_of_notMem
      (fun hmem => hparted v hmem v List.mem_cons_self rfl), List.idxOf_cons_self, Nat.add_zero]
  have hpre : ∀ u ∈ pre, s.order.num u < s.order.num v := fun u hu => by
    rw [hnumv, Order.num, hvisited, List.idxOf_append_of_mem hu]
    exact List.idxOf_lt_length_iff.2 hu
  have hpost : ∀ u ∈ v :: post, ¬ Open children gs u := fun u hu => by
    refine not_open_of_num_le ht hclosed (hvisited ▸ List.mem_append_right _ hu) ?_
    rw [hnumv, Order.num, hvisited, List.idxOf_append_of_notMem fun hmem => hparted u hmem u hu rfl]
    exact Nat.le_add_right _ _
  refine ⟨post.reverse.filter fun u => decide (Open children (v :: gs) u), ?_, fun u hu => ?_⟩
  · have hlower : ∀ u ∈ pre.reverse, decide (Open children (v :: gs) u) =
        decide (Open children gs u) := fun u hu => by
      have hmem := List.mem_reverse.1 hu
      refine decide_eq_decide.2 (open_cons_iff.trans (or_iff_right fun hsame => ?_))
      exact absurd (hfirst.2 u (hvisited ▸ List.mem_append_left _ hmem) hsame)
        (not_le.2 (hpre u hmem))
    have hupper : (v :: post).reverse.filter (fun u => decide (Open children gs u)) = [] :=
      List.filter_eq_nil_iff.2 fun u hu => by simpa using hpost u (List.mem_reverse.1 hu)
    have hv : ([v].filter fun u => decide (Open children (v :: gs) u)) = [v] :=
      List.filter_eq_self.2 fun u hu => by
        rw [List.mem_singleton.1 hu]
        exact decide_eq_true (open_of_mem List.mem_cons_self)
    rw [h.stack, hvisited, List.reverse_append, List.filter_append, List.filter_append, hupper,
      List.filter_congr hlower, List.reverse_cons, List.filter_append, hv, List.append_assoc]
    rfl
  · obtain ⟨hmem, hopen⟩ := List.mem_filter.1 hu
    have hmem := List.mem_cons_of_mem v (List.mem_reverse.1 hmem)
    exact (open_cons_iff.1 (of_decide_eq_true hopen)).resolve_right (hpost u hmem)

/-- The whole component is on the stack over the others. -/
theorem Good.mem_upper_iff (h : Good children (v :: gs) s) (ht : s.order.Inv children (v :: gs))
    (hdone : ∀ c ∈ children v, (v, c) ∈ s.order.edges) (hclosed : ¬ Open children gs v)
    {upper lower : List V} (hstack : s.stack = upper ++ v :: lower)
    (hupper : ∀ u ∈ upper, Same children v u) (hlower : ∀ u ∈ lower, Open children gs u) {u : V} :
    u ∈ upper ++ [v] ↔ Same children v u := by
  constructor
  · intro hu
    rcases List.mem_append.1 hu with hu | hu
    · exact hupper u hu
    · exact List.mem_singleton.1 hu ▸ .refl u
  · intro hsame
    have hmem := h.mem_stack.2 ⟨visited_of_same ht hclosed hdone hsame, v, List.mem_cons_self, hsame⟩
    rw [hstack, List.append_cons] at hmem
    refine (List.mem_append.1 hmem).resolve_right fun hu => hclosed ?_
    exact (hlower u hu).same hsame.symm

/-- A component is taken as a whole when all of it has paths back. -/
theorem Good.leave_of_backs (h : Good children (v :: gs) s) (hs : Sane children s)
    (ht : s.order.Inv children (v :: gs)) (hdone : ∀ c ∈ children v, (v, c) ∈ s.order.edges)
    (hclosed : ¬ Open children gs v) (hbacks : ∀ u, Same children v u → Backs s.order.edges u v) :
    Good children gs (s.leave v) := by
  classical
  have hv : v ∈ s.order.visited := ht.gray List.mem_cons_self
  have hfirst := h.isFirst_of_not_open ht hclosed
  obtain ⟨upper, hstack, hupper⟩ := h.stack_eq ht hclosed
  have hlower : ∀ u ∈ s.order.visited.reverse.filter (fun u => decide (Open children gs u)),
      Open children gs u := fun u hu => of_decide_eq_true (List.mem_filter.1 hu).2
  have hall := fun u => h.mem_upper_iff ht hdone hclosed hstack hupper hlower (u := u)
  have hlow : ∀ u, Same children v u → s.low u = s.order.num v := fun u hsame =>
    (h.low_iff u (visited_of_same ht hclosed hdone hsame) ⟨v, List.mem_cons_self, hsame⟩ v hsame
      hfirst).2 (hbacks u hsame)
  have hless : ∀ u ∈ s.order.visited, Open children gs u → s.order.num u < s.order.num v :=
    fun u hu hopen => lt_of_not_ge fun hge => not_open_of_num_le ht hclosed hu hge hopen
  have hpos : ∀ u ∈ upper ++ [v], decide (s.low u = s.order.num v) = true := fun u hu =>
    decide_eq_true (hlow u ((hall u).1 hu))
  have hneg : ∀ u ∈ s.order.visited.reverse.filter (fun u => decide (Open children gs u)),
      ¬ decide (s.low u = s.order.num v) = true := fun u hu => by
    have hu' := List.mem_reverse.1 (List.mem_filter.1 hu).1
    have := hs.low_le u hu'
    have := hless u hu' (hlower u hu)
    rw [decide_eq_true_eq]
    omega
  have hpopped : s.popped v = upper ++ [v] := by
    rw [State.popped, hstack, List.append_cons, List.takeWhile_append_of_pos hpos,
      List.takeWhile_eq_nil_iff.2 fun hl => hneg _ (List.get_mem _ _), List.append_nil]
  have hrest : s.stack.dropWhile (s.low · = s.order.num v) =
      s.order.visited.reverse.filter fun u => decide (Open children gs u) := by
    rw [hstack, List.append_cons, List.dropWhile_append_of_pos hpos]
    exact List.dropWhile_eq_self_iff.2 fun hl => hneg _ (List.getElem_mem _)
  have hcons : ∀ {u}, Open children gs u → Open children (v :: gs) u := open_cons_of_open
  rw [State.leave, if_pos (hlow v (.refl v)).symm, hpopped, if_neg (by simp), hrest]
  refine ⟨rfl, fun u hu hopen => ?_, fun u hu hopen => h.low_same u hu (hcons hopen),
    fun u hu hopen => h.low_iff u hu (hcons hopen), fun e he hopen => h.low_edge e he (hcons hopen),
    fun e he hlt => ?_, fun g hg y hy hle hzone hopen => ?_, fun u hu hnot => ?_,
    fun component hcomponent u hu => ?_⟩
  · obtain ⟨r, hr, hsame, hfirst'⟩ := h.first u hu (hcons hopen)
    rcases List.mem_cons.1 hr with rfl | hr
    · exact absurd (hopen.same hsame.symm) hclosed
    · exact ⟨r, hr, hsame, hfirst'⟩
  · obtain ⟨hnot, hup⟩ := h.up e he hlt
    exact ⟨fun hgray => hnot (List.mem_cons_of_mem v hgray), fun hopen => hup (hcons hopen)⟩
  · have hy' := hless y hy hopen
    rcases h.tree g (List.mem_cons_of_mem v hg) y hy hle (zone_cons hy' hzone)
      (hcons hopen) with hlow' | ⟨c, hc, hlt, hold, hcopen, hlow'⟩
    · exact .inl hlow'
    · refine .inr ⟨c, hc, hlt, hold, ?_, hlow'⟩
      refine (open_cons_iff.1 hcopen).resolve_left fun hsame => ?_
      -- a low link of the component that is taken is too large
      have := hlow c hsame
      have := hs.low_le y hy
      omega
  · by_cases hsame : Same children v u
    · refine ⟨⟨upper ++ [v], List.mem_append_right _ (List.mem_singleton.2 rfl), (hall u).2 hsame⟩,
        fun r hr hfirst' => ?_⟩
      obtain rfl := hfirst.eq hfirst' (hsame.trans hr.symm)
      exact hbacks u hsame
    · obtain ⟨⟨component, hcomponent, hmem⟩, hold⟩ := h.closed u hu fun hopen =>
        (open_cons_iff.1 hopen).elim hsame hnot
      exact ⟨⟨component, List.mem_append_left _ hcomponent, hmem⟩, hold⟩
  · rcases List.mem_append.1 hcomponent with hold | hnew
    · obtain ⟨hnot, hwhole⟩ := h.components component hold u hu
      exact ⟨fun hopen => hnot (hcons hopen), hwhole⟩
    · obtain rfl := List.mem_singleton.1 hnew
      have hsame := (hall u).1 hu
      exact ⟨fun hopen => hclosed (hopen.same hsame.symm), fun w hw => (hall w).2 (hsame.trans hw)⟩

variable (children) in
/-- A component all of which is left has its first node on the stack, and a node without a path
back to that. -/
def Failed (gs : List V) (s : State V) : Prop :=
  ∃ r u, r ∈ s.stack ∧ s.low r = s.order.num r ∧
    (∀ w, Same children r w → w ∈ s.order.visited ∧ w ∉ gs ∧ s.order.num r ≤ s.order.num w) ∧
    Same children r u ∧ ¬ Backs s.order.edges u r

omit [DecidableEq V] in
theorem mem_dropWhile_append {p : V → Bool} {u w : V} (hp : ¬ p u) :
    ∀ {l l' : List V}, u ∈ l → w ∈ l' → w ∈ (l ++ l').dropWhile p
  | x :: l, l', hu, hw => by
    by_cases hx : p x
    · rw [List.cons_append, List.dropWhile_cons_of_pos hx]
      refine mem_dropWhile_append hp ((List.mem_cons.1 hu).resolve_left fun heq => hp ?_) hw
      rwa [heq]
    · rw [List.cons_append, List.dropWhile_cons_of_neg hx]
      exact List.mem_cons_of_mem x (List.mem_append_right _ hw)

/-- A component is not taken as a whole when a part of it has no path back. -/
theorem Good.leave_of_not_backs (h : Good children (v :: gs) s)
    (ht : s.order.Inv children (v :: gs)) (hdone : ∀ c ∈ children v, (v, c) ∈ s.order.edges)
    (hclosed : ¬ Open children gs v) {u : V} (hsame : Same children v u)
    (hback : ¬ Backs s.order.edges u v) : Failed children gs (s.leave v) := by
  classical
  have hv : v ∈ s.order.visited := ht.gray List.mem_cons_self
  have hfirst := h.isFirst_of_not_open ht hclosed
  obtain ⟨upper, hstack, hupper⟩ := h.stack_eq ht hclosed
  have hlow := h.low_iff u (visited_of_same ht hclosed hdone hsame)
    ⟨v, List.mem_cons_self, hsame⟩ v hsame hfirst
  have hlowv := (h.low_iff v hv (open_of_mem List.mem_cons_self) v (.refl v) hfirst).2
    (backs_self _ v)
  have hu : u ∈ upper := by
    have hmem := (h.mem_upper_iff ht hdone hclosed hstack hupper fun u hu =>
      of_decide_eq_true (List.mem_filter.1 hu).2).2 hsame
    refine (List.mem_append.1 hmem).resolve_right fun hmem => hback ?_
    exact List.mem_singleton.1 hmem ▸ backs_self _ _
  refine ⟨v, u, ?_, ?_, fun w hw => ?_, hsame, ?_⟩
  · rw [State.leave, if_pos hlowv.symm]
    show v ∈ s.stack.dropWhile _
    rw [hstack]
    exact mem_dropWhile_append (by simpa using mt hlow.1 hback) hu List.mem_cons_self
  · rw [State.low_leave, State.order_leave]
    exact hlowv
  · rw [State.order_leave]
    have hvisited := visited_of_same ht hclosed hdone hw
    exact ⟨hvisited, fun hgray => hclosed ⟨w, hgray, hw.symm⟩, hfirst.2 w hvisited hw⟩
  · rwa [State.order_leave]

end Leave

section Failed

theorem Failed.enter (h : Failed children gs s) (hv : v ∉ s.order.visited) :
    Failed children (v :: gs) (s.enter v) := by
  obtain ⟨r, u, hr, hlow, hall, hsame, hback⟩ := h
  have hnum : ∀ w, Same children r w → (s.enter v).order.num w = s.order.num w := fun w hw =>
    Order.num_enter (hall w hw).1
  have hne : r ≠ v := ne_of_mem_of_not_mem (hall r (.refl r)).1 hv
  refine ⟨r, u, List.mem_cons_of_mem v hr, ?_, fun w hw => ?_, hsame, hback⟩
  · rw [State.low_enter_of_ne hne, hnum r (.refl r), hlow]
  · obtain ⟨hvisited, hgray, hle⟩ := hall w hw
    refine ⟨mem_enter.2 (.inl hvisited), ?_, ?_⟩
    · exact List.not_mem_cons_of_ne_of_not_mem (ne_of_mem_of_not_mem hvisited hv) hgray
    · rwa [hnum r (.refl r), hnum w hw]

theorem Failed.finish (h : Failed children (v :: gs) s) (c : V) :
    Failed children (v :: gs) (s.finish v c) := by
  obtain ⟨r, u, hr, hlow, hall, hsame, hback⟩ := h
  have hne : ∀ w, Same children r w → w ≠ v := fun w hw heq =>
    (hall w hw).2.1 (heq ▸ List.mem_cons_self)
  refine ⟨r, u, hr, (State.low_finish_of_ne (hne r (.refl r)) c s).trans hlow, hall, hsame, ?_⟩
  exact fun hback' => (backs_append_iff.1 hback').elim hback fun hedge => hne u hsame hedge.1

theorem Failed.leave (h : Failed children (v :: gs) s) (hv : v ∈ s.order.visited) :
    Failed children gs (s.leave v) := by
  obtain ⟨r, u, hr, hlow, hall, hsame, hback⟩ := h
  refine ⟨r, u, ?_, ?_, fun w hw => ?_, hsame, ?_⟩
  · by_cases hroot : s.order.num v = s.low v
    · rw [State.leave, if_pos hroot]
      show r ∈ s.stack.dropWhile _
      rw [← List.takeWhile_append_dropWhile (p := (s.low · = s.order.num v)) (l := s.stack)] at hr
      refine (List.mem_append.1 hr).resolve_left fun hmem => (hall r (.refl r)).2.1 ?_
      have heq : s.low r = s.order.num v := by simpa using List.mem_takeWhile_imp hmem
      rw [Order.num_inj hv (heq.symm.trans hlow)]
      exact List.mem_cons_self
    · rwa [State.leave, if_neg hroot]
  · rw [State.low_leave, State.order_leave, hlow]
  · rw [State.order_leave]
    obtain ⟨hvisited, hgray, hle⟩ := hall w hw
    exact ⟨hvisited, fun hmem => hgray (List.mem_cons_of_mem v hmem), hle⟩
  · rwa [State.order_leave]

end Failed

/-! ## The search as a whole -/

theorem Good.leave (h : Good children (v :: gs) s) (hs : Sane children s)
    (ht : s.order.Inv children (v :: gs)) (hdone : ∀ c ∈ children v, (v, c) ∈ s.order.edges) :
    Good children gs (s.leave v) ∨ Failed children gs (s.leave v) := by
  by_cases hopen : Open children gs v
  · exact .inl (h.leave_of_open ht hdone hopen)
  · by_cases hbacks : ∀ u, Same children v u → Backs s.order.edges u v
    · exact .inl (h.leave_of_backs hs ht hdone hopen hbacks)
    · push Not at hbacks
      obtain ⟨u, hsame, hback⟩ := hbacks
      exact .inr (h.leave_of_not_backs ht hdone hopen hsame hback)

theorem search_rule : Rule children (search (V := V)) fun gs s =>
    s.order.Inv children gs ∧ Sane children s ∧ (Good children gs s ∨ Failed children gs s) where
  enter gs v s h hv hlink :=
    ⟨h.1.enter hv hlink, h.2.1.enter hv, h.2.2.imp (·.enter h.2.1 h.1 hv) (·.enter hv)⟩
  finish gs v c s h hc hvisited :=
    ⟨h.1.finish hc hvisited, h.2.1.finish h.1 hc hvisited,
      h.2.2.imp (·.finish h.2.1 h.1 hc hvisited) (·.finish c)⟩
  leave gs v s h hdone := by
    refine ⟨?_, h.2.1.leave h.1, h.2.2.elim (·.leave h.2.1 h.1 hdone) fun hfailed =>
      .inr (hfailed.leave (h.1.gray List.mem_cons_self))⟩
    have hinv := h.1.leave hdone
    exact (State.order_leave v s).symm ▸ hinv

section Result

variable (children) in
/-- The search from these nodes, in their order. -/
def run (roots : List V) : State V :=
  roots.foldl (fun s v => walk children search (roots.length + 1) v s) {}

variable (children) in
/-- The traversal from these nodes, in their order. -/
def traversal (roots : List V) : Order V :=
  roots.foldl (fun t v => walk children (plain V) (roots.length + 1) v t) {}

variable (children) in
/-- From each node there is a path back to the first node of its component. -/
def AllBack (t : Order V) : Prop :=
  ∀ r u, IsFirst children t r → Same children r u → Backs t.edges u r

variable {roots : List V}

theorem order_run (roots : List V) : (run children roots).order = traversal children roots :=
  order_walks (S := search) _ roots {}

theorem run_rule (hroots : ∀ v ∈ roots, children v ⊆ roots) :
    roots ⊆ (run children roots).order.visited ∧ Sane children (run children roots) ∧
      (Good children [] (run children roots) ∨ Failed children [] (run children roots)) := by
  obtain ⟨⟨-, hsane, hgood⟩, hvisited, -⟩ := walks_rule search_rule hroots roots {}
    (List.Subset.refl _) ⟨Order.inv_empty, sane_empty, .inl good_empty⟩
  exact ⟨hvisited, hsane, hgood⟩

theorem run_subset (hroots : ∀ v ∈ roots, children v ⊆ roots) :
    (run children roots).order.visited ⊆ roots :=
  walks_subset (S := search) hroots (List.Subset.refl _) _ (List.nil_subset _)

/-- If a node has no path back, the first node of some component is in no component that is taken. -/
theorem exists_left_behind (hroots : ∀ v ∈ roots, children v ⊆ roots)
    (h : ¬ AllBack children (traversal children roots)) : ∃ r u, r ∈ roots ∧ u ≠ r ∧
      Same children r u ∧ ∀ component ∈ (run children roots).components, r ∉ component := by
  obtain ⟨hall, hsane, hgood⟩ := run_rule hroots
  have hsub := run_subset hroots
  rcases hgood with hgood | ⟨r, u, hr, -, -, hsame, hnot⟩
  · refine absurd (fun r u hfirst hsame => ?_) h
    rw [← order_run] at hfirst ⊢
    obtain ⟨⟨component, hcomponent, hmem⟩, -⟩ := hgood.closed r hfirst.1 (by simp [Open])
    have hu := (hsane.components component hcomponent).2.1
      ((hgood.components component hcomponent r hmem).2 u hsame)
    exact (hgood.closed u hu (by simp [Open])).2 r hsame hfirst
  · refine ⟨r, u, hsub (hsane.stack hr), fun heq => hnot (heq ▸ backs_self _ _), hsame, ?_⟩
    exact fun component hcomponent hmem => (hsane.components component hcomponent).2.2.1 r hmem hr

/-- Each component is taken as a whole exactly if all nodes have paths back. -/
theorem run_whole_iff (hroots : ∀ v ∈ roots, children v ⊆ roots) :
    (∀ u ∈ roots, ∃ component ∈ (run children roots).components,
        ∀ w, Same children u w → w ∈ component) ↔ AllBack children (traversal children roots) := by
  constructor
  · intro hwhole
    by_contra hnot
    obtain ⟨r, -, hr, -, -, hleft⟩ := exists_left_behind hroots hnot
    obtain ⟨component, hcomponent, hmem⟩ := hwhole r hr
    exact hleft component hcomponent (hmem r (.refl r))
  · intro hback u hu
    obtain ⟨hall, hsane, hgood⟩ := run_rule hroots
    rw [← order_run] at hback
    rcases hgood with hgood | ⟨r, u', hr, -, hfirst, hsame, hnot⟩
    · obtain ⟨⟨component, hcomponent, hmem⟩, -⟩ := hgood.closed u (hall hu) (by simp [Open])
      exact ⟨component, hcomponent, (hgood.components component hcomponent u hmem).2⟩
    · exact absurd (hback r u' ⟨hsane.stack hr, fun w _ hw => (hfirst w hw).2.2⟩ hsame) hnot

end Result

end LowLink
