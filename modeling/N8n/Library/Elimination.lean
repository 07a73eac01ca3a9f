import Mathlib.Tactic

/-!
# Eliminating the nodes of a graph

The edges of a graph leave an output of a node and reach an input of a node. A path from one node to
another may pass through the nodes of a set; at each of these it comes in at one input and goes on
at one output, where `Pass` allows that pair.

To eliminate a node is to take it out and to join each edge into it with each edge out of it. The
nodes that are left are then joined by the same paths as before.
-/

namespace Elimination

variable {V O I : Type*}

/-- A path from an output of a node to an input of a node, all between through nodes of `D`. -/
inductive Through (E : V → O → I → V → Prop) (D : V → Prop) (Pass : I → O → Prop) :
    V → O → I → V → Prop
  | direct {u o i v} : E u o i v → Through E D Pass u o i v
  | via {u o k d o' i v} : E u o k d → D d → Pass k o' → Through E D Pass d o' i v →
      Through E D Pass u o i v

/-- The edges once `d` is taken out: those past it, and the joined ones. -/
def eliminate (E : V → O → I → V → Prop) (d : V) (u : V) (o : O) (i : I) (v : V) : Prop :=
  E u o i v ∧ u ≠ d ∧ v ≠ d ∨ ∃ k o', E u o k d ∧ E d o' i v

variable {E E' : V → O → I → V → Prop} {D D' : V → Prop} {Pass Pass' : I → O → Prop}

theorem Through.mono (hE : ∀ u o i v, E u o i v → E' u o i v) (hD : ∀ d, D d → D' d)
    (hP : ∀ k o, Pass k o → Pass' k o) {u o i v} (h : Through E D Pass u o i v) :
    Through E' D' Pass' u o i v := by
  induction h with
  | direct he => exact .direct (hE _ _ _ _ he)
  | via he hd hp _ ih => exact .via (hE _ _ _ _ he) (hD _ hd) (hP _ _ hp) ih

theorem through_congr (hE : ∀ u o i v, E u o i v ↔ E' u o i v) (hD : ∀ d, D d ↔ D' d)
    {u o i v} : Through E D Pass u o i v ↔ Through E' D' Pass u o i v :=
  ⟨Through.mono (fun _ _ _ _ => (hE _ _ _ _).1) (fun _ => (hD _).1) fun _ _ h => h,
    Through.mono (fun _ _ _ _ => (hE _ _ _ _).2) (fun _ => (hD _).2) fun _ _ h => h⟩

theorem Through.trans {u o k d o' i v} (h : Through E D Pass u o k d) (hd : D d) (hp : Pass k o')
    (h' : Through E D Pass d o' i v) : Through E D Pass u o i v := by
  induction h with
  | direct he => exact .via he hd hp h'
  | via he hd' hp' _ ih => exact .via he hd' hp' (ih hd hp h')

/-- With nothing to pass through, a path is an edge. -/
theorem through_iff_of_forall_not (hD : ∀ d, ¬ D d) {u o i v} :
    Through E D Pass u o i v ↔ E u o i v := by
  refine ⟨fun h => ?_, .direct⟩
  cases h with
  | direct he => exact he
  | via _ hd => exact absurd hd (hD _)

section Eliminate

variable {d : V}

theorem through_of_eliminate {u o i v} (h : Through (eliminate E d) D (fun _ _ => True) u o i v) :
    Through E (fun x => D x ∨ x = d) (fun _ _ => True) u o i v := by
  have hedge : ∀ {u o i v}, eliminate E d u o i v →
      Through E (fun x => D x ∨ x = d) (fun _ _ => True) u o i v := by
    rintro u o i v (⟨he, -⟩ | ⟨k, o', hin, hout⟩)
    · exact .direct he
    · exact .via hin (.inr rfl) trivial (.direct hout)
  induction h with
  | direct he => exact hedge he
  | via he hd _ _ ih => exact (hedge he).trans (.inl hd) trivial ih

/-- A path between other nodes needs `d` no more. What leaves `d` is reached from whatever comes
into it. -/
theorem eliminate_of_through {x o i v} (hv : v ≠ d)
    (h : Through E (fun x => D x ∨ x = d) (fun _ _ => True) x o i v) :
    (x ≠ d → Through (eliminate E d) D (fun _ _ => True) x o i v) ∧
      (x = d → ∀ u o' k, u ≠ d → E u o' k d →
        Through (eliminate E d) D (fun _ _ => True) u o' i v) := by
  induction h with
  | direct he =>
    refine ⟨fun hx => .direct (.inl ⟨he, hx, hv⟩), ?_⟩
    rintro rfl u o' k - hin
    exact .direct (.inr ⟨k, _, hin, he⟩)
  | @via x o k y o' i v he hy _ _ ih =>
    obtain ⟨ihne, iheq⟩ := ih hv
    by_cases hyd : y = d
    · subst hyd
      refine ⟨fun hx => iheq rfl x o k hx he, ?_⟩
      rintro rfl u o'' k' hu hin
      exact iheq rfl u o'' k' hu hin
    · have hDy := hy.resolve_right hyd
      refine ⟨fun hx => .via (.inl ⟨he, hx, hyd⟩) hDy trivial (ihne hyd), ?_⟩
      rintro rfl u o'' k' - hin
      exact .via (.inr ⟨k', o, hin, he⟩) hDy trivial (ihne hyd)

/-- The paths between the nodes that are left. -/
theorem through_eliminate_iff {u o i v} (hu : u ≠ d) (hv : v ≠ d) :
    Through (eliminate E d) D (fun _ _ => True) u o i v ↔
      Through E (fun x => D x ∨ x = d) (fun _ _ => True) u o i v :=
  ⟨through_of_eliminate, fun h => (eliminate_of_through hv h).1 hu⟩

/-- A path leads from one of the nodes to itself, through these nodes. -/
def Cyclic (E : V → O → I → V → Prop) (D : V → Prop) : Prop :=
  ∃ x, D x ∧ ∃ o i, Through E D (fun _ _ => True) x o i x

theorem Cyclic.congr (hE : ∀ u o i v, E u o i v ↔ E' u o i v) (hD : ∀ d, D d ↔ D' d) :
    Cyclic E D ↔ Cyclic E' D' :=
  exists_congr fun x => and_congr (hD x) (exists_congr fun _ => exists_congr fun _ =>
    through_congr hE hD)

theorem Cyclic.of_eliminate (h : Cyclic (eliminate E d) D) : Cyclic E fun x => D x ∨ x = d := by
  obtain ⟨x, hx, o, i, hpath⟩ := h
  exact ⟨x, .inl hx, o, i, through_of_eliminate hpath⟩

/-- A cycle is that of an edge from `d` to itself, or it is left without `d`. -/
theorem Cyclic.eliminate (hd : ¬ D d) (h : Cyclic E fun x => D x ∨ x = d)
    (hno : ∀ o i, ¬ E d o i d) : Cyclic (eliminate E d) D := by
  have hother : ∀ {x o i}, x ≠ d → D x → Through E (fun x => D x ∨ x = d) (fun _ _ => True) x o i x →
      Cyclic (Elimination.eliminate E d) D := fun hne hx hpath =>
    ⟨_, hx, _, _, (through_eliminate_iff hne hne).2 hpath⟩
  obtain ⟨x, hx, o, i, hpath⟩ := h
  by_cases hxd : x = d
  · subst hxd
    cases hpath with
    | direct he => exact absurd he (hno o i)
    | @via _ _ k y o' _ _ he hy _ hrest =>
      -- the node after `d` lies on the cycle as well
      have hne : y ≠ x := fun heq => hno o k (heq ▸ he)
      exact hother hne (hy.resolve_right hne) (hrest.trans (.inr rfl) trivial (.direct he))
  · exact hother hxd (hx.resolve_right hxd) hpath

end Eliminate

end Elimination
