import Mathlib.Data.Fintype.Defs
import Mathlib.Logic.Function.Basic
import Mathlib.Data.List.Basic

/-!
# Joining queues

Values arrive at inputs, in any order, and wait at each input in the order of their arrival. As soon
as every input has a value waiting, the first of each leave together, as one row. So the values that
have arrived at an input are those of the rows followed by those that wait, and the `k`-th row holds
the `k`-th arrival at every input.
-/

variable {ι α : Type*}

structure Join (ι α : Type*) where
  queues : ι → List α
  rows : List (ι → α)

namespace Join

def empty : Join ι α := ⟨fun _ => [], []⟩

/-- What has arrived at an input. -/
def arrived (j : Join ι α) (i : ι) : List α := j.rows.map (· i) ++ j.queues i

/-- The first of each queue leave. -/
def release (queues : ι → List α) (rows : List (ι → α)) (h : ∀ i, queues i ≠ []) : Join ι α :=
  ⟨fun i => (queues i).tail, rows ++ [fun i => (queues i).head (h i)]⟩

theorem arrived_release (queues : ι → List α) (rows : List (ι → α)) (h : ∀ i, queues i ≠ [])
    (i : ι) : (release queues rows h).arrived i = rows.map (· i) ++ queues i := by
  have := List.cons_head_tail (h i)
  simp only [arrived, release, List.map_append, List.map_cons, List.map_nil, List.append_assoc,
    List.singleton_append, this]

/-- The `k`-th row holds the `k`-th arrival at every input. -/
theorem getElem?_arrived {j : Join ι α} {k : ℕ} {row : ι → α} (h : j.rows[k]? = some row) (i : ι) :
    (j.arrived i)[k]? = some (row i) := by
  have hlt : k < j.rows.length := (List.getElem?_eq_some_iff.1 h).1
  rw [arrived, List.getElem?_append_left (by simpa using hlt), List.getElem?_map, h]
  rfl

variable [DecidableEq ι]

def queued (j : Join ι α) (i : ι) (x : α) : ι → List α :=
  Function.update j.queues i (j.queues i ++ [x])

open scoped Classical in
noncomputable def arrive (j : Join ι α) (i : ι) (x : α) : Join ι α :=
  if h : ∀ i', j.queued i x i' ≠ [] then release (j.queued i x) j.rows h
  else ⟨j.queued i x, j.rows⟩

theorem arrive_of_release {j : Join ι α} {i : ι} {x : α} (h : ∀ i', j.queued i x i' ≠ []) :
    j.arrive i x = release (j.queued i x) j.rows h :=
  dif_pos h

theorem arrive_of_wait {j : Join ι α} {i : ι} {x : α} (h : ¬ ∀ i', j.queued i x i' ≠ []) :
    j.arrive i x = ⟨j.queued i x, j.rows⟩ :=
  dif_neg h

theorem arrived_arrive (j : Join ι α) (i i' : ι) (x : α) :
    (j.arrive i x).arrived i' = j.arrived i' ++ if i' = i then [x] else [] := by
  have hqueue : j.rows.map (· i') ++ j.queued i x i' =
      j.arrived i' ++ if i' = i then [x] else [] := by
    by_cases hi : i' = i
    · subst hi
      simp [arrived, queued]
    · simp [arrived, queued, hi]
  rw [← hqueue]
  by_cases h : ∀ i', j.queued i x i' ≠ []
  · rw [arrive_of_release h, arrived_release]
  · rw [arrive_of_wait h]
    rfl

/-- Some input waits for its next value. -/
def Waits (j : Join ι α) : Prop := ∃ i, j.queues i = []

/-- An arrival that completes a row comes at an input whose queue was empty. -/
theorem queue_eq_nil {j : Join ι α} (hj : j.Waits) {i : ι} {x : α}
    (h : ∀ i', j.queued i x i' ≠ []) : j.queues i = [] := by
  obtain ⟨i₀, hi₀⟩ := hj
  have hi : i₀ = i := by
    by_contra hne
    exact h i₀ (by simp [queued, hne, hi₀])
  exact hi ▸ hi₀

theorem arrive_waits {j : Join ι α} (hj : j.Waits) (i : ι) (x : α) : (j.arrive i x).Waits := by
  by_cases h : ∀ i', j.queued i x i' ≠ []
  · rw [arrive_of_release h]
    exact ⟨i, by simp [release, queued, queue_eq_nil hj h]⟩
  · rw [arrive_of_wait h]
    simpa [Waits] using h

end Join
