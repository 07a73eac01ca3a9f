import Mathlib.Data.Nat.Find
import Mathlib.Order.Monotone.Basic

/-!
# What recurs

Occurrences come one after the other, each in some unit of time. A check sees a key of the unit and
remembers the one that it accepted last. It keeps an interval exactly if it accepts, among the units
up to the interval after an accepted one, no other than the last.
-/

namespace Recurrence

variable {κ : Type*}

/-! ## The check -/

section Check

variable (fires : κ → κ → Bool)

/-- Without anything remembered, all is accepted. -/
def accepts (last : Option κ) (key : κ) : Bool :=
  match last with
  | none => true
  | some last => fires last key

/-- What is remembered before an occurrence. -/
def stateAt (keys : ℕ → κ) : ℕ → Option κ
  | 0 => none
  | j + 1 => if accepts fires (stateAt keys j) (keys j) then some (keys j) else stateAt keys j

def acceptsAt (keys : ℕ → κ) (j : ℕ) : Bool := accepts fires (stateAt fires keys j) (keys j)

end Check

/-! ## What it is for -/

/-- The last one that was accepted before an occurrence. -/
structure IsLast (accepted : ℕ → Bool) (j i : ℕ) : Prop where
  lt : i < j
  holds : accepted i
  later : ∀ i', i < i' → i' < j → accepted i' = false

/-- Nothing was accepted before, or the last one `interval` units before, or, where these recur, in
the same unit. -/
def Due (accepted : ℕ → Bool) (unit : ℕ → ℕ) (interval : ℕ) (again : Prop) (j : ℕ) : Prop :=
  (∀ i < j, accepted i = false) ∨
    ∃ i, IsLast accepted j i ∧ (unit j = unit i + interval ∨ again ∧ unit j = unit i)

/-- Each occurrence is in the unit after the one before it, or, where these recur, in the same. -/
structure Advances (unit : ℕ → ℕ) (again : Prop) : Prop where
  step : ∀ j, unit (j + 1) = unit j + 1 ∨ again ∧ unit (j + 1) = unit j
  reaches : ∀ u, unit 0 ≤ u → ∃ j, unit j = u

/-! ## When an interval is kept -/

theorem IsLast.unique {accepted : ℕ → Bool} {j i i' : ℕ} (h : IsLast accepted j i)
    (h' : IsLast accepted j i') : i = i' := by
  rcases lt_trichotomy i i' with hlt | rfl | hlt
  · exact absurd (h.later i' hlt h'.lt) (by simp [h'.holds])
  · rfl
  · exact absurd (h'.later i hlt h.lt) (by simp [h.holds])

theorem IsLast.succ_of_accepted {accepted : ℕ → Bool} {j : ℕ} (h : accepted j) :
    IsLast accepted (j + 1) j :=
  ⟨Nat.lt_succ_self j, h, fun _ hlt hlt' => absurd hlt (by omega)⟩

theorem IsLast.succ_of_not_accepted {accepted : ℕ → Bool} {j i : ℕ} (h : IsLast accepted j i)
    (hnot : accepted j = false) : IsLast accepted (j + 1) i := by
  refine ⟨h.lt.trans (Nat.lt_succ_self j), h.holds, fun i' hlt hlt' => ?_⟩
  rcases Nat.lt_succ_iff_lt_or_eq.1 hlt' with hbefore | rfl
  · exact h.later i' hlt hbefore
  · exact hnot

theorem IsLast.due_iff {accepted : ℕ → Bool} {unit : ℕ → ℕ} {interval : ℕ} {again : Prop}
    {j i : ℕ} (h : IsLast accepted j i) : Due accepted unit interval again j ↔
      unit j = unit i + interval ∨ again ∧ unit j = unit i := by
  constructor
  · rintro (hnone | ⟨i', hlast, hunit⟩)
    · exact absurd h.holds (by simp [hnone i h.lt])
    · exact h.unique hlast ▸ hunit
  · exact fun hunit => Or.inr ⟨i, h, hunit⟩

theorem due_zero {accepted : ℕ → Bool} {unit : ℕ → ℕ} {interval : ℕ} {again : Prop} :
    Due accepted unit interval again 0 :=
  Or.inl fun i hi => absurd hi (Nat.not_lt_zero i)

section Kept

variable {fires : κ → κ → Bool} {keys : ℕ → κ}

theorem IsLast.stateAt_eq : ∀ {j i : ℕ}, IsLast (acceptsAt fires keys) j i →
    stateAt fires keys j = some (keys i)
  | 0, i, h => absurd h.lt (Nat.not_lt_zero i)
  | j + 1, i, h => by
    rw [stateAt]
    by_cases haccepts : acceptsAt fires keys j
    · rw [if_pos (by exact haccepts), h.unique (.succ_of_accepted haccepts)]
    · rw [if_neg (by exact haccepts)]
      have hne : i ≠ j := by
        rintro rfl
        exact haccepts h.holds
      exact IsLast.stateAt_eq ⟨by have := h.lt; omega, h.holds,
        fun i' hlt hlt' => h.later i' hlt (by omega)⟩

theorem IsLast.acceptsAt_eq {j i : ℕ} (h : IsLast (acceptsAt fires keys) j i) :
    acceptsAt fires keys j = fires (keys i) (keys j) := by
  rw [acceptsAt, h.stateAt_eq, accepts]

variable {unit : ℕ → ℕ} {interval : ℕ} {again : Prop}

/-- While the interval is kept, whole intervals are between the first and the last accepted one. -/
theorem exists_isLast (hadvances : Advances unit again) (hinterval : 0 < interval) :
    ∀ j, (∀ j' ≤ j, acceptsAt fires keys j' ↔
        Due (acceptsAt fires keys) unit interval again j') →
      ∃ i q r, IsLast (acceptsAt fires keys) (j + 1) i ∧ unit i = unit 0 + q * interval ∧
        unit j = unit 0 + q * interval + r ∧ r < interval
  | 0, _ => ⟨0, 0, 0, .succ_of_accepted rfl, by omega, by omega, hinterval⟩
  | j + 1, hkept => by
    obtain ⟨i, q, r, hlast, hi, hj, hr⟩ :=
      exists_isLast hadvances hinterval j fun j' hj' => hkept j' (by omega)
    have haccepts := (hkept (j + 1) le_rfl).trans hlast.due_iff
    rcases hadvances.step j with hnext | ⟨hagain, hsame⟩
    · by_cases hfull : r + 1 = interval
      · refine ⟨j + 1, q + 1, 0, .succ_of_accepted (haccepts.2 (Or.inl (by omega))), ?_, ?_,
          hinterval⟩ <;> rw [Nat.add_one_mul] <;> omega
      · have hnot : ¬ acceptsAt fires keys (j + 1) := by
          rw [haccepts]
          rintro (hdue | ⟨-, hdue⟩) <;> omega
        exact ⟨i, q, r + 1, hlast.succ_of_not_accepted (Bool.eq_false_iff.2 hnot), hi,
          by omega, by omega⟩
    · by_cases hzero : r = 0
      · exact ⟨j + 1, q, 0, .succ_of_accepted (haccepts.2 (Or.inr ⟨hagain, by omega⟩)), by omega,
          by omega, hinterval⟩
      · have hnot : ¬ acceptsAt fires keys (j + 1) := by
          rw [haccepts]
          rintro (hdue | ⟨-, hdue⟩) <;> omega
        exact ⟨i, q, r, hlast.succ_of_not_accepted (Bool.eq_false_iff.2 hnot), hi,
          by omega, hr⟩

theorem Advances.of_step (hstep : ∀ j, unit (j + 1) = unit j + 1 ∨ again ∧ unit (j + 1) = unit j)
    (hunbounded : ∀ u, ∃ j, u ≤ unit j) : Advances unit again where
  step := hstep
  reaches u hu := by
    have hex := hunbounded u
    have hspec := Nat.find_spec hex
    refine ⟨Nat.find hex, le_antisymm ?_ hspec⟩
    cases hfind : Nat.find hex with
    | zero => exact hu
    | succ j =>
      have hlt : ¬ u ≤ unit j := Nat.find_min hex (by omega)
      rcases hstep j with hnext | ⟨-, hsame⟩ <;> omega

theorem Advances.of_succ (hstep : ∀ j, unit (j + 1) = unit j + 1) : Advances unit again := by
  have hadd (j : ℕ) : unit j = unit 0 + j := by
    induction j with
    | zero => rfl
    | succ j ih => rw [hstep, ih, Nat.add_assoc]
  exact .of_step (fun j => Or.inl (hstep j)) fun u => ⟨u, hadd u ▸ Nat.le_add_left u _⟩

theorem Advances.monotone (hadvances : Advances unit again) : Monotone unit :=
  monotone_nat_of_le_succ fun j => by
    rcases hadvances.step j with h | ⟨-, h⟩ <;> omega

/-- Before the first occurrence in a unit comes one in the unit before. -/
theorem Advances.exists_first (hadvances : Advances unit again) {u : ℕ} (h : unit 0 < u) :
    ∃ j, unit (j + 1) = u ∧ unit j + 1 = u := by
  have hex := hadvances.reaches u h.le
  have hspec := Nat.find_spec hex
  cases hfind : Nat.find hex with
  | zero =>
    rw [hfind] at hspec
    omega
  | succ j =>
    rw [hfind] at hspec
    have hleast : unit j ≠ u := Nat.find_min hex (by omega)
    refine ⟨j, hspec, ?_⟩
    rcases hadvances.step j with hnext | ⟨-, hsame⟩ <;> omega

/-- The interval is kept exactly if the check fires in the units up to it only in the last. -/
theorem kept_iff (key : ℕ → κ) (hadvances : Advances unit again) (hinterval : 0 < interval)
    (hkeys : ∀ j, keys j = key (unit j)) (hagain : again → ∀ u, fires (key u) (key u)) (K : ℕ) :
    (∀ j, unit j ≤ unit 0 + K * interval →
      (acceptsAt fires keys j ↔ Due (acceptsAt fires keys) unit interval again j)) ↔
    ∀ k < K, ∀ i, 0 < i → i ≤ interval →
      (fires (key (unit 0 + k * interval)) (key (unit 0 + k * interval + i)) ↔ i = interval) := by
  constructor
  · intro hkept k hk i hi hle
    have hend : unit 0 + k * interval + i ≤ unit 0 + K * interval := by
      have := Nat.mul_le_mul_right interval hk
      rw [Nat.add_one_mul] at this
      omega
    obtain ⟨j, hj, hbefore⟩ := hadvances.exists_first
      (show unit 0 < unit 0 + k * interval + i by omega)
    obtain ⟨i', q, r, hlast, hi', hunit, hr⟩ := exists_isLast hadvances hinterval j fun j' hj' =>
      hkept j' ((hadvances.monotone hj').trans (by omega))
    obtain rfl : q = k := by
      have hq : (q * interval + r) / interval = q := by
        rw [Nat.mul_comm, Nat.mul_add_div hinterval, Nat.div_eq_of_lt hr, Nat.add_zero]
      have hk' : (k * interval + (i - 1)) / interval = k := by
        rw [Nat.mul_comm, Nat.mul_add_div hinterval, Nat.div_eq_of_lt (by omega), Nat.add_zero]
      rw [← hq, ← hk', show q * interval + r = k * interval + (i - 1) by omega]
    have haccepts := (hkept (j + 1) (hj.le.trans hend)).trans hlast.due_iff
    rw [hlast.acceptsAt_eq, hkeys, hkeys, hi', hj] at haccepts
    rw [haccepts]
    constructor
    · rintro (hdue | ⟨-, hdue⟩) <;> omega
    · exact fun heq => Or.inl (by omega)
  · intro hfires j
    induction j using Nat.strong_induction_on with
    | _ j ih =>
      intro hend
      cases j with
      | zero => exact iff_of_true rfl due_zero
      | succ j =>
        obtain ⟨i', q, r, hlast, hi', hunit, hr⟩ :=
          exists_isLast hadvances hinterval j fun j' hj' =>
            ih j' (by omega) ((hadvances.monotone (by omega : j' ≤ j + 1)).trans hend)
        rw [hlast.due_iff, hlast.acceptsAt_eq, hkeys, hkeys, hi']
        obtain ⟨i, hnext⟩ : ∃ i, unit (j + 1) = unit 0 + q * interval + i := by
          rcases hadvances.step j with hnext | ⟨-, hsame⟩
          · exact ⟨r + 1, by omega⟩
          · exact ⟨r, by omega⟩
        by_cases hzero : i = 0
        · have hsame := (hadvances.step j).resolve_left (by omega)
          rw [hnext, hzero, Nat.add_zero]
          exact iff_of_true (hagain hsame.1 _) (Or.inr ⟨hsame.1, rfl⟩)
        · have hlt : q < K := by
            by_contra hge
            have := Nat.mul_le_mul_right interval (Nat.le_of_not_lt hge)
            omega
          have hle : i ≤ interval := by
            rcases hadvances.step j with hnext' | ⟨-, hsame⟩ <;> omega
          rw [hnext, hfires q hlt i (by omega) hle]
          constructor
          · exact fun heq => Or.inl (by omega)
          · rintro (hdue | ⟨-, hdue⟩) <;> omega

end Kept

end Recurrence
