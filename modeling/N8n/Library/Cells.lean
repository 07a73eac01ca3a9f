import Mathlib.Data.List.Forall2
import N8n.Library.Dict

/-!
# Cells of a heap

A store of values that are read and overwritten through references.  The references from `next` on
are free, and a new value is put at the first of them.

`storeAll` stores the values of a list one after another and `storeValues` those of a dictionary;
`storeAll_spec` says that each can be read back where the later ones leave it as it is.
-/

/-- The cells of one type of values. -/
structure Cells (α : Type*) where
  read : ℕ → α
  next : ℕ

namespace Cells

variable {α : Type*} (c : Cells α)

/-- Overwrites a cell. -/
def write (r : ℕ) (a : α) : Cells α := { c with read := Function.update c.read r a }

/-- Puts a value in a new cell, the one at `c.next`. -/
def alloc (a : α) : Cells α where
  read := Function.update c.read c.next a
  next := c.next + 1

@[simp] theorem next_write (r : ℕ) (a : α) : (c.write r a).next = c.next := rfl

@[simp] theorem next_alloc (a : α) : (c.alloc a).next = c.next + 1 := rfl

@[simp] theorem read_write_self (r : ℕ) (a : α) : (c.write r a).read r = a :=
  Function.update_self ..

theorem read_write (r r' : ℕ) (a : α) :
    (c.write r a).read r' = if r' = r then a else c.read r' :=
  Function.update_apply ..

theorem read_write_of_ne {r r' : ℕ} (h : r' ≠ r) (a : α) : (c.write r a).read r' = c.read r' :=
  Function.update_of_ne h ..

/-- Writing what is there changes nothing. -/
theorem write_read (r : ℕ) : c.write r (c.read r) = c := by
  unfold write
  rw [Function.update_eq_self]

@[simp] theorem read_alloc_next (a : α) : (c.alloc a).read c.next = a :=
  Function.update_self ..

theorem read_alloc_of_lt {r : ℕ} (h : r < c.next) (a : α) : (c.alloc a).read r = c.read r :=
  Function.update_of_ne (Nat.ne_of_lt h) ..

/-- `d` has the cells of `c`, and perhaps new ones. -/
structure Extends (c d : Cells α) : Prop where
  next : c.next ≤ d.next
  read : ∀ r < c.next, d.read r = c.read r

theorem Extends.refl : Extends c c := ⟨Nat.le_refl _, fun _ _ => rfl⟩

variable {c}

theorem Extends.trans {d e : Cells α} (h : Extends c d) (h' : Extends d e) : Extends c e :=
  ⟨Nat.le_trans h.next h'.next, fun r hr => by
    rw [h'.read r (Nat.lt_of_lt_of_le hr h.next), h.read r hr]⟩

theorem extends_alloc (a : α) : Extends c (c.alloc a) :=
  ⟨Nat.le_succ _, fun _ hr => c.read_alloc_of_lt hr a⟩

end Cells

/-! ## Storing several values -/

section Store

variable {σ α β κ : Type*} (store : σ → α → β × σ)

/-- Stores the values of a list one after another. -/
def storeAll : σ → List α → List β × σ
  | s, [] => ([], s)
  | s, a :: as =>
    let stored := store s a
    let rest := storeAll stored.2 as
    (stored.1 :: rest.1, rest.2)

def storeEntry (s : σ) (entry : κ × α) : (κ × β) × σ :=
  ((entry.1, (store s entry.2).1), (store s entry.2).2)

theorem map_fst_storeAll : ∀ (entries : List (κ × α)) (s : σ),
    (storeAll (storeEntry store) s entries).1.map Prod.fst = entries.map Prod.fst
  | [], _ => rfl
  | _ :: entries, _ => congrArg (_ :: ·) (map_fst_storeAll entries _)

/-- Stores the values of a dictionary. -/
def storeValues (s : σ) (d : Dict κ α) : Dict κ β × σ :=
  (⟨(storeAll (storeEntry store) s d.entries).1, by rw [map_fst_storeAll]; exact d.nodup⟩,
    (storeAll (storeEntry store) s d.entries).2)

variable {store} (I : σ → Prop) (Ext : σ → σ → Prop) (Put : σ → β → Prop) (value : σ → β → α)

/-- Where a store extends the state (`Ext`) and keeps the invariant `I`, so do several. -/
theorem storeAll_extends (hrefl : ∀ s, Ext s s) (htrans : ∀ s t u, Ext s t → Ext t u → Ext s u)
    (hstore : ∀ s a, I s → Ext s (store s a).2 ∧ I (store s a).2) : ∀ (as : List α) (s : σ),
      I s → Ext s (storeAll store s as).2 ∧ I (storeAll store s as).2
  | [], s, hi => ⟨hrefl s, hi⟩
  | a :: as, s, hi => by
    obtain ⟨hext, hi'⟩ := hstore s a hi
    obtain ⟨hexts, his⟩ := storeAll_extends hrefl htrans hstore as (store s a).2 hi'
    exact ⟨htrans _ _ _ hext hexts, his⟩

/-- Where a store extends the state (`Ext`), keeps the invariant `I` and puts its value, and what is
put stays in an extension, all values can be read in the end. -/
theorem storeAll_spec (hrefl : ∀ s, Ext s s) (htrans : ∀ s t u, Ext s t → Ext t u → Ext s u)
    (hkeep : ∀ s t b, I s → Ext s t → Put s b → Put t b ∧ value t b = value s b)
    (hstore : ∀ s a, I s → Ext s (store s a).2 ∧ I (store s a).2 ∧
      Put (store s a).2 (store s a).1 ∧ value (store s a).2 (store s a).1 = a) :
    ∀ (as : List α) (s : σ), I s → Ext s (storeAll store s as).2 ∧ I (storeAll store s as).2 ∧
      (∀ b ∈ (storeAll store s as).1, Put (storeAll store s as).2 b) ∧
      (storeAll store s as).1.map (value (storeAll store s as).2) = as
  | [], s, hi => ⟨hrefl s, hi, fun _ hb => absurd hb List.not_mem_nil, rfl⟩
  | a :: as, s, hi => by
    obtain ⟨hext, hi', hput, hvalue⟩ := hstore s a hi
    obtain ⟨hexts, his, hputs, hvalues⟩ :=
      storeAll_spec hrefl htrans hkeep hstore as (store s a).2 hi'
    obtain ⟨hput', hvalue'⟩ := hkeep _ _ _ hi' hexts hput
    refine ⟨htrans _ _ _ hext hexts, his, fun b hb => ?_, ?_⟩
    · rcases List.mem_cons.1 hb with rfl | hb
      · exact hput'
      · exact hputs b hb
    · exact List.cons_eq_cons.2 ⟨hvalue'.trans hvalue, hvalues⟩

theorem storeValues_spec (hrefl : ∀ s, Ext s s) (htrans : ∀ s t u, Ext s t → Ext t u → Ext s u)
    (hkeep : ∀ s t b, I s → Ext s t → Put s b → Put t b ∧ value t b = value s b)
    (hstore : ∀ s a, I s → Ext s (store s a).2 ∧ I (store s a).2 ∧
      Put (store s a).2 (store s a).1 ∧ value (store s a).2 (store s a).1 = a)
    (d : Dict κ α) (s : σ) (hi : I s) :
    Ext s (storeValues store s d).2 ∧ I (storeValues store s d).2 ∧
      (∀ e ∈ (storeValues store s d).1.entries, Put (storeValues store s d).2 e.2) ∧
      (storeValues store s d).1.mapValues (value (storeValues store s d).2) = d := by
  have hentry : ∀ s (e : κ × α), I s → Ext s (storeEntry store s e).2 ∧ I (storeEntry store s e).2 ∧
      Put (storeEntry store s e).2 (storeEntry store s e).1.2 ∧
      ((storeEntry store s e).1.1, value (storeEntry store s e).2 (storeEntry store s e).1.2) = e := by
    intro s e hi
    obtain ⟨hext, hi', hput, hvalue⟩ := hstore s e.2 hi
    exact ⟨hext, hi', hput, congrArg (Prod.mk e.1) hvalue⟩
  have hspec := storeAll_spec I Ext (fun s (e : κ × β) => Put s e.2)
    (fun s e => (e.1, value s e.2)) hrefl htrans
    (fun s t b hi hext hput => by
      obtain ⟨hput', hvalue⟩ := hkeep s t b.2 hi hext hput
      exact ⟨hput', by rw [hvalue]⟩)
    hentry d.entries s hi
  exact ⟨hspec.1, hspec.2.1, hspec.2.2.1, Dict.ext_entries hspec.2.2.2⟩

end Store
