import Mathlib.Data.List.Nodup
import Mathlib.Data.List.Perm.Basic

/-!
# Tickets that are answered once

Tickets are issued under names of their own and wait in a list by their number.  Settling a
waiting ticket takes it off the list and may answer it.  However tickets are issued and settled,
none is answered twice and none that was answered waits.
-/

namespace Tickets

variable {ι : Type*}

/-- Ticket number `n` bears the name `issued[n]`; `answers` counts the answers to a name. -/
structure Book (ι : Type*) where
  issued : List ι
  pending : List ℕ
  answers : ι → ℕ

namespace Book

/-- Nothing is issued. -/
def empty : Book ι := ⟨[], [], fun _ => 0⟩

/-- What one move can do: nothing, issue a ticket under a new name, or settle a waiting one,
answering it or not. -/
inductive Move [DecidableEq ι] (b : Book ι) : Book ι → Prop
  | stay : Move b b
  | issue (name : ι) (h : name ∉ b.issued) :
    Move b { b with issued := b.issued ++ [name], pending := b.pending ++ [b.issued.length] }
  | drop {l₁ l₂ : List ℕ} {n : ℕ} (h : b.pending = l₁ ++ n :: l₂) :
    Move b { b with pending := l₁ ++ l₂ }
  | answer {l₁ l₂ : List ℕ} {n : ℕ} (h : b.pending = l₁ ++ n :: l₂) {name : ι}
    (hn : b.issued[n]? = some name) :
    Move b { b with
      pending := l₁ ++ l₂, answers := Function.update b.answers name (b.answers name + 1) }

/-- Waiting tickets are issued and unanswered, and no ticket waits twice. -/
structure Valid (b : Book ι) : Prop where
  names : b.issued.Nodup
  once : b.pending.Nodup
  lt : ∀ n ∈ b.pending, n < b.issued.length
  unanswered : ∀ n ∈ b.pending, ∀ name, b.issued[n]? = some name → b.answers name = 0
  le_one : ∀ name, b.answers name ≤ 1
  issued_of_answered : ∀ name, 0 < b.answers name → name ∈ b.issued

theorem empty_valid : (empty : Book ι).Valid := by
  constructor <;> simp [empty]

theorem Valid.pending_sublist {b : Book ι} (hb : b.Valid) {l : List ℕ}
    (h : l.Sublist b.pending) : ({ b with pending := l } : Book ι).Valid where
  names := hb.names
  once := hb.once.sublist h
  lt := fun n hn => hb.lt n (h.subset hn)
  unanswered := fun n hn => hb.unanswered n (h.subset hn)
  le_one := hb.le_one
  issued_of_answered := hb.issued_of_answered

theorem sublist_of_split {l l₁ l₂ : List ℕ} {n : ℕ} (h : l = l₁ ++ n :: l₂) :
    (l₁ ++ l₂).Sublist l := by
  rw [h]
  exact (List.Sublist.refl l₁).append (List.sublist_cons_self n l₂)

/-- The number of a name is unique. -/
theorem Valid.index_unique {b : Book ι} (hb : b.Valid) {m n : ℕ} {name : ι}
    (hm : b.issued[m]? = some name) (hn : b.issued[n]? = some name) : m = n := by
  have hlt : m < b.issued.length := (List.getElem?_eq_some_iff.1 hm).1
  exact (List.getElem?_inj hlt hb.names).1 (hm.trans hn.symm)

theorem Valid.move [DecidableEq ι] {b b' : Book ι} (hb : b.Valid) (h : b.Move b') : b'.Valid := by
  cases h with
  | stay => exact hb
  | issue name hname =>
    refine ⟨?_, ?_, ?_, ?_, hb.le_one, ?_⟩
    · exact List.nodup_append.2 ⟨hb.names, List.nodup_singleton name, fun x hx y hy hxy => by
        simp only [List.mem_singleton] at hy
        exact hname (hy ▸ hxy ▸ hx)⟩
    · refine List.nodup_append.2 ⟨hb.once, List.nodup_singleton _, fun n hn m hm hnm => ?_⟩
      simp only [List.mem_singleton] at hm
      have := hb.lt n hn
      omega
    · intro n hn
      simp only [List.mem_append, List.mem_singleton, List.length_append, List.length_singleton]
        at hn ⊢
      rcases hn with hn | rfl
      · have := hb.lt n hn
        omega
      · omega
    · intro n hn x hx
      simp only [List.mem_append, List.mem_singleton] at hn
      rcases hn with hn | rfl
      · rw [List.getElem?_append_left (hb.lt n hn)] at hx
        exact hb.unanswered n hn x hx
      · simp only [List.getElem?_concat_length, Option.some.injEq] at hx
        subst hx
        by_contra hpos
        exact hname (hb.issued_of_answered _ (Nat.pos_of_ne_zero hpos))
    · exact fun x hx => List.mem_append_left _ (hb.issued_of_answered x hx)
  | drop h => exact hb.pending_sublist (sublist_of_split h)
  | @answer l₁ l₂ n h name hn =>
    have hzero : b.answers name = 0 := hb.unanswered n (by simp [h]) name hn
    have hnotMem : n ∉ l₁ ++ l₂ := by
      have hperm : (n :: (l₁ ++ l₂)).Nodup := by
        have := hb.once
        rw [h] at this
        exact List.perm_middle.nodup_iff.1 this
      exact (List.nodup_cons.1 hperm).1
    have hsub := hb.pending_sublist (sublist_of_split h)
    refine ⟨hb.names, hsub.once, hsub.lt, ?_, ?_, ?_⟩
    · intro m hm x hx
      by_cases hxn : x = name
      · subst hxn
        exact absurd hm (hb.index_unique hx hn ▸ hnotMem)
      · simp only [Function.update_of_ne hxn]
        exact hsub.unanswered m hm x hx
    · intro x
      by_cases hxn : x = name
      · subst hxn
        simp [hzero]
      · simp only [Function.update_of_ne hxn]
        exact hb.le_one x
    · intro x hx
      by_cases hxn : x = name
      · subst hxn
        exact List.mem_of_getElem? (l := b.issued) hn
      · simp only [Function.update_of_ne hxn] at hx
        exact hb.issued_of_answered x hx

/-- An answered ticket does not wait. -/
theorem Valid.not_pending {b : Book ι} (hb : b.Valid) {name : ι} (h : 0 < b.answers name) :
    ∀ n ∈ b.pending, b.issued[n]? ≠ some name := by
  intro n hn hname
  have := hb.unanswered n hn name hname
  omega

end Book

end Tickets
