import N8n.Library.Dict

/-!
# Bounded caches

A cache in the order of use: an entry that is used comes last, and the first one goes when there is
no more room.
-/

namespace BoundedCache

variable {κ υ : Type*} [DecidableEq κ]

/-- The entry of the key comes last. -/
def moveToEnd (cache : Dict κ υ) (key : κ) : Dict κ υ :=
  match cache.get? key with
  | none => cache
  | some value => (cache.erase key).set key value

def popFirst (cache : Dict κ υ) : Dict κ υ where
  entries := cache.entries.tail
  nodup := cache.nodup.sublist ((List.tail_sublist _).map _)

/-- Room is made for the entry if there is none. -/
def store (max : ℕ) (cache : Dict κ υ) (key : κ) (value : υ) : Dict κ υ :=
  let cache := if max ≤ cache.size then popFirst cache else cache
  moveToEnd (cache.set key value) key

/-- Each entry is one that the relation allows. -/
def Agrees (R : κ → υ → Prop) (cache : Dict κ υ) : Prop :=
  ∀ key value, cache.get? key = some value → R key value

variable {R : κ → υ → Prop} {cache : Dict κ υ} {key : κ} {value : υ}

theorem agrees_empty : Agrees R Dict.empty := fun _ _ h => by cases h

theorem get?_moveToEnd (cache : Dict κ υ) (key key' : κ) :
    (moveToEnd cache key).get? key' = cache.get? key' := by
  unfold moveToEnd
  cases hkey : cache.get? key with
  | none => rfl
  | some value =>
    dsimp only
    rw [Dict.get?_set]
    split_ifs with h
    · rw [h, hkey]
    · rw [Dict.get?_erase_of_ne _ h]

theorem Agrees.moveToEnd (h : Agrees R cache) (key : κ) : Agrees R (moveToEnd cache key) := by
  intro key' value' hvalue
  rw [get?_moveToEnd] at hvalue
  exact h key' value' hvalue

theorem Agrees.popFirst (h : Agrees R cache) : Agrees R (popFirst cache) := fun key value hvalue =>
  h key value (Dict.mem_entries.1 (List.mem_of_mem_tail (Dict.mem_entries.2 hvalue)))

theorem Agrees.set (h : Agrees R cache) (hnew : R key value) : Agrees R (cache.set key value) := by
  intro key' value' hvalue
  rw [Dict.get?_set] at hvalue
  split_ifs at hvalue with heq
  · rw [heq, ← Option.some.inj hvalue]
    exact hnew
  · exact h key' value' hvalue

theorem Agrees.store (h : Agrees R cache) (hnew : R key value) (max : ℕ) :
    Agrees R (store max cache key value) := by
  unfold BoundedCache.store
  dsimp only
  split_ifs
  · exact (h.popFirst.set hnew).moveToEnd key
  · exact (h.set hnew).moveToEnd key

theorem size_moveToEnd (cache : Dict κ υ) (key : κ) :
    (moveToEnd cache key).size ≤ cache.size := by
  unfold moveToEnd
  cases hkey : cache.get? key with
  | none => exact Nat.le_refl _
  | some value =>
    have herase := Dict.size_erase hkey
    have hset := Dict.size_set_le (cache.erase key) key value
    dsimp only
    omega

omit [DecidableEq κ] in
theorem size_popFirst (cache : Dict κ υ) : (popFirst cache).size = cache.size - 1 :=
  List.length_tail

theorem size_store {max : ℕ} (hmax : 0 < max) (h : cache.size ≤ max) (key : κ) (value : υ) :
    (store max cache key value).size ≤ max := by
  unfold store
  dsimp only
  refine Nat.le_trans (size_moveToEnd _ key) ?_
  split_ifs with hfull
  · have hpop := size_popFirst cache
    have hset := Dict.size_set_le (popFirst cache) key value
    omega
  · have hset := Dict.size_set_le cache key value
    omega

end BoundedCache
