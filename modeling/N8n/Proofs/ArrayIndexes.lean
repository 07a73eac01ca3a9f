import Mathlib.Data.Nat.Digits.Defs
import N8n.Values

/-!
# Array indexes

The digits of an array index can be read off its value, so no two keys are the same index.
-/

namespace N8n

theorem isArrayIndex_cases {key : String} (h : isArrayIndex key) :
    key.toList ≠ [] ∧ (∀ digit ∈ key.toList, digit.isDigit) ∧
      (key.toList = ['0'] ∨ key.toList.head? ≠ some '0') := by
  unfold isArrayIndex at h
  split at h
  · cases h
  · rename_i hzero
    rw [hzero]
    exact ⟨by simp, List.forall_mem_singleton.2 rfl, Or.inl rfl⟩
  · rename_i digit digits hdigit hkey
    rw [hkey]
    rw [Bool.and_eq_true, decide_eq_true_iff, List.all_eq_true] at h
    exact ⟨by simp, h.2, Or.inr (by simpa using h.1)⟩

def digitValue (digit : Char) : ℕ := digit.toNat - '0'.toNat

theorem digitValue_spec {digit : Char} (h : digit.isDigit) :
    digitValue digit < 10 ∧ digitValue digit + 48 = digit.toNat := by
  have hzero : '0'.toNat = 48 := rfl
  have hnine : '9'.toNat = 57 := rfl
  rw [Char.isDigit_iff_toNat] at h
  unfold digitValue
  omega

/-- A list of digits can be read off their values. -/
theorem map_digitValue {digits : List Char} (h : ∀ digit ∈ digits, digit.isDigit) :
    (digits.map digitValue).map (fun value => Char.ofNat (value + 48)) = digits := by
  rw [List.map_map]
  refine (List.map_congr_left fun digit hdigit => ?_).trans (List.map_id digits)
  rw [Function.comp_apply, (digitValue_spec (h digit hdigit)).2, Char.ofNat_toNat]
  rfl

theorem arrayIndex_eq_ofDigits (key : String) :
    arrayIndex key = Nat.ofDigits 10 (key.toList.reverse.map digitValue) := by
  unfold arrayIndex
  rw [← List.foldr_reverse]
  induction key.toList.reverse with
  | nil => rfl
  | cons digit digits ih =>
    rw [List.foldr_cons, ih, List.map_cons, Nat.ofDigits_cons, add_comm]
    rfl

/-- The digits of an index other than `0` can be read off the index. -/
theorem digits_arrayIndex {key : String} (h : isArrayIndex key) (hzero : key.toList ≠ ['0']) :
    Nat.digits 10 (arrayIndex key) = key.toList.reverse.map digitValue := by
  obtain ⟨hne, hdigits, hhead⟩ := isArrayIndex_cases h
  rw [arrayIndex_eq_ofDigits]
  refine Nat.digits_ofDigits 10 (by norm_num) _ (fun l hl => ?_) fun hmap => ?_
  · obtain ⟨digit, hdigit, rfl⟩ := List.mem_map.1 hl
    exact (digitValue_spec (hdigits digit (List.mem_reverse.1 hdigit))).1
  · obtain ⟨digit, digits, hkey⟩ := List.exists_cons_of_ne_nil hne
    have hfirst : digit ≠ '0' := by
      rintro rfl
      exact hhead.resolve_left hzero (by rw [hkey]; rfl)
    have hlast : (key.toList.reverse.map digitValue).getLast hmap = digitValue digit := by
      simp only [hkey, List.reverse_cons, List.map_append, List.map_cons, List.map_nil,
        List.getLast_append_singleton]
    have hdigit : digit.isDigit := hdigits digit (hkey ▸ List.mem_cons_self)
    rw [hlast]
    intro hvalue
    have hspec := (digitValue_spec hdigit).2
    rw [hvalue] at hspec
    exact hfirst (Char.toNat_inj.1 hspec.symm)

theorem arrayIndex_eq_zero_iff {key : String} (h : isArrayIndex key) :
    arrayIndex key = 0 ↔ key.toList = ['0'] := by
  constructor
  · intro hvalue
    by_contra hzero
    have hdigits := digits_arrayIndex h hzero
    rw [hvalue, Nat.digits_zero, eq_comm, List.map_eq_nil_iff, List.reverse_eq_nil_iff] at hdigits
    exact (isArrayIndex_cases h).1 hdigits
  · intro hzero
    rw [arrayIndex, hzero]
    rfl

theorem arrayIndex_injective {key key' : String} (h : isArrayIndex key) (h' : isArrayIndex key')
    (heq : arrayIndex key = arrayIndex key') : key = key' := by
  by_cases hzero : key.toList = ['0']
  · have hzero' := (arrayIndex_eq_zero_iff h').1 (heq ▸ (arrayIndex_eq_zero_iff h).2 hzero)
    exact String.toList_inj.1 (hzero.trans hzero'.symm)
  · have hzero' : key'.toList ≠ ['0'] := fun hkey' =>
      hzero ((arrayIndex_eq_zero_iff h).1 (heq.trans ((arrayIndex_eq_zero_iff h').2 hkey')))
    have hdigits := digits_arrayIndex h hzero
    rw [heq, digits_arrayIndex h' hzero'] at hdigits
    have hread {key : String} (h : isArrayIndex key) :=
      map_digitValue fun digit hdigit =>
        (isArrayIndex_cases h).2.1 digit (List.mem_reverse.1 hdigit)
    have hlists := hread h
    rw [← hdigits, hread h'] at hlists
    exact String.toList_inj.1 (List.reverse_injective hlists.symm)

end N8n
