import Mathlib.Data.Int.Log
import Mathlib.Data.Rat.Floor
import Mathlib.Tactic.Linarith
import Mathlib.Tactic.Ring
import Mathlib.Algebra.Order.Round
import Mathlib.Algebra.Ring.Int.Parity

/-!
# Double-precision numbers

A finite number is a rational that rounding to 53 significant bits leaves as it is. Sums are rounded
to the nearest such number, to an even last bit where two are equally near. Zero has no sign here.
-/

namespace Doubles

/-! ## Rounding -/

/-- The exponent of the last bit. Below it are only the bits of subnormal numbers. -/
def lastBit (x : ℚ) : ℤ := max (Int.log 2 |x| - 52) (-1074)

def roundHalfEven (x : ℚ) : ℤ :=
  if x - ⌊x⌋ < 1 / 2 ∨ x - ⌊x⌋ = 1 / 2 ∧ Even ⌊x⌋ then ⌊x⌋ else ⌊x⌋ + 1

def nearest (x : ℚ) : ℚ := roundHalfEven (x / 2 ^ lastBit x) * 2 ^ lastBit x

theorem roundHalfEven_intCast (m : ℤ) : roundHalfEven m = m := by
  simp [roundHalfEven]

theorem roundHalfEven_nonpos {x : ℚ} (hx : x ≤ 0) : roundHalfEven x ≤ 0 := by
  have hfloor : (⌊x⌋ : ℚ) ≤ x := Int.floor_le x
  have hnonpos : ⌊x⌋ ≤ 0 := by
    exact_mod_cast hfloor.trans hx
  unfold roundHalfEven
  split_ifs with h
  · exact hnonpos
  · by_contra hpos
    have hzero : ⌊x⌋ = 0 := by omega
    rw [hzero] at h
    exact h (Or.inl (by push_cast; linarith))

theorem floor_le_roundHalfEven (x : ℚ) : ⌊x⌋ ≤ roundHalfEven x := by
  unfold roundHalfEven
  split_ifs <;> omega

theorem roundHalfEven_le_ceil (x : ℚ) : roundHalfEven x ≤ ⌈x⌉ := by
  unfold roundHalfEven
  split_ifs with h
  · exact Int.floor_le_ceil x
  · refine Int.add_one_le_iff.2 (Int.lt_ceil.2 (lt_of_le_of_ne (Int.floor_le x) fun heq => ?_))
    exact h (Or.inl (by rw [← heq]; norm_num))

theorem abs_roundHalfEven_le {x : ℚ} {m : ℤ} (hx : |x| ≤ m) : |roundHalfEven x| ≤ m := by
  obtain ⟨hlow, hhigh⟩ := abs_le.1 hx
  refine abs_le.2 ⟨le_trans (Int.le_floor.2 (by push_cast; exact hlow)) (floor_le_roundHalfEven x), ?_⟩
  exact (roundHalfEven_le_ceil x).trans (Int.ceil_le.2 hhigh)

theorem nearest_nonpos {x : ℚ} (hx : x ≤ 0) : nearest x ≤ 0 := by
  have hpos : (0 : ℚ) < 2 ^ lastBit x := zpow_pos (by norm_num) _
  have hdiv : x / 2 ^ lastBit x ≤ 0 := div_nonpos_of_nonpos_of_nonneg hx hpos.le
  exact mul_nonpos_of_nonpos_of_nonneg (by exact_mod_cast roundHalfEven_nonpos hdiv) hpos.le

/-- A multiple of its last bit is not rounded. -/
theorem nearest_eq_self {x : ℚ} {m : ℤ} (hx : x = m * 2 ^ lastBit x) : nearest x = x := by
  have hne : (2 : ℚ) ^ lastBit x ≠ 0 := zpow_ne_zero _ (by norm_num)
  have hdiv : x / 2 ^ lastBit x = m := by
    rw [div_eq_iff hne]
    exact hx
  rw [nearest, hdiv, roundHalfEven_intCast]
  exact hx.symm

/-- A multiple of a power of two is also one of the smaller powers. -/
theorem exists_mul_zpow {m e e' : ℤ} (he : e' ≤ e) : ∃ m' : ℤ, (m * 2 ^ e : ℚ) = m' * 2 ^ e' := by
  refine ⟨m * 2 ^ (e - e').toNat, ?_⟩
  have hexp : ((e - e').toNat : ℤ) = e - e' := Int.toNat_of_nonneg (by omega)
  push_cast
  rw [← zpow_natCast, hexp, mul_assoc, ← zpow_add₀ (by norm_num : (2 : ℚ) ≠ 0)]
  congr 2
  ring

theorem lastBit_le {x : ℚ} {e : ℤ} (hx : |x| < 2 ^ (e + 53)) (hzero : x ≠ 0) (he : -1074 ≤ e) :
    lastBit x ≤ e := by
  have hlog : Int.log 2 |x| < e + 53 :=
    (Int.lt_zpow_iff_log_lt (by norm_num) (abs_pos.2 hzero)).1 (by exact_mod_cast hx)
  unfold lastBit
  omega

theorem nearest_zero : nearest 0 = 0 :=
  nearest_eq_self (m := 0) (by simp)

theorem nearest_intCast {n : ℤ} (hn : |n| < 2 ^ 53) : nearest n = n := by
  by_cases hzero : n = 0
  · rw [hzero, Int.cast_zero, nearest_zero]
  have hbit : lastBit n ≤ 0 := by
    refine lastBit_le ?_ (by exact_mod_cast hzero) (by norm_num)
    rw [zero_add]
    exact_mod_cast hn
  obtain ⟨m, hm⟩ := exists_mul_zpow (m := n) hbit
  rw [zpow_zero, mul_one] at hm
  exact nearest_eq_self hm

theorem abs_div_lastBit_le (x : ℚ) : |x / 2 ^ lastBit x| ≤ ((2 ^ 53 : ℤ) : ℚ) := by
  have hpos : (0 : ℚ) < 2 ^ lastBit x := zpow_pos (by norm_num) _
  rw [abs_div, abs_of_pos hpos, div_le_iff₀ hpos]
  have hlog : |x| < 2 ^ (Int.log 2 |x| + 1) := by
    exact_mod_cast Int.lt_zpow_succ_log_self (by norm_num : 1 < 2) |x|
  have hexp : Int.log 2 |x| + 1 ≤ 53 + lastBit x := by
    unfold lastBit
    omega
  calc |x| ≤ 2 ^ (Int.log 2 |x| + 1) := hlog.le
    _ ≤ 2 ^ (53 + lastBit x) := zpow_le_zpow_right₀ (by norm_num) hexp
    _ = ((2 ^ 53 : ℤ) : ℚ) * 2 ^ lastBit x := by
      rw [zpow_add₀ (by norm_num)]
      norm_num

/-- A significand that is rounded up to the next power of two loses its last bit. -/
theorem nearest_mul_zpow {m e : ℤ} (hm : |m| ≤ 2 ^ 53) (he : -1074 ≤ e) :
    nearest (m * 2 ^ e) = m * 2 ^ e := by
  have hpos : (0 : ℚ) < 2 ^ e := zpow_pos (by norm_num) _
  by_cases hzero : m = 0
  · rw [hzero, Int.cast_zero, zero_mul, nearest_zero]
  have hne : (m * 2 ^ e : ℚ) ≠ 0 := mul_ne_zero (by exact_mod_cast hzero) hpos.ne'
  rcases hm.lt_or_eq with hlt | heq
  · have hbit : lastBit (m * 2 ^ e) ≤ e := by
      refine lastBit_le ?_ hne he
      rw [abs_mul, abs_of_pos hpos, zpow_add₀ (by norm_num), mul_comm]
      exact mul_lt_mul_of_pos_left (by exact_mod_cast hlt) hpos
    obtain ⟨m', hm'⟩ := exists_mul_zpow (m := m) hbit
    exact nearest_eq_self hm'
  · have habs : |(m * 2 ^ e : ℚ)| = (2 : ℕ) ^ (e + 53) := by
      rw [abs_mul, abs_of_pos hpos, Nat.cast_ofNat, zpow_add₀ (by norm_num), mul_comm]
      congr 1
      exact_mod_cast heq
    have hbit : lastBit (m * 2 ^ e) = e + 1 := by
      rw [lastBit, habs, Int.log_zpow (by norm_num)]
      omega
    rcases abs_eq (by norm_num) |>.1 heq with h | h
    · refine nearest_eq_self (m := 2 ^ 52) ?_
      rw [hbit, h, zpow_add_one₀ (by norm_num)]
      push_cast
      ring
    · refine nearest_eq_self (m := -2 ^ 52) ?_
      rw [hbit, h, zpow_add_one₀ (by norm_num)]
      push_cast
      ring

theorem nearest_nearest (x : ℚ) : nearest (nearest x) = nearest x :=
  nearest_mul_zpow (abs_roundHalfEven_le (abs_div_lastBit_le x)) (le_max_right _ _)

/-! ## Numbers -/

/-- A rational that is a finite number. -/
def IsDouble (value : ℚ) : Prop := nearest value = value ∧ |value| < 2 ^ 1024

instance (value : ℚ) : Decidable (IsDouble value) :=
  inferInstanceAs (Decidable (nearest value = value ∧ |value| < 2 ^ 1024))

inductive Number
  | nan
  | infinity (negative : Bool)
  | finite (value : ℚ) (h : IsDouble value)

namespace Number

/-- The number that is nearest to a rational. Too large ones overflow. -/
def ofRat (x : ℚ) : Number :=
  if h : |nearest x| < 2 ^ 1024 then .finite (nearest x) ⟨nearest_nearest x, h⟩
  else .infinity (x < 0)

def ofNat (n : ℕ) : Number := ofRat n

def add : Number → Number → Number
  | .nan, _ | _, .nan => .nan
  | .infinity negative, .infinity negative' =>
    if negative = negative' then .infinity negative else .nan
  | .infinity negative, .finite _ _ | .finite _ _, .infinity negative => .infinity negative
  | .finite value _, .finite value' _ => ofRat (value + value')

/-- `<`, which never holds of `NaN`. -/
def lt : Number → Number → Bool
  | .nan, _ | _, .nan => false
  | .infinity negative, .infinity negative' => negative && !negative'
  | .infinity negative, .finite _ _ => negative
  | .finite _ _, .infinity negative => !negative
  | .finite value _, .finite value' _ => value < value'

/-- `<=` -/
def le : Number → Number → Bool
  | .finite value _, .finite value' _ => value ≤ value'
  | .infinity negative, .infinity negative' => negative || !negative'
  | a, b => a.lt b

/-- The same value, where `NaN` is the same as itself. -/
def same : Number → Number → Bool
  | .nan, .nan => true
  | .infinity negative, .infinity negative' => negative == negative'
  | .finite value _, .finite value' _ => value = value'
  | _, _ => false

theorem same_iff {a b : Number} : a.same b = true ↔ a = b := by
  cases a <;> cases b <;> simp [same]

instance : DecidableEq Number := fun _ _ => decidable_of_iff _ same_iff

/-- `/` -/
def div : Number → Number → Number
  | .nan, _ | _, .nan | .infinity _, .infinity _ => .nan
  | .infinity negative, .finite value _ => .infinity (negative != decide (value < 0))
  | .finite _ _, .infinity _ => ofRat 0
  | .finite value _, .finite value' _ =>
    if value' = 0 then if value = 0 then .nan else .infinity (value < 0) else ofRat (value / value')

theorem ofRat_of_isDouble {x : ℚ} (hx : IsDouble x) : ofRat x = .finite x hx := by
  unfold ofRat
  split_ifs with h
  · congr 1
    exact hx.1
  · rw [hx.1] at h
    exact absurd hx.2 h

theorem isDouble_natCast {n : ℕ} (hn : n < 2 ^ 53) : IsDouble n := by
  have habs : |(n : ℤ)| < 2 ^ 53 := by
    rw [Nat.abs_cast]
    exact_mod_cast hn
  refine ⟨by exact_mod_cast nearest_intCast habs, ?_⟩
  rw [Nat.abs_cast]
  calc (n : ℚ) < 2 ^ 53 := by exact_mod_cast hn
    _ ≤ 2 ^ 1024 := pow_le_pow_right₀ (by norm_num) (by norm_num)

theorem ofNat_eq {n : ℕ} (hn : n < 2 ^ 53) : ofNat n = .finite n (isDouble_natCast hn) :=
  ofRat_of_isDouble _

/-- Integers are added exactly. -/
theorem add_ofNat {m n : ℕ} (hsum : m + n < 2 ^ 53) :
    (ofNat m).add (ofNat n) = ofNat (m + n) := by
  rw [ofNat_eq (by omega : m < 2 ^ 53), ofNat_eq (by omega : n < 2 ^ 53), ofNat, Nat.cast_add]
  rfl

theorem zero_add {value : ℚ} (h : IsDouble value) :
    (ofNat 0).add (.finite value h) = .finite value h := by
  rw [ofNat_eq (by norm_num)]
  change ofRat ((0 : ℕ) + value) = _
  rw [Nat.cast_zero, Rat.zero_add, ofRat_of_isDouble h]

end Number

end Doubles
