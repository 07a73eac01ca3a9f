import N8n.ArrayExtensions

/-!
# Chunks of an array

Only zero and what is no number are rejected as sizes. With a negative size the loop never ends, and
with `NaN` or a fraction the chunks are not of that size.
-/

namespace N8n

open Doubles

variable {α : Type*}

/-- The chunks make up the array, and all but the last one are of the size. -/
def Chunked (value : List α) (size : Number) (chunks : List (List α)) : Prop :=
  chunks.flatten = value ∧ ∀ chunk ∈ chunks.dropLast, Number.ofNat chunk.length = size

/-- The loop ends, and the chunks are right. -/
def ChunkCorrect (value : JsArray α) (extraArgs : List ExtraArg) (size : Number) : Prop :=
  ∃ fuel chunks, chunk fuel value extraArgs = .ok (some chunks) ∧ Chunked value.items size chunks

/-- A size that an array can be cut into: a positive integer, or one that is not reached. -/
def PartsArray (length : ℕ) : Number → Prop
  | .nan => False
  | .infinity negative => negative = false
  | .finite value _ => 0 < value ∧ (value = ⌊value⌋ ∨ length ≤ value)

theorem chunk_of_size {extraArgs : List ExtraArg} {size : Number}
    (hsize : chunkSize extraArgs = .ok size) (fuel : ℕ) (value : JsArray α) :
    chunk fuel value extraArgs = .ok (chunksFrom value.items size fuel (.ofNat 0)) := by
  rw [chunk, hsize]

/-! ## Indexes -/

section Indexes

variable {value : List α}

theorem lt_ofNat {i n : ℕ} (hi : i < 2 ^ 53) (hn : n < 2 ^ 53) :
    (Number.ofNat i).lt (.ofNat n) = decide (i < n) := by
  rw [Number.ofNat_eq hi, Number.ofNat_eq hn]
  simp only [Number.lt, Nat.cast_lt]

theorem relativeIndex_ofNat {length i : ℕ} (hi : i < 2 ^ 53) :
    relativeIndex length (.ofNat i) = min i length := by
  rw [Number.ofNat_eq hi]
  have hneg : ¬ (i : ℚ) < 0 := not_lt.2 (Nat.cast_nonneg i)
  simp only [relativeIndex, if_neg hneg, Int.floor_natCast, Int.toNat_natCast]

theorem slice_ofNat {i j : ℕ} (hi : i < 2 ^ 53) (hj : j < 2 ^ 53) (hij : i ≤ value.length) :
    slice value (.ofNat i) (.ofNat j) = (value.drop i).take (min j value.length - i) := by
  rw [slice, relativeIndex_ofNat hi, relativeIndex_ofNat hj, min_eq_left hij]

theorem slice_zero (stop : Number) :
    slice value (.ofNat 0) stop = value.take (relativeIndex value.length stop) := by
  rw [slice, relativeIndex_ofNat (by norm_num), Nat.zero_min]
  rfl

theorem relativeIndex_of_pos {size : ℚ} (h : IsDouble size) (hpos : 0 < size) (length : ℕ) :
    relativeIndex length (.finite size h) = min ⌊size⌋.toNat length :=
  if_neg (not_lt.2 hpos.le)

end Indexes

/-! ## Sizes that fit -/

section Fitting

variable {value : List α} (hlength : value.length < 2 ^ 32)

include hlength

/-- A step that leaves the array is the last one. -/
theorem chunksFrom_last {size : Number} (hvalue : value ≠ [])
    (hend : ((Number.ofNat 0).add size).lt (.ofNat value.length) = false)
    (hall : value.length ≤ relativeIndex value.length ((Number.ofNat 0).add size)) :
    chunksFrom value size 2 (.ofNat 0) = some [value] := by
  have hstart : (Number.ofNat 0).lt (.ofNat value.length) = true := by
    rw [lt_ofNat (by norm_num) (by omega), decide_eq_true_iff]
    exact List.length_pos_of_ne_nil hvalue
  rw [chunksFrom, if_pos hstart, chunksFrom, hend, slice_zero, List.take_of_length_le hall]
  rfl

/-- From each index on, the chunks make up what is left. -/
theorem chunksFrom_integer {size : ℕ} (hsize : 0 < size) (hsmall : size < 2 ^ 32) :
    ∀ fuel i, value.length - i < fuel → i < 2 ^ 33 →
      ∃ chunks, chunksFrom value (.ofNat size) fuel (.ofNat i) = some chunks ∧
        chunks.flatten = value.drop i ∧ ∀ chunk ∈ chunks.dropLast, chunk.length = size
  | 0, _, hfuel, _ => absurd hfuel (Nat.not_lt_zero _)
  | fuel + 1, i, hfuel, hi => by
    have hcond : (Number.ofNat i).lt (.ofNat value.length) = decide (i < value.length) :=
      lt_ofNat (by omega) (by omega)
    by_cases hin : i < value.length
    · have hnext : (Number.ofNat i).add (.ofNat size) = .ofNat (i + size) :=
        Number.add_ofNat (by omega)
      obtain ⟨chunks, hchunks, hflat, hfull⟩ :=
        chunksFrom_integer hsize hsmall fuel (i + size) (by omega) (by omega)
      have hslice : slice value (.ofNat i) (.ofNat (i + size)) = (value.drop i).take size := by
        rw [slice_ofNat (by omega) (by omega) hin.le, List.take_eq_take_iff, List.length_drop]
        omega
      refine ⟨(value.drop i).take size :: chunks, ?_, ?_, ?_⟩
      · rw [chunksFrom, hcond, if_pos (decide_eq_true hin), hnext, hchunks, hslice]
        rfl
      · rw [List.flatten_cons, hflat, ← List.drop_drop, List.take_append_drop]
      · intro chunk hchunk
        -- A chunk that is not the last one has more of the array behind it.
        have hmore : i + size < value.length := by
          by_contra hend
          have hnil : chunks.flatten = [] := by rw [hflat, List.drop_eq_nil_iff]; omega
          cases fuel with
          | zero => cases hchunks
          | succ fuel =>
            rw [chunksFrom, lt_ofNat (by omega) (by omega), decide_eq_false hend] at hchunks
            cases hchunks
            cases hchunk
        rcases chunks with _ | ⟨next, chunks⟩
        · cases hchunk
        rw [List.dropLast_cons_cons, List.mem_cons] at hchunk
        rcases hchunk with rfl | hchunk
        · rw [List.length_take, List.length_drop]
          omega
        · exact hfull chunk hchunk
    · refine ⟨[], ?_, ?_, fun chunk hchunk => absurd hchunk List.not_mem_nil⟩
      · rw [chunksFrom, hcond, decide_eq_false hin]
        rfl
      · rw [List.drop_eq_nil_iff.2 (not_lt.1 hin), List.flatten_nil]

end Fitting

/-! ## Other sizes -/

/-- A number before the array and what is reached from it with a negative step. -/
def NotPositive : Number → Prop
  | .nan => False
  | .infinity negative => negative = true
  | .finite value _ => value ≤ 0

theorem NotPositive.add {i size : Number} (hi : NotPositive i) (hsize : NotPositive size) :
    NotPositive (i.add size) := by
  cases i <;> cases size <;> simp only [NotPositive] at hi hsize
  case infinity.infinity => subst hi hsize; rfl
  case infinity.finite => exact hi
  case finite.infinity => exact hsize
  case finite.finite value _ step _ =>
    have hsum : value + step ≤ 0 := by linarith
    simp only [Number.add, Number.ofRat]
    split_ifs with h
    · exact nearest_nonpos hsum
    · -- A sum that overflows is not zero.
      refine decide_eq_true (lt_of_le_of_ne hsum fun heq => h ?_)
      rw [heq, nearest_zero, abs_zero]
      norm_num

theorem NotPositive.lt {i : Number} (hi : NotPositive i) {n : ℕ} (hn : 0 < n) (hsmall : n < 2 ^ 53) :
    i.lt (.ofNat n) = true := by
  rw [Number.ofNat_eq hsmall]
  cases i with
  | nan => cases hi
  | infinity negative => exact hi
  | finite value h =>
    simp only [NotPositive] at hi
    simp only [Number.lt, decide_eq_true_iff]
    exact lt_of_le_of_lt hi (by exact_mod_cast hn)

/-- With a negative size, or zero, the loop does not end. -/
theorem chunksFrom_notPositive {value : List α} (hvalue : value ≠ []) (hlength : value.length < 2 ^ 32)
    {size : Number} (hsize : NotPositive size) :
    ∀ fuel i, NotPositive i → chunksFrom value size fuel i = none
  | 0, _, _ => rfl
  | fuel + 1, i, hi => by
    rw [chunksFrom, if_pos (hi.lt (List.length_pos_of_ne_nil hvalue) (by omega)),
      chunksFrom_notPositive hvalue hlength hsize fuel _ (hi.add hsize), Option.map_none]

theorem chunkCorrect_iff_chunksFrom {value : JsArray α} {extraArgs : List ExtraArg} {size : Number}
    (hsize : chunkSize extraArgs = .ok size) :
    ChunkCorrect value extraArgs size ↔
      ∃ fuel chunks, chunksFrom value.items size fuel (.ofNat 0) = some chunks ∧
        Chunked value.items size chunks := by
  simp only [ChunkCorrect, chunk_of_size hsize, Except.ok.injEq]

theorem notPositive_zero : NotPositive (.ofNat 0) := by
  rw [Number.ofNat_eq (by norm_num)]
  exact Nat.cast_zero.le

theorem chunked_nil (size : Number) :
    ∃ fuel chunks, chunksFrom ([] : List α) size fuel (.ofNat 0) = some chunks ∧
      Chunked [] size chunks := by
  refine ⟨1, [], ?_, rfl, fun chunk hchunk => absurd hchunk List.not_mem_nil⟩
  rw [chunksFrom, lt_ofNat (by norm_num) (by norm_num)]
  rfl

theorem chunked_of_parts {value : List α} (hvalue : value ≠ []) (hlength : value.length < 2 ^ 32)
    {size : Number} (hparts : PartsArray value.length size) :
    ∃ fuel chunks, chunksFrom value size fuel (.ofNat 0) = some chunks ∧
      Chunked value size chunks := by
  have hsingle : Chunked value size [value] :=
    ⟨List.flatten_singleton, fun chunk hchunk => absurd hchunk List.not_mem_nil⟩
  cases size with
  | nan => cases hparts
  | infinity negative =>
    cases hparts
    have hadd : (Number.ofNat 0).add (.infinity false) = .infinity false := by
      rw [Number.ofNat_eq (by norm_num)]
      rfl
    refine ⟨2, [value], chunksFrom_last hlength hvalue ?_ ?_, hsingle⟩
    · rw [hadd, Number.ofNat_eq (by omega)]
      rfl
    · rw [hadd]
      rfl
  | finite step h =>
    obtain ⟨hpos, hwhole⟩ := hparts
    by_cases hlarge : (value.length : ℚ) ≤ step
    · refine ⟨2, [value], chunksFrom_last hlength hvalue ?_ ?_, hsingle⟩
      · rw [Number.zero_add, Number.ofNat_eq (by omega)]
        exact decide_eq_false (not_lt.2 hlarge)
      · rw [Number.zero_add, relativeIndex_of_pos h hpos]
        have hfloor : (value.length : ℤ) ≤ ⌊step⌋ := Int.le_floor.2 (by exact_mod_cast hlarge)
        omega
    · have hint : step = ⌊step⌋ := hwhole.resolve_right hlarge
      have hfloor : 0 < ⌊step⌋ := by
        rw [hint] at hpos
        exact_mod_cast hpos
      obtain ⟨n, hn⟩ := Int.eq_ofNat_of_zero_le hfloor.le
      have hstep : step = n := by
        rw [hint, hn]
        rfl
      subst hstep
      have hsmall : n < value.length := by exact_mod_cast not_le.1 hlarge
      have hnumber : Number.finite (n : ℚ) h = .ofNat n := (Number.ofNat_eq (by omega)).symm
      obtain ⟨chunks, hchunks, hflat, hfull⟩ :=
        chunksFrom_integer hlength (by omega : 0 < n) (by omega) (value.length + 1) 0 (by omega)
          (by norm_num)
      refine ⟨value.length + 1, chunks, hnumber ▸ hchunks, hflat, fun chunk hchunk => ?_⟩
      rw [hfull chunk hchunk, hnumber]

/-- With `NaN` the only chunk is empty. -/
theorem not_chunked_nan {value : List α} (hvalue : value ≠ []) (hlength : value.length < 2 ^ 32)
    {fuel : ℕ} {chunks : List (List α)}
    (hchunks : chunksFrom value .nan fuel (.ofNat 0) = some chunks) : ¬ Chunked value .nan chunks := by
  rintro ⟨hflat, -⟩
  have hstart : (Number.ofNat 0).lt (.ofNat value.length) = true := by
    rw [lt_ofNat (by norm_num) (by omega), decide_eq_true_iff]
    exact List.length_pos_of_ne_nil hvalue
  have hadd : (Number.ofNat 0).add .nan = .nan := by
    rw [Number.ofNat_eq (by norm_num)]
    rfl
  obtain _ | _ | fuel := fuel
  · cases hchunks
  · rw [chunksFrom, if_pos hstart] at hchunks
    cases hchunks
  rw [chunksFrom, if_pos hstart, hadd, slice_zero, chunksFrom] at hchunks
  cases hchunks
  exact hvalue hflat.symm

/-- A fraction that is less than the length is not the size of the first chunk, nor is it the last. -/
theorem not_chunked_fraction {value : List α} (hlength : value.length < 2 ^ 32) {step : ℚ}
    (h : IsDouble step) (hpos : 0 < step) (hfraction : step ≠ ⌊step⌋) (hsmall : step < value.length)
    {fuel : ℕ} {chunks : List (List α)}
    (hchunks : chunksFrom value (.finite step h) fuel (.ofNat 0) = some chunks) :
    ¬ Chunked value (.finite step h) chunks := by
  rintro ⟨-, hfull⟩
  have hcond : (Number.finite step h).lt (.ofNat value.length) = true := by
    rw [Number.ofNat_eq (by omega)]
    exact decide_eq_true hsmall
  have hstart : (Number.ofNat 0).lt (.ofNat value.length) = true := by
    rw [lt_ofNat (by norm_num) (by omega), decide_eq_true_iff]
    exact_mod_cast hpos.trans hsmall
  obtain _ | _ | fuel := fuel
  · cases hchunks
  · rw [chunksFrom, if_pos hstart] at hchunks
    cases hchunks
  rw [chunksFrom, if_pos hstart, Number.zero_add, chunksFrom, if_pos hcond, Option.map_map,
    Option.map_eq_some_iff] at hchunks
  obtain ⟨chunks, -, rfl⟩ := hchunks
  have hsize := hfull _ List.mem_cons_self
  have hshort : (slice value (.ofNat 0) (.finite step h)).length ≤ value.length := by
    rw [slice_zero]
    exact List.length_take_le' _ _
  rw [Number.ofNat_eq (by omega)] at hsize
  injection hsize with hsize
  exact hfraction (by rw [← hsize, Int.floor_natCast, Int.cast_natCast])

/-- The loop ends with chunks of the size that make up the array exactly if the array is empty, or
the size is positive and an integer or at least the length of the array. -/
theorem chunk_correct_iff (value : JsArray α) (extraArgs : List ExtraArg) {size : Number}
    (hsize : chunkSize extraArgs = .ok size) :
    ChunkCorrect value extraArgs size ↔ value.items = [] ∨ PartsArray value.items.length size := by
  rw [chunkCorrect_iff_chunksFrom hsize]
  have hlength := value.length_lt
  constructor
  · rintro ⟨fuel, chunks, hchunks, hchunked⟩
    refine or_iff_not_imp_left.2 fun hvalue => ?_
    have hnotPositive : ¬ NotPositive size := by
      intro hnot
      rw [chunksFrom_notPositive hvalue hlength hnot fuel _ notPositive_zero] at hchunks
      cases hchunks
    cases size with
    | nan => exact absurd hchunked (not_chunked_nan hvalue hlength hchunks)
    | infinity negative => exact Bool.eq_false_of_not_eq_true hnotPositive
    | finite step h =>
      have hpos : 0 < step := not_le.1 hnotPositive
      refine ⟨hpos, or_iff_not_imp_left.2 fun hfraction => not_lt.1 fun hsmall => ?_⟩
      exact not_chunked_fraction hlength h hpos hfraction hsmall hchunks hchunked
  · intro h
    by_cases hvalue : value.items = []
    · rw [hvalue]
      exact chunked_nil size
    · exact chunked_of_parts hvalue hlength (h.resolve_left hvalue)

/-- Three elements in chunks of two. -/
theorem chunk_two_correct :
    ChunkCorrect ⟨['a', 'b', 'c'], by decide⟩ [.number (.finite 2 (by decide +kernel))]
      (.finite 2 (by decide +kernel)) :=
  (chunk_correct_iff _ _ rfl).2 (Or.inr ⟨by decide, Or.inl (by decide +kernel)⟩)

/-- With a size of `-1` the loop does not end. -/
theorem chunk_negative_not_correct :
    chunkSize [.number (.finite (-1) (by decide +kernel))] =
        .ok (.finite (-1) (by decide +kernel)) ∧
      ¬ ChunkCorrect ⟨['a'], by decide⟩ [.number (.finite (-1) (by decide +kernel))]
        (.finite (-1) (by decide +kernel)) := by
  refine ⟨rfl, ?_⟩
  rw [chunkCorrect_iff_chunksFrom rfl]
  rintro ⟨fuel, chunks, hchunks, -⟩
  have hnegative : NotPositive (.finite (-1) (by decide +kernel)) := (by decide : (-1 : ℚ) ≤ 0)
  rw [chunksFrom_notPositive (by simp) (by decide) hnegative fuel _ notPositive_zero] at hchunks
  cases hchunks

end N8n
