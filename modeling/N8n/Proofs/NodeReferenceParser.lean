import Mathlib.Data.List.Perm.Subperm
import N8n.NodeReferenceParser
import N8n.Proofs.ParameterValues

/-!
# References that are kept apart

The names of one prefix are kept apart by their keys. If no name is tried with two prefixes either,
and each expression stands where a reference by it starts only, the references become variables one
by one.
-/

namespace N8n

open Replacement

namespace NodeReferenceParser

/-! ## Names that are taken -/

theorem appendWhile_spec (taken : CodeUnits → Bool) (suffix : CodeUnits) :
    ∀ (turns : ℕ) (name : CodeUnits), ∃ i ≤ turns,
      appendWhile taken suffix turns name = name ++ (List.replicate i suffix).flatten ∧
      (∀ j < i, taken (name ++ (List.replicate j suffix).flatten) = true) ∧
      (taken (name ++ (List.replicate i suffix).flatten) = true → i = turns)
  | 0, name => ⟨0, le_rfl, by simp [appendWhile], fun j hj => absurd hj (Nat.not_lt_zero j),
      fun _ => rfl⟩
  | turns + 1, name => by
    unfold appendWhile
    by_cases hname : taken name = true
    · obtain ⟨i, hi, heq, htaken, hlast⟩ := appendWhile_spec taken suffix turns (name ++ suffix)
      have hshift (j : ℕ) : name ++ suffix ++ (List.replicate j suffix).flatten =
          name ++ (List.replicate (j + 1) suffix).flatten := by
        rw [List.replicate_succ, List.flatten_cons, List.append_assoc]
      rw [hshift] at heq hlast
      rw [if_pos hname]
      refine ⟨i + 1, Nat.succ_le_succ hi, heq, fun j hj => ?_, fun h => by rw [hlast h]⟩
      cases j with
      | zero => simpa using hname
      | succ j =>
        rw [← hshift]
        exact htaken j (Nat.lt_of_succ_lt_succ hj)
    · rw [if_neg hname]
      refine ⟨0, Nat.zero_le _, by simp, fun j hj => absurd hj (Nat.not_lt_zero j), fun h => ?_⟩
      rw [List.replicate_zero, List.flatten_nil, List.append_nil] at h
      exact absurd h hname

section Names

variable (allNodeNames : List CodeUnits)

theorem length_nameAt_lt (mapping : ExpressionMapping) (turns : ℕ) :
    (nameAt allNodeNames mapping turns).length <
      (nameAt allNodeNames mapping (turns + 1)).length := by
  have hsuffix : (units "_1").length = 2 := rfl
  unfold nameAt
  cases hname : withNodeName allNodeNames mapping with
  | none => cases turns <;> simp [hsuffix]
  | some name =>
    cases turns with
    | zero =>
      unfold withNodeName at hname
      have hlength : (units "_").length = 1 := rfl
      split at hname
      · cases hname
      · cases hname
      · obtain rfl := Option.some.inj hname
        simp only [List.length_append, hlength]
        omega
    | succ turns => simp [hsuffix]

/-- Each name is longer than those before it. -/
theorem strictMono_length_nameAt (mapping : ExpressionMapping) :
    StrictMono fun turns => (nameAt allNodeNames mapping turns).length :=
  strictMono_nat_of_lt_succ (length_nameAt_lt allNodeNames mapping)

theorem nameAt_injective (mapping : ExpressionMapping) :
    Function.Injective (nameAt allNodeNames mapping) := fun _ _ h =>
  (strictMono_length_nameAt allNodeNames mapping).injective (congrArg List.length h)

end Names

theorem ExpressionMapping.keyOf_injective (mapping : ExpressionMapping) :
    Function.Injective mapping.keyOf := fun _ _ h => List.append_cancel_left h

/-- Not all of so many names are taken. -/
theorem exists_not_taken (map : Dict CodeUnits ExpressionMapping) {f : ℕ → CodeUnits}
    (hf : Function.Injective f) : ∃ i ≤ map.size, map.get? (f i) = none := by
  by_contra hall
  push Not at hall
  have hnodup : ((List.range (map.size + 1)).map f).Nodup := List.nodup_range.map hf
  have hsubset : (List.range (map.size + 1)).map f ⊆ map.keys := by
    intro key hkey
    obtain ⟨i, hi, rfl⟩ := List.mem_map.1 hkey
    rw [Dict.mem_keys, Option.isSome_iff_ne_none]
    exact hall i (Nat.le_of_lt_succ (List.mem_range.1 hi))
  have hle := (hnodup.subperm hsubset).length_le
  rw [List.length_map, List.length_range] at hle
  have hsize : map.keys.length = map.size := List.length_map _
  omega

section Resolving

variable {allNodeNames : List CodeUnits} {maps : DuplicateMaps} {mapping : ExpressionMapping}

theorem hasKeyAndCollides_iff {map : Dict CodeUnits ExpressionMapping} {key : CodeUnits} :
    hasKeyAndCollides map mapping key = true ↔
      ∃ value, map.get? key = some value ∧ value ≠ mapping := by
  unfold hasKeyAndCollides
  cases map.get? key <;> simp

/-- The turns are enough: the loop ends at the first name that does not collide. -/
theorem appendWhile_collides (map : Dict CodeUnits ExpressionMapping)
    (mapping : ExpressionMapping) (name : CodeUnits) : ∃ i,
      appendWhile (fun name => hasKeyAndCollides map mapping (mapping.keyOf name)) (units "_1")
        map.size name = name ++ (List.replicate i (units "_1")).flatten ∧
      hasKeyAndCollides map mapping
        (mapping.keyOf (name ++ (List.replicate i (units "_1")).flatten)) = false ∧
      ∀ j < i, hasKeyAndCollides map mapping
        (mapping.keyOf (name ++ (List.replicate j (units "_1")).flatten)) = true := by
  obtain ⟨i, -, heq, htaken, hlast⟩ := appendWhile_spec
    (fun name => hasKeyAndCollides map mapping (mapping.keyOf name)) (units "_1") map.size name
  refine ⟨i, heq, ?_, htaken⟩
  by_contra hcollides
  rw [Bool.not_eq_false] at hcollides
  have hinjective : Function.Injective fun j =>
      mapping.keyOf (name ++ (List.replicate j (units "_1")).flatten) := by
    intro j j' h
    have hlength := congrArg List.length (List.append_cancel_left (mapping.keyOf_injective h))
    have hsuffix : (units "_1").length = 2 := rfl
    simpa [hsuffix] using hlength
  obtain ⟨j, hj, hnone⟩ := exists_not_taken map hinjective
  have hsize := hlast hcollides
  have hcollides' : hasKeyAndCollides map mapping
      (mapping.keyOf (name ++ (List.replicate j (units "_1")).flatten)) = true := by
    rcases Nat.lt_or_eq_of_le hj with hlt | heq
    · exact htaken j (by omega)
    · rwa [heq, ← hsize]
  obtain ⟨value, hvalue, -⟩ := hasKeyAndCollides_iff.1 hcollides'
  rw [hnone] at hvalue
  cases hvalue

theorem nameAt_of_none (h : withNodeName allNodeNames mapping = none) (turns : ℕ) :
    nameAt allNodeNames mapping turns =
      mapping.replacementName ++ (List.replicate turns (units "_1")).flatten := by
  cases turns with
  | zero => simp [nameAt]
  | succ turns => simp only [nameAt, h]

theorem nameAt_succ_of_some {name : CodeUnits} (h : withNodeName allNodeNames mapping = some name)
    (turns : ℕ) : nameAt allNodeNames mapping (turns + 1) =
      name ++ (List.replicate turns (units "_1")).flatten := by
  simp only [nameAt, h]

/-- The name is the first one that is tried and does not collide. -/
theorem resolveName_spec (allNodeNames : List CodeUnits) (map : Dict CodeUnits ExpressionMapping)
    (mapping : ExpressionMapping) : ∃ turns,
      resolveName allNodeNames map mapping = nameAt allNodeNames mapping turns ∧
      hasKeyAndCollides map mapping (mapping.keyOf (nameAt allNodeNames mapping turns)) = false ∧
      ∀ j < turns,
        hasKeyAndCollides map mapping (mapping.keyOf (nameAt allNodeNames mapping j)) = true := by
  unfold resolveName
  dsimp only
  by_cases hfirst : hasKeyAndCollides map mapping (mapping.keyOf mapping.replacementName) = true
  · rw [if_pos hfirst]
    obtain ⟨i, heq, hnone, htaken⟩ := appendWhile_collides map mapping
      ((withNodeName allNodeNames mapping).getD mapping.replacementName)
    rw [heq]
    cases hname : withNodeName allNodeNames mapping with
    | none =>
      rw [hname] at hnone htaken
      refine ⟨i, (nameAt_of_none hname i).symm, by rwa [nameAt_of_none hname], fun j hj => ?_⟩
      rw [nameAt_of_none hname]
      exact htaken j hj
    | some name =>
      rw [hname] at hnone htaken
      refine ⟨i + 1, (nameAt_succ_of_some hname i).symm, by rwa [nameAt_succ_of_some hname],
        fun j hj => ?_⟩
      cases j with
      | zero => exact hfirst
      | succ j =>
        rw [nameAt_succ_of_some hname]
        exact htaken j (Nat.lt_of_succ_lt_succ hj)
  · rw [if_neg hfirst]
    obtain ⟨i, heq, hnone, htaken⟩ := appendWhile_collides map mapping mapping.replacementName
    have hzero : i = 0 := by
      by_contra hne
      have hstart := htaken 0 (Nat.pos_of_ne_zero hne)
      rw [List.replicate_zero, List.flatten_nil, List.append_nil] at hstart
      exact hfirst hstart
    subst hzero
    exact ⟨0, by simpa [nameAt] using heq, Bool.eq_false_iff.2 hfirst,
      fun j hj => absurd hj (Nat.not_lt_zero j)⟩

/-- A reference under one of the names that are tried for it. -/
def named (allNodeNames : List CodeUnits) (mapping : ExpressionMapping) (turns : ℕ) :
    ExpressionMapping :=
  { mapping with replacementName := nameAt allNodeNames mapping turns }

/-- What the maps hold after some references. -/
structure Resolved (allNodeNames : List CodeUnits) (references : List ExpressionMapping)
    (maps : DuplicateMaps) : Prop where
  /-- The first name of each reference is taken. -/
  taken : ∀ mapping ∈ references, (maps.triggerArgumentMap.get? mapping.key).isSome
  /-- Each key is held by a reference that has tried its name, before the others of that name. -/
  held : ∀ key value, maps.triggerArgumentMap.get? key = some value → value.key = key ∧
    ∃ earlier mapping later turns, references = earlier ++ mapping :: later ∧
      Tries allNodeNames earlier mapping turns ∧ named allNodeNames mapping turns = value ∧
      ∀ mapping' ∈ earlier, mapping'.key ≠ key
  found : ∀ mapping ∈ references, ∃ value,
    maps.originalExpressionMap.get? mapping.originalExpression = some value.key ∧
      maps.triggerArgumentMap.get? value.key = some value ∧
      value.originalExpression = mapping.originalExpression
  only : ∀ originalExpression key,
    maps.originalExpressionMap.get? originalExpression = some key →
      originalExpression ∈ references.map ExpressionMapping.originalExpression

theorem resolved_nil : Resolved allNodeNames [] ⟨.empty, .empty⟩ where
  taken _ h := absurd h List.not_mem_nil
  held _ _ h := by cases h
  found _ h := absurd h List.not_mem_nil
  only _ _ h := by cases h

variable {references : List ExpressionMapping}

/-- What collides has been tried before. -/
theorem Resolved.tries (h : Resolved allNodeNames references maps) {turns : ℕ}
    (hcollides : ∀ j < turns, hasKeyAndCollides maps.triggerArgumentMap mapping
      (mapping.keyOf (nameAt allNodeNames mapping j)) = true) :
    Tries allNodeNames references mapping turns := by
  induction turns with
  | zero => exact .first _ _
  | succ turns ih =>
    have htries := ih fun j hj => hcollides j (Nat.lt_succ_of_lt hj)
    obtain ⟨value, hvalue, hne⟩ := hasKeyAndCollides_iff.1 (hcollides turns (Nat.lt_succ_self _))
    obtain ⟨hkey, earlier, other, later, turns', hreferences, hother, rfl, hfirst⟩ :=
      h.held _ _ hvalue
    refine .next htries hreferences hother hkey fun hzero hmem => ?_
    subst hzero
    rcases List.mem_append.1 hmem with hearlier | hlast
    · exact hfirst mapping hearlier rfl
    · obtain rfl := List.mem_singleton.1 hlast
      have hname := nameAt_injective _ _ (mapping.keyOf_injective hkey)
      subst hname
      exact hne rfl

/-- A key that is taken keeps its value. -/
theorem Resolved.set_resolved {key : CodeUnits} {value : ExpressionMapping} {turns : ℕ}
    (h : Resolved allNodeNames references maps)
    (hfree : hasKeyAndCollides maps.triggerArgumentMap mapping
      (named allNodeNames mapping turns).key = false)
    (hvalue : maps.triggerArgumentMap.get? key = some value) :
    (maps.triggerArgumentMap.set (named allNodeNames mapping turns).key
      (named allNodeNames mapping turns)).get? key = some value := by
  rw [Dict.get?_set]
  split_ifs with hkey
  · subst hkey
    have hsame : value = mapping := by
      by_contra hne
      rw [hasKeyAndCollides_iff.2 ⟨value, hvalue, hne⟩] at hfree
      cases hfree
    subst hsame
    have hzero := nameAt_injective allNodeNames value
      (value.keyOf_injective (h.held _ _ hvalue).1 : nameAt allNodeNames value 0 = _)
    subst hzero
    rfl
  · exact hvalue

theorem Resolved.resolveMapping (h : Resolved allNodeNames references maps)
    (mapping : ExpressionMapping) :
    Resolved allNodeNames (references ++ [mapping]) (resolveMapping allNodeNames maps mapping) := by
  obtain ⟨turns, hname, hfree, hcollides⟩ :=
    resolveName_spec allNodeNames maps.triggerArgumentMap mapping
  have hmaps : NodeReferenceParser.resolveMapping allNodeNames maps mapping =
      { triggerArgumentMap := maps.triggerArgumentMap.set (named allNodeNames mapping turns).key
          (named allNodeNames mapping turns)
        originalExpressionMap := maps.originalExpressionMap.set mapping.originalExpression
          (named allNodeNames mapping turns).key } := by
    unfold NodeReferenceParser.resolveMapping
    rw [hname]
    rfl
  have hkeep {key : CodeUnits} {value : ExpressionMapping}
      (hvalue : maps.triggerArgumentMap.get? key = some value) := h.set_resolved hfree hvalue
  rw [hmaps]
  constructor
  · intro mapping' hmem
    rcases List.mem_append.1 hmem with hold | hnew
    · obtain ⟨value, hvalue⟩ := Option.isSome_iff_exists.1 (h.taken mapping' hold)
      exact Option.isSome_iff_exists.2 ⟨value, hkeep hvalue⟩
    · obtain rfl := List.mem_singleton.1 hnew
      cases turns with
      | zero => exact Option.isSome_iff_exists.2 ⟨_, Dict.get?_set_self _ _ _⟩
      | succ turns =>
        obtain ⟨value, hvalue, -⟩ := hasKeyAndCollides_iff.1 (hcollides 0 (Nat.succ_pos _))
        exact Option.isSome_iff_exists.2 ⟨value, hkeep hvalue⟩
  · intro key value hvalue
    cases hold : maps.triggerArgumentMap.get? key with
    | some value' =>
      rw [hkeep hold] at hvalue
      obtain rfl := Option.some.inj hvalue
      obtain ⟨hkey, earlier, other, later, turns', rfl, hother⟩ := h.held _ _ hold
      exact ⟨hkey, earlier, other, later ++ [mapping], turns', by simp, hother⟩
    | none =>
      rw [Dict.get?_set] at hvalue
      split_ifs at hvalue with hkey
      · obtain rfl := Option.some.inj hvalue
        refine ⟨hkey.symm, references, mapping, [], turns, rfl, h.tries hcollides, rfl, ?_⟩
        rintro mapping' hmem rfl
        have htaken := h.taken mapping' hmem
        rw [hold] at htaken
        cases htaken
      · rw [hold] at hvalue
        cases hvalue
  · intro mapping' hmem
    by_cases hsame : mapping'.originalExpression = mapping.originalExpression
    · refine ⟨named allNodeNames mapping turns, ?_, Dict.get?_set_self _ _ _, hsame.symm⟩
      rw [hsame]
      exact Dict.get?_set_self _ _ _
    · have hold : mapping' ∈ references := by
        rcases List.mem_append.1 hmem with hold | hnew
        · exact hold
        · exact absurd (congrArg _ (List.mem_singleton.1 hnew)) hsame
      obtain ⟨value, hkey, hvalue, horiginal⟩ := h.found mapping' hold
      refine ⟨value, ?_, hkeep hvalue, horiginal⟩
      rw [Dict.get?_set_of_ne _ hsame]
      exact hkey
  · intro originalExpression key hkey
    rw [List.map_append, List.mem_append]
    rw [Dict.get?_set] at hkey
    split_ifs at hkey with hsame
    · exact .inr (by simp [hsame])
    · exact .inl (h.only _ _ hkey)

theorem Resolved.foldl : ∀ (data : List ExpressionMapping) {references : List ExpressionMapping}
    {maps : DuplicateMaps}, Resolved allNodeNames references maps →
      Resolved allNodeNames (references ++ data)
        (data.foldl (NodeReferenceParser.resolveMapping allNodeNames) maps)
  | [], _, _, h => by rwa [List.append_nil]
  | mapping :: data, _, _, h => by
    have hrest := Resolved.foldl data (h.resolveMapping mapping)
    rwa [List.append_assoc] at hrest

/-- After all references the maps hold one value for each. -/
theorem resolved_resolveDuplicates (references : List ExpressionMapping)
    (allNodeNames : List CodeUnits) :
    Resolved allNodeNames references (resolveDuplicates references allNodeNames) :=
  .foldl references resolved_nil

end Resolving

/-! ## The canonical data -/

section Canonical

variable {allNodeNames : List CodeUnits} {references : List ExpressionMapping}
  {maps : DuplicateMaps}

theorem key_ne_nil (mapping : ExpressionMapping) : mapping.key ≠ [] := by
  have hdot : units "." ≠ [] := by decide
  simp [ExpressionMapping.key, ExpressionMapping.keyOf, hdot]

/-- What the references of one expression become: one of them, under a name that it tries. -/
structure IsCanonical (allNodeNames : List CodeUnits) (references : List ExpressionMapping)
    (maps : DuplicateMaps) (value : ExpressionMapping) : Prop where
  held : maps.triggerArgumentMap.get? value.key = some value
  mem : value.originalExpression ∈ references.map ExpressionMapping.originalExpression
  tried : ∃ mapping turns, Tried allNodeNames references mapping value.replacementName ∧
    named allNodeNames mapping turns = value

theorem Resolved.isCanonical (h : Resolved allNodeNames references maps)
    {originalExpression : CodeUnits}
    (hmem : originalExpression ∈ references.map ExpressionMapping.originalExpression) :
    ∃ value, getCanonicalData maps originalExpression = some value ∧
      value.originalExpression = originalExpression ∧
      IsCanonical allNodeNames references maps value := by
  obtain ⟨mapping, hmapping, rfl⟩ := List.mem_map.1 hmem
  obtain ⟨value, hkey, hvalue, horiginal⟩ := h.found mapping hmapping
  refine ⟨value, ?_, horiginal, hvalue, horiginal ▸ hmem, ?_⟩
  · unfold getCanonicalData
    rw [hkey]
    split
    · next heq => cases heq
    · next heq => exact absurd (Option.some.inj heq) (key_ne_nil value)
    · next key _ heq => rwa [← Option.some.inj heq]
  · obtain ⟨-, earlier, mapping, later, turns, hreferences, htries, hnamed, -⟩ := h.held _ _ hvalue
    exact ⟨mapping, turns, ⟨earlier, later, turns, hreferences, htries,
      congrArg ExpressionMapping.replacementName hnamed⟩, hnamed⟩

theorem Resolved.getCanonicalData_eq_some (h : Resolved allNodeNames references maps)
    {originalExpression : CodeUnits} {value : ExpressionMapping}
    (hvalue : getCanonicalData maps originalExpression = some value) :
    value.originalExpression = originalExpression ∧
      IsCanonical allNodeNames references maps value := by
  have hmem : originalExpression ∈ references.map ExpressionMapping.originalExpression := by
    unfold getCanonicalData at hvalue
    split at hvalue
    · cases hvalue
    · cases hvalue
    · next key _ hkey => exact h.only _ _ hkey
  obtain ⟨value', hvalue', horiginal, hcanonical⟩ := h.isCanonical hmem
  rw [hvalue] at hvalue'
  obtain rfl := Option.some.inj hvalue'
  exact ⟨horiginal, hcanonical⟩

/-- If no name is tried with two prefixes, two canonical mappings have different names. -/
theorem IsCanonical.eq_of_name_eq {value value' : ExpressionMapping}
    (hseparate : Separate allNodeNames references)
    (h : IsCanonical allNodeNames references maps value)
    (h' : IsCanonical allNodeNames references maps value')
    (hname : value.replacementName = value'.replacementName) :
    value.originalExpression = value'.originalExpression := by
  by_contra hne
  obtain ⟨mapping, turns, htried, rfl⟩ := h.tried
  obtain ⟨mapping', turns', htried', rfl⟩ := h'.tried
  have hprefix := hseparate mapping mapping' _ htried (hname ▸ htried') hne
  have hkey : (named allNodeNames mapping turns).key =
      (named allNodeNames mapping' turns').key := by
    unfold ExpressionMapping.key ExpressionMapping.keyOf
    rw [hname]
    exact congrArg (· ++ units "." ++ _) hprefix
  have hheld := h.held
  rw [hkey, h'.held] at hheld
  exact hne (congrArg ExpressionMapping.originalExpression (Option.some.inj hheld).symm)

end Canonical

/-! ## Pieces -/

section Pieces

variable {located : List (ℕ × ExpressionMapping)}

theorem flatMap_pieces (hne : ∀ reference ∈ located, reference.2.originalExpression ≠ []) :
    ∀ (index skip : ℕ) (text : CodeUnits), (pieces located index skip text).flatMap
      (Piece.written ExpressionMapping.originalExpression) = text.drop skip
  | _, skip, [] => by cases skip <;> rfl
  | index, skip + 1, _ :: text => flatMap_pieces hne (index + 1) skip text
  | index, 0, unit :: text => by
    rw [pieces]
    split
    · next reference hfind =>
      have hfound := List.find?_some hfind
      rw [decide_eq_true_eq] at hfound
      obtain ⟨later, hlater⟩ := hfound.2
      rw [List.flatMap_cons, flatMap_pieces hne _ _ text]
      obtain ⟨char, original, horiginal⟩ :=
        List.exists_cons_of_ne_nil (hne reference (List.mem_of_find?_eq_some hfind))
      rw [horiginal, List.cons_append] at hlater
      obtain ⟨rfl, rfl⟩ := List.cons.inj hlater
      rw [Piece.written, horiginal, List.length_cons, Nat.add_sub_cancel, List.drop_left]
      rfl
    · rw [List.flatMap_cons, flatMap_pieces hne _ _ text]
      rfl

theorem mem_located_of_mem_pieces {place : ℕ} {mapping : ExpressionMapping} :
    ∀ (index skip : ℕ) (text : CodeUnits),
      .reference place mapping ∈ pieces located index skip text → (place, mapping) ∈ located
  | _, skip, [], h => by cases skip <;> cases h
  | index, skip + 1, _ :: text, h => mem_located_of_mem_pieces (index + 1) skip text h
  | index, 0, unit :: text, h => by
    rw [pieces] at h
    split at h
    · next found hfind =>
      rcases List.mem_cons.1 h with h | h
      · obtain ⟨rfl, rfl⟩ := Piece.reference.inj h
        exact List.mem_of_find?_eq_some hfind
      · exact mem_located_of_mem_pieces _ _ text h
    · rcases List.mem_cons.1 h with h | h
      · cases h
      · exact mem_located_of_mem_pieces _ _ text h

theorem flatMap_pieces_congr {reference reference' : ExpressionMapping → CodeUnits} :
    ∀ {pieces : List Piece}, (∀ index mapping, .reference index mapping ∈ pieces →
      reference mapping = reference' mapping) →
      pieces.flatMap (Piece.written reference) = pieces.flatMap (Piece.written reference')
  | [], _ => rfl
  | piece :: pieces, h => by
    have hrest := flatMap_pieces_congr fun index mapping hmem =>
      h index mapping (List.mem_cons_of_mem piece hmem)
    rw [List.flatMap_cons, List.flatMap_cons, hrest]
    cases piece with
    | unit char => rfl
    | reference index mapping =>
      rw [Piece.written, Piece.written, h index mapping List.mem_cons_self]

theorem flatMap_pieces_nil (reference : ExpressionMapping → CodeUnits) :
    ∀ (index skip : ℕ) (text : CodeUnits),
      (pieces [] index skip text).flatMap (Piece.written reference) = text.drop skip
  | _, skip, [] => by cases skip <;> rfl
  | index, skip + 1, _ :: text => flatMap_pieces_nil reference (index + 1) skip text
  | index, 0, unit :: text => by
    rw [pieces, List.find?_nil]
    dsimp only
    rw [List.flatMap_cons, flatMap_pieces_nil reference _ _ text]
    rfl

end Pieces

/-! ## One expression is replaced -/

section Stage

variable {text originalExpression replacement : CodeUnits}
  {reference : ExpressionMapping → CodeUnits}

theorem substitute_of_isPlain (before matched after : CodeUnits) :
    ∀ {replacement : CodeUnits}, IsPlain replacement →
      substitute before matched after replacement = replacement
  | [], _ => rfl
  | [_], _ => by rw [substitute]
  | unit :: next :: replacement, h => by
    have hrest : IsPlain (next :: replacement) := fun char hchar hmem =>
      h char hchar (hmem.trans (List.suffix_cons _ _).isInfix)
    have hexpand := substitute_of_isPlain before matched after hrest
    rw [substitute, hexpand]
    by_cases hunit : unit = dollar
    · subst hunit
      have hnext (char : ℕ) (hchar : char ∈ units "$&\x60'") : next ≠ char := by
        rintro rfl
        exact h next hchar ⟨[], replacement, rfl⟩
      rw [if_neg (not_not.2 rfl), if_neg (hnext dollar (by decide)),
        if_neg (hnext 0x26 (by decide)), if_neg (hnext 0x60 (by decide)),
        if_neg (hnext 0x27 (by decide))]
    · rw [if_pos hunit]

theorem matchString_of_isPlain (h : IsPlain replacement) (left : CodeUnits) :
    matchString text originalExpression replacement left =
      if originalExpression <+: left then some (originalExpression.length, replacement)
      else none := by
  unfold matchString
  rw [substitute_of_isPlain _ _ _ h]
  simp only [List.isPrefixOf_iff_prefix]

/-- The text of a reference once one more expression is replaced. -/
def replaceReference (reference : ExpressionMapping → CodeUnits)
    (originalExpression replacement : CodeUnits) (mapping : ExpressionMapping) : CodeUnits :=
  if mapping.originalExpression = originalExpression ∧ reference mapping = originalExpression then
    replacement
  else reference mapping

theorem noMatch_of_startsWith (hplain : IsPlain replacement) {piece : Piece} {later : CodeUnits}
    (hstands : ∀ k < (piece.written reference).length,
      originalExpression <+: (piece.written reference).drop k ++ later →
        piece.startsWith reference originalExpression k)
    (hno : ∀ k, piece.startsWith reference originalExpression k = false) :
    NoMatch (matchString text originalExpression replacement) (piece.written reference) later := by
  intro k hk
  rw [matchString_of_isPlain hplain, if_neg]
  intro hstart
  have hstarts := hstands k hk hstart
  rw [hno] at hstarts
  cases hstarts

theorem replaces_pieces (hplain : IsPlain replacement) (hne : originalExpression ≠ []) :
    ∀ {pieces : List Piece}, StandsOnly originalExpression reference pieces →
      Replaces (matchString text originalExpression replacement) (Piece.written reference)
        (Piece.written (replaceReference reference originalExpression replacement)) pieces
  | [], _ => .nil
  | .unit char :: pieces, ⟨hstands, hlater⟩ =>
    .keep rfl (noMatch_of_startsWith hplain hstands fun _ => rfl)
      (replaces_pieces hplain hne hlater)
  | .reference index mapping :: pieces, ⟨hstands, hlater⟩ => by
    by_cases hmapping : mapping.originalExpression = originalExpression ∧
        reference mapping = originalExpression
    · have hold : (Piece.reference index mapping).written reference = [] ++ originalExpression :=
        hmapping.2
      refine .replace hold (if_pos hmapping) hne (fun k hk => absurd hk (Nat.not_lt_zero k)) ?_
        (replaces_pieces hplain hne hlater)
      rw [matchString_of_isPlain hplain, if_pos (List.prefix_append _ _)]
    · refine .keep (if_neg hmapping) (noMatch_of_startsWith hplain hstands fun k => ?_)
        (replaces_pieces hplain hne hlater)
      cases k with
      | zero => exact decide_eq_false hmapping
      | succ k => rfl

/-- Where an expression stands at its references only, these are replaced. -/
theorem replaceString_pieces (hplain : IsPlain replacement) (hne : originalExpression ≠ [])
    {pieces : List Piece} (hstands : StandsOnly originalExpression reference pieces) :
    replaceString (pieces.flatMap (Piece.written reference)) originalExpression replacement =
      pieces.flatMap
        (Piece.written (replaceReference reference originalExpression replacement)) :=
  (replaces_pieces hplain hne hstands).replaceAll_eq

theorem replaceString_self (hplain : IsPlain originalExpression) (text : CodeUnits) :
    replaceString text originalExpression originalExpression = text := by
  refine replaceAll_eq_drop (fun left length replacement hmatch => ?_) 0 text
  rw [matchString_of_isPlain hplain, Option.ite_none_right_eq_some] at hmatch
  obtain ⟨⟨later, rfl⟩, hmatch⟩ := hmatch
  obtain ⟨rfl, rfl⟩ := Prod.mk.inj (Option.some.inj hmatch)
  rw [List.take_left]

end Stage

/-! ## All expressions are replaced -/

theorem mem_of_mem_used {mapping : ExpressionMapping} :
    ∀ {mappings : List ExpressionMapping} {text : CodeUnits},
      mapping ∈ (applyExpressionMappings mappings text).2 → mapping ∈ mappings
  | [], _, h => by cases h
  | mapper :: mappings, text, h => by
    rw [applyExpressionMappings] at h
    split at h
    · exact (List.mem_cons.1 h).elim (fun h => h ▸ List.mem_cons_self)
        fun h => List.mem_cons_of_mem _ (mem_of_mem_used h)
    · exact List.mem_cons_of_mem _ (mem_of_mem_used h)

section Stages

variable {pieces : List Piece} {replacement : CodeUnits → CodeUnits} {done : List CodeUnits}
  {originalExpression : CodeUnits}

theorem written_infix_flatMap {reference : ExpressionMapping → CodeUnits} {piece : Piece}
    (h : piece ∈ pieces) :
    piece.written reference <:+: pieces.flatMap (Piece.written reference) := by
  obtain ⟨before, after, rfl⟩ := List.append_of_mem h
  rw [List.flatMap_append, List.flatMap_cons]
  exact ⟨before.flatMap _, after.flatMap _, List.append_assoc _ _ _⟩

/-- A reference that is replaced already only changes where it is replaced by its expression. -/
theorem replaceReference_replacedText (mapping : ExpressionMapping) :
    replaceReference (replacedText replacement done) originalExpression
        (replacement originalExpression) mapping =
      replacedText replacement (originalExpression :: done) mapping := by
  unfold replaceReference replacedText
  by_cases hsame : mapping.originalExpression = originalExpression
  · rw [hsame, if_pos (List.mem_cons_self : originalExpression ∈ originalExpression :: done)]
    by_cases hdone : originalExpression ∈ done
    · rw [if_pos hdone, ite_self]
    · rw [if_neg hdone, if_pos ⟨rfl, rfl⟩]
  · rw [if_neg fun h => hsame h.1]
    simp only [List.mem_cons, hsame, false_or]

/-- One turn of the loop, for an expression that is replaced by itself or stands only where a
reference by it starts. -/
theorem replaceString_replacedText (hplain : IsPlain (replacement originalExpression))
    (hne : originalExpression ≠ []) (hstands : replacement originalExpression = originalExpression ∨
      StandsOnly originalExpression (replacedText replacement done) pieces) :
    replaceString (pieces.flatMap (Piece.written (replacedText replacement done)))
        originalExpression (replacement originalExpression) =
      pieces.flatMap (Piece.written (replacedText replacement (originalExpression :: done))) := by
  rcases hstands with hself | hstands
  · rw [hself] at hplain ⊢
    rw [replaceString_self hplain]
    refine flatMap_pieces_congr fun index mapping _ => ?_
    unfold replacedText
    by_cases hsame : mapping.originalExpression = originalExpression
    · rw [hsame, hself, ite_self, ite_self]
    · simp only [List.mem_cons, hsame, false_or]
  · rw [replaceString_pieces hplain hne hstands]
    exact flatMap_pieces_congr fun _ mapping _ => replaceReference_replacedText mapping

/-- An expression that stands nowhere has been replaced, or no reference is by it. -/
theorem replacedText_of_absent
    (h : ¬ originalExpression <:+: pieces.flatMap (Piece.written (replacedText replacement done))) :
    pieces.flatMap (Piece.written (replacedText replacement done)) =
      pieces.flatMap (Piece.written (replacedText replacement (originalExpression :: done))) := by
  refine flatMap_pieces_congr fun index mapping hmem => ?_
  unfold replacedText
  by_cases hsame : mapping.originalExpression = originalExpression
  · have hdone : mapping.originalExpression ∈ done := by
      by_contra hnot
      have hwritten : (Piece.reference index mapping).written (replacedText replacement done) =
          originalExpression := (if_neg hnot).trans hsame
      exact h (hwritten ▸ written_infix_flatMap hmem)
    rw [if_pos hdone, if_pos (List.mem_cons_of_mem _ hdone)]
  · simp only [List.mem_cons, hsame, false_or]

/-- The loop over the mappings replaces all references by their expressions. -/
theorem applyExpressionMappings_pieces : ∀ {mappings : List ExpressionMapping}
    {done : List CodeUnits},
    (∀ mapping ∈ mappings, IsPlain mapping.key ∧ mapping.originalExpression ≠ [] ∧
      replacement mapping.originalExpression = mapping.key) →
    StagesClear replacement pieces done (mappings.map ExpressionMapping.originalExpression) →
    (applyExpressionMappings mappings
        (pieces.flatMap (Piece.written (replacedText replacement done)))).1 =
      pieces.flatMap (Piece.written (replacedText replacement
        ((mappings.map ExpressionMapping.originalExpression).reverse ++ done)))
  | [], _, _, _ => rfl
  | mapper :: mappings, done, hmappings, ⟨hstands, hstages⟩ => by
    obtain ⟨hplain, hne, hreplacement⟩ := hmappings mapper List.mem_cons_self
    have hrest := applyExpressionMappings_pieces
      (fun mapping hmem => hmappings mapping (List.mem_cons_of_mem _ hmem)) hstages
    rw [List.map_cons, List.reverse_cons, List.append_assoc, List.singleton_append, ← hrest,
      applyExpressionMappings]
    split_ifs with hinfix
    · rw [← hreplacement] at hplain ⊢
      rw [replaceString_replacedText hplain hne hstands]
    · rw [replacedText_of_absent hinfix]

/-- The mapping of a reference is used. -/
theorem exists_used_of_mem_pieces {index : ℕ} {mapping : ExpressionMapping}
    (hmem : .reference index mapping ∈ pieces) : ∀ {mappings : List ExpressionMapping}
    {done : List CodeUnits},
    (∀ mapping ∈ mappings, IsPlain mapping.key ∧ mapping.originalExpression ≠ [] ∧
      replacement mapping.originalExpression = mapping.key) →
    StagesClear replacement pieces done (mappings.map ExpressionMapping.originalExpression) →
    mapping.originalExpression ∈ mappings.map ExpressionMapping.originalExpression →
    mapping.originalExpression ∉ done →
    ∃ used ∈ (applyExpressionMappings mappings
        (pieces.flatMap (Piece.written (replacedText replacement done)))).2,
      used.originalExpression = mapping.originalExpression
  | [], _, _, _, h, _ => by cases h
  | mapper :: mappings, done, hmappings, ⟨hstands, hstages⟩, h, hdone => by
    obtain ⟨hplain, hne, hreplacement⟩ := hmappings mapper List.mem_cons_self
    have hwritten : (Piece.reference index mapping).written (replacedText replacement done) =
        mapping.originalExpression := if_neg hdone
    rw [applyExpressionMappings]
    by_cases hsame : mapping.originalExpression = mapper.originalExpression
    · rw [if_pos (hsame ▸ hwritten ▸ written_infix_flatMap hmem)]
      exact ⟨mapper, List.mem_cons_self, hsame.symm⟩
    · have hrest := exists_used_of_mem_pieces hmem
        (fun mapping hmem => hmappings mapping (List.mem_cons_of_mem _ hmem)) hstages
        ((List.mem_cons.1 h).resolve_left hsame)
        fun hdone' => (List.mem_cons.1 hdone').elim hsame hdone
      split_ifs with hinfix
      · rw [← hreplacement] at hplain ⊢
        rw [replaceString_replacedText hplain hne hstands]
        obtain ⟨used, hused, horiginal⟩ := hrest
        exact ⟨used, List.mem_cons_of_mem _ hused, horiginal⟩
      · rwa [replacedText_of_absent hinfix]

end Stages

/-! ## The expressions of a value -/

section Values

variable {Number : Type}

mutual

/-- The mappings that are collected are those of the expressions. -/
theorem applyParameterMapping_snd (mapper : CodeUnits → List ExpressionMapping) (hidden : Bool)
    (keyOfValue : Option CodeUnits) : ∀ value : ParameterValue Number,
      (applyParameterMapping mapper keyOfValue value).2 =
        (expressionTexts hidden keyOfValue value).flatMap fun text => mapper text.2
  | .string value => by
    unfold applyParameterMapping expressionTexts
    split <;> simp
  | .number _ => rfl
  | .boolean _ => rfl
  | .null => rfl
  | .undefined => rfl
  | .array values => applyArrayMapping_snd mapper hidden values
  | .object properties => applyObjectMapping_snd mapper hidden properties

theorem applyArrayMapping_snd (mapper : CodeUnits → List ExpressionMapping) (hidden : Bool) :
    ∀ values : List (ParameterValue Number), (applyArrayMapping mapper values).2 =
      (expressionTextsOfArray hidden values).flatMap fun text => mapper text.2
  | [] => rfl
  | value :: values => by
    rw [applyArrayMapping, expressionTextsOfArray, List.flatMap_append,
      ← applyParameterMapping_snd mapper hidden none value,
      ← applyArrayMapping_snd mapper hidden values]

theorem applyObjectMapping_snd (mapper : CodeUnits → List ExpressionMapping) (hidden : Bool) :
    ∀ properties : List (CodeUnits × ParameterValue Number),
      (applyObjectMapping mapper properties).2 =
        (expressionTextsOfObject hidden properties).flatMap fun text => mapper text.2
  | [] => rfl
  | (key, value) :: properties => by
    rw [applyObjectMapping, expressionTextsOfObject, List.flatMap_append,
      ← applyParameterMapping_snd mapper (hidden || key = protoName) (some key) value,
      ← applyObjectMapping_snd mapper hidden properties]

end

mutual

theorem hidden_of_mem_expressionTexts {keyOfValue : Option CodeUnits} {text : Bool × CodeUnits} :
    ∀ {value : ParameterValue Number}, text ∈ expressionTexts true keyOfValue value →
      text.1 = true
  | .string value, h => by
    unfold expressionTexts at h
    split at h
    · rw [List.mem_singleton.1 h]
    · cases h
  | .number _, h => by cases h
  | .boolean _, h => by cases h
  | .null, h => by cases h
  | .undefined, h => by cases h
  | .array _, h => hidden_of_mem_expressionTextsOfArray h
  | .object _, h => hidden_of_mem_expressionTextsOfObject h

theorem hidden_of_mem_expressionTextsOfArray {text : Bool × CodeUnits} :
    ∀ {values : List (ParameterValue Number)}, text ∈ expressionTextsOfArray true values →
      text.1 = true
  | [], h => by cases h
  | value :: values, h => by
    rw [expressionTextsOfArray] at h
    exact (List.mem_append.1 h).elim hidden_of_mem_expressionTexts
      hidden_of_mem_expressionTextsOfArray

theorem hidden_of_mem_expressionTextsOfObject {text : Bool × CodeUnits} :
    ∀ {properties : List (CodeUnits × ParameterValue Number)},
      text ∈ expressionTextsOfObject true properties → text.1 = true
  | [], h => by cases h
  | (key, value) :: properties, h => by
    rw [expressionTextsOfObject, Bool.true_or] at h
    exact (List.mem_append.1 h).elim hidden_of_mem_expressionTexts
      hidden_of_mem_expressionTextsOfObject

end

variable {rewrite : CodeUnits → CodeUnits}

mutual

theorem rewriteExpressions_eq_self {hidden : Bool} {keyOfValue : Option CodeUnits} :
    ∀ {value : ParameterValue Number},
      (∀ text ∈ expressionTexts hidden keyOfValue value, rewrite text.2 = text.2) →
        rewriteExpressions rewrite keyOfValue value = value
  | .string value, h => by
    unfold expressionTexts at h
    unfold rewriteExpressions
    split_ifs with hvalue
    · rw [if_pos hvalue] at h
      exact congrArg _ (h _ (List.mem_singleton.2 rfl))
    · rfl
  | .number _, _ => rfl
  | .boolean _, _ => rfl
  | .null, _ => rfl
  | .undefined, _ => rfl
  | .array _, h => congrArg _ (rewriteArray_eq_self h)
  | .object _, h => congrArg _ (rewriteObject_eq_self h)

theorem rewriteArray_eq_self {hidden : Bool} : ∀ {values : List (ParameterValue Number)},
    (∀ text ∈ expressionTextsOfArray hidden values, rewrite text.2 = text.2) →
      rewriteArray rewrite values = values
  | [], _ => rfl
  | value :: values, h => by
    rw [expressionTextsOfArray] at h
    rw [rewriteArray, rewriteExpressions_eq_self fun text ht => h text (List.mem_append_left _ ht),
      rewriteArray_eq_self fun text ht => h text (List.mem_append_right _ ht)]

theorem rewriteObject_eq_self {hidden : Bool} :
    ∀ {properties : List (CodeUnits × ParameterValue Number)},
    (∀ text ∈ expressionTextsOfObject hidden properties, rewrite text.2 = text.2) →
      rewriteObject rewrite properties = properties
  | [], _ => rfl
  | (key, value) :: properties, h => by
    rw [expressionTextsOfObject] at h
    rw [rewriteObject, rewriteExpressions_eq_self fun text ht => h text (List.mem_append_left _ ht),
      rewriteObject_eq_self fun text ht => h text (List.mem_append_right _ ht)]

end

theorem applyMapping_undefined : ∀ value : ParameterValue Number,
    applyMapping value .undefined = (value, [])
  | .string _ => rfl
  | .number _ => rfl
  | .boolean _ => rfl
  | .null => rfl
  | .undefined => rfl
  | .array _ => rfl
  | .object _ => rfl

/-- The mappings of an expression, the longest first. -/
def canonicalMappings (getCanonicalData : ExpressionMapping → Option ExpressionMapping)
    (mappings : List ExpressionMapping) : List ExpressionMapping :=
  (mappings.filterMap getCanonicalData).insertionSort
    fun a b => b.originalExpression.length ≤ a.originalExpression.length

variable (getCanonicalData : ExpressionMapping → Option ExpressionMapping)
  (mapper : CodeUnits → List ExpressionMapping)

/-- What becomes of an expression, and the mappings that are used for it. -/
def appliedText (text : CodeUnits) : CodeUnits × List ExpressionMapping :=
  applyExpressionMappings (canonicalMappings getCanonicalData (mapper text)) text

/-- Below a property that would be the prototype no mapping is found. -/
def usedFor (text : Bool × CodeUnits) : List ExpressionMapping :=
  if text.1 then [] else (appliedText getCanonicalData mapper text.2).2

/-- The expressions are what the mappings make of them, or are kept where no mapping is found. -/
def RewritesAs (rewrite : CodeUnits → CodeUnits) (text : Bool × CodeUnits) : Prop :=
  rewrite text.2 = if text.1 then text.2 else (appliedText getCanonicalData mapper text.2).1

variable {getCanonicalData mapper}

theorem flatMap_usedFor_of_hidden {texts : List (Bool × CodeUnits)}
    (h : ∀ text ∈ texts, text.1 = true) : texts.flatMap (usedFor getCanonicalData mapper) = [] :=
  List.flatMap_eq_nil_iff.2 fun text ht => if_pos (h text ht)

mutual

theorem applyMapping_canonical {keyOfValue : Option CodeUnits} :
    ∀ {value : ParameterValue Number},
      (∀ text ∈ expressionTexts false keyOfValue value,
        RewritesAs getCanonicalData mapper rewrite text) →
      applyMapping value (applyCanonicalMapping getCanonicalData
          (applyParameterMapping mapper keyOfValue value).1) =
        (rewriteExpressions rewrite keyOfValue value,
          (expressionTexts false keyOfValue value).flatMap (usedFor getCanonicalData mapper))
  | .string value, h => by
    unfold expressionTexts at h ⊢
    unfold applyParameterMapping rewriteExpressions
    split_ifs at h ⊢ with hvalue
    · have hrewrite := h _ (List.mem_singleton.2 rfl)
      unfold RewritesAs at hrewrite
      rw [List.flatMap_singleton, hrewrite]
      rfl
    · rfl
  | .number _, _ => rfl
  | .boolean _, _ => rfl
  | .null, _ => rfl
  | .undefined, _ => rfl
  | .array values, h => by
    have hvalues := applyArray_canonical h
    unfold applyParameterMapping applyCanonicalMapping applyMapping
    dsimp only
    rw [hvalues]
    rfl
  | .object properties, h => by
    have hproperties := applyObject_canonical h
    unfold applyParameterMapping applyCanonicalMapping applyMapping
    dsimp only
    rw [hproperties]
    rfl

theorem applyArray_canonical : ∀ {values : List (ParameterValue Number)},
    (∀ text ∈ expressionTextsOfArray false values,
      RewritesAs getCanonicalData mapper rewrite text) →
    applyArray values
        (applyCanonicalElements getCanonicalData (applyArrayMapping mapper values).1) =
      (rewriteArray rewrite values,
        (expressionTextsOfArray false values).flatMap (usedFor getCanonicalData mapper))
  | [], _ => rfl
  | value :: values, h => by
    rw [expressionTextsOfArray] at h
    rw [applyArrayMapping, applyCanonicalElements, applyArray, expressionTextsOfArray,
      List.flatMap_append,
      applyMapping_canonical fun text ht => h text (List.mem_append_left _ ht),
      applyArray_canonical fun text ht => h text (List.mem_append_right _ ht)]
    rfl

theorem applyObject_canonical : ∀ {properties : List (CodeUnits × ParameterValue Number)},
    (∀ text ∈ expressionTextsOfObject false properties,
      RewritesAs getCanonicalData mapper rewrite text) →
    applyObject properties
        (applyCanonicalProperties getCanonicalData (applyObjectMapping mapper properties).1) =
      (rewriteObject rewrite properties,
        (expressionTextsOfObject false properties).flatMap (usedFor getCanonicalData mapper))
  | [], _ => rfl
  | (key, value) :: properties, h => by
    rw [expressionTextsOfObject, Bool.false_or] at h
    rw [applyObjectMapping, applyCanonicalProperties, applyObject, expressionTextsOfObject,
      List.flatMap_append, Bool.false_or,
      applyObject_canonical fun text ht => h text (List.mem_append_right _ ht)]
    by_cases hkey : key = protoName
    · rw [if_pos hkey, applyCanonicalMapping, applyMapping_undefined, rewriteObject]
      rw [decide_eq_true hkey] at h ⊢
      have hself : rewriteExpressions rewrite (some key) value = value :=
        rewriteExpressions_eq_self fun text ht => by
          have htext := h text (List.mem_append_left _ ht)
          rwa [RewritesAs, if_pos (hidden_of_mem_expressionTexts ht)] at htext
      rw [hself, flatMap_usedFor_of_hidden fun text ht => hidden_of_mem_expressionTexts ht]
    · rw [if_neg hkey, rewriteObject]
      rw [decide_eq_false hkey] at h ⊢
      rw [applyMapping_canonical fun text ht => h text (List.mem_append_left _ ht)]

end

end Values

/-! ## The mappings that are used -/

section Used

variable {maps : DuplicateMaps} {mapping candidate value : ExpressionMapping}
  {used : List ExpressionMapping}

theorem mem_useCandidate (h : mapping ∈ used) : mapping ∈ useCandidate maps used candidate := by
  unfold useCandidate
  split
  · exact h
  · split_ifs
    · exact h
    · exact List.mem_append_left _ h

theorem eq_of_mem_useCandidate (h : mapping ∈ useCandidate maps used candidate) :
    mapping ∈ used ∨ getCanonicalData maps candidate.originalExpression = some mapping := by
  unfold useCandidate at h
  split at h
  · exact .inl h
  · next canonical hcanonical =>
    split_ifs at h
    · exact .inl h
    · refine (List.mem_append.1 h).imp_right fun hlast => ?_
      rw [hcanonical, List.mem_singleton.1 hlast]

theorem exists_name_useCandidate
    (h : getCanonicalData maps candidate.originalExpression = some value) :
    ∃ mapping ∈ useCandidate maps used candidate,
      mapping.replacementName = value.replacementName := by
  unfold useCandidate
  rw [h]
  dsimp only
  split_ifs with hany
  · obtain ⟨mapping, hmapping, hname⟩ := List.any_eq_true.1 hany
    exact ⟨mapping, hmapping, of_decide_eq_true hname⟩
  · exact ⟨value, List.mem_append_right _ (List.mem_singleton.2 rfl), rfl⟩

theorem mem_foldl_useCandidate : ∀ (candidates : List ExpressionMapping)
    {used : List ExpressionMapping}, mapping ∈ used →
      mapping ∈ candidates.foldl (useCandidate maps) used
  | [], _, h => h
  | _ :: candidates, _, h => mem_foldl_useCandidate candidates (mem_useCandidate h)

theorem eq_of_mem_foldl_useCandidate : ∀ {candidates used : List ExpressionMapping},
    mapping ∈ candidates.foldl (useCandidate maps) used → mapping ∈ used ∨
      ∃ candidate ∈ candidates, getCanonicalData maps candidate.originalExpression = some mapping
  | [], _, h => .inl h
  | candidate :: candidates, used, h => by
    have hrest : mapping ∈
        candidates.foldl (useCandidate maps) (useCandidate maps used candidate) := h
    rcases eq_of_mem_foldl_useCandidate hrest with h | ⟨later, hlater, h⟩
    · exact (eq_of_mem_useCandidate h).imp_right fun h => ⟨candidate, List.mem_cons_self, h⟩
    · exact .inr ⟨later, List.mem_cons_of_mem _ hlater, h⟩

theorem exists_name_foldl_useCandidate : ∀ {candidates used : List ExpressionMapping},
    candidate ∈ candidates → getCanonicalData maps candidate.originalExpression = some value →
      ∃ mapping ∈ candidates.foldl (useCandidate maps) used,
        mapping.replacementName = value.replacementName
  | first :: candidates, used, hmem, h => by
    rcases List.mem_cons.1 hmem with rfl | hmem
    · obtain ⟨mapping, hmapping, hname⟩ := exists_name_useCandidate h
      exact ⟨mapping, mem_foldl_useCandidate candidates hmapping, hname⟩
    · rw [List.foldl_cons]
      exact exists_name_foldl_useCandidate hmem h

theorem exists_of_get?_variablesOf {name originalExpression : CodeUnits}
    (h : (variablesOf used).get? name = some originalExpression) :
    ∃ mapping ∈ used, mapping.replacementName = name ∧
      mapping.originalExpression = originalExpression := by
  unfold variablesOf at h
  rcases Dict.get?_foldl_set_cases ExpressionMapping.replacementName
    ExpressionMapping.originalExpression name used .empty with
    ⟨mapping, hmem, hname, hget⟩ | ⟨-, hget⟩
  · rw [hget] at h
    exact ⟨mapping, hmem, hname, Option.some.inj h⟩
  · rw [hget] at h
    cases h

/-- A name has the expression of a mapping with it. -/
theorem exists_get?_variablesOf (h : mapping ∈ used) : ∃ last ∈ used,
    last.replacementName = mapping.replacementName ∧
      (variablesOf used).get? mapping.replacementName = some last.originalExpression := by
  unfold variablesOf
  rcases Dict.get?_foldl_set_cases ExpressionMapping.replacementName
    ExpressionMapping.originalExpression mapping.replacementName used .empty with hlast | ⟨hnone, -⟩
  · exact hlast
  · exact absurd rfl (hnone mapping h)

end Used

/-! ## References without a dispute -/

/-- No two references have one key, and none two mappings. -/
structure Undisputed (references : List ExpressionMapping) : Prop where
  keys : ∀ mapping ∈ references, ∀ mapping' ∈ references, mapping.key = mapping'.key →
    mapping = mapping'
  originals : ∀ mapping ∈ references, ∀ mapping' ∈ references,
    mapping.originalExpression = mapping'.originalExpression → mapping = mapping'

section Undisputed

variable {allNodeNames : List CodeUnits} {references : List ExpressionMapping}

theorem Undisputed.tries_eq_zero (h : Undisputed references)
    {before : List ExpressionMapping} {mapping : ExpressionMapping} {turns : ℕ}
    (htries : Tries allNodeNames before mapping turns)
    (hbefore : ∀ earlier ∈ before ++ [mapping], earlier ∈ references) : turns = 0 := by
  induction htries with
  | first => rfl
  | @next before earlier between mapping other turns turns' _ hsplit _ hkey hnew ih ihother =>
    subst hsplit
    have hmapping := hbefore mapping (by simp)
    have hother := hbefore other (by simp)
    have hturns := ih hbefore
    have hturns' := ihother fun first hfirst => hbefore first (by
      rw [List.mem_append, List.mem_singleton] at hfirst
      rcases hfirst with hfirst | rfl <;> simp [*])
    subst hturns hturns'
    have hsame := h.keys other hother mapping hmapping hkey
    exact absurd (by simp [hsame]) (hnew rfl)

/-- Each reference tries its own name only. -/
theorem Undisputed.of_tried (h : Undisputed references) {mapping : ExpressionMapping}
    {name : CodeUnits} (htried : Tried allNodeNames references mapping name) :
    mapping ∈ references ∧ mapping.replacementName = name := by
  obtain ⟨before, after, turns, rfl, htries, rfl⟩ := htried
  have hturns := h.tries_eq_zero htries fun earlier hearlier => by
    rw [List.mem_append, List.mem_singleton] at hearlier
    rcases hearlier with hearlier | rfl <;> simp [*]
  subst hturns
  exact ⟨List.mem_append_right _ List.mem_cons_self, rfl⟩

theorem standsOnly_congr {originalExpression : CodeUnits}
    {reference reference' : ExpressionMapping → CodeUnits} : ∀ {pieces : List Piece},
    (∀ index mapping, .reference index mapping ∈ pieces → reference mapping = reference' mapping) →
      StandsOnly originalExpression reference pieces →
        StandsOnly originalExpression reference' pieces
  | [], _, _ => trivial
  | piece :: later, h, ⟨hstands, hlater⟩ => by
    have hrest := fun index mapping hmem => h index mapping (List.mem_cons_of_mem piece hmem)
    refine ⟨fun k hk hstart => ?_, standsOnly_congr hrest hlater⟩
    rw [← flatMap_pieces_congr hrest] at hstart
    cases piece with
    | unit char => exact hstands k hk hstart
    | reference index mapping =>
      have hsame := h index mapping List.mem_cons_self
      have hwritten : (Piece.reference index mapping).written reference' =
          (Piece.reference index mapping).written reference := hsame.symm
      rw [hwritten] at hk hstart
      have hstarts := hstands k hk hstart
      cases k with
      | zero => simpa only [Piece.startsWith, hsame] using hstarts
      | succ k => exact hstarts

theorem stagesClear_congr {replacement replacement' : CodeUnits → CodeUnits} {pieces : List Piece}
    (h : ∀ index mapping, .reference index mapping ∈ pieces →
      replacement mapping.originalExpression = replacement' mapping.originalExpression) :
    ∀ {originals done : List CodeUnits},
      (∀ original ∈ originals, replacement original = replacement' original) →
      StagesClear replacement pieces done originals → StagesClear replacement' pieces done originals
  | [], _, _, _ => trivial
  | original :: _, done, horiginals, ⟨hstands, hstages⟩ => by
    refine ⟨hstands.imp (fun hself => ?_) (standsOnly_congr fun index mapping hmem => ?_),
      stagesClear_congr h (fun later hlater => horiginals later (List.mem_cons_of_mem _ hlater))
        hstages⟩
    · rw [← horiginals original List.mem_cons_self, hself]
    · unfold replacedText
      rw [h index mapping hmem]

/-- The first reference by an expression, under its own name. -/
def firstKey (references : List ExpressionMapping) (originalExpression : CodeUnits) : CodeUnits :=
  ((references.find? fun mapping => mapping.originalExpression = originalExpression).map
    ExpressionMapping.key).getD originalExpression

theorem Undisputed.firstKey_eq (h : Undisputed references) {mapping : ExpressionMapping}
    (hmem : mapping ∈ references) :
    firstKey references mapping.originalExpression = mapping.key := by
  have hsome : (references.find? fun other =>
      other.originalExpression = mapping.originalExpression).isSome :=
    List.find?_isSome.2 ⟨mapping, hmem, decide_eq_true rfl⟩
  obtain ⟨first, hfirst⟩ := Option.isSome_iff_exists.1 hsome
  have hfound := List.find?_some hfirst
  rw [decide_eq_true_eq] at hfound
  have hsame := h.originals first (List.mem_of_find?_eq_some hfirst) mapping hmem hfound
  unfold firstKey
  rw [hfirst, hsame]
  rfl

end Undisputed

/-! ## What is parsed -/

theorem originalExpression_ne_nil_of_parse {isolatedExpression startNodeName : CodeUnits}
    {nodeNameInExpression nodeNamePlainJs : Option CodeUnits} {mapping : ExpressionMapping}
    (h : parseExpressionMapping isolatedExpression nodeNameInExpression nodeNamePlainJs
      startNodeName = some mapping) : mapping.originalExpression ≠ [] := by
  have hdot : units "." ≠ [] := by decide
  unfold parseExpressionMapping at h
  extract_lets splitExpr dotsInName dotInAccessorsOffset exprStart parts plain at h
  clear_value exprStart parts plain
  split at h
  · obtain rfl := Option.some.inj h
    simp [hdot]
  · cases parts with
    | nil => cases h
    | cons accessor rest =>
      dsimp only at h
      have hwhole : exprStart ++ units "." ++ accessor ≠ [] := by simp [hdot]
      by_cases hdata : (itemToDataAccessors.any fun start => (start accessor).isSome) = true
      · rw [if_pos hdata] at h
        cases rest with
        | nil =>
          obtain rfl := Option.some.inj h
          exact hwhole
        | cons data fields =>
          dsimp only at h
          by_cases hfields : data ∈ dataAccessors
          · rw [if_pos hfields] at h
            obtain rfl := Option.some.inj h
            simp [hdot]
          · rw [if_neg hfields] at h
            obtain rfl := Option.some.inj h
            exact hwhole
      · rw [if_neg hdata, Option.ite_none_right_eq_some] at h
        obtain ⟨-, h⟩ := h
        obtain rfl := Option.some.inj h
        exact hwhole

theorem originalExpression_ne_nil_of_locate {nodeNames : List CodeUnits}
    {startNodeName expression : CodeUnits} {parseJson : Bool} {reference : ℕ × ExpressionMapping}
    (h : reference ∈ locateReferences nodeNames startNodeName parseJson expression) :
    reference.2.originalExpression ≠ [] := by
  unfold locateReferences at h
  rcases List.mem_append.1 h with h | h
  · obtain ⟨pattern, -, h⟩ := List.mem_flatMap.1 h
    split at h
    · obtain ⟨found, -, hfound⟩ := List.mem_filterMap.1 h
      obtain ⟨mapping, hparse, rfl⟩ := Option.map_eq_some_iff.1 hfound
      unfold parseCandidateMatch at hparse
      split at hparse
      · cases hparse
      · obtain ⟨candidate, -, hparse⟩ := Option.bind_eq_some_iff.1 hparse
        exact originalExpression_ne_nil_of_parse hparse
    · cases h
  · split at h
    · obtain ⟨found, -, hfound⟩ := List.mem_filterMap.1 h
      obtain ⟨mapping, hparse, rfl⟩ := Option.map_eq_some_iff.1 hfound
      obtain ⟨candidate, -, hparse⟩ := Option.bind_eq_some_iff.1 hparse
      exact originalExpression_ne_nil_of_parse hparse
    · cases h

namespace Selection

variable {Number : Type} {selection : Selection Number}

theorem originalExpression_ne_nil_of_mem_parse {node : ExtractedNode Number}
    {expression : CodeUnits} {mapping : ExpressionMapping}
    (h : mapping ∈ selection.parse node expression) : mapping.originalExpression ≠ [] := by
  obtain ⟨reference, hreference, rfl⟩ := List.mem_map.1 h
  exact originalExpression_ne_nil_of_locate hreference

theorem mem_allData {mapping : ExpressionMapping} : mapping ∈ selection.allData ↔
    ∃ node ∈ selection.subGraph, ∃ text ∈ expressionTextsOfObject false node.parameters,
      mapping ∈ selection.parse node text.2 := by
  unfold allData
  rw [List.mem_flatMap]
  refine exists_congr fun node => and_congr_right fun _ => ?_
  have hcollected : (selection.parameterMapping node).2 =
      (expressionTextsOfObject false node.parameters).flatMap fun text =>
        selection.parse node text.2 :=
    applyParameterMapping_snd (selection.parse node) false none (.object node.parameters)
  rw [hcollected, List.mem_flatMap]

/-- The candidates are parsed from fields. -/
theorem exists_parse_of_mem_candidates {candidates : List ExpressionMapping}
    (h : selection.extraVariableCandidates = .ok candidates) {mapping : ExpressionMapping}
    (hmem : mapping ∈ candidates) :
    ∃ node expression, mapping ∈ selection.parse node expression := by
  have hloop : ∀ (nodes : List (ExtractedNode Number)) (before after : List ExpressionMapping),
      nodes.foldlM (fun candidates node => do
        let fields ← selection.fieldsToSplitOut node
        return candidates ++ fields.flatMap (selection.parse node)) before = .ok after →
      mapping ∈ after → mapping ∈ before ∨
        ∃ node expression, mapping ∈ selection.parse node expression := by
    intro nodes
    induction nodes with
    | nil =>
      intro before after hok hafter
      rw [List.foldlM_nil] at hok
      cases hok
      exact .inl hafter
    | cons node nodes ih =>
      intro before after hok hafter
      rw [List.foldlM_cons] at hok
      cases hfields : selection.fieldsToSplitOut node with
      | error error =>
        rw [hfields] at hok
        cases hok
      | ok fields =>
        rw [hfields] at hok
        rcases ih _ after hok hafter with hbefore | hparse
        · rcases List.mem_append.1 hbefore with hbefore | hfield
          · exact .inl hbefore
          · obtain ⟨expression, -, hexpression⟩ := List.mem_flatMap.1 hfield
            exact .inr ⟨node, expression, hexpression⟩
        · exact .inr hparse
  exact (hloop _ _ _ h hmem).resolve_left List.not_mem_nil

theorem originalExpression_ne_nil {candidates : List ExpressionMapping}
    (h : selection.extraVariableCandidates = .ok candidates) {mapping : ExpressionMapping}
    (hmem : mapping ∈ selection.dataFromOutsideSubgraph candidates) :
    mapping.originalExpression ≠ [] := by
  rcases List.mem_append.1 (List.mem_filter.1 hmem).1 with hdata | hcandidate
  · obtain ⟨node, -, text, -, hparse⟩ := mem_allData.1 hdata
    exact originalExpression_ne_nil_of_mem_parse hparse
  · obtain ⟨node, expression, hparse⟩ := exists_parse_of_mem_candidates h hcandidate
    exact originalExpression_ne_nil_of_mem_parse hparse

/-! ## What is given to an expression -/

section Given

variable {candidates : List ExpressionMapping}

/-- The mapping that stands for the references by an expression. -/
def given (selection : Selection Number) (candidates : List ExpressionMapping)
    (originalExpression : CodeUnits) : ExpressionMapping :=
  (getCanonicalData (resolveDuplicates (selection.dataFromOutsideSubgraph candidates)
    selection.nodeNames) originalExpression).getD ⟨none, originalExpression, [], []⟩

/-- The mappings of the references that there are. -/
def canonicalOf (selection : Selection Number) (candidates : List ExpressionMapping)
    (mapping : ExpressionMapping) : Option ExpressionMapping :=
  getCanonicalData (resolveDuplicates (selection.dataFromOutsideSubgraph candidates)
    selection.nodeNames) mapping.originalExpression

abbrev Canonical (selection : Selection Number) (candidates : List ExpressionMapping)
    (value : ExpressionMapping) : Prop :=
  IsCanonical selection.nodeNames (selection.dataFromOutsideSubgraph candidates)
    (resolveDuplicates (selection.dataFromOutsideSubgraph candidates) selection.nodeNames) value

theorem canonicalOf_eq_some {mapping value : ExpressionMapping}
    (h : selection.canonicalOf candidates mapping = some value) :
    value.originalExpression = mapping.originalExpression ∧
      selection.Canonical candidates value ∧
      selection.given candidates mapping.originalExpression = value := by
  obtain ⟨horiginal, hcanonical⟩ :=
    (resolved_resolveDuplicates _ _).getCanonicalData_eq_some h
  refine ⟨horiginal, hcanonical, ?_⟩
  unfold given
  unfold canonicalOf at h
  rw [h, Option.getD_some]

theorem canonicalOf_of_mem {mapping : ExpressionMapping}
    (h : mapping.originalExpression ∈ (selection.dataFromOutsideSubgraph candidates).map
      ExpressionMapping.originalExpression) :
    selection.canonicalOf candidates mapping =
      some (selection.given candidates mapping.originalExpression) := by
  obtain ⟨value, hvalue, -⟩ := (resolved_resolveDuplicates _ selection.nodeNames).isCanonical h
  unfold given canonicalOf
  rw [hvalue, Option.getD_some]

theorem canonicalOf_isSome {mapping : ExpressionMapping} :
    (selection.canonicalOf candidates mapping).isSome ↔
      mapping.originalExpression ∈ (selection.dataFromOutsideSubgraph candidates).map
        ExpressionMapping.originalExpression := by
  constructor
  · intro h
    obtain ⟨value, hvalue⟩ := Option.isSome_iff_exists.1 h
    obtain ⟨horiginal, hcanonical, -⟩ := canonicalOf_eq_some hvalue
    exact horiginal ▸ hcanonical.mem
  · intro h
    rw [canonicalOf_of_mem h]
    rfl

theorem map_canonicalMappings (mappings : List ExpressionMapping) :
    (canonicalMappings (selection.canonicalOf candidates) mappings).map
        ExpressionMapping.originalExpression =
      ((mappings.map ExpressionMapping.originalExpression).filter
        (· ∈ (selection.dataFromOutsideSubgraph candidates).map
          ExpressionMapping.originalExpression)).insertionSort fun a b => b.length ≤ a.length := by
  unfold canonicalMappings
  rw [List.map_insertionSort _ (fun a b : CodeUnits => b.length ≤ a.length) _ _
    fun _ _ _ _ => Iff.rfl]
  congr 1
  induction mappings with
  | nil => rfl
  | cons mapping mappings ih =>
    rw [List.map_cons]
    by_cases hmem : mapping.originalExpression ∈
        (selection.dataFromOutsideSubgraph candidates).map ExpressionMapping.originalExpression
    · have hvalue := canonicalOf_of_mem hmem
      rw [List.filterMap_cons_some hvalue, List.map_cons, ih, List.filter_cons_of_pos
        (by simpa using hmem), (canonicalOf_eq_some hvalue).1]
    · have hnone : selection.canonicalOf candidates mapping = none := by
        rw [← Option.not_isSome_iff_eq_none, canonicalOf_isSome]
        exact hmem
      rw [List.filterMap_cons_none hnone, ih, List.filter_cons_of_neg (by simpa using hmem)]

theorem mem_references_of_located {node : ExtractedNode Number} (hnode : node ∈ selection.subGraph)
    {text : Bool × CodeUnits} (htext : text ∈ expressionTextsOfObject false node.parameters)
    {reference : ℕ × ExpressionMapping}
    (h : reference ∈ selection.locateOutside node text.2) :
    reference.2 ∈ selection.dataFromOutsideSubgraph candidates := by
  obtain ⟨hlocated, houtside⟩ := List.mem_filter.1 h
  exact List.mem_filter.2 ⟨List.mem_append_left _ (mem_allData.2 ⟨node, hnode, text, htext,
    List.mem_map.2 ⟨reference, hlocated, rfl⟩⟩), houtside⟩

/-- The expression of a reference is among those that are replaced. -/
theorem mem_originals_of_located {node : ExtractedNode Number} (hnode : node ∈ selection.subGraph)
    {text : Bool × CodeUnits} (htext : text ∈ expressionTextsOfObject false node.parameters)
    {reference : ℕ × ExpressionMapping}
    (h : reference ∈ selection.locateOutside node text.2) :
    reference.2.originalExpression ∈
      (canonicalMappings (selection.canonicalOf candidates) (selection.parse node text.2)).map
        ExpressionMapping.originalExpression := by
  have hparse : reference.2 ∈ selection.parse node text.2 :=
    List.mem_map.2 ⟨reference, (List.mem_filter.1 h).1, rfl⟩
  rw [map_canonicalMappings, List.mem_insertionSort, List.mem_filter, decide_eq_true_eq]
  exact ⟨List.mem_map.2 ⟨_, hparse, rfl⟩,
    List.mem_map.2 ⟨_, mem_references_of_located hnode htext h, rfl⟩⟩

theorem flatMap_piecesOf (node : ExtractedNode Number) (expression : CodeUnits)
    (replacement : CodeUnits → CodeUnits) :
    (selection.piecesOf node expression).flatMap (Piece.written (replacedText replacement [])) =
      expression := by
  have hne : ∀ reference ∈ selection.locateOutside node expression,
      reference.2.originalExpression ≠ [] := fun reference h =>
    originalExpression_ne_nil_of_locate (List.mem_filter.1 h).1
  exact flatMap_pieces hne 0 0 expression

variable (hcandidates : selection.extraVariableCandidates = .ok candidates)
  (hclear : selection.Clear (selection.dataFromOutsideSubgraph candidates))

include hcandidates hclear

theorem mem_canonicalMappings {mappings : List ExpressionMapping} {value : ExpressionMapping}
    (h : value ∈ canonicalMappings (selection.canonicalOf candidates) mappings) :
    IsPlain value.key ∧ value.originalExpression ≠ [] ∧
      (selection.given candidates value.originalExpression).key = value.key := by
  obtain ⟨mapping, -, hvalue⟩ := List.mem_filterMap.1 ((List.mem_insertionSort _).1 h)
  obtain ⟨horiginal, hcanonical, hgiven⟩ := canonicalOf_eq_some hvalue
  obtain ⟨reference, hreference, hsame⟩ := List.mem_map.1 hcanonical.mem
  refine ⟨?_, hsame ▸ originalExpression_ne_nil hcandidates hreference, ?_⟩
  · obtain ⟨tried, turns, htried, rfl⟩ := hcanonical.tried
    exact hclear.plain tried _ htried
  · rw [horiginal, hgiven]

omit hcandidates in
theorem stagesClear_given {node : ExtractedNode Number} (hnode : node ∈ selection.subGraph)
    {expression : CodeUnits}
    (htext : (false, expression) ∈ expressionTextsOfObject false node.parameters) :
    StagesClear (fun original => (selection.given candidates original).key)
      (selection.piecesOf node expression) []
      ((canonicalMappings (selection.canonicalOf candidates) (selection.parse node expression)).map
        ExpressionMapping.originalExpression) := by
  rw [map_canonicalMappings]
  refine (hclear.expressions node hnode expression htext).stages _ fun mapping hmapping => ?_
  have hvalue := canonicalOf_of_mem
    (List.mem_map_of_mem (f := ExpressionMapping.originalExpression) hmapping)
  obtain ⟨horiginal, hcanonical, -⟩ := canonicalOf_eq_some hvalue
  obtain ⟨tried, turns, htried, hnamed⟩ := hcanonical.tried
  refine ⟨tried, _, htried, ?_, ?_⟩
  · exact (congrArg ExpressionMapping.originalExpression hnamed).trans horiginal
  · have hprefix := congrArg ExpressionMapping.replacementPrefix hnamed
    unfold ExpressionMapping.key ExpressionMapping.keyOf
    rw [← hprefix]
    rfl

/-- All references of an expression are replaced as they are given. -/
theorem appliedText_fst {node : ExtractedNode Number} (hnode : node ∈ selection.subGraph)
    {expression : CodeUnits}
    (htext : (false, expression) ∈ expressionTextsOfObject false node.parameters) :
    (appliedText (selection.canonicalOf candidates) (selection.parse node) expression).1 =
      (selection.piecesOf node expression).flatMap
        (Piece.written fun mapping =>
          (selection.given candidates mapping.originalExpression).key) := by
  have happlied := applyExpressionMappings_pieces
    (fun value => mem_canonicalMappings hcandidates hclear)
    (stagesClear_given hclear hnode htext)
  rw [flatMap_piecesOf, List.append_nil] at happlied
  refine happlied.trans (flatMap_pieces_congr fun index mapping hpiece => if_pos ?_)
  have hlocated := mem_located_of_mem_pieces _ _ _ hpiece
  exact List.mem_reverse.2 (mem_originals_of_located hnode htext hlocated)

/-- Each reference of an expression is used. -/
theorem exists_used_of_located {node : ExtractedNode Number} (hnode : node ∈ selection.subGraph)
    {expression : CodeUnits}
    (htext : (false, expression) ∈ expressionTextsOfObject false node.parameters)
    {reference : ℕ × ExpressionMapping}
    (h : reference ∈ selection.locateOutside node expression) :
    ∃ used ∈ (appliedText (selection.canonicalOf candidates) (selection.parse node) expression).2,
      used.originalExpression = reference.2.originalExpression := by
  have hpiece := (hclear.expressions node hnode expression htext).reads reference h
  have hused := exists_used_of_mem_pieces hpiece
    (fun value => mem_canonicalMappings hcandidates hclear)
    (stagesClear_given hclear hnode htext)
    (mem_originals_of_located hnode htext h) List.not_mem_nil
  rwa [flatMap_piecesOf] at hused

/-- A node is rewritten, and its mappings are used. -/
theorem applyExtractMappingToNode_eq {node : ExtractedNode Number}
    (hnode : node ∈ selection.subGraph) :
    applyExtractMappingToNode node
        (applyCanonicalMapping (selection.canonicalOf candidates)
          (selection.parameterMapping node).1) =
      (selection.rewriteNode (selection.given candidates) node,
        (expressionTextsOfObject false node.parameters).flatMap
          (usedFor (selection.canonicalOf candidates) (selection.parse node))) := by
  have hobject : applyObject node.parameters
        (applyCanonicalProperties (selection.canonicalOf candidates)
          (applyObjectMapping (selection.parse node) node.parameters).1) =
      ((selection.rewriteNode (selection.given candidates) node).parameters,
        (expressionTextsOfObject false node.parameters).flatMap
          (usedFor (selection.canonicalOf candidates) (selection.parse node))) := by
    refine applyObject_canonical ?_
    rintro ⟨hidden, expression⟩ htext
    unfold RewritesAs
    dsimp only
    cases hidden with
    | false => exact (appliedText_fst hcandidates hclear hnode htext).symm
    | true =>
      unfold piecesOf
      rw [hclear.hidden node hnode expression htext, flatMap_pieces_nil]
      rfl
  unfold parameterMapping applyParameterMapping applyCanonicalMapping applyExtractMappingToNode
  dsimp only
  rw [hobject]
  rfl

/-- The mappings that are used in the nodes. -/
def usedInNodes (selection : Selection Number) (candidates : List ExpressionMapping) :
    List ExpressionMapping :=
  selection.subGraph.flatMap fun node =>
    (expressionTextsOfObject false node.parameters).flatMap
      (usedFor (selection.canonicalOf candidates) (selection.parse node))

omit hcandidates in
/-- Each node has its own parameters gone through. -/
theorem get?_parameterTreeMappingByNode {node : ExtractedNode Number}
    (hnode : node ∈ selection.subGraph) :
    selection.parameterTreeMappingByNode.get? node.name =
      some (selection.parameterMapping node).1 := by
  unfold parameterTreeMappingByNode
  rcases Dict.get?_foldl_set_cases ExtractedNode.name
    (fun node => (selection.parameterMapping node).1) node.name selection.subGraph .empty with
    ⟨other, hother, hname, hget⟩ | ⟨hnone, -⟩
  · rw [hget, List.inj_on_of_nodup_map hclear.nodup hother hnode hname]
  · exact absurd rfl (hnone node hnode)

theorem extractWith_eq : selection.extractWith candidates =
    { nodes := selection.subGraph.map (selection.rewriteNode (selection.given candidates))
      variableMap := variablesOf <|
        candidates.foldl (useCandidate (resolveDuplicates
          (selection.dataFromOutsideSubgraph candidates) selection.nodeNames))
          (selection.usedInNodes candidates) } := by
  have happlied : (selection.subGraph.map fun node => applyExtractMappingToNode node
      (((selection.parameterTreeMappingByNode.mapValues
        (applyCanonicalMapping (selection.canonicalOf candidates))).get? node.name).getD
          .undefined)) =
      selection.subGraph.map fun node => (selection.rewriteNode (selection.given candidates) node,
        (expressionTextsOfObject false node.parameters).flatMap
          (usedFor (selection.canonicalOf candidates) (selection.parse node))) := by
    refine List.map_congr_left fun node hnode => ?_
    rw [Dict.get?_mapValues, get?_parameterTreeMappingByNode hclear hnode, Option.map_some,
      Option.getD_some]
    exact applyExtractMappingToNode_eq hcandidates hclear hnode
  unfold extractWith
  dsimp only
  rw [show (fun mapping : ExpressionMapping => getCanonicalData (resolveDuplicates
    (selection.dataFromOutsideSubgraph candidates) selection.nodeNames)
    mapping.originalExpression) = selection.canonicalOf candidates from rfl, happlied,
    List.map_map, List.flatMap_map]
  rfl

omit hcandidates hclear in
theorem canonicalOf_of_mem_usedInNodes {mapping : ExpressionMapping}
    (h : mapping ∈ selection.usedInNodes candidates) :
    ∃ reference, selection.canonicalOf candidates reference = some mapping := by
  obtain ⟨node, -, h⟩ := List.mem_flatMap.1 h
  obtain ⟨text, -, h⟩ := List.mem_flatMap.1 h
  unfold usedFor at h
  split_ifs at h
  · cases h
  · obtain ⟨reference, -, hvalue⟩ :=
      List.mem_filterMap.1 ((List.mem_insertionSort _).1 (mem_of_mem_used h))
    exact ⟨reference, hvalue⟩

/-- What is given to a reference of the nodes is used. -/
theorem given_mem_usedInNodes {mapping : ExpressionMapping} (h : mapping ∈ selection.allData)
    (houtside : selection.isOutside mapping = true) :
    selection.given candidates mapping.originalExpression ∈ selection.usedInNodes candidates := by
  obtain ⟨node, hnode, ⟨hidden, expression⟩, htext, hparse⟩ := mem_allData.1 h
  obtain ⟨reference, hreference, rfl⟩ := List.mem_map.1 hparse
  have hlocated : reference ∈ selection.locateOutside node expression :=
    List.mem_filter.2 ⟨hreference, houtside⟩
  cases hidden with
  | true =>
    rw [hclear.hidden node hnode expression htext] at hlocated
    cases hlocated
  | false =>
    obtain ⟨used, hused, horiginal⟩ :=
      exists_used_of_located hcandidates hclear hnode htext hlocated
    have hmem : used ∈ selection.usedInNodes candidates :=
      List.mem_flatMap.2 ⟨node, hnode, List.mem_flatMap.2 ⟨_, htext, hused⟩⟩
    obtain ⟨reference', hvalue⟩ := canonicalOf_of_mem_usedInNodes hmem
    obtain ⟨hsame, -, hgiven⟩ := canonicalOf_eq_some hvalue
    rwa [← horiginal, hsame, hgiven]

/-- All mappings that are used. -/
def allUsed (selection : Selection Number) (candidates : List ExpressionMapping) :
    List ExpressionMapping :=
  candidates.foldl (useCandidate (resolveDuplicates (selection.dataFromOutsideSubgraph candidates)
    selection.nodeNames)) (selection.usedInNodes candidates)

omit hcandidates hclear in
theorem canonicalOf_of_mem_allUsed {mapping : ExpressionMapping}
    (h : mapping ∈ selection.allUsed candidates) :
    ∃ reference, selection.canonicalOf candidates reference = some mapping := by
  rcases eq_of_mem_foldl_useCandidate h with h | ⟨candidate, -, hvalue⟩
  · exact canonicalOf_of_mem_usedInNodes h
  · exact ⟨candidate, hvalue⟩

/-- The name of each reference is used. -/
theorem exists_used_of_mem_references {mapping : ExpressionMapping}
    (h : mapping ∈ selection.dataFromOutsideSubgraph candidates) :
    ∃ used ∈ selection.allUsed candidates, used.replacementName =
      (selection.given candidates mapping.originalExpression).replacementName := by
  obtain ⟨hmem, houtside⟩ := List.mem_filter.1 h
  rcases List.mem_append.1 hmem with hdata | hcandidate
  · exact ⟨_, mem_foldl_useCandidate candidates
      (given_mem_usedInNodes hcandidates hclear hdata houtside), rfl⟩
  · exact exists_name_foldl_useCandidate hcandidate
      (canonicalOf_of_mem (List.mem_map.2 ⟨mapping, h, rfl⟩))

omit hcandidates in
/-- Two mappings that are used under one name are by one expression. -/
theorem originalExpression_eq_of_name_eq {mapping mapping' reference reference' : ExpressionMapping}
    (h : selection.canonicalOf candidates reference = some mapping)
    (h' : selection.canonicalOf candidates reference' = some mapping')
    (hname : mapping.replacementName = mapping'.replacementName) :
    mapping.originalExpression = mapping'.originalExpression :=
  (canonicalOf_eq_some h).2.1.eq_of_name_eq hclear.separate (canonicalOf_eq_some h').2.1 hname

theorem get?_variables_iff (name originalExpression : CodeUnits) :
    (variablesOf (selection.allUsed candidates)).get? name = some originalExpression ↔
      ∃ mapping ∈ selection.dataFromOutsideSubgraph candidates,
        mapping.originalExpression = originalExpression ∧
          (selection.given candidates originalExpression).replacementName = name := by
  constructor
  · intro h
    obtain ⟨used, hused, hname, horiginal⟩ := exists_of_get?_variablesOf h
    obtain ⟨reference, hvalue⟩ := canonicalOf_of_mem_allUsed hused
    obtain ⟨hsame, hcanonical, hgiven⟩ := canonicalOf_eq_some hvalue
    obtain ⟨mapping, hmapping, heq⟩ := List.mem_map.1 hcanonical.mem
    refine ⟨mapping, hmapping, heq.trans horiginal, ?_⟩
    rw [← horiginal, hsame, hgiven, hname]
  · rintro ⟨mapping, hmapping, rfl, rfl⟩
    obtain ⟨used, hused, hname⟩ := exists_used_of_mem_references hcandidates hclear hmapping
    obtain ⟨last, hlast, hlastName, hget⟩ := exists_get?_variablesOf hused
    obtain ⟨reference, hvalue⟩ := canonicalOf_of_mem_allUsed hlast
    have hcanonical := canonicalOf_of_mem (List.mem_map.2 ⟨mapping, hmapping, rfl⟩)
    have hsame := originalExpression_eq_of_name_eq hclear hvalue hcanonical (hlastName.trans hname)
    rw [← hname, hget, hsame, (canonicalOf_eq_some hcanonical).1]

theorem keepsApart_extractWith :
    selection.KeepsApart (selection.dataFromOutsideSubgraph candidates)
      (selection.given candidates) (selection.extractWith candidates) := by
  rw [extractWith_eq hcandidates hclear]
  have hvalues := get?_variables_iff hcandidates hclear
  have hnames : ∀ mapping ∈ selection.dataFromOutsideSubgraph candidates,
      ∀ mapping' ∈ selection.dataFromOutsideSubgraph candidates,
      (selection.given candidates mapping.originalExpression).replacementName =
          (selection.given candidates mapping'.originalExpression).replacementName →
        mapping.originalExpression = mapping'.originalExpression := by
    intro mapping hmapping mapping' hmapping' hname
    have hvalue := canonicalOf_of_mem (List.mem_map.2 ⟨mapping, hmapping, rfl⟩)
    have hvalue' := canonicalOf_of_mem (List.mem_map.2 ⟨mapping', hmapping', rfl⟩)
    have hsame := originalExpression_eq_of_name_eq hclear hvalue hvalue' hname
    rwa [(canonicalOf_eq_some hvalue).1, (canonicalOf_eq_some hvalue').1] at hsame
  refine ⟨rfl, fun mapping hmapping => ?_, fun mapping hmapping mapping' hmapping' hne hname =>
    hne (hnames mapping hmapping mapping' hmapping' hname), hvalues⟩
  refine ⟨_, (hvalues _ _).2 ⟨mapping, hmapping, rfl, rfl⟩, fun name hname => ?_⟩
  obtain ⟨-, -, -, hgiven⟩ := (hvalues _ _).1 hname
  exact hgiven.symm

end Given

/-- Where no two references collide this can be decided. -/
theorem clear_of_undisputed {candidates : List ExpressionMapping}
    (hundisputed : Undisputed (selection.dataFromOutsideSubgraph candidates))
    (hnodup : selection.subGraphNames.Nodup)
    (hseparate : ∀ mapping ∈ selection.dataFromOutsideSubgraph candidates,
      ∀ mapping' ∈ selection.dataFromOutsideSubgraph candidates,
        mapping.replacementName = mapping'.replacementName →
          mapping.originalExpression ≠ mapping'.originalExpression →
            mapping.replacementPrefix = mapping'.replacementPrefix)
    (hplain : ∀ mapping ∈ selection.dataFromOutsideSubgraph candidates, IsPlain mapping.key)
    (hvisible : ∀ node ∈ selection.subGraph,
      ∀ text ∈ expressionTextsOfObject false node.parameters, text.1 = false →
        (∀ reference ∈ selection.locateOutside node text.2,
          .reference reference.1 reference.2 ∈ selection.piecesOf node text.2) ∧
        StagesClear (firstKey (selection.dataFromOutsideSubgraph candidates))
          (selection.piecesOf node text.2) []
          (selection.originalsOf (selection.dataFromOutsideSubgraph candidates) node text.2))
    (hhidden : ∀ node ∈ selection.subGraph,
      ∀ text ∈ expressionTextsOfObject false node.parameters, text.1 = true →
        selection.locateOutside node text.2 = []) :
    selection.Clear (selection.dataFromOutsideSubgraph candidates) where
  nodup := hnodup
  separate mapping mapping' name h h' hne := by
    obtain ⟨hmapping, hname⟩ := hundisputed.of_tried h
    obtain ⟨hmapping', hname'⟩ := hundisputed.of_tried h'
    exact hseparate mapping hmapping mapping' hmapping' (hname.trans hname'.symm) hne
  plain mapping name h := by
    obtain ⟨hmapping, rfl⟩ := hundisputed.of_tried h
    exact hplain mapping hmapping
  expressions node hnode expression htext := by
    obtain ⟨hreads, hstages⟩ := hvisible node hnode _ htext rfl
    refine ⟨hreads, fun replacement hreplacement => ?_⟩
    have hfirst : ∀ mapping ∈ selection.dataFromOutsideSubgraph candidates,
        firstKey (selection.dataFromOutsideSubgraph candidates) mapping.originalExpression =
          replacement mapping.originalExpression := by
      intro mapping hmapping
      obtain ⟨mapping', name, htried, horiginal, hkey⟩ := hreplacement mapping hmapping
      obtain ⟨hmapping', rfl⟩ := hundisputed.of_tried htried
      obtain rfl := hundisputed.originals mapping' hmapping' mapping hmapping horiginal
      exact (hundisputed.firstKey_eq hmapping).trans hkey.symm
    refine stagesClear_congr (fun index mapping hpiece => ?_) (fun original horiginal => ?_) hstages
    · exact hfirst mapping (mem_references_of_located hnode htext
        (mem_located_of_mem_pieces _ _ _ hpiece))
    · rw [originalsOf, List.mem_insertionSort, List.mem_filter, decide_eq_true_eq] at horiginal
      obtain ⟨mapping, hmapping, rfl⟩ := List.mem_map.1 horiginal.2
      exact hfirst mapping hmapping
  hidden node hnode expression htext := hhidden node hnode _ htext rfl

/-- A field of the input, and one of another node. -/
def twoFields (field : String) : Selection ℕ where
  subGraph := [⟨units "B", units "set", [(units "value",
    .string (units "=\x7b\x7b $json.a + $('A').item.json." ++ units field ++ units " \x7d\x7d"))]⟩]
  nodeNames := [units "A", units "B"]
  insertedStartName := units "Start"
  graphInputNodeNames := some [units "B"]

end Selection

end NodeReferenceParser

end N8n
