import N8n.ParameterValues

/-!
# What is left of a parameter value

A rebuilt value differs from the old one in its expressions only, except that `null` becomes an
object and a property that would be the prototype is lost.
-/

namespace N8n

section Alike

variable {Number : Type} {Refers : CodeUnits → Prop}

mutual

/-- Without an expression that refers to the node there is no difference. -/
theorem Alike.eq {b : Bool} : ∀ {value value' : ParameterValue Number},
    Alike Refers b value value' → (∀ expression ∈ expressions b value, ¬ Refers expression) →
      value' = value
  | _, _, .string _ _, _ => rfl
  | .string value, _, .expression _ hrenamable hrefers, h =>
    absurd hrefers (h value (by simp [expressions, hrenamable]))
  | _, _, .number _ _, _ => rfl
  | _, _, .boolean _ _, _ => rfl
  | _, _, .null _, _ => rfl
  | _, _, .undefined _, _ => rfl
  | _, _, .array hvalues, h => congrArg _ (AlikeArray.eq hvalues h)
  | _, _, .object hproperties, h => congrArg _ (AlikeObject.eq hproperties h)

theorem AlikeArray.eq : ∀ {values values' : List (ParameterValue Number)},
    AlikeArray Refers values values' →
      (∀ expression ∈ expressionsOfArray values, ¬ Refers expression) → values' = values
  | _, _, .nil, _ => rfl
  | _, _, .cons hvalue hvalues, h => by
    simp only [expressionsOfArray, List.mem_append] at h
    rw [Alike.eq hvalue fun e he => h e (.inl he), AlikeArray.eq hvalues fun e he => h e (.inr he)]

theorem AlikeObject.eq {b : Bool} :
    ∀ {properties properties' : List (CodeUnits × ParameterValue Number)},
    AlikeObject Refers b properties properties' →
      (∀ expression ∈ expressionsOfObject b properties, ¬ Refers expression) →
      properties' = properties
  | _, _, .nil _, _ => rfl
  | _, _, .cons _ hvalue hproperties, h => by
    simp only [expressionsOfObject, List.mem_append] at h
    rw [Alike.eq hvalue fun e he => h e (.inl he),
      AlikeObject.eq hproperties fun e he => h e (.inr he)]

end

variable {currentName newName : CodeUnits} {b : Bool}

theorem alike_string_iff {value : CodeUnits} :
    Alike Refers b (.string value : ParameterValue Number)
      (renameNodeInParameterValue currentName newName b (.string value)) ↔
      Rebuildable Refers currentName newName b (.string value : ParameterValue Number) := by
  simp only [renameNodeInParameterValue, Rebuildable]
  by_cases hrenamable : isRenamable b value
  · rw [if_pos hrenamable]
    constructor
    · intro h _ hnot
      refine ParameterValue.string.inj (h.eq fun expression hmem => ?_)
      simp only [expressions, if_pos hrenamable, List.mem_singleton] at hmem
      exact hmem ▸ hnot
    · intro h
      by_cases hrefers : Refers value
      · exact .expression _ hrenamable hrefers
      · rw [h hrenamable hrefers]
        exact .string b value
  · rw [if_neg hrenamable]
    exact iff_of_true (.string b value) fun h => absurd h hrenamable

theorem AlikeObject.length_eq :
    ∀ {properties properties' : List (CodeUnits × ParameterValue Number)},
    AlikeObject Refers b properties properties' → properties'.length = properties.length
  | _, _, .nil _ => rfl
  | _, _, .cons _ _ h => congrArg (· + 1) h.length_eq

theorem renameNodeInObject_length_le : ∀ properties : List (CodeUnits × ParameterValue Number),
    (renameNodeInObject currentName newName b properties).length ≤ properties.length
  | [] => Nat.le_refl _
  | (parameterName, value) :: properties => by
    have ih := renameNodeInObject_length_le properties
    rw [renameNodeInObject]
    split_ifs
    · exact Nat.le_succ_of_le ih
    · exact Nat.succ_le_succ ih

mutual

/-- A rebuilt value differs in expressions that refer to the node at most where it can be
rebuilt. -/
theorem alike_iff {b : Bool} : ∀ value : ParameterValue Number,
    Alike Refers b value (renameNodeInParameterValue currentName newName b value) ↔
      Rebuildable Refers currentName newName b value
  | .string value => alike_string_iff
  | .number value => iff_of_true (.number b value) trivial
  | .boolean value => iff_of_true (.boolean b value) trivial
  | .null => iff_of_false nofun id
  | .undefined => iff_of_true (.undefined b) trivial
  | .array values => by
    simp only [renameNodeInParameterValue, Rebuildable]
    rw [← alikeArray_iff values]
    exact ⟨fun | .array h => h, .array⟩
  | .object properties => by
    simp only [renameNodeInParameterValue, Rebuildable]
    rw [← alikeObject_iff properties]
    exact ⟨fun | .object h => h, .object⟩

theorem alikeArray_iff : ∀ values : List (ParameterValue Number),
    AlikeArray Refers values (renameNodeInArray currentName newName values) ↔
      RebuildableArray Refers currentName newName values
  | [] => iff_of_true .nil trivial
  | value :: values => by
    simp only [renameNodeInArray, RebuildableArray]
    rw [← alike_iff value, ← alikeArray_iff values]
    exact ⟨fun | .cons hvalue hvalues => ⟨hvalue, hvalues⟩, fun h => .cons h.1 h.2⟩

theorem alikeObject_iff {b : Bool} : ∀ properties : List (CodeUnits × ParameterValue Number),
    AlikeObject Refers b properties (renameNodeInObject currentName newName b properties) ↔
      RebuildableObject Refers currentName newName b properties
  | [] => iff_of_true (.nil b) trivial
  | (parameterName, value) :: properties => by
    simp only [renameNodeInObject, RebuildableObject]
    by_cases hname : parameterName = protoName
    · rw [if_pos hname]
      refine iff_of_false (fun h => ?_) fun h => h.1 hname
      -- what is lost does not come back
      have hlength := h.length_eq
      have hle := @renameNodeInObject_length_le Number currentName newName b properties
      rw [List.length_cons] at hlength
      omega
    · rw [if_neg hname, ← alike_iff value, ← alikeObject_iff properties]
      exact ⟨fun | .cons _ hvalue hproperties => ⟨hname, hvalue, hproperties⟩,
        fun h => .cons parameterName h.2.1 h.2.2⟩

end

end Alike

/-- An optional parameter that is not set. -/
def optionalParameter : ParameterValue ℕ := .object [(units "value", .null)]

end N8n
