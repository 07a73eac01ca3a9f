import N8n.FilterParameter

/-!
# Filters

Validation never finds an issue, so that a filter it accepts can throw. Without regard to case, both
operands are taken in lower case, but a regular expression is not.
-/

namespace N8n

variable (rt : ValidationRuntime)

/-! ## Errors of evaluation -/

/-- The operands cannot be parsed for the operator. -/
def Unparsable (options : FilterOptionsValue) (condition : FilterConditionValue) : Prop :=
  ∃ error, parseFilterConditionValues rt condition options {} = .error error

/-- Before a condition whose operands cannot be parsed there is one that stops the evaluation: with
`and` one that does not pass, with `or` one that does, or one that throws. -/
def Guarded (value : FilterValue) (decides : Bool) : Prop :=
  ∀ before condition after, value.conditions = before ++ condition :: after →
    Unparsable rt value.options condition →
      ∃ earlier ∈ before, executeFilterCondition rt earlier value.options {} ≠ .ok !decides

def GuardedFilter (value : FilterValue) : Prop :=
  match value.combinator with
  | .and => Guarded rt value false
  | .or => Guarded rt value true
  | .unknown => True

/-- A filter without issues does not throw a `FilterError`. -/
def EvaluatesAccepted (name : String) (value : FilterValue) (itemIndex : ℕ) : Prop :=
  validateFilterParameter rt name value = .ok .empty →
    ∀ error, executeFilter rt value itemIndex ≠ .error (.filterError error)

theorem collectIssues_eq (name : String) (options : FilterOptionsValue) :
    ∀ (conditions : List FilterConditionValue) (index : ℕ) (issues : Dict String (List CodeUnits)),
      collectIssues rt name options index conditions issues = .ok issues
  | [], _, _ => rfl
  | _ :: conditions, index, issues => collectIssues_eq name options conditions (index + 1) issues

theorem parse_ok_iff (condition : FilterConditionValue) (options : FilterOptionsValue)
    (index itemIndex : ℕ) (operands : Operand × Operand) :
    parseFilterConditionValues rt condition options { index, itemIndex } = .ok operands ↔
      parseFilterConditionValues rt condition options {} = .ok operands := by
  simp only [parseFilterConditionValues, isUnresolved]
  split_ifs <;> simp

/-- An operator does not throw a `FilterError`. -/
def NoFilterError (outcome : FilterOutcome) : Prop := ∀ error, outcome ≠ .error (.filterError error)

theorem noFilterError_ok (passes : Bool) : NoFilterError (.ok passes) := fun _ h => by cases h

theorem noFilterError_thrown : NoFilterError (.error .thrown) := fun _ h => by cases h

theorem NoFilterError.map {outcome : FilterOutcome} (h : NoFilterError outcome) (f : Bool → Bool) :
    NoFilterError (outcome.map f) := by
  cases outcome with
  | ok passes => exact noFilterError_ok _
  | error failure => exact h

theorem noFilterError_testPattern (pattern : Operand) (text : CodeUnits) :
    NoFilterError (testPattern rt pattern text) := by
  simp only [testPattern]
  split
  · exact noFilterError_ok _
  · exact noFilterError_thrown

theorem noFilterError_compareMillis (compare : Doubles.Number → Doubles.Number → Bool)
    (left right : Operand) : NoFilterError (compareMillis compare left right) := by
  unfold compareMillis
  split
  · exact noFilterError_ok _
  · exact noFilterError_thrown

theorem noFilterError_executeString {ignoreCase : Bool} {operation : String} {left right : Operand}
    {outcome : FilterOutcome}
    (h : executeString rt ignoreCase operation left right = some outcome) : NoFilterError outcome := by
  simp only [executeString] at h
  split at h <;> cases h <;> first
    | exact noFilterError_ok _
    | exact noFilterError_testPattern rt _ _
    | exact (noFilterError_testPattern rt _ _).map _

theorem noFilterError_executeNumber {exists' : Bool} {operation : String} {left right : Operand}
    {outcome : FilterOutcome}
    (h : executeNumber rt exists' operation left right = some outcome) : NoFilterError outcome := by
  unfold executeNumber at h
  split at h <;> cases h <;> exact noFilterError_ok _

theorem noFilterError_executeDateTime {exists' : Bool} {operation : String} {left right : Operand}
    {outcome : FilterOutcome}
    (h : executeDateTime exists' operation left right = some outcome) : NoFilterError outcome := by
  unfold executeDateTime at h
  split_ifs at h <;> try (cases h; exact noFilterError_ok _)
  split at h <;> cases h <;> exact noFilterError_compareMillis _ _ _

theorem noFilterError_executeBoolean {exists' : Bool} {operation : String} {left right : Operand}
    {outcome : FilterOutcome}
    (h : executeBoolean exists' operation left right = some outcome) : NoFilterError outcome := by
  unfold executeBoolean at h
  split at h <;> cases h <;> exact noFilterError_ok _

theorem noFilterError_containsValue (left right : Operand) (ignoreCase : Bool) :
    NoFilterError (containsValue rt left right ignoreCase) := by
  unfold containsValue
  split
  · exact noFilterError_ok _
  · exact noFilterError_thrown

theorem noFilterError_executeArray {ignoreCase : Bool} {operation : String} {left right : Operand}
    {outcome : FilterOutcome}
    (h : executeArray rt ignoreCase operation left right = some outcome) : NoFilterError outcome := by
  simp only [executeArray] at h
  split at h <;> cases h <;> first
    | exact noFilterError_ok _
    | exact noFilterError_containsValue rt _ _ _
    | exact (noFilterError_containsValue rt _ _ _).map _

theorem noFilterError_executeObject {operation : String} {left : Operand} {outcome : FilterOutcome}
    (h : executeObject operation left = some outcome) : NoFilterError outcome := by
  unfold executeObject at h
  split at h <;> cases h <;> exact noFilterError_ok _

/-- What falls through is left to the next case. -/
theorem noFilterError_or {first second : Option FilterOutcome}
    (hfirst : ∀ outcome, first = some outcome → NoFilterError outcome)
    (hsecond : ∀ outcome, second = some outcome → NoFilterError outcome) :
    ∀ outcome, first.or second = some outcome → NoFilterError outcome := by
  intro outcome h
  cases first with
  | none => exact hsecond outcome h
  | some result => exact hfirst outcome h

theorem noFilterError_executeOperator {type : FilterOperatorType} {operation : String}
    {ignoreCase exists' : Bool} {left right : Operand} :
    ∀ outcome, executeOperator rt type operation ignoreCase exists' left right = some outcome →
      NoFilterError outcome := by
  have hobject : ∀ outcome, executeObject operation left = some outcome → NoFilterError outcome :=
    fun _ => noFilterError_executeObject
  have harray : ∀ outcome, (executeArray rt ignoreCase operation left right).or
      (executeObject operation left) = some outcome → NoFilterError outcome :=
    noFilterError_or (fun _ => noFilterError_executeArray rt) hobject
  have hboolean : ∀ outcome, (executeBoolean exists' operation left right).or
      ((executeArray rt ignoreCase operation left right).or (executeObject operation left)) =
        some outcome → NoFilterError outcome :=
    noFilterError_or (fun _ => noFilterError_executeBoolean) harray
  have hdateTime : ∀ outcome, (executeDateTime exists' operation left right).or
      ((executeBoolean exists' operation left right).or
        ((executeArray rt ignoreCase operation left right).or (executeObject operation left))) =
        some outcome → NoFilterError outcome :=
    noFilterError_or (fun _ => noFilterError_executeDateTime) hboolean
  cases type with
  | string => exact fun _ => noFilterError_executeString rt
  | number => exact noFilterError_or (fun _ => noFilterError_executeNumber rt) hdateTime
  | boolean => exact hboolean
  | array => exact harray
  | object => exact hobject
  | dateTime => exact hdateTime
  | any => exact fun _ h => by cases h

theorem parse_error_iff (condition : FilterConditionValue) (options : FilterOptionsValue)
    (index itemIndex : ℕ) :
    (∃ error, parseFilterConditionValues rt condition options { index, itemIndex } =
        .error error) ↔ Unparsable rt options condition := by
  have hok := parse_ok_iff rt condition options index itemIndex
  unfold Unparsable
  cases hparse : parseFilterConditionValues rt condition options { index, itemIndex } with
  | error error =>
    cases hdefault : parseFilterConditionValues rt condition options {} with
    | error error => simp
    | ok operands => rw [(hok _).2 hdefault] at hparse; cases hparse
  | ok operands => rw [(hok _).1 hparse]

/-- Only operands that cannot be parsed make a condition throw a `FilterError`. -/
theorem executeFilterCondition_filterError_iff (condition : FilterConditionValue)
    (options : FilterOptionsValue) (index itemIndex : ℕ) :
    (∃ error, executeFilterCondition rt condition options { index, itemIndex } =
        .error (.filterError error)) ↔ Unparsable rt options condition := by
  rw [← parse_error_iff rt condition options index itemIndex]
  simp only [executeFilterCondition]
  cases parseFilterConditionValues rt condition options { index, itemIndex } with
  | error error => simp
  | ok operands =>
    refine iff_of_false (fun ⟨error, h⟩ => ?_) (fun ⟨error, h⟩ => by cases h)
    simp only at h
    split_ifs at h
    cases hoperator : executeOperator rt condition.operator.type condition.operator.operation
        (!options.caseSensitive) (!operands.1.isNullish && !operands.1.isNaN) operands.1
        operands.2 with
    | none => rw [hoperator] at h; cases h
    | some outcome =>
      rw [hoperator] at h
      exact noFilterError_executeOperator rt outcome hoperator error h

/-- What a condition gives does not depend on where it stands. -/
theorem executeFilterCondition_ok_iff (condition : FilterConditionValue)
    (options : FilterOptionsValue) (index itemIndex : ℕ) {passes : Bool} :
    executeFilterCondition rt condition options { index, itemIndex } = .ok passes ↔
      executeFilterCondition rt condition options {} = .ok passes := by
  have hok := parse_ok_iff rt condition options index itemIndex
  simp only [executeFilterCondition]
  cases hparse : parseFilterConditionValues rt condition options { index, itemIndex } with
  | error error =>
    obtain ⟨error', herror'⟩ := (parse_error_iff rt condition options index itemIndex).1 ⟨error, hparse⟩
    rw [herror']
    simp
  | ok operands => rw [(hok _).1 hparse]

/-- A run ends with a `FilterError` if it reaches a condition whose operands cannot be parsed. -/
theorem passAll_filterError_iff (options : FilterOptionsValue) (itemIndex : ℕ) (decides : Bool) :
    ∀ (conditions : List FilterConditionValue) (index : ℕ),
      (∃ error, passAll rt options itemIndex decides index conditions =
          .error (.filterError error)) ↔
        ∃ before condition after, conditions = before ++ condition :: after ∧
          Unparsable rt options condition ∧
          ∀ earlier ∈ before, executeFilterCondition rt earlier options {} = .ok !decides
  | [], index => by
    refine iff_of_false (fun ⟨error, h⟩ => by cases h) ?_
    rintro ⟨before, condition, after, h, -⟩
    exact absurd h.symm (by simp)
  | first :: conditions, index => by
    have ih := passAll_filterError_iff options itemIndex decides conditions (index + 1)
    have hunparsable := executeFilterCondition_filterError_iff rt first options index itemIndex
    have hpasses := fun passes =>
      @executeFilterCondition_ok_iff rt first options index itemIndex passes
    rw [passAll]
    cases hfirst : executeFilterCondition rt first options { index, itemIndex } with
    | error failure =>
      rw [hfirst] at hunparsable
      refine hunparsable.trans ⟨fun h => ⟨[], first, conditions, rfl, h, fun earlier hearlier =>
        absurd hearlier List.not_mem_nil⟩, ?_⟩
      rintro ⟨before, condition, after, hsplit, hcondition, hbefore⟩
      cases before with
      | nil => cases hsplit; exact hcondition
      | cons earlier before =>
        cases hsplit
        have hpassed := (hpasses _).2 (hbefore first List.mem_cons_self)
        rw [hfirst] at hpassed
        cases hpassed
    | ok passes =>
      have hdefault := (hpasses passes).1 hfirst
      have hparsable : ¬ Unparsable rt options first := by
        rw [← hunparsable, hfirst]
        rintro ⟨error, h⟩
        cases h
      simp only
      by_cases hdecides : passes = decides
      · refine iff_of_false (fun ⟨error, h⟩ => by rw [if_pos hdecides] at h; cases h) ?_
        rintro ⟨before, condition, after, hsplit, hcondition, hbefore⟩
        cases before with
        | nil => cases hsplit; exact hparsable hcondition
        | cons earlier before =>
          cases hsplit
          have hpassed := hdefault.symm.trans (hbefore first List.mem_cons_self)
          cases decides <;> cases passes <;> simp_all
      · have hpassed : passes = !decides := by
          cases decides <;> cases passes <;> simp_all
        rw [if_neg hdecides, ih]
        constructor
        · rintro ⟨before, condition, after, rfl, hcondition, hbefore⟩
          refine ⟨first :: before, condition, after, rfl, hcondition, ?_⟩
          exact List.forall_mem_cons.2 ⟨hpassed ▸ hdefault, hbefore⟩
        · rintro ⟨before, condition, after, hsplit, hcondition, hbefore⟩
          cases before with
          | nil => cases hsplit; exact absurd hcondition hparsable
          | cons earlier before =>
            cases hsplit
            exact ⟨before, condition, after, rfl, hcondition,
              (List.forall_mem_cons.1 hbefore).2⟩

theorem passAll_guarded_iff (value : FilterValue) (itemIndex : ℕ) (decides : Bool) :
    (∀ error, passAll rt value.options itemIndex decides 0 value.conditions ≠
        .error (.filterError error)) ↔ Guarded rt value decides := by
  have h := passAll_filterError_iff rt value.options itemIndex decides value.conditions 0
  rw [← not_iff_not, Guarded]
  push Not
  rw [h]

/-- A filter that validation accepts does not throw exactly if its conditions are guarded. -/
theorem evaluatesAccepted_iff (name : String) (value : FilterValue) (itemIndex : ℕ) :
    EvaluatesAccepted rt name value itemIndex ↔ GuardedFilter rt value := by
  have haccepted : validateFilterParameter rt name value = .ok .empty :=
    collectIssues_eq rt name value.options value.conditions 0 .empty
  unfold EvaluatesAccepted GuardedFilter executeFilter
  rw [forall_prop_of_true haccepted]
  cases value.combinator with
  | and => exact passAll_guarded_iff rt value itemIndex false
  | or => exact passAll_guarded_iff rt value itemIndex true
  | unknown => exact iff_of_true (fun _ h => by cases h) trivial

/-! ## A runtime for plain texts -/

/-- Upper case ASCII letters are put in lower case, and a pattern is found where it stands as it
is. Nothing is parsed from a text. -/
def asciiRuntime : ValidationRuntime where
  get _ _ := .undefined
  isEqual left right := left.same right
  toPrimitive value := value
  stringToNumber _ := .nan
  toText _ := []
  testRegExp source text := some (source <:+: text)
  toLowerCase text := text.map fun char => if 0x41 ≤ char ∧ char ≤ 0x5a then char + 0x20 else char
  toLocaleLowerCase text :=
    text.map fun char => if 0x41 ≤ char ∧ char ≤ 0x5a then char + 0x20 else char
  toLocaleLowerCase_nil := rfl
  trim text := text
  dateTimeText _ := []
  stringify _ := []
  parseDateTime _ := none
  parseJson _ := none
  jsonParse _ := none
  testRegExpWithFlags source _ text := some (source <:+: text)

/-- A text is compared with a number. -/
def textAsNumber : FilterValue where
  options := { caseSensitive := true, strict := true }
  conditions :=
    [{ leftValue := .json (.string (units "one")), operator := { type := .number, operation := "gt" }
       rightValue := .json (.number (.finite 0 (by decide +kernel))) }]
  combinator := .and

/-- Validation finds no issue, and evaluation throws. -/
theorem textAsNumber_not_evaluates : ¬ EvaluatesAccepted asciiRuntime "conditions" textAsNumber 0 := by
  intro h
  have hthrows : ∃ error, executeFilter asciiRuntime textAsNumber 0 = .error (.filterError error) :=
    ⟨_, rfl⟩
  obtain ⟨error, herror⟩ := hthrows
  exact h rfl error herror

/-! ## Conditions without regard to case -/

/-- The positive operators of texts, and the one of arrays. -/
inductive PositiveOperator
  | equals | contains | startsWith | endsWith | regex | arrayContains

namespace PositiveOperator

def type : PositiveOperator → FilterOperatorType
  | .arrayContains => .array
  | _ => .string

/-- The operation, or its negation. -/
def operation (negated : Bool) : PositiveOperator → String
  | .equals => if negated then "notEquals" else "equals"
  | .contains | .arrayContains => if negated then "notContains" else "contains"
  | .startsWith => if negated then "notStartsWith" else "startsWith"
  | .endsWith => if negated then "notEndsWith" else "endsWith"
  | .regex => if negated then "notRegex" else "regex"

end PositiveOperator

/-- A condition with the operator, or with its negation. -/
def conditionOf (operator : PositiveOperator) (negated : Bool) (rightType : Option FilterOperatorType)
    (singleValue : Bool) (leftValue rightValue : Operand) : FilterConditionValue where
  leftValue
  operator := { type := operator.type, operation := operator.operation negated, rightType, singleValue }
  rightValue

/-- A condition that passes also passes without regard to case, and the negated operator gives the
opposite in both modes. -/
def IgnoringCase (operator : PositiveOperator) (rightType : Option FilterOperatorType)
    (singleValue : Bool) (leftValue rightValue : Operand) (options : FilterOptionsValue)
    (metadata : FilterConditionMetadata) : Prop :=
  let execute (negated caseSensitive : Bool) : FilterOutcome :=
    executeFilterCondition rt
      (conditionOf operator negated rightType singleValue leftValue rightValue)
      { options with caseSensitive } metadata
  (execute false true = .ok true → execute false false = .ok true) ∧
    ∀ caseSensitive, execute true caseSensitive = (execute false caseSensitive).map (!·)

/-- The text that an operand is compared as. -/
def comparedText (operand : Operand) : CodeUnits := operand.orEmpty.toText rt

/-- Where the first text is found in the other one, it is put in lower case there as on its own. A
text that a regular expression is matched with is in lower case already. -/
def LowersAlike (operator : PositiveOperator) (left right : Operand) : Prop :=
  let text := comparedText rt left
  let other := comparedText rt right
  let loweredText := comparedText rt (left.lowered rt)
  let loweredOther := comparedText rt (right.lowered rt)
  let lower := rt.toLocaleLowerCase
  match operator with
  | .equals | .arrayContains => True
  | .contains => other <:+: text → ∃ before after, text = before ++ other ++ after ∧
      loweredText = lower before ++ loweredOther ++ lower after
  | .startsWith => ∀ after, text = other ++ after → loweredText = loweredOther ++ lower after
  | .endsWith => ∀ before, text = before ++ other → loweredText = lower before ++ loweredOther
  | .regex => loweredText = text

theorem orEmpty_lowered (operand : Operand) :
    (operand.lowered rt).orEmpty = operand.orEmpty.lowered rt := by
  cases operand with
  | dateTime millis => rfl
  | json value =>
    cases value with
    | null | undefined =>
      exact congrArg (fun text => Operand.json (.string text)) rt.toLocaleLowerCase_nil.symm
    | _ => rfl

theorem strictEquals_lowered {left right : Operand} (h : left.strictEquals right) :
    (left.lowered rt).strictEquals (right.lowered rt) := by
  cases left with
  | dateTime millis => cases h
  | json left =>
    cases right with
    | dateTime millis => cases left <;> cases h
    | json right =>
      cases left <;> cases right <;> try exact h
      rename_i text other
      have heq : text = other := by
        simpa [Operand.strictEquals, ParameterValue.same, Operand.isNaN] using h
      simp [heq, Operand.strictEquals, ParameterValue.same, Operand.isNaN, Operand.lowered]

theorem arrayContainsValue_ignoreCase {array : List JsValue} {value : Operand}
    (h : arrayContainsValue rt array value false) : arrayContainsValue rt array value true := by
  unfold arrayContainsValue at h ⊢
  split
  · rename_i text
    simp only [Bool.false_eq_true, if_false, if_true, List.any_eq_true] at h ⊢
    obtain ⟨item, hitem, hsame⟩ := h
    refine ⟨item, hitem, ?_⟩
    cases item <;> simp [ParameterValue.same] at hsame
    simp [hsame]
  · simpa using h
  · exact h

/-- What the operator gives for parsed operands. -/
def positiveOutcome (operator : PositiveOperator) (ignoreCase : Bool) (left right : Operand) :
    FilterOutcome :=
  let left' := if ignoreCase then left.lowered rt else left
  let right' := if ignoreCase then right.lowered rt else right
  match operator with
  | .equals => .ok (left'.orEmpty.strictEquals right'.orEmpty)
  | .contains => .ok (comparedText rt right' <:+: comparedText rt left')
  | .startsWith => .ok (comparedText rt right' <+: comparedText rt left')
  | .endsWith => .ok (comparedText rt right' <:+ comparedText rt left')
  | .regex => testPattern rt right.orEmpty (comparedText rt left')
  | .arrayContains =>
    containsValue rt (if left.isNullish then .json (.array []) else left) right ignoreCase

theorem executeOperator_positive (operator : PositiveOperator) (negated ignoreCase exists' : Bool)
    (left right : Operand) :
    executeOperator rt operator.type (operator.operation negated) ignoreCase exists' left right =
      some (if negated then (positiveOutcome rt operator ignoreCase left right).map (!·)
        else positiveOutcome rt operator ignoreCase left right) := by
  cases operator <;> cases negated <;>
    simp [executeOperator, PositiveOperator.type, PositiveOperator.operation, executeString,
      executeArray, positiveOutcome, comparedText, Except.map] <;> rfl

theorem executeFilterCondition_conditionOf (operator : PositiveOperator) (negated : Bool)
    (rightType : Option FilterOperatorType) (singleValue : Bool) (leftValue rightValue : Operand)
    (options : FilterOptionsValue) (metadata : FilterConditionMetadata) :
    executeFilterCondition rt (conditionOf operator negated rightType singleValue leftValue rightValue)
        options metadata =
      match parseFilterConditionValues rt
        (conditionOf operator false rightType singleValue leftValue rightValue) options metadata with
      | .error error => .error (.filterError error)
      | .ok (left, right) =>
        if negated then (positiveOutcome rt operator (!options.caseSensitive) left right).map (!·)
        else positiveOutcome rt operator (!options.caseSensitive) left right := by
  have hparse : parseFilterConditionValues rt
      (conditionOf operator negated rightType singleValue leftValue rightValue) options metadata =
        parseFilterConditionValues rt
          (conditionOf operator false rightType singleValue leftValue rightValue) options metadata :=
    rfl
  rw [executeFilterCondition, hparse]
  cases parseFilterConditionValues rt
      (conditionOf operator false rightType singleValue leftValue rightValue) options metadata with
  | error error => rfl
  | ok operands =>
    have hoperation : operator.operation negated ≠ "exists" ∧
        operator.operation negated ≠ "notExists" := by
      cases operator <;> cases negated <;> decide
    refine (if_neg hoperation.1).trans ((if_neg hoperation.2).trans ?_)
    exact congrArg (·.getD (.ok false)) (executeOperator_positive rt operator negated _ _ _ _)

/-- The operator still passes with both operands in lower case. -/
theorem positiveOutcome_ignoreCase {operator : PositiveOperator} {left right : Operand}
    (halike : LowersAlike rt operator left right)
    (h : positiveOutcome rt operator false left right = .ok true) :
    positiveOutcome rt operator true left right = .ok true := by
  cases operator with
  | equals =>
    simp only [positiveOutcome, Bool.false_eq_true, if_false, if_true, Except.ok.injEq,
      orEmpty_lowered] at h ⊢
    exact strictEquals_lowered rt h
  | contains =>
    simp only [positiveOutcome, Bool.false_eq_true, if_false, if_true, Except.ok.injEq,
      decide_eq_true_iff] at h ⊢
    obtain ⟨before, after, -, hlowered⟩ := halike h
    exact ⟨_, _, hlowered.symm⟩
  | startsWith =>
    simp only [positiveOutcome, Bool.false_eq_true, if_false, if_true, Except.ok.injEq,
      decide_eq_true_iff] at h ⊢
    obtain ⟨after, htext⟩ := h
    exact ⟨_, (halike after htext.symm).symm⟩
  | endsWith =>
    simp only [positiveOutcome, Bool.false_eq_true, if_false, if_true, Except.ok.injEq,
      decide_eq_true_iff] at h ⊢
    obtain ⟨before, htext⟩ := h
    exact ⟨_, (halike before htext.symm).symm⟩
  | regex =>
    have hsame : comparedText rt (left.lowered rt) = comparedText rt left := halike
    simp only [positiveOutcome, Bool.false_eq_true, if_false, if_true] at h ⊢
    rw [hsame, h]
  | arrayContains =>
    simp only [positiveOutcome, containsValue] at h ⊢
    split at h
    · simp only [Except.ok.injEq] at h ⊢
      exact arrayContainsValue_ignoreCase rt h
    · cases h

/-- Ignoring the case is right where texts are put in lower case alike. -/
theorem ignoringCase_of_lowersAlike (operator : PositiveOperator)
    (rightType : Option FilterOperatorType) (singleValue : Bool) (leftValue rightValue : Operand)
    (options : FilterOptionsValue) (metadata : FilterConditionMetadata)
    (halike : ∀ left right, parseFilterConditionValues rt
        (conditionOf operator false rightType singleValue leftValue rightValue) options metadata =
          .ok (left, right) → LowersAlike rt operator left right) :
    IgnoringCase rt operator rightType singleValue leftValue rightValue options metadata := by
  have hparse (caseSensitive : Bool) : parseFilterConditionValues rt
      (conditionOf operator false rightType singleValue leftValue rightValue)
        { options with caseSensitive } metadata =
      parseFilterConditionValues rt
        (conditionOf operator false rightType singleValue leftValue rightValue) options metadata := rfl
  simp only [IgnoringCase, executeFilterCondition_conditionOf, hparse]
  cases hoperands : parseFilterConditionValues rt
      (conditionOf operator false rightType singleValue leftValue rightValue) options metadata with
  | error error => exact ⟨fun h => h, fun _ => rfl⟩
  | ok operands => exact ⟨positiveOutcome_ignoreCase rt (halike _ _ hoperands), fun _ => rfl⟩

/-- An upper case letter in the middle of a text. -/
theorem contains_ignoringCase :
    IgnoringCase asciiRuntime .contains none false (.json (.string (units "xAy")))
      (.json (.string (units "A"))) { caseSensitive := true, strict := true } {} := by
  refine ignoringCase_of_lowersAlike asciiRuntime _ _ _ _ _ _ _ fun left right hoperands => ?_
  cases hoperands
  exact fun _ => ⟨units "x", units "y", by decide, by decide⟩

/-- The pattern `A` matches `A`, and not its lower case. -/
theorem regex_not_ignoringCase :
    ¬ IgnoringCase asciiRuntime .regex none false (.json (.string (units "A")))
      (.json (.string (units "A"))) { caseSensitive := true, strict := true } {} := by
  intro h
  simp only [IgnoringCase, executeFilterCondition_conditionOf] at h
  have hlower : Except.ok false = Except.ok true := h.1 rfl
  cases hlower

end N8n
