import N8n.DisplayOptions
import N8n.Proofs.ArrayIndexes

/-!
# The order of display options

The first property that decides ends the loop over `show`, and it can end it with either result. The
order does not matter exactly if the properties that decide agree, but for those whose names are
array indexes, which have a fixed order.
-/

namespace N8n

/-! ## The first decision -/

section FirstDecision

variable {α β : Type*} {f : α → Option β}

theorem findSome?_of_agree {l : List α} {b : β} (hagree : ∀ a ∈ l, ∀ b', f a = some b' → b' = b)
    (hdecides : ∃ a ∈ l, (f a).isSome) : l.findSome? f = some b := by
  cases h : l.findSome? f with
  | none =>
    obtain ⟨a, ha, hsome⟩ := hdecides
    rw [List.findSome?_eq_none_iff.1 h a ha] at hsome
    cases hsome
  | some b' =>
    obtain ⟨a, ha, hb'⟩ := List.exists_of_findSome?_eq_some h
    rw [hagree a ha b' hb']

theorem findSome?_cons_of_some {a : α} {b : β} (h : f a = some b) (l : List α) :
    (a :: l).findSome? f = some b := by
  rw [List.findSome?_cons, h]

end FirstDecision

/-! ## The order of keys -/

theorem indexes_of_perm {keys keys' : List String} (h : keys.Perm keys') :
    (keys.filter isArrayIndex).insertionSort (arrayIndex · ≤ arrayIndex ·) =
      (keys'.filter isArrayIndex).insertionSort (arrayIndex · ≤ arrayIndex ·) := by
  have hmem {keys : List String} {key : String}
      (hkey : key ∈ (keys.filter isArrayIndex).insertionSort (arrayIndex · ≤ arrayIndex ·)) :
      isArrayIndex key := (List.mem_filter.1 ((List.mem_insertionSort _).1 hkey)).2
  have hperm := ((List.perm_insertionSort (arrayIndex · ≤ arrayIndex ·) _).trans
    (h.filter isArrayIndex)).trans (List.perm_insertionSort (arrayIndex · ≤ arrayIndex ·) _).symm
  refine hperm.eq_of_pairwise (fun key key' hkey hkey' hle hge => ?_)
    (List.pairwise_insertionSort _ _) (List.pairwise_insertionSort _ _)
  exact arrayIndex_injective (hmem hkey) (hmem hkey') (le_antisymm hle hge)

/-! ## What it is for -/

abbrev Rules := Dict String (Option (List RuleCondition))

/-- The same rules, with the properties in another order. -/
def DisplayOptions.Reorders (options options' : DisplayOptions) : Prop :=
  Option.Rel (fun rules rules' : Rules => rules.entries.Perm rules'.entries) options.«show»
      options'.«show» ∧
    Option.Rel (fun rules rules' : Rules => rules.entries.Perm rules'.entries) options.hide
      options'.hide

def DisplayedParameter.Reorders (parameter parameter' : DisplayedParameter) : Prop :=
  ∀ displayKey, Option.Rel DisplayOptions.Reorders (parameter.options displayKey)
    (parameter'.options displayKey)

/-- A property with an array index as its name decides, or all that decide do it in the same way. -/
def Agree (rule : String → Option Displayed) (keys : List String) : Prop :=
  (∃ key ∈ keys, isArrayIndex key ∧ (rule key).isSome) ∨
    ∀ key ∈ keys, ∀ key' ∈ keys, ∀ result result', rule key = some result →
      rule key' = some result' → result = result'

/-- The properties in `show` agree and, where none of them decides, those in `hide` do. -/
def OptionsAgree (rt : Runtime) (context : DisplayContext) (options : DisplayOptions) : Prop :=
  let shown := options.«show».getD .empty
  let hidden := options.hide.getD .empty
  Agree (showRule rt context shown) shown.keys ∧
    ((∀ key ∈ shown.keys, showRule rt context shown key = none) →
      Agree (hideRule rt context hidden) hidden.keys)

/-! ## One loop -/

theorem findSome?_objectKeys_of_agree {rule : String → Option Displayed} {keys keys' : List String}
    (hagree : Agree rule keys) (hperm : keys.Perm keys') :
    (objectKeys keys).findSome? rule = (objectKeys keys').findSome? rule := by
  rcases hagree with ⟨key, hkey, hindex, hdecides⟩ | hagree
  · have hfirst : ∃ result, ((keys.filter isArrayIndex).insertionSort
        (arrayIndex · ≤ arrayIndex ·)).findSome? rule = some result := by
      rw [← Option.isSome_iff_exists, List.findSome?_isSome_iff]
      exact ⟨key, (List.mem_insertionSort _).2 (List.mem_filter.2 ⟨hkey, hindex⟩), hdecides⟩
    obtain ⟨result, hresult⟩ := hfirst
    rw [objectKeys, objectKeys, List.findSome?_append, List.findSome?_append, ← indexes_of_perm hperm,
      hresult, Option.some_or, Option.some_or]
  · by_cases hdecides : ∃ key ∈ keys, (rule key).isSome
    · obtain ⟨key, hkey, hsome⟩ := hdecides
      obtain ⟨result, hresult⟩ := Option.isSome_iff_exists.1 hsome
      have hall : ∀ key' ∈ keys, ∀ result', rule key' = some result' → result' = result :=
        fun key' hkey' result' hresult' => hagree key' hkey' key hkey result' result hresult' hresult
      rw [findSome?_of_agree (fun key' hkey' => hall key' (mem_objectKeys.1 hkey'))
          ⟨key, mem_objectKeys.2 hkey, hsome⟩,
        findSome?_of_agree (fun key' hkey' => hall key' (hperm.mem_iff.2 (mem_objectKeys.1 hkey')))
          ⟨key, mem_objectKeys.2 (hperm.mem_iff.1 hkey), hsome⟩]
    · have hnone : ∀ key ∈ keys, rule key = none := fun key hkey =>
        Option.not_isSome_iff_eq_none.1 fun h => hdecides ⟨key, hkey, h⟩
      rw [List.findSome?_eq_none_iff.2 fun key' hkey' => hnone key' (mem_objectKeys.1 hkey'),
        List.findSome?_eq_none_iff.2 fun key' hkey' =>
          hnone key' (hperm.mem_iff.2 (mem_objectKeys.1 hkey'))]

/-- With a property in front that decides, and none with an array index as its name, the loop ends
with that property. -/
theorem findSome?_objectKeys_cons {rule : String → Option Displayed} {keys : List String}
    {key : String} {result : Displayed} (hresult : rule key = some result)
    (hindexes : ∀ key' ∈ key :: keys, isArrayIndex key' → rule key' = none) :
    (objectKeys (key :: keys)).findSome? rule = some result := by
  have hplain : isArrayIndex key = false := by
    by_contra h
    rw [hindexes key List.mem_cons_self (by simpa using h)] at hresult
    cases hresult
  rw [objectKeys, List.findSome?_append, List.findSome?_eq_none_iff.2, Option.none_or,
    List.filter_cons_of_pos (by simp [hplain]), findSome?_cons_of_some hresult]
  intro key' hkey'
  obtain ⟨hmem, hindex⟩ := List.mem_filter.1 ((List.mem_insertionSort _).1 hkey')
  exact hindexes key' hmem hindex

theorem agree_of_findSome? {rule : String → Option Displayed} {keys : List String}
    (h : ∀ keys', keys'.Perm keys →
      (objectKeys keys').findSome? rule = (objectKeys keys).findSome? rule) : Agree rule keys := by
  refine or_iff_not_imp_left.2 fun hindexes key hkey key' hkey' result result' hresult hresult' => ?_
  have hnone : ∀ key ∈ keys, isArrayIndex key → rule key = none := fun key hkey hindex =>
    Option.not_isSome_iff_eq_none.1 fun hsome => hindexes ⟨key, hkey, hindex, hsome⟩
  have hfront {key : String} (hkey : key ∈ keys) {result : Displayed}
      (hresult : rule key = some result) : (objectKeys keys).findSome? rule = some result := by
    have hperm := List.perm_cons_erase hkey
    rw [← h _ hperm.symm]
    exact findSome?_objectKeys_cons hresult fun key' hkey' => hnone key' (hperm.mem_iff.2 hkey')
  exact Option.some.inj ((hfront hkey hresult).symm.trans (hfront hkey' hresult'))

/-! ## Both loops -/

theorem loopOver_eq (rule : Rules → String → Option Displayed) (rules : Option Rules) :
    loopOver rule rules = (objectKeys (rules.getD .empty).keys).findSome? (rule (rules.getD .empty)) := by
  cases rules <;> rfl

theorem get?_of_perm {rules rules' : Rules} (h : rules.entries.Perm rules'.entries) (key : String) :
    rules.get? key = rules'.get? key := by
  refine Option.ext fun conditions => ?_
  rw [← Dict.mem_entries, ← Dict.mem_entries]
  exact h.mem_iff

/-- The rules with their properties in a given order. -/
def reordered (rules : Rules) (keys : List String) (h : keys.Perm rules.keys) : Rules where
  entries := keys.map fun key => (key, (rules.get? key).join)
  nodup := by
    rw [List.map_map]
    exact (List.map_id keys).symm ▸ h.nodup_iff.2 rules.nodup

theorem reordered_keys (rules : Rules) {keys : List String} (h : keys.Perm rules.keys) :
    (reordered rules keys h).keys = keys := by
  rw [Dict.keys, reordered, List.map_map]
  exact List.map_id keys

theorem reordered_perm (rules : Rules) {keys : List String} (h : keys.Perm rules.keys) :
    rules.entries.Perm (reordered rules keys h).entries := by
  have hentries : rules.entries = rules.keys.map fun key => (key, (rules.get? key).join) := by
    rw [Dict.keys, List.map_map]
    refine (List.map_id _).symm.trans (List.map_congr_left fun entry hentry => ?_)
    have hget : rules.get? entry.1 = some entry.2 := Dict.mem_entries.1 hentry
    simp only [id_eq, Function.comp_apply, hget, Option.join_some]
  refine (List.Perm.of_eq hentries).trans ?_
  exact (h.map _).symm

section Evaluate

variable (rt : Runtime) (context : DisplayContext)

/-- What `displayParameter` does with options. -/
def evaluate (options : DisplayOptions) : Displayed :=
  ((loopOver (showRule rt context) options.«show»).or
    (loopOver (hideRule rt context) options.hide)).getD (.returns true)

theorem showRule_of_perm {rules rules' : Rules} (h : rules.entries.Perm rules'.entries) :
    showRule rt context rules = showRule rt context rules' := by
  funext key
  rw [showRule, showRule, get?_of_perm h]

theorem hideRule_of_perm {rules rules' : Rules} (h : rules.entries.Perm rules'.entries) :
    hideRule rt context rules = hideRule rt context rules' := by
  funext key
  rw [hideRule, hideRule, get?_of_perm h]

theorem perm_getD {rules rules' : Option Rules}
    (h : Option.Rel (fun rules rules' : Rules => rules.entries.Perm rules'.entries) rules rules') :
    (rules.getD .empty).entries.Perm (rules'.getD .empty).entries := by
  cases h with
  | some h => exact h
  | none => exact List.Perm.refl _

theorem evaluate_of_reorders {options options' : DisplayOptions}
    (hagree : OptionsAgree rt context options) (hreorders : options.Reorders options') :
    evaluate rt context options' = evaluate rt context options := by
  obtain ⟨hshow, hhide⟩ := hagree
  have hpermShow := perm_getD hreorders.1
  have hpermHide := perm_getD hreorders.2
  have hkeysShow : (options.«show».getD .empty).keys.Perm
      ( options'.«show».getD .empty).keys := hpermShow.map _
  have hkeysHide : (options.hide.getD .empty).keys.Perm (options'.hide.getD .empty).keys :=
    hpermHide.map _
  simp only [evaluate, loopOver_eq]
  rw [← showRule_of_perm rt context hpermShow, ← hideRule_of_perm rt context hpermHide,
    ← findSome?_objectKeys_of_agree hshow hkeysShow]
  cases hfirst : (objectKeys (options.«show».getD .empty).keys).findSome?
      (showRule rt context (options.«show».getD .empty)) with
  | some result => rfl
  | none =>
    have hnone := fun key hkey =>
      List.findSome?_eq_none_iff.1 hfirst key (mem_objectKeys.2 hkey)
    rw [Option.none_or, Option.none_or,
      ← findSome?_objectKeys_of_agree (hhide hnone) hkeysHide]

theorem findSome?_objectKeys_eq_none {rule : String → Option Displayed} {keys : List String} :
    (objectKeys keys).findSome? rule = none ↔ ∀ key ∈ keys, rule key = none := by
  simp only [List.findSome?_eq_none_iff, mem_objectKeys]

theorem findSome?_objectKeys_eq_none_of_perm (rule : String → Option Displayed)
    {keys keys' : List String} (h : keys'.Perm keys) :
    (objectKeys keys').findSome? rule = none ↔ (objectKeys keys).findSome? rule = none := by
  simp only [findSome?_objectKeys_eq_none, h.mem_iff]

theorem exists_reordered (rules : Option Rules) {keys : List String}
    (h : keys.Perm (rules.getD .empty).keys) :
    ∃ rules', Option.Rel (fun rules rules' : Rules => rules.entries.Perm rules'.entries)
      rules rules' ∧ (rules'.getD .empty).keys = keys := by
  cases rules with
  | none => exact ⟨none, .none, (List.perm_nil.1 h).symm⟩
  | some rules => exact ⟨some (reordered rules keys h), .some (reordered_perm rules h),
      reordered_keys rules h⟩

theorem rel_refl (rules : Option Rules) :
    Option.Rel (fun rules rules' : Rules => rules.entries.Perm rules'.entries) rules rules := by
  cases rules with
  | none => exact .none
  | some rules => exact .some (List.Perm.refl _)

theorem optionsAgree_of_evaluate {options : DisplayOptions}
    (h : ∀ options', options.Reorders options' →
      evaluate rt context options' = evaluate rt context options) :
    OptionsAgree rt context options := by
  constructor
  · refine agree_of_findSome? fun keys' hperm => ?_
    obtain ⟨rules', hrel, hkeys'⟩ := exists_reordered options.«show» hperm
    have heq := h ⟨rules', options.hide⟩ ⟨hrel, rel_refl _⟩
    have hnone := findSome?_objectKeys_eq_none_of_perm
      (showRule rt context (options.«show».getD .empty)) hperm
    simp only [evaluate, loopOver_eq, hkeys'] at heq
    rw [← showRule_of_perm rt context (perm_getD hrel)] at heq
    cases hfirst : (objectKeys (options.«show».getD .empty).keys).findSome?
        (showRule rt context (options.«show».getD .empty)) with
    | none => exact hnone.2 hfirst
    | some result =>
      cases hfirst' : (objectKeys keys').findSome?
          (showRule rt context (options.«show».getD .empty)) with
      | none =>
        rw [hnone.1 hfirst'] at hfirst
        cases hfirst
      | some result' =>
        rw [hfirst, hfirst', Option.some_or, Option.some_or] at heq
        exact congrArg some heq
  · intro hshow
    refine agree_of_findSome? fun keys' hperm => ?_
    obtain ⟨rules', hrel, hkeys'⟩ := exists_reordered options.hide hperm
    have heq := h ⟨options.«show», rules'⟩ ⟨rel_refl _, hrel⟩
    simp only [evaluate, loopOver_eq, hkeys'] at heq
    rw [← hideRule_of_perm rt context (perm_getD hrel), findSome?_objectKeys_eq_none.2 hshow,
      Option.none_or, Option.none_or] at heq
    have hnone := findSome?_objectKeys_eq_none_of_perm
      (hideRule rt context (options.hide.getD .empty)) hperm
    cases hfirst : (objectKeys (options.hide.getD .empty).keys).findSome?
        (hideRule rt context (options.hide.getD .empty)) with
    | none => exact hnone.2 hfirst
    | some result =>
      cases hfirst' : (objectKeys keys').findSome?
          (hideRule rt context (options.hide.getD .empty)) with
      | none =>
        rw [hnone.1 hfirst'] at hfirst
        cases hfirst
      | some result' =>
        rw [hfirst, hfirst'] at heq
        exact congrArg some heq

end Evaluate

theorem options_reorders {parameter : DisplayedParameter} {displayKey : DisplayKey}
    {options options' : DisplayOptions} (hoptions : parameter.options displayKey = some options)
    (h : options.Reorders options') :
    ∃ parameter', parameter.Reorders parameter' ∧ parameter'.options displayKey = some options' := by
  have hrefl : ∀ options : Option DisplayOptions, Option.Rel DisplayOptions.Reorders options options
    | none => .none
    | some _ => .some ⟨rel_refl _, rel_refl _⟩
  cases displayKey with
  | displayOptions =>
    refine ⟨{ parameter with displayOptions := some options' }, fun displayKey => ?_, rfl⟩
    cases displayKey with
    | displayOptions => exact hoptions ▸ .some h
    | disabledOptions => exact hrefl _
  | disabledOptions =>
    refine ⟨{ parameter with disabledOptions := some options' }, fun displayKey => ?_, rfl⟩
    cases displayKey with
    | displayOptions => exact hrefl _
    | disabledOptions => exact hoptions ▸ .some h

/-- No order of the properties gives another result exactly if the options agree. -/
theorem displayParameter_order_iff (rt : Runtime) (nodeValues : JsValue)
    (parameter : DisplayedParameter) (node : Option Doubles.Number)
    (nodeTypeDescription : Option String) (nodeValuesRoot : Option JsValue)
    (displayKey : DisplayKey) :
    (∀ parameter', parameter.Reorders parameter' →
      displayParameter rt nodeValues parameter' node nodeTypeDescription nodeValuesRoot displayKey =
        displayParameter rt nodeValues parameter node nodeTypeDescription nodeValuesRoot
          displayKey) ↔
      ∀ options, parameter.options displayKey = some options →
        OptionsAgree rt ⟨nodeValues, node, nodeTypeDescription, nodeValuesRoot.getD nodeValues⟩
          options := by
  constructor
  · intro h options hoptions
    refine optionsAgree_of_evaluate rt _ fun options' hreorders => ?_
    obtain ⟨parameter', hreorders', hoptions'⟩ := options_reorders hoptions hreorders
    have heq := h parameter' hreorders'
    simp only [displayParameter, hoptions, hoptions'] at heq
    exact heq
  · intro h parameter' hreorders
    have hrel := hreorders displayKey
    cases hoptions : parameter.options displayKey with
    | none =>
      rw [hoptions] at hrel
      cases hoptions' : parameter'.options displayKey with
      | none => simp only [displayParameter, hoptions, hoptions']
      | some options' => rw [hoptions'] at hrel; cases hrel
    | some options =>
      rw [hoptions] at hrel
      cases hoptions' : parameter'.options displayKey with
      | none => rw [hoptions'] at hrel; cases hrel
      | some options' =>
        rw [hoptions'] at hrel
        cases hrel with
        | some hrel =>
          simp only [displayParameter, hoptions, hoptions']
          exact evaluate_of_reorders rt _ (h options hoptions) hrel

/-- Properties are read by their names. -/
def plainRuntime : Runtime where
  get value path :=
    match value with
    | .object properties => property properties path
    | _ => .undefined
  isEqual left right := left.same right
  toPrimitive value := value
  stringToNumber _ := .nan
  toText _ := []
  testRegExp _ _ := none

def shownFor (rules : Rules) : DisplayedParameter := { displayOptions := some ⟨some rules, none⟩ }

def modeFirst : Rules :=
  ⟨[("mode", some [.value (.string (units "list"))]), ("unit", some [.value (.string (units "s"))])],
    by decide⟩

def unitFirst : Rules :=
  ⟨[("unit", some [.value (.string (units "s"))]), ("mode", some [.value (.string (units "list"))])],
    by decide⟩

/-- One property is an expression, and the other one does not match. -/
def expressionValues : JsValue :=
  .object [(units "mode", .string (units "=1")), (units "unit", .string (units "h"))]

/-- The parameter is displayed if the expression comes first, and not if the mismatch does. -/
theorem order_of_expression_matters :
    (shownFor modeFirst).Reorders (shownFor unitFirst) ∧
      displayParameter plainRuntime expressionValues (shownFor modeFirst) none none none
        .displayOptions = .returns true ∧
      displayParameter plainRuntime expressionValues (shownFor unitFirst) none none none
        .displayOptions = .returns false := by
  refine ⟨fun displayKey => ?_, by decide +kernel, by decide +kernel⟩
  cases displayKey with
  | displayOptions => exact .some ⟨.some (List.Perm.swap _ _ _), .none⟩
  | disabledOptions => exact .none

end N8n
